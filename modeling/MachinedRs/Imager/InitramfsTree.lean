import MachinedRs.Imager.Walk

/-!
# The initramfs unpacks to the intended tree

The calls for the base tree and those of the walk are the items of the intended
tree in an order to unpack them in.  They come back from the archive as they
were written, so that unpacking the archive gives that tree.
-/

namespace MachinedRs

open Foundation

section Unpacked

inductive UnpackedNode where
  | dir (perm : UInt32)
  | file (perm : UInt32) (data : Bytes)
  | symlink (target : Bytes)
  | charDevice (perm major minor : UInt32)
deriving DecidableEq, Repr

def UnpackedNode.isDir : UnpackedNode → Bool
  | .dir _ => true
  | _ => false

/-- The components of a name, between slashes. -/
def components (name : Bytes) : List Bytes :=
  name.splitOn 47

def properComponent (component : Bytes) : Bool :=
  component ≠ [] ∧ component ≠ utf8 "." ∧ component ≠ utf8 ".."

def CpioEntry.node (entry : CpioEntry) : Option UnpackedNode :=
  if entry.type = S_IFDIR then
    some (.dir entry.perm)
  else if entry.type = S_IFREG then
    some (.file entry.perm entry.data)
  else if entry.type = S_IFLNK then
    some (.symlink entry.data)
  else if entry.type = S_IFCHR then
    some (.charDevice entry.perm entry.rmajor entry.rminor)
  else
    none

/-- An entry is unpacked where its name says, if the name is a plain path. -/
def CpioEntry.item (entry : CpioEntry) :
    Option (List Bytes × UnpackedNode) :=
  if (components entry.name).all properComponent then
    entry.node.map fun node => (components entry.name, node)
  else
    none

/-- The entries one after the other, into an empty root. -/
def unpackEntries (entries : List CpioEntry) :
    Option (FileMap Bytes UnpackedNode) :=
  entries.foldlM
    (fun tree entry =>
      entry.item.bind (unpackItem UnpackedNode.isDir tree))
    (FileMap.bare (.dir 0o755))

def unpackArchive (archive : Bytes) : Option (FileMap Bytes UnpackedNode) :=
  (readArchive archive).bind fun read => unpackEntries read.1

/-- What a file system shows of an entry of the rootfs. -/
def RootNode.unpacked : RootNode → UnpackedNode
  | .dir _ => .dir 0o755
  | .file mode data => .file (mode &&& 0o7777) data
  | .symlink target => .symlink (utf8 target)

/-- What the build adds to the rootfs. -/
def baseNodes (input : InitramfsInput) (machined : Bytes) :
    List (List Bytes × UnpackedNode) :=
  (baseDirs.map fun dir => (components (utf8 dir), .dir 0o755)) ++
    [(components (utf8 "dev/console"), .charDevice 0o600 5 1),
      (components (utf8 "init"), .file 0o755 machined),
      (components (utf8 "etc/machined/modules.load"),
        .file 0o644 (utf8 input.modulesLoad)),
      (components (utf8 "etc/machined/image-id"),
        .file 0o644 (utf8 input.imageId)),
      (components (utf8 "etc/machined/bootloader"),
        .file 0o644 (utf8 input.bootloader))]

def InitramfsInput.root (input : InitramfsInput) : RootNode :=
  .dir input.rootfs.listing

/-- The base tree and the rootfs, and nothing else. -/
def intendedTree (input : InitramfsInput) (machined : Bytes) :
    FileMap Bytes UnpackedNode := fun path =>
  match (baseNodes input machined).lookup path with
  | some node => some node
  | none => (input.root.find path).map RootNode.unpacked

/-- The files of a listing are below 4 GiB. -/
def SmallFiles (listing : Listing) : Prop :=
  ∀ name mode data, (name, .file mode data) ∈ listing →
    data.length < 2 ^ 32

/-- The rootfs has nothing in the way of the base tree, and all that is written
fits the archive. -/
structure InitramfsInput.Fits (input : InitramfsInput) (machined : Bytes) :
    Prop where
  noInit : input.root.find [utf8 "init"] = none
  noTrailer : input.root.find [utf8 "TRAILER!!!"] = none
  noConsole : input.root.find [utf8 "dev", utf8 "console"] = none
  noModulesLoad :
    input.root.find [utf8 "etc", utf8 "machined", utf8 "modules.load"] = none
  noImageId :
    input.root.find [utf8 "etc", utf8 "machined", utf8 "image-id"] = none
  noBootloader :
    input.root.find [utf8 "etc", utf8 "machined", utf8 "bootloader"] = none
  onlyDirs : ∀ dir ∈ baseDirs, ∀ node,
    input.root.find (components (utf8 dir)) = some node → node.isDir
  filesFit : Everywhere SmallFiles input.rootfs.listing
  machinedFits : machined.length < 2 ^ 32
  modulesLoadFits : (utf8 input.modulesLoad).length < 2 ^ 32
  imageIdFits : (utf8 input.imageId).length < 2 ^ 32
  bootloaderFits : (utf8 input.bootloader).length < 2 ^ 32
  few : listingCount input.rootfs.listing < 2 ^ 31

end Unpacked

section Components

theorem components_pathText {path : Path} (notEmpty : path ≠ [])
    (names : ∀ name ∈ path, ProperName name) :
    components (utf8 (pathText path)) = path.map utf8 := by
  rw [components, utf8_pathText]
  apply List.splitOn_intercalate
  · intro component member
    obtain ⟨name, isName, rfl⟩ := List.mem_map.mp member
    exact (names name isName).noSlash
  · simpa using notEmpty

theorem ProperName.component {name : String} (proper : ProperName name) :
    properComponent (utf8 name) = true := by
  apply decide_eq_true
  refine ⟨?_, ?_, ?_⟩
  · intro empty
    exact proper.nonempty (utf8_injective (empty.trans utf8_empty.symm))
  · exact utf8_injective.ne proper.notHere
  · exact utf8_injective.ne proper.notParent

end Components

section Fits

variable {input : InitramfsInput} {machined : Bytes}

theorem file_fits {name : String} {perm : UInt32} {data : Bytes}
    (empty : (CpioCall.file name perm []).Fits) (fits : data.length < 2 ^ 32) :
    (CpioCall.file name perm data).Fits :=
  { noNul := empty.noNul
    notTrailer := empty.notTrailer
    nameFits := empty.nameFits
    dataFits := fits
    permFits := empty.permFits }

theorem InitramfsInput.Fits.base (fits : input.Fits machined) :
    ∀ call ∈ baseCalls input machined, call.Fits := by
  have dirs : ∀ dir ∈ baseDirs, (CpioCall.dir dir 0o755).Fits := by
    decide +kernel
  have console : (CpioCall.charDevice "dev/console" 0o600 5 1).Fits := by
    decide +kernel
  intro call member
  rcases List.mem_append.mp member with inDirs | inFiles
  · obtain ⟨dir, isDir, rfl⟩ := List.mem_map.mp inDirs
    exact dirs dir isDir
  · simp only [List.mem_cons, List.not_mem_nil, or_false] at inFiles
    rcases inFiles with rfl | rfl | rfl | rfl | rfl
    · exact console
    · exact file_fits (by decide +kernel) fits.machinedFits
    · exact file_fits (by decide +kernel) fits.modulesLoadFits
    · exact file_fits (by decide +kernel) fits.imageIdFits
    · exact file_fits (by decide +kernel) fits.bootloaderFits

theorem masked_lt (mode : UInt32) : (mode &&& 0o7777).toNat < 2 ^ 12 := by
  rw [UInt32.toNat_and]
  exact Nat.lt_succ_of_le Nat.and_le_right

theorem InitramfsInput.Fits.walkCall (fits : input.Fits machined)
    {entry : Path × RootNode}
    (member : entry ∈ visited [] input.rootfs.listing)
    (pathFit : pathFits (absolutePath input.rootfs.path entry.1)) :
    (visitCall entry).Fits := by
  obtain ⟨path, node⟩ := entry
  have proper := input.rootfs.proper
  have names := properName_of_mem_visited proper member (by simp)
  obtain ⟨below, notEmpty, rfl, search⟩ :=
    @find_of_mem_visited input.root node [] path proper member
  have length : (utf8 (pathText path)).length < 4096 :=
    length_pathText_lt pathFit notEmpty
  have named : (node.call (pathText path)).name = pathText path := by
    cases node <;> rfl
  refine ⟨?_, ?_, ?_, ?_, ?_⟩
  · rw [visitCall, named]
    exact noNul_pathText names
  · rw [visitCall, named]
    intro same
    have parts := components_pathText notEmpty names
    rw [same] at parts
    have trailer : components (utf8 trailerName) = [utf8 "TRAILER!!!"] := by
      decide +kernel
    rw [← parts, trailer, fits.noTrailer] at search
    cases search
  · rw [visitCall, named]
    omega
  · cases node with
    | dir listing => simp [visitCall, RootNode.call, CpioCall.data]
    | file mode data =>
        obtain ⟨within, name, small, inside⟩ :=
          exists_listing_of_mem_visited fits.filesFit member
        exact small name mode data inside
    | symlink target =>
        obtain ⟨within, name, here, inside⟩ :=
          exists_listing_of_mem_visited proper member
        have short := here.targets name target inside
        rw [pathMax] at short
        change (utf8 target).length < 2 ^ 32
        omega
  · cases node with
    | dir listing => exact show (0o755 : UInt32).toNat < 2 ^ 12 by decide
    | file mode data => exact masked_lt mode
    | symlink target => exact show (0o777 : UInt32).toNat < 2 ^ 12 by decide

end Fits

section Describes

variable {input : InitramfsInput} {machined : Bytes}

/-- A call as an item to unpack. -/
def CpioCall.item (call : CpioCall) : List Bytes × UnpackedNode :=
  (components (utf8 call.name),
    match call with
    | .dir _ perm => .dir perm
    | .file _ perm data => .file perm data
    | .symlink _ target => .symlink (utf8 target)
    | .charDevice _ perm major minor => .charDevice perm major minor)

theorem CpioCall.item_entry {call : CpioCall}
    (proper : (components (utf8 call.name)).all properComponent) :
    call.entry.item = some call.item := by
  rw [CpioEntry.item]
  rw [if_pos (show (components call.entry.name).all properComponent from
    proper)]
  cases call <;> rfl

def basePaths : List (List Bytes) :=
  (baseDirs ++ ["dev/console", "init", "etc/machined/modules.load",
    "etc/machined/image-id", "etc/machined/bootloader"]).map fun text =>
      components (utf8 text)

theorem baseNodes_paths (input : InitramfsInput) (machined : Bytes) :
    (baseNodes input machined).map Prod.fst = basePaths :=
  rfl

theorem baseCalls_items (input : InitramfsInput) (machined : Bytes) :
    (baseCalls input machined).map CpioCall.item = baseNodes input machined :=
  rfl

theorem nodup_basePaths : basePaths.Nodup := by
  decide +kernel

theorem proper_basePaths : ∀ path ∈ basePaths,
    path ≠ [] ∧ path.all properComponent := by
  decide +kernel

theorem baseNodes_parentsFirst :
    ParentsFirst UnpackedNode.isDir [[]] (baseNodes input machined) := by
  apply parentsFirst_of_shape
  have shape : ParentsFirst id [[]]
      ((baseDirs.map fun dir => (components (utf8 dir), true)) ++
        [(components (utf8 "dev/console"), false),
          (components (utf8 "init"), false),
          (components (utf8 "etc/machined/modules.load"), false),
          (components (utf8 "etc/machined/image-id"), false),
          (components (utf8 "etc/machined/bootloader"), false)]) := by
    decide +kernel
  exact shape

theorem lookup_baseNodes {path : List Bytes} {node : UnpackedNode} :
    (baseNodes input machined).lookup path = some node ↔
      (path, node) ∈ baseNodes input machined := by
  rw [List.lookup_eq_some_iff]
  constructor
  · rintro ⟨before, after, split, _⟩
    rw [split]
    exact List.mem_append_right before List.mem_cons_self
  · intro member
    obtain ⟨before, after, split⟩ := List.append_of_mem member
    refine ⟨before, after, split, ?_⟩
    intro earlier isEarlier
    have distinct := nodup_basePaths
    rw [← baseNodes_paths input machined, split, List.map_append,
      List.nodup_append] at distinct
    have differ := distinct.2.2 earlier.1 (List.mem_map_of_mem isEarlier) path
      List.mem_cons_self
    simpa using Ne.symm differ

/-- Where the rootfs has something in the base tree, both are directories. -/
theorem InitramfsInput.Fits.meets (fits : input.Fits machined)
    {path : List Bytes} {node : UnpackedNode} {found : RootNode}
    (member : (path, node) ∈ baseNodes input machined)
    (search : input.root.find path = some found) :
    node = .dir 0o755 ∧ found.isDir := by
  rcases List.mem_append.mp member with inDirs | inFiles
  · obtain ⟨dir, isDir, same⟩ := List.mem_map.mp inDirs
    cases same
    exact ⟨rfl, fits.onlyDirs dir isDir found search⟩
  · have console : components (utf8 "dev/console") =
        [utf8 "dev", utf8 "console"] := by decide +kernel
    have init : components (utf8 "init") = [utf8 "init"] := by decide +kernel
    have modulesLoad : components (utf8 "etc/machined/modules.load") =
        [utf8 "etc", utf8 "machined", utf8 "modules.load"] := by
      decide +kernel
    have imageId : components (utf8 "etc/machined/image-id") =
        [utf8 "etc", utf8 "machined", utf8 "image-id"] := by decide +kernel
    have bootloader : components (utf8 "etc/machined/bootloader") =
        [utf8 "etc", utf8 "machined", utf8 "bootloader"] := by decide +kernel
    have absent : input.root.find path = none := by
      simp only [console, init, modulesLoad, imageId, bootloader,
        List.mem_cons, Prod.mk.injEq, List.not_mem_nil, or_false] at inFiles
      rcases inFiles with ⟨rfl, _⟩ | ⟨rfl, _⟩ | ⟨rfl, _⟩ | ⟨rfl, _⟩ | ⟨rfl, _⟩
      · exact fits.noConsole
      · exact fits.noInit
      · exact fits.noModulesLoad
      · exact fits.noImageId
      · exact fits.noBootloader
    rw [absent] at search
    cases search

theorem RootNode.unpacked_isDir (node : RootNode) :
    node.unpacked.isDir = node.isDir := by
  cases node <;> rfl

theorem RootNode.unpacked_of_isDir {node : RootNode} (dir : node.isDir) :
    node.unpacked = .dir 0o755 := by
  cases node with
  | dir listing => rfl
  | file mode data => cases dir
  | symlink target => cases dir

/-- What is visited, as items to unpack. -/
theorem visited_items :
    ((visited [] input.rootfs.listing).map visitCall).map CpioCall.item =
      (visited [] input.rootfs.listing).map fun entry =>
        (entry.1.map utf8, entry.2.unpacked) := by
  rw [List.map_map]
  apply List.map_congr_left
  rintro ⟨path, node⟩ member
  have names := properName_of_mem_visited input.rootfs.proper member (by simp)
  obtain ⟨below, notEmpty, rfl, _⟩ :=
    @find_of_mem_visited input.root node [] path input.rootfs.proper member
  have parts := components_pathText notEmpty names
  cases node with
  | dir listing => exact Prod.ext parts rfl
  | file mode data => exact Prod.ext parts rfl
  | symlink target => exact Prod.ext parts rfl

theorem intendedTree_of_find (fits : input.Fits machined)
    {path : List Bytes} {found : RootNode}
    (search : input.root.find path = some found) :
    intendedTree input machined path = some found.unpacked := by
  rw [intendedTree]
  cases based : (baseNodes input machined).lookup path with
  | none =>
      rw [search]
      rfl
  | some node =>
      obtain ⟨rfl, dir⟩ := fits.meets (lookup_baseNodes.mp based) search
      rw [RootNode.unpacked_of_isDir dir]

theorem InitramfsInput.Fits.describes (fits : input.Fits machined) :
    Describes UnpackedNode.isDir (intendedTree input machined)
      ((initramfsCalls input machined).map CpioCall.item) := by
  have proper := input.rootfs.proper
  rw [initramfsCalls, List.map_append, baseCalls_items, visited_items]
  constructor
  · intro item member
    rcases List.mem_append.mp member with inBase | inWalk
    · have isPath : item.1 ∈ basePaths := by
        rw [← baseNodes_paths input machined]
        exact List.mem_map_of_mem inBase
      refine ⟨(proper_basePaths item.1 isPath).1, ?_⟩
      rw [intendedTree, lookup_baseNodes.mpr inBase]
    · obtain ⟨⟨path, node⟩, visits, rfl⟩ := List.mem_map.mp inWalk
      obtain ⟨below, notEmpty, rfl, search⟩ :=
        @find_of_mem_visited input.root node [] path proper visits
      exact ⟨by simpa using notEmpty, intendedTree_of_find fits search⟩
  · intro path node notRoot found
    rw [List.map_append, List.mem_append]
    rw [intendedTree] at found
    split at found
    next based =>
      exact .inl (List.mem_map_of_mem (lookup_baseNodes.mp based))
    next =>
      obtain ⟨origin, search, _⟩ := Option.map_eq_some_iff.mp found
      obtain ⟨below, rfl, visits⟩ :=
        @mem_visited_of_find input.root _ _ proper notRoot search []
      exact .inr (List.mem_map_of_mem (List.mem_map_of_mem visits))
  · apply ParentsFirst.append baseNodes_parentsFirst
    have walked : ParentsFirst RootNode.isDir [[]]
        (visited [] input.rootfs.listing) :=
      visited_parentsFirst [] input.rootfs.listing List.mem_cons_self
    exact walked.map RootNode.unpacked_isDir
  · rw [LeavesOnce, List.pairwise_append]
    refine ⟨leavesOnce_of_nodup ?_, leavesOnce_of_nodup ?_, ?_⟩
    · rw [baseNodes_paths]
      exact nodup_basePaths
    · have distinct := (nodup_visited proper []).map
        (List.map_injective_iff.mpr utf8_injective)
      rw [List.map_map] at distinct ⊢
      exact distinct
    · intro earlier inBase later inWalk same
      obtain ⟨⟨path, node⟩, visits, rfl⟩ := List.mem_map.mp inWalk
      obtain ⟨below, notEmpty, rfl, search⟩ :=
        @find_of_mem_visited input.root node [] path proper visits
      rw [← show earlier.1 = path.map utf8 from same] at search
      rw [RootNode.unpacked_isDir]
      exact (fits.meets inBase search).2

theorem foldlM_item {calls : List CpioCall}
    (proper : ∀ call ∈ calls,
      (components (utf8 call.name)).all properComponent)
    (tree : FileMap Bytes UnpackedNode) :
    (calls.map CpioCall.entry).foldlM
        (fun tree entry =>
          entry.item.bind (unpackItem UnpackedNode.isDir tree)) tree =
      unpackItems UnpackedNode.isDir tree (calls.map CpioCall.item) := by
  induction calls generalizing tree with
  | nil => rfl
  | cons call calls induction =>
      rw [List.map_cons, List.foldlM_cons,
        CpioCall.item_entry (proper call List.mem_cons_self), List.map_cons,
        unpackItems, List.foldlM_cons]
      congr 1
      funext next
      exact induction
        (fun other member => proper other (List.mem_cons_of_mem call member))
        next

/-- The components of every name are plain. -/
theorem plain_initramfsCalls (input : InitramfsInput) (machined : Bytes) :
    ∀ call ∈ initramfsCalls input machined,
      (components (utf8 call.name)).all properComponent := by
  intro call member
  rcases List.mem_append.mp member with inBase | inWalk
  · have isPath : call.item.1 ∈ basePaths := by
      rw [← baseNodes_paths input machined,
        ← baseCalls_items input machined]
      exact List.mem_map_of_mem (List.mem_map_of_mem inBase)
    exact (proper_basePaths call.item.1 isPath).2
  · have isItem : call.item ∈
        (visited [] input.rootfs.listing).map fun entry =>
          (entry.1.map utf8, entry.2.unpacked) := by
      rw [← visited_items]
      exact List.mem_map_of_mem inWalk
    obtain ⟨⟨path, node⟩, visits, same⟩ := List.mem_map.mp isItem
    have names :=
      properName_of_mem_visited input.rootfs.proper visits (by simp)
    have parts : components (utf8 call.name) = path.map utf8 :=
      congrArg Prod.fst same.symm
    rw [parts, List.all_map, List.all_eq_true]
    intro name isName
    exact (names name isName).component

end Describes

section Result

variable {input : InitramfsInput} {machined : Bytes}

theorem InitramfsInput.Fits.hasInit (fits : input.Fits machined) :
    input.rootfs.hasInit = false := by
  obtain ⟨here, _⟩ := input.rootfs.proper
  have absent : (input.rootfs.listing.any fun child =>
      decide (child.1 = "init")) = false := by
    rw [List.any_eq_false]
    rintro ⟨name, node⟩ member isInit
    have named : childNamed input.rootfs.listing (utf8 "init") = some node :=
      (childNamed_eq_some here.distinct).mpr
        ⟨name, congrArg utf8 (of_decide_eq_true isInit), member⟩
    have search := fits.noInit
    rw [InitramfsInput.root, RootNode.find, RootNode.children, named] at search
    cases search
  rw [Rootfs.hasInit, absent, Bool.and_false]

/-- An archive that is built unpacks to the intended tree. -/
theorem InitramfsInput.Fits.unpacks (fits : input.Fits machined)
    (pathsFit : ∀ entry ∈ visited [] input.rootfs.listing,
      pathFits (absolutePath input.rootfs.path entry.1)) :
    ∃ archive, writeArchive (initramfsCalls input machined) = some archive ∧
      unpackArchive archive =
        some (intendedTree input machined) := by
  have callsFit : ∀ call ∈ initramfsCalls input machined, call.Fits := by
    intro call member
    rcases List.mem_append.mp member with inBase | inWalk
    · exact fits.base call inBase
    · obtain ⟨entry, visits, rfl⟩ := List.mem_map.mp inWalk
      exact fits.walkCall visits (pathsFit entry visits)
  have few : (initramfsCalls input machined).length < 2 ^ 32 - 2 := by
    have based : (baseCalls input machined).length = 16 := rfl
    have entries := fits.few
    rw [initramfsCalls, List.length_append, based, List.length_map,
      length_visited]
    omega
  refine ⟨_, writeArchive_eq_some callsFit few, ?_⟩
  have root : intendedTree input machined [] = some (.dir 0o755) :=
    @intendedTree_of_find input machined fits [] input.root rfl
  rw [unpackArchive, readArchive_archiveBytes callsFit, Option.bind_some,
    unpackEntries, foldlM_item (plain_initramfsCalls input machined)]
  exact fits.describes.unpackItems root rfl

end Result

/-- The places of the rootfs are its root and what the walk visits. -/
theorem forall_find_iff (input : InitramfsInput)
    {property : List String → Prop} :
    (∀ path node, input.root.find (path.map utf8) = some node →
      property path) ↔
      property [] ∧ ∀ entry ∈ visited [] input.rootfs.listing,
        property entry.1 := by
  constructor
  · intro everywhere
    refine ⟨everywhere [] input.root rfl, ?_⟩
    rintro ⟨path, node⟩ visits
    obtain ⟨below, _, rfl, search⟩ := @find_of_mem_visited input.root node
      [] path input.rootfs.proper visits
    exact everywhere _ node search
  · rintro ⟨top, walked⟩ path node search
    by_cases isTop : path = []
    · rw [isTop]
      exact top
    · obtain ⟨below, same, visits⟩ := @mem_visited_of_find input.root node _
        input.rootfs.proper (by simpa using isTop) search []
      rw [← List.map_injective_iff.mpr utf8_injective same]
      exact walked _ visits

/-- Whatever is built unpacks to the base tree and the rootfs, and to nothing
else; where every file can be read, the build fails only if the system does not
accept a path. -/
theorem initramfs_unpacks_to_intended {gzip : Bytes → Bytes}
    {gunzip : Bytes → Option Bytes}
    (lossless : ∀ bytes, gunzip (gzip bytes) = some bytes)
    {input : InitramfsInput} {machined : Bytes}
    (read : input.machined = some machined) (fits : input.Fits machined) :
    (∀ image, buildInitramfs gzip input = .ok image →
      ∃ archive, gunzip image = some archive ∧
        unpackArchive archive = some (intendedTree input machined)) ∧
    ((∃ image, buildInitramfs gzip input = .ok image) ↔
      ∀ path node, input.root.find (path.map utf8) = some node →
        pathFits (absolutePath input.rootfs.path path)) := by
  have builds {archive : Bytes} :=
    @initramfsArchive_eq_ok input machined read fits.hasInit archive
  constructor
  · intro image built
    obtain ⟨archive, written, compressed⟩ := bind_eq_ok_iff.mp built
    obtain ⟨⟨_, pathsFit⟩, called⟩ := builds.mp written
    obtain ⟨other, same, unpacked⟩ := fits.unpacks pathsFit
    rw [called] at same
    cases same
    cases compressed
    exact ⟨archive, lossless archive, unpacked⟩
  · rw [forall_find_iff]
    constructor
    · rintro ⟨image, built⟩
      obtain ⟨archive, written, _⟩ := bind_eq_ok_iff.mp built
      exact (builds.mp written).1
    · intro pathsFit
      obtain ⟨archive, called, _⟩ := fits.unpacks pathsFit.2
      have written := builds.mpr ⟨pathsFit, called⟩
      exact ⟨gzip archive, bind_eq_ok_iff.mpr ⟨archive, written, rfl⟩⟩

theorem properName_small :
    ∀ name ∈ ["etc", "hostname", "bin"], ProperName name := by
  have facts : ∀ name ∈ ["etc", "hostname", "bin"], name ≠ "" ∧
      47 ∉ utf8 name ∧ 0 ∉ utf8 name ∧ name ≠ "." ∧ name ≠ ".." := by
    decide +kernel
  intro name member
  obtain ⟨nonempty, noSlash, noNul, notHere, notParent⟩ := facts name member
  exact ⟨nonempty, noSlash, noNul, notHere, notParent⟩

/-- A rootfs with a file below a directory of the base tree, and a symbolic
link. -/
def smallListing : Listing :=
  [("etc", .dir [("hostname", .file 0o100644 [97, 10])]),
    ("bin", .symlink "usr/bin")]

theorem everywhere_small {property : Listing → Prop}
    (top : property smallListing)
    (etc : property [("hostname", .file 0o100644 [97, 10])])
    (leaf : property []) : Everywhere property smallListing := by
  have leaves : Everywhere property [] := ⟨leaf, by simp⟩
  refine ⟨top, ?_⟩
  intro child member
  simp only [smallListing, List.mem_cons, List.not_mem_nil, or_false] at member
  rcases member with rfl | rfl
  · refine ⟨etc, ?_⟩
    intro file isFile
    rw [List.mem_singleton.mp isFile]
    exact leaves
  · exact leaves

theorem mem_small_of_visited {path : Path} {node : RootNode}
    (visits : (path, node) ∈ visited [] smallListing) :
    path ∈ [["etc"], ["etc", "hostname"], ["bin"]] := by
  obtain ⟨child, member, here⟩ := mem_visited_iff.mp visits
  simp only [smallListing, List.mem_cons, List.not_mem_nil, or_false] at member
  rcases member with rfl | rfl
  · rcases here with here | below
    · simp [(Prod.mk.inj here).1]
    · obtain ⟨file, isFile, here | deeper⟩ := mem_visited_iff.mp below
      · cases List.mem_singleton.mp isFile
        simp [(Prod.mk.inj here).1]
      · cases List.mem_singleton.mp isFile
        simp [RootNode.children] at deeper
  · rcases here with here | below
    · simp [(Prod.mk.inj here).1]
    · simp [RootNode.children] at below

def smallRootfs : Rootfs :=
  { path := "/tmp/rootfs"
    listing := smallListing
    proper := by
      apply everywhere_small
      · refine ⟨by decide, ?_, ?_⟩
        · simp [smallListing, properName_small]
        · intro name target member
          simp [smallListing] at member
          rw [member.2]
          decide +kernel
      · refine ⟨by decide, ?_, ?_⟩
        · simp [properName_small]
        · simp
      · exact ⟨List.nodup_nil, by simp, by simp⟩ }

def smallInput : InitramfsInput :=
  { rootfs := smallRootfs
    machinedPath := "machined"
    machined := some [0x7f, 0x45, 0x4c, 0x46]
    modulePaths := ["kernel/fs/ext4/ext4.ko"]
    kver := "6.12.81-0-virt"
    imageId := "image"
    bootloader := "sdboot" }

theorem initramfs_unpacks_to_intended_small :
    ∃ image, buildInitramfs id smallInput = .ok image ∧
      unpackArchive image =
        some (intendedTree smallInput [0x7f, 0x45, 0x4c, 0x46]) := by
  have fits : smallInput.Fits [0x7f, 0x45, 0x4c, 0x46] := by
    constructor
    · decide +kernel
    · decide +kernel
    · decide +kernel
    · decide +kernel
    · decide +kernel
    · decide +kernel
    · have dirs : ∀ dir ∈ baseDirs,
          (smallInput.root.find (components (utf8 dir))).all
            RootNode.isDir := by
        decide +kernel
      intro dir member node search
      have all := dirs dir member
      rw [search] at all
      exact all
    · apply everywhere_small
      · simp [SmallFiles, smallListing]
      · intro name mode data member
        cases List.mem_singleton.mp member
        decide
      · simp [SmallFiles]
    · decide
    · decide +kernel
    · decide +kernel
    · decide +kernel
    · decide +kernel
  obtain ⟨unpacks, builds⟩ :=
    @initramfs_unpacks_to_intended id some (fun _ => rfl) smallInput _ rfl fits
  have short : ∀ path ∈ [["etc"], ["etc", "hostname"], ["bin"]],
      pathFits (absolutePath "/tmp/rootfs" path) := by
    decide +kernel
  have walked : ∀ entry ∈ visited [] smallListing,
      pathFits (absolutePath "/tmp/rootfs" entry.1) := by
    rintro ⟨path, node⟩ visits
    exact short path (mem_small_of_visited visits)
  obtain ⟨image, built⟩ := builds.mpr
    ((forall_find_iff smallInput).mpr ⟨by decide +kernel, walked⟩)
  obtain ⟨archive, same, unpacked⟩ := unpacks image built
  cases same
  exact ⟨image, built, unpacked⟩

end MachinedRs
