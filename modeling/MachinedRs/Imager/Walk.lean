import MachinedRs.Foundation.Unpack
import MachinedRs.Imager.Initramfs

/-!
# The walk over the rootfs

The walk visits every entry of the rootfs once, a directory before what is in
it, and makes one call for each.  The build is the calls for the base tree and
then those of the walk, as long as the system accepts every path.
-/

namespace MachinedRs

open Foundation

section Visited

/-- The entries below a directory in the order of the walk. -/
def visited (rel : Path) (listing : Listing) : List (Path × RootNode) :=
  (sortByName listing).attach.flatMap fun child =>
    (rel ++ [child.1.1], child.1.2) ::
      visited (rel ++ [child.1.1]) child.1.2.children
termination_by sizeOf listing
decreasing_by
  exact sizeOf_children_lt (mem_sortByName.mp child.2)

/-- An entry of a directory and what the walk visits below it. -/
def visitedFrom (rel : Path) (child : String × RootNode) :
    List (Path × RootNode) :=
  (rel ++ [child.1], child.2) :: visited (rel ++ [child.1]) child.2.children

theorem visited_eq (rel : Path) (listing : Listing) :
    visited rel listing = (sortByName listing).flatMap (visitedFrom rel) := by
  rw [visited, List.flatMap_subtype (g := visitedFrom rel) (fun _ _ => rfl),
    List.unattach_attach]

theorem listing_induction {motive : Listing → Prop}
    (step : ∀ listing, (∀ child ∈ listing, motive child.2.children) →
      motive listing) (listing : Listing) : motive listing :=
  step listing fun child _ => listing_induction step child.2.children
termination_by sizeOf listing
decreasing_by
  exact sizeOf_children_lt ‹_›

@[simp] theorem visited_nil (rel : Path) : visited rel [] = [] := by
  simp [visited_eq, sortByName]

theorem mem_visited_iff {rel path : Path} {listing : Listing}
    {node : RootNode} :
    (path, node) ∈ visited rel listing ↔
      ∃ child ∈ listing, (path, node) = (rel ++ [child.1], child.2) ∨
        (path, node) ∈ visited (rel ++ [child.1]) child.2.children := by
  rw [visited_eq]
  simp only [List.mem_flatMap, visitedFrom, List.mem_cons, mem_sortByName]

/-- What is visited is below the directory, through one of its entries. -/
theorem exists_of_mem_visited {rel path : Path} {listing : Listing}
    {node : RootNode} (member : (path, node) ∈ visited rel listing) :
    ∃ child ∈ listing, rel ++ [child.1] <+: path := by
  induction listing using listing_induction generalizing rel with
  | step listing induction =>
      obtain ⟨child, isChild, same | deeper⟩ := mem_visited_iff.mp member
      · cases same
        exact ⟨child, isChild, List.prefix_refl _⟩
      · obtain ⟨_, _, within⟩ := induction child isChild deeper
        exact ⟨child, isChild, (List.prefix_append _ _).trans within⟩

theorem visited_parentsFirst (rel : Path) (listing : Listing)
    {known : List Path} (isKnown : rel ∈ known) :
    ParentsFirst RootNode.isDir known (visited rel listing) := by
  induction listing using listing_induction generalizing rel known with
  | step listing induction =>
      have each : ∀ children : Listing, (∀ child ∈ children, child ∈ listing) →
          ParentsFirst RootNode.isDir known
            (children.flatMap (visitedFrom rel)) := by
        intro children
        induction children with
        | nil =>
            intro _
            trivial
        | cons child children rest =>
            intro listed
            apply ParentsFirst.append
            · refine ⟨by simpa using isKnown, ?_⟩
              cases found : child.2 with
              | dir below =>
                  have deeper := induction child
                    (listed child List.mem_cons_self) (rel ++ [child.1])
                    (List.mem_cons_self (l := known))
                  rw [found] at deeper
                  exact deeper
              | file mode data =>
                  simp [RootNode.children, ParentsFirst]
              | symlink target =>
                  simp [RootNode.children, ParentsFirst]
            · exact rest fun other member =>
                listed other (List.mem_cons_of_mem child member)
      rw [visited_eq]
      exact each _ fun child member => mem_sortByName.mp member

theorem prefix_of_mem_visitedFrom {rel path : Path}
    {child : String × RootNode} {node : RootNode}
    (member : (path, node) ∈ visitedFrom rel child) :
    rel ++ [child.1] <+: path := by
  rcases List.mem_cons.mp member with same | deeper
  · cases same
    exact List.prefix_refl _
  · obtain ⟨_, _, within⟩ := exists_of_mem_visited deeper
    exact (List.prefix_append _ _).trans within

/-- The entries of a directory are visited apart. -/
theorem disjoint_visitedFrom {rel : Path} {first second : String × RootNode}
    (distinct : first.1 ≠ second.1) :
    List.Disjoint ((visitedFrom rel first).map Prod.fst)
      ((visitedFrom rel second).map Prod.fst) := by
  intro path inFirst inSecond
  obtain ⟨one, oneMember, rfl⟩ := List.mem_map.mp inFirst
  obtain ⟨other, otherMember, same⟩ := List.mem_map.mp inSecond
  have fromFirst := prefix_of_mem_visitedFrom oneMember
  have fromSecond := prefix_of_mem_visitedFrom otherMember
  rw [same] at fromSecond
  have names := List.prefix_of_prefix_length_le fromFirst fromSecond
    (by simp)
  rw [List.prefix_append_right_inj] at names
  exact distinct (List.cons_prefix_cons.mp names).1

theorem nodup_visited {listing : Listing}
    (proper : Everywhere ProperListing listing) (rel : Path) :
    ((visited rel listing).map Prod.fst).Nodup := by
  induction listing using listing_induction generalizing rel with
  | step listing induction =>
      obtain ⟨here, below⟩ := proper
      rw [visited_eq, List.map_flatMap, List.nodup_flatMap]
      constructor
      · intro child member
        have isChild := mem_sortByName.mp member
        rw [visitedFrom, List.map_cons, List.nodup_cons]
        refine ⟨?_, induction child isChild (below child isChild) _⟩
        intro again
        obtain ⟨⟨path, node⟩, deeper, same⟩ := List.mem_map.mp again
        obtain ⟨other, _, longer⟩ := exists_of_mem_visited deeper
        have length := longer.length_le
        rw [show path = rel ++ [child.1] from same] at length
        simp at length
      · have distinct : ((sortByName listing).map Prod.fst).Nodup :=
          ((List.mergeSort_perm listing _).map Prod.fst).nodup_iff.mpr
            here.distinct
        rw [List.Nodup, List.pairwise_map] at distinct
        exact distinct.imp disjoint_visitedFrom

/-- A property of every directory is met where an entry is visited. -/
theorem exists_listing_of_mem_visited {property : Listing → Prop}
    {listing : Listing} {rel path : Path} {node : RootNode}
    (everywhere : Everywhere property listing)
    (member : (path, node) ∈ visited rel listing) :
    ∃ within name, property within ∧ (name, node) ∈ within := by
  induction listing using listing_induction generalizing rel with
  | step listing induction =>
      obtain ⟨here, deeper⟩ := everywhere
      obtain ⟨child, isChild, same | further⟩ := mem_visited_iff.mp member
      · cases same
        exact ⟨listing, child.1, here, isChild⟩
      · exact induction child isChild (deeper child isChild) further

end Visited

section Count

mutual

def RootNode.entryCount : RootNode → Nat
  | .dir listing => listingCount listing + 1
  | .file _ _ => 1
  | .symlink _ => 1

def listingCount : Listing → Nat
  | [] => 0
  | (_, node) :: listing => node.entryCount + listingCount listing

end

theorem RootNode.entryCount_eq (node : RootNode) :
    node.entryCount = listingCount node.children + 1 := by
  cases node <;> simp [RootNode.entryCount, RootNode.children, listingCount]

theorem listingCount_eq_sum (listing : Listing) :
    listingCount listing =
      (listing.map fun child => child.2.entryCount).sum := by
  induction listing with
  | nil => simp [listingCount]
  | cons child listing induction => simp [listingCount, induction]

theorem length_visited (rel : Path) (listing : Listing) :
    (visited rel listing).length = listingCount listing := by
  induction listing using listing_induction generalizing rel with
  | step listing induction =>
      have each : ∀ child ∈ sortByName listing,
          (visitedFrom rel child).length = child.2.entryCount := by
        intro child member
        rw [visitedFrom, List.length_cons,
          induction child (mem_sortByName.mp member), child.2.entryCount_eq]
      have sorted := ((List.mergeSort_perm listing fun first second =>
        decide (first.1 ≤ second.1)).map fun child => child.2.entryCount).sum_eq
      rw [visited_eq, List.length_flatMap, List.map_congr_left each,
        listingCount_eq_sum, ← sorted]
      rfl

end Count

section Find

def childNamed (listing : Listing) (name : Bytes) : Option RootNode :=
  (listing.find? fun child => utf8 child.1 = name).map Prod.snd

/-- What is at a path below a node. -/
def RootNode.find (node : RootNode) : List Bytes → Option RootNode
  | [] => some node
  | name :: rest =>
      (childNamed node.children name).bind fun child => child.find rest

theorem childNamed_eq_some {listing : Listing}
    (distinct : (listing.map Prod.fst).Nodup) {name : Bytes}
    {node : RootNode} :
    childNamed listing name = some node ↔
      ∃ text, utf8 text = name ∧ (text, node) ∈ listing := by
  rw [childNamed, Option.map_eq_some_iff]
  constructor
  · rintro ⟨⟨text, found⟩, search, rfl⟩
    have named := List.find?_some search
    exact ⟨text, of_decide_eq_true named, List.mem_of_find?_eq_some search⟩
  · rintro ⟨text, rfl, member⟩
    have present :
        (listing.find? fun child => utf8 child.1 = utf8 text).isSome :=
      List.find?_isSome.mpr ⟨_, member, decide_eq_true rfl⟩
    obtain ⟨child, search⟩ := Option.isSome_iff_exists.mp present
    have matched := List.find?_some search
    have named : utf8 child.1 = utf8 text := of_decide_eq_true matched
    have same := List.inj_on_of_nodup_map distinct
      (List.mem_of_find?_eq_some search) member (utf8_injective named)
    exact ⟨child, search, by rw [same]⟩

/-- The walk visits what can be found. -/
theorem mem_visited_of_find {node found : RootNode} {path : List Bytes}
    (proper : Everywhere ProperListing node.children) (notHere : path ≠ [])
    (search : node.find path = some found) (rel : Path) :
    ∃ below, below.map utf8 = path ∧
      (rel ++ below, found) ∈ visited rel node.children := by
  induction path generalizing node rel with
  | nil => exact absurd rfl notHere
  | cons name rest induction =>
      obtain ⟨here, deeper⟩ := proper
      obtain ⟨child, isChild, inChild⟩ := Option.bind_eq_some_iff.mp search
      obtain ⟨text, rfl, member⟩ :=
        (childNamed_eq_some here.distinct).mp isChild
      by_cases last : rest = []
      · subst last
        cases inChild
        refine ⟨[text], rfl, mem_visited_iff.mpr ⟨_, member, .inl rfl⟩⟩
      · obtain ⟨below, rfl, visits⟩ := induction (deeper _ member) last inChild
          (rel ++ [text])
        refine ⟨text :: below, rfl, mem_visited_iff.mpr ⟨_, member, .inr ?_⟩⟩
        rw [List.append_assoc] at visits
        exact visits

/-- The walk visits nothing else. -/
theorem find_of_mem_visited {node found : RootNode} {rel path : Path}
    (proper : Everywhere ProperListing node.children)
    (member : (path, found) ∈ visited rel node.children) :
    ∃ below, below ≠ [] ∧ path = rel ++ below ∧
      node.find (below.map utf8) = some found := by
  generalize listed : node.children = listing at proper member
  induction listing using listing_induction generalizing node rel with
  | step listing induction =>
      obtain ⟨here, deeper⟩ := proper
      obtain ⟨⟨text, child⟩, isChild, visits⟩ := mem_visited_iff.mp member
      have named : childNamed node.children (utf8 text) = some child := by
        rw [listed, childNamed_eq_some here.distinct]
        exact ⟨text, rfl, isChild⟩
      rcases visits with same | further
      · cases same
        refine ⟨[text], List.cons_ne_nil _ _, rfl, ?_⟩
        rw [List.map_singleton, RootNode.find, named]
        rfl
      · obtain ⟨below, _, rfl, search⟩ := induction (text, child) isChild rfl
          (deeper _ isChild) further
        refine ⟨text :: below, List.cons_ne_nil _ _,
          List.append_assoc rel [text] below, ?_⟩
        rw [List.map_cons, RootNode.find, named]
        exact search

end Find

section Names

theorem utf8_pathText {path : Path} :
    utf8 (pathText path) = [47].intercalate (path.map utf8) := by
  induction path with
  | nil => rfl
  | cons name names induction =>
      cases names with
      | nil => simp [pathText]
      | cons next names =>
          have slash : utf8 "/" = [47] := by decide +kernel
          rw [pathText, utf8_append, utf8_append, induction, slash]
          · simp only [List.map_cons, List.intercalate_cons_cons]
          · exact List.cons_ne_nil _ _

/-- The names on the way to what is visited are proper. -/
theorem properName_of_mem_visited {listing : Listing} {rel path : Path}
    {node : RootNode} (proper : Everywhere ProperListing listing)
    (member : (path, node) ∈ visited rel listing)
    (names : ∀ name ∈ rel, ProperName name) :
    ∀ name ∈ path, ProperName name := by
  induction listing using listing_induction generalizing rel with
  | step listing induction =>
      obtain ⟨here, deeper⟩ := proper
      obtain ⟨child, isChild, visits⟩ := mem_visited_iff.mp member
      have longer : ∀ name ∈ rel ++ [child.1], ProperName name := by
        intro name isName
        rcases List.mem_append.mp isName with old | new
        · exact names name old
        · rw [List.mem_singleton.mp new]
          exact here.names child isChild
      rcases visits with same | further
      · cases same
        exact longer
      · exact induction child isChild (deeper child isChild) further longer

/-- A path that the system accepts fits the header of an entry. -/
theorem length_pathText_lt {root : String} {path : Path}
    (fits : pathFits (absolutePath root path)) (notEmpty : path ≠ []) :
    (utf8 (pathText path)).length < pathMax := by
  have length := of_decide_eq_true fits
  cases path with
  | nil => exact absurd rfl notEmpty
  | cons name names =>
      rw [absolutePath, utf8_append, List.length_append] at length
      · omega
      · exact List.cons_ne_nil _ _

theorem noNul_pathText {path : Path} (names : ∀ name ∈ path, ProperName name) :
    0 ∉ utf8 (pathText path) := by
  intro member
  rw [utf8_pathText] at member
  rcases mem_intercalate member with slash | ⟨component, isName, inside⟩
  · cases slash
  · obtain ⟨name, named, rfl⟩ := List.mem_map.mp isName
    exact (names name named).noNul inside

end Names

section Calls

/-- The call for an entry of the rootfs. -/
def RootNode.call (name : String) : RootNode → CpioCall
  | .dir _ => .dir name 0o755
  | .file mode data => .file name (mode &&& 0o7777) data
  | .symlink target => .symlink name target

def visitCall (entry : Path × RootNode) : CpioCall :=
  entry.2.call (pathText entry.1)

/-- What the walk does at an entry, directories not yet entered. -/
def visit (root : String) (writer : CpioWriter) (entry : Path × RootNode) :
    Except InitramfsError CpioWriter :=
  if pathFits (absolutePath root entry.1) then
    orPanic (writer.call (visitCall entry))
  else
    .error (.error "File name too long (os error 36)")

theorem foldlM_flatMap {State Item Part : Type}
    (step : State → Part → Except InitramfsError State)
    (parts : Item → List Part) (items : List Item) (state : State) :
    (items.flatMap parts).foldlM step state =
      items.foldlM (fun state item => (parts item).foldlM step state)
        state := by
  induction items generalizing state with
  | nil => rfl
  | cons item items induction =>
      rw [List.flatMap_cons, List.foldlM_append, List.foldlM_cons]
      simp only [induction]

/-- The recursive walk is the visit of its entries one after the other. -/
theorem addTree_eq_visited {root : String} {rel : Path} {listing : Listing}
    (fits : pathFits (absolutePath root rel)) (writer : CpioWriter) :
    addTree root rel listing writer =
      (visited rel listing).foldlM (visit root) writer := by
  induction listing using listing_induction generalizing rel writer with
  | step listing induction =>
      rw [addTree, if_pos fits, visited_eq, foldlM_flatMap,
        List.foldlM_subtype
          (g := fun writer child =>
            (visitedFrom rel child).foldlM (visit root) writer),
        List.unattach_attach]
      rintro writer ⟨name, node⟩ member
      have deeper := @induction (name, node) (mem_sortByName.mp member)
        (rel ++ [name])
      rw [visitedFrom, List.foldlM_cons, visit]
      by_cases childFits : pathFits (absolutePath root (rel ++ [name]))
      · simp only [if_pos childFits]
        cases node with
        | dir below =>
            simp only [← deeper childFits]
            rfl
        | file mode data =>
            simp only [RootNode.children, visited_nil, List.foldlM_nil,
              bind_pure]
            rfl
        | symlink target =>
            simp only [RootNode.children, visited_nil, List.foldlM_nil,
              bind_pure]
            rfl
      · simp only [if_neg childFits]
        rfl

theorem orPanic_eq_ok {α : Type} {option : Option α} {value : α} :
    orPanic option = .ok value ↔ option = some value := by
  cases option <;> simp [orPanic]

theorem orPanic_bind {α β : Type} (option : Option α)
    (next : α → Option β) :
    orPanic (option >>= next) =
      orPanic option >>= fun value => orPanic (next value) := by
  cases option <;> rfl

theorem orPanic_pure {α : Type} (value : α) :
    orPanic (pure value) = pure value :=
  rfl

theorem foldlM_visit_eq_ok {root : String}
    {entries : List (Path × RootNode)} {writer last : CpioWriter} :
    entries.foldlM (visit root) writer = .ok last ↔
      (∀ entry ∈ entries, pathFits (absolutePath root entry.1)) ∧
        writer.callAll (entries.map visitCall) = some last := by
  induction entries generalizing writer with
  | nil => simp [CpioWriter.callAll, pure, Except.pure]
  | cons entry entries induction =>
      rw [List.foldlM_cons, visit, List.map_cons, CpioWriter.callAll,
        List.foldlM_cons, List.forall_mem_cons]
      by_cases fits : pathFits (absolutePath root entry.1)
      · rw [if_pos fits]
        cases written : writer.call (visitCall entry) with
        | none => simp [orPanic, Bind.bind, Except.bind]
        | some next =>
            rw [and_iff_right fits]
            exact induction
      · rw [if_neg fits]
        simp [fits, Bind.bind, Except.bind]

/-- The calls before the walk. -/
def baseCalls (input : InitramfsInput) (machined : Bytes) : List CpioCall :=
  (baseDirs.map fun dir => .dir dir 0o755) ++
    [.charDevice "dev/console" 0o600 5 1, .file "init" 0o755 machined,
      .file "etc/machined/modules.load" 0o644 (utf8 input.modulesLoad),
      .file "etc/machined/image-id" 0o644 (utf8 input.imageId),
      .file "etc/machined/bootloader" 0o644 (utf8 input.bootloader)]

def initramfsCalls (input : InitramfsInput) (machined : Bytes) :
    List CpioCall :=
  baseCalls input machined ++
    (visited [] input.rootfs.listing).map visitCall

theorem initramfsArchive_eq {input : InitramfsInput} {machined : Bytes}
    (read : input.machined = some machined)
    (noInit : input.rootfs.hasInit = false) :
    initramfsArchive input =
      (do
        let writer ← orPanic
          (CpioWriter.new.callAll (baseCalls input machined))
        let writer ← addTree input.rootfs.path [] input.rootfs.listing writer
        orPanic writer.finish) := by
  rw [initramfsArchive, noInit]
  simp only [Bool.false_eq_true, if_false, read, baseCalls,
    CpioWriter.callAll, List.foldlM_append, List.foldlM_map,
    List.foldlM_cons, List.foldlM_nil, orPanic_bind, orPanic_pure, bind_assoc,
    pure_bind]
  rfl

/-- When the build succeeds, and with which archive. -/
theorem initramfsArchive_eq_ok {input : InitramfsInput} {machined : Bytes}
    (read : input.machined = some machined)
    (noInit : input.rootfs.hasInit = false) {archive : Bytes} :
    initramfsArchive input = .ok archive ↔
      (pathFits input.rootfs.path ∧
        ∀ entry ∈ visited [] input.rootfs.listing,
          pathFits (absolutePath input.rootfs.path entry.1)) ∧
        writeArchive (initramfsCalls input machined) = some archive := by
  rw [initramfsArchive_eq read noInit, writeArchive, initramfsCalls,
    CpioWriter.callAll, CpioWriter.callAll, List.foldlM_append]
  simp only [bind_eq_ok_iff, orPanic_eq_ok, Option.bind_eq_bind,
    Option.bind_eq_some_iff]
  by_cases rootFits : pathFits input.rootfs.path
  · simp only [@addTree_eq_visited input.rootfs.path [] _ rootFits,
      foldlM_visit_eq_ok, CpioWriter.callAll]
    constructor
    · rintro ⟨writer, based, last, ⟨fits, called⟩, finished⟩
      exact ⟨⟨rootFits, fits⟩, last, ⟨writer, based, called⟩, finished⟩
    · rintro ⟨⟨_, fits⟩, last, ⟨writer, based, called⟩, finished⟩
      exact ⟨writer, based, last, ⟨fits, called⟩, finished⟩
  · constructor
    · rintro ⟨writer, _, last, walked, _⟩
      rw [addTree, absolutePath, if_neg rootFits] at walked
      cases walked
    · rintro ⟨⟨fits, _⟩, _⟩
      exact absurd fits rootFits

end Calls

end MachinedRs
