import MachinedRs.Foundation.FileSystem
import MachinedRs.Imager.Cpio

/-!
# Building the initramfs

`buildInitramfs` writes the base tree, `/dev/console`, machined as `/init` and
three generated files, and then walks the rootfs: directory by directory, the
entries of each sorted by name, following no symbolic link.
-/

namespace MachinedRs

open Foundation

/-- What is at a path of the rootfs; a directory lists its entries in the order
in which `read_dir` returns them. -/
inductive RootNode where
  | dir (listing : List (String × RootNode))
  | file (mode : UInt32) (data : Bytes)
  | symlink (target : String)

abbrev Listing := List (String × RootNode)

namespace RootNode

def isDir : RootNode → Bool
  | .dir _ => true
  | _ => false

def children : RootNode → Listing
  | .dir listing => listing
  | _ => []

end RootNode

section WellFormed

/-- What a file system accepts as the name of an entry. -/
structure ProperName (name : String) : Prop where
  nonempty : name ≠ ""
  noSlash : 47 ∉ utf8 name
  noNul : 0 ∉ utf8 name
  notHere : name ≠ "."
  notParent : name ≠ ".."

/-- `PATH_MAX`: a path takes less, with its final NUL no more. -/
def pathMax : Nat :=
  4096

/-- What a file system holds in a directory. -/
structure ProperListing (listing : Listing) : Prop where
  distinct : (listing.map Prod.fst).Nodup
  names : ∀ child ∈ listing, ProperName child.1
  targets : ∀ name target, (name, .symlink target) ∈ listing →
    (utf8 target).length < pathMax

/-- A property of a directory and of all directories below it. -/
inductive Everywhere (property : Listing → Prop) : Listing → Prop where
  | intro {listing : Listing} (here : property listing)
      (below : ∀ child ∈ listing, Everywhere property child.2.children) :
      Everywhere property listing

/-- A rootfs at an absolute path without a trailing separator. -/
structure Rootfs where
  path : String
  listing : Listing
  proper : Everywhere ProperListing listing

end WellFormed

section Walk

def sortByName (listing : Listing) : Listing :=
  listing.mergeSort fun first second => first.1 ≤ second.1

theorem mem_sortByName {listing : Listing} {child : String × RootNode} :
    child ∈ sortByName listing ↔ child ∈ listing :=
  List.mem_mergeSort

theorem sizeOf_children_lt {child : String × RootNode} {listing : Listing}
    (member : child ∈ listing) :
    sizeOf child.2.children < sizeOf listing := by
  have whole := List.sizeOf_lt_of_mem member
  obtain ⟨name, node⟩ := child
  cases node with
  | dir below =>
      simp only [Prod.mk.sizeOf_spec, RootNode.dir.sizeOf_spec] at whole
      simp only [RootNode.children]
      omega
  | file mode data =>
      simp only [Prod.mk.sizeOf_spec, RootNode.file.sizeOf_spec] at whole
      simp only [RootNode.children, List.nil.sizeOf_spec]
      omega
  | symlink target =>
      simp only [Prod.mk.sizeOf_spec, RootNode.symlink.sizeOf_spec] at whole
      simp only [RootNode.children, List.nil.sizeOf_spec]
      omega

instance decidableProperName (name : String) : Decidable (ProperName name) :=
  decidable_of_iff
    (name ≠ "" ∧ 47 ∉ utf8 name ∧ 0 ∉ utf8 name ∧ name ≠ "." ∧ name ≠ "..")
    ⟨fun ⟨nonempty, noSlash, noNul, notHere, notParent⟩ =>
        ⟨nonempty, noSlash, noNul, notHere, notParent⟩,
      fun proper => ⟨proper.nonempty, proper.noSlash, proper.noNul,
        proper.notHere, proper.notParent⟩⟩

/-- The target of a symbolic link is short. -/
def RootNode.shortTarget : RootNode → Bool
  | .symlink target => (utf8 target).length < pathMax
  | _ => true

instance decidableProperListing (listing : Listing) :
    Decidable (ProperListing listing) :=
  decidable_of_iff
    ((listing.map Prod.fst).Nodup ∧ (∀ name ∈ listing.map Prod.fst,
      ProperName name) ∧ (listing.all fun child => child.2.shortTarget))
    (by
      constructor
      · rintro ⟨distinct, names, short⟩
        refine ⟨distinct, ?_, ?_⟩
        · intro child member
          exact names child.1 (List.mem_map_of_mem member)
        · intro name target member
          exact of_decide_eq_true (List.all_eq_true.mp short _ member)
      · rintro ⟨distinct, names, targets⟩
        refine ⟨distinct, ?_, ?_⟩
        · intro name member
          obtain ⟨child, isChild, rfl⟩ := List.mem_map.mp member
          exact names child isChild
        · rw [List.all_eq_true]
          rintro ⟨name, node⟩ member
          cases node with
          | dir below => rfl
          | file mode data => rfl
          | symlink target => exact decide_eq_true (targets name target member))

instance decidableEverywhere (property : Listing → Prop)
    [∀ listing, Decidable (property listing)] (listing : Listing) :
    Decidable (Everywhere property listing) :=
  have below : ∀ child : { child // child ∈ listing },
      Decidable (Everywhere property child.1.2.children) := fun child =>
    have := sizeOf_children_lt child.2
    decidableEverywhere property child.1.2.children
  decidable_of_iff
    (property listing ∧ ∀ child ∈ listing.attach,
      Everywhere property child.1.2.children)
    ⟨fun ⟨here, deeper⟩ => ⟨here, fun child member =>
        deeper ⟨child, member⟩ (List.mem_attach listing _)⟩,
      fun ⟨here, deeper⟩ => ⟨here, fun child _ => deeper child.1 child.2⟩⟩
termination_by sizeOf listing

/-- A path below the rootfs as text. -/
def pathText : Path → String
  | [] => ""
  | [name] => name
  | name :: names => name ++ "/" ++ pathText names

def absolutePath (root : String) : Path → String
  | [] => root
  | rel => root ++ "/" ++ pathText rel

/-- Whether the system accepts a path. -/
def pathFits (path : String) : Bool :=
  (utf8 path).length < pathMax

inductive InitramfsError where
  | error (message : String)
  | panic
deriving DecidableEq, Repr

def orPanic {α : Type} : Option α → Except InitramfsError α
  | some value => .ok value
  | none => .error .panic

/-- The loop over the entries of the directory at `rel`.  The first system call
on a path is where one that is too long fails. -/
def addTree (root : String) (rel : Path) (listing : Listing)
    (writer : CpioWriter) : Except InitramfsError CpioWriter :=
  if pathFits (absolutePath root rel) then
    (sortByName listing).attach.foldlM
      (fun writer child =>
        let path := rel ++ [child.1.1]
        if pathFits (absolutePath root path) then
          match node : child.1.2 with
          | .symlink target =>
              orPanic (writer.symlink (pathText path) target)
          | .dir below => do
              let writer ← orPanic (writer.dir (pathText path) 0o755)
              addTree root path below writer
          | .file mode data =>
              orPanic (writer.file (pathText path) (mode &&& 0o7777) data)
        else
          .error (.error "File name too long (os error 36)"))
      writer
  else
    .error (.error ("reading dir " ++ absolutePath root rel))
termination_by sizeOf listing
decreasing_by
  have smaller := sizeOf_children_lt (mem_sortByName.mp child.2)
  rw [node] at smaller
  exact smaller

end Walk

section Build

def baseDirs : List String :=
  ["dev", "proc", "sys", "run", "tmp", "etc", "etc/machined", "boot", "system",
    "system/state", "var"]

structure InitramfsInput where
  rootfs : Rootfs
  machinedPath : String
  /-- `none` if it cannot be read -/
  machined : Option Bytes
  modulePaths : List String
  kver : String
  imageId : String
  bootloader : String

def InitramfsInput.modulesLoad (input : InitramfsInput) : String :=
  String.join
    (input.modulePaths.map fun path =>
      "/lib/modules/" ++ input.kver ++ "/" ++ path ++ "\n")

/-- `rootfs.join("init").symlink_metadata().is_ok()` -/
def Rootfs.hasInit (rootfs : Rootfs) : Bool :=
  pathFits (absolutePath rootfs.path ["init"]) &&
    rootfs.listing.any fun child => child.1 = "init"

/-- The archive before it is compressed. -/
def initramfsArchive (input : InitramfsInput) :
    Except InitramfsError Bytes :=
  if input.rootfs.hasInit then
    .error (.error
      ("rootfs contains a top-level `init`, which collides with " ++
        "machined-as-/init"))
  else do
    let writer ← orPanic
      (baseDirs.foldlM (fun writer dir => writer.dir dir 0o755)
        CpioWriter.new)
    let writer ← orPanic (writer.charDevice "dev/console" 0o600 5 1)
    let machined ←
      match input.machined with
      | some machined => .ok machined
      | none =>
          .error (.error ("reading machined binary " ++ input.machinedPath))
    let writer ← orPanic (writer.file "init" 0o755 machined)
    let writer ← orPanic
      (writer.file "etc/machined/modules.load" 0o644
        (utf8 input.modulesLoad))
    let writer ← orPanic
      (writer.file "etc/machined/image-id" 0o644 (utf8 input.imageId))
    let writer ← orPanic
      (writer.file "etc/machined/bootloader" 0o644 (utf8 input.bootloader))
    let writer ← addTree input.rootfs.path [] input.rootfs.listing writer
    orPanic writer.finish

/-- The compression is that of another library. -/
def buildInitramfs (gzip : Bytes → Bytes) (input : InitramfsInput) :
    Except InitramfsError Bytes := do
  let archive ← initramfsArchive input
  .ok (gzip archive)

end Build

end MachinedRs
