import MachinedRs.Foundation.Bytes
import MachinedRs.Foundation.LinkCalls

/-!
# Extracting a package

`extractApk` checks the path of every entry by its text alone.  Most entries go
to `unpack_in`, which never leaves the rootfs; a compressed kernel module is
written by hand, through whatever symbolic links earlier entries have left on
its path.  So everything stays inside the rootfs as long as every link on the
path of a module is relative and climbs no higher than the rootfs.
-/

namespace MachinedRs

open Foundation

section Paths

/-- `std::path::Component` -/
inductive PathComponent where
  | rootDir
  | curDir
  | parentDir
  | normal (name : Bytes)
deriving DecidableEq, Repr

/-- `Path::components`: a dot counts only at the start. -/
def pathComponents (path : Bytes) : List PathComponent :=
  let parts := path.splitOn 47
  let leading : List PathComponent :=
    if path.head? = some 47 then [.rootDir]
    else if parts.head? = some (utf8 ".") then [.curDir]
    else []
  leading ++ parts.filterMap fun part =>
    if part = [] ∨ part = utf8 "." then none
    else if part = utf8 ".." then some .parentDir
    else some (.normal part)

/-- The names of a path made of normal components only. -/
def normalNames (components : List PathComponent) : Option (List Bytes) :=
  components.mapM fun component =>
    match component with
    | .normal name => some name
    | _ => none

/-- `with_extension("")` on a file name: a dot at the start begins no
extension. -/
def withoutExtension (name : Bytes) : Bytes :=
  match name.reverse.dropWhile (· ≠ 46) with
  | _ :: stem => if stem = [] then name else stem.reverse
  | [] => name

end Paths

section Extract

/-- What the headers of an entry make of it. -/
inductive TarKind where
  | regular
  | directory
  | symlink (target : LinkTarget Bytes)
  | hardlink (target : Bytes)
deriving DecidableEq, Repr

structure ApkEntry where
  path : Bytes
  kind : TarKind
  data : Bytes
deriving DecidableEq, Repr

structure RootfsFile where
  data : Bytes
  mode : UInt32
deriving DecidableEq, Repr

abbrev RootfsState := Touching Bytes RootfsFile

inductive ExtractError where
  | context (message : String) (path : List Bytes)
  | call (error : CallError)
  | unpack
deriving DecidableEq, Repr

abbrev Extracting := RootfsState × Except ExtractError Unit

/-- What is done with an entry. -/
inductive ApkAction where
  | skip
  | escapes
  | module (names : List Bytes)
  | unpack
deriving DecidableEq, Repr

def ApkEntry.action (entry : ApkEntry) : ApkAction :=
  match pathComponents entry.path with
  | [] => .skip
  | components =>
      match normalNames components with
      | none => .escapes
      | some names =>
          if (names.headD []).head? = some 46 then .skip
          else if utf8 ".ko.gz" <:+ entry.path then .module names
          else .unpack

/-- The path of the module without `.gz`. -/
def moduleTarget (names : List Bytes) : List Bytes :=
  names.dropLast ++ [withoutExtension (names.getLastD [])]

/-- The code of other libraries: the decompression, and `unpack_in`. -/
structure ApkLibraries where
  gunzip : Bytes → Option Bytes
  unpackIn : List Bytes → ApkEntry → RootfsState → Extracting

variable (libraries : ApkLibraries) (rootfs : List Bytes)

/-- A new file has the mode that the system gives it. -/
def RootfsFile.overwritten (raw : Bytes) (present : Option RootfsFile) :
    RootfsFile :=
  { data := raw, mode := (present.map RootfsFile.mode).getD 0o666 }

def RootfsFile.withMode (present : Option RootfsFile) : RootfsFile :=
  { data := (present.map RootfsFile.data).getD [], mode := 0o644 }

/-- `fs::write`, then `set_permissions`; both follow links. -/
def writeModule (target : List Bytes) (raw : Bytes) (state : RootfsState) :
    Extracting :=
  match updateFile rootfs target true (RootfsFile.overwritten raw) state with
  | (state, .error _) =>
      (state, .error (.context "writing module " (rootfs ++ target)))
  | (state, .ok ()) =>
      match updateFile rootfs target false RootfsFile.withMode state with
      | (state, .error error) => (state, .error (.call error))
      | (state, .ok ()) => (state, .ok ())

def extractModule (names : List Bytes) (entry : ApkEntry)
    (state : RootfsState) : Extracting :=
  let target := moduleTarget names
  match createDirAll rootfs target.dropLast state with
  | (state, .error error) => (state, .error (.call error))
  | (state, .ok ()) =>
      match libraries.gunzip entry.data with
      | none => (state, .error (.context "decompressing module " names))
      | some raw => writeModule rootfs target raw state

def extractEntry (entry : ApkEntry) (state : RootfsState) : Extracting :=
  match entry.action with
  | .skip => (state, .ok ())
  | .escapes =>
      (state, .error (.context "apk entry escapes rootfs: " [entry.path]))
  | .module names => extractModule libraries rootfs names entry state
  | .unpack => libraries.unpackIn rootfs entry state

def extractEntries : List ApkEntry → RootfsState → Extracting
  | [], state => (state, .ok ())
  | entry :: entries, state =>
      match extractEntry libraries rootfs entry state with
      | (state, .error error) => (state, .error error)
      | (state, .ok ()) => extractEntries entries state

/-- The rootfs is there, so making it finds it. -/
def extractApk (entries : List ApkEntry) (state : RootfsState) : Extracting :=
  match createDirAll rootfs [] state with
  | (state, .error _) =>
      (state, .error (.context "creating rootfs " rootfs))
  | (state, .ok ()) => extractEntries libraries rootfs entries state

end Extract

section Contained

variable (libraries : ApkLibraries) (rootfs : List Bytes)

/-- If the entry is a module, the links on its path stay below the rootfs. -/
def EntryLinksBelow (tree : LinkTree Bytes RootfsFile) (entry : ApkEntry) :
    Prop :=
  match entry.action with
  | .module names => tree.LinksBelow rootfs (moduleTarget names)
  | _ => True

instance (tree : LinkTree Bytes RootfsFile) (entry : ApkEntry) :
    Decidable (EntryLinksBelow rootfs tree entry) := by
  rw [EntryLinksBelow]
  split <;> infer_instance

/-- Every entry that is reached, in the tree that the entries before it have
left. -/
def EachLinksBelow : List ApkEntry → RootfsState → Prop
  | [], _ => True
  | entry :: entries, state =>
      EntryLinksBelow rootfs state.tree entry ∧
        match extractEntry libraries rootfs entry state with
        | (_, .error _) => True
        | (next, .ok ()) => EachLinksBelow entries next

instance decidableEachLinksBelow :
    (entries : List ApkEntry) → (state : RootfsState) →
      Decidable (EachLinksBelow libraries rootfs entries state)
  | [], _ => .isTrue trivial
  | entry :: entries, state => by
      rw [EachLinksBelow]
      refine @instDecidableAnd _ _ _ ?_
      split
      · infer_instance
      · exact decidableEachLinksBelow entries _

/-- `unpack_in` changes and touches nothing outside the rootfs. -/
def ApkLibraries.Confined : Prop :=
  ∀ entry state,
    TouchesBelow rootfs state (libraries.unpackIn rootfs entry state).1

variable {libraries rootfs} {state : RootfsState}

theorem writeModule_below {target : List Bytes}
    (below : state.tree.LinksBelow rootfs target) (raw : Bytes) :
    CallsBelow rootfs state (writeModule rootfs target raw state).1 := by
  have written := updateFile_below below true (RootfsFile.overwritten raw)
  rw [writeModule]
  split
  next failed =>
    rw [failed] at written
    exact written
  next done =>
    rw [done] at written
    have changed := updateFile_below (written.linksBelow below) false
      RootfsFile.withMode
    split
    next failed =>
      rw [failed] at changed
      exact written.trans changed
    next done =>
      rw [done] at changed
      exact written.trans changed

theorem extractModule_below {names : List Bytes} (entry : ApkEntry)
    (below : state.tree.LinksBelow rootfs (moduleTarget names)) :
    CallsBelow rootfs state
      (extractModule libraries rootfs names entry state).1 := by
  have parents : state.tree.LinksBelow rootfs (moduleTarget names).dropLast := by
    rw [moduleTarget, List.dropLast_concat]
    exact below.front
  have made := createDirAll_below parents
  rw [extractModule]
  split
  next failed =>
    rw [failed] at made
    exact made
  next done =>
    rw [done] at made
    split
    next => exact made
    next => exact made.trans (writeModule_below (made.linksBelow below) _)

theorem extractEntry_below (confined : libraries.Confined rootfs)
    {entry : ApkEntry} (below : EntryLinksBelow rootfs state.tree entry) :
    TouchesBelow rootfs state
      (extractEntry libraries rootfs entry state).1 := by
  rw [EntryLinksBelow] at below
  rw [extractEntry]
  cases action : entry.action with
  | skip => exact .refl
  | escapes => exact .refl
  | module names =>
      rw [action] at below
      exact (extractModule_below entry below).toTouchesBelow
  | unpack => exact confined entry state

theorem extractEntries_below (confined : libraries.Confined rootfs)
    {entries : List ApkEntry}
    (below : EachLinksBelow libraries rootfs entries state) :
    TouchesBelow rootfs state
      (extractEntries libraries rootfs entries state).1 := by
  induction entries generalizing state with
  | nil => exact .refl
  | cons entry entries induction =>
      obtain ⟨here, later⟩ := below
      have first := extractEntry_below confined here
      rw [extractEntries]
      cases taken : extractEntry libraries rootfs entry state with
      | mk next result =>
          rw [taken] at first later
          cases result with
          | error error => exact first
          | ok done => exact first.trans (induction later)

theorem extractApk_below (confined : libraries.Confined rootfs)
    {entries : List ApkEntry}
    (below : EachLinksBelow libraries rootfs entries state) :
    TouchesBelow rootfs state
      (extractApk libraries rootfs entries state).1 := by
  have same : (createDirAll rootfs [] state).1 = state := by
    rw [createDirAll, List.reverse_nil, createDirAllRev, orDirectory_fst]
  rw [extractApk]
  cases made : createDirAll rootfs [] state with
  | mk next result =>
      rw [made] at same
      cases show next = state from same
      cases result with
      | error error => exact .refl
      | ok done => exact extractEntries_below confined below

end Contained

/-- An extraction touches and changes nothing outside the rootfs if, for each
module, every link on its path is relative and climbs no higher. -/
theorem extraction_inside_of_links {libraries : ApkLibraries}
    {rootfs : List Bytes} (confined : libraries.Confined rootfs)
    (entries : List ApkEntry) {tree : LinkTree Bytes RootfsFile}
    (started : tree.node rootfs = some .dir)
    (below : EachLinksBelow libraries rootfs entries
      { tree := tree, touched := [] }) :
    let state := (extractApk libraries rootfs entries
      { tree := tree, touched := [] }).1
    (∀ path ∈ state.touched, rootfs <+: path) ∧
      (∀ path, ¬ rootfs <+: path → state.tree.node path = tree.node path) ∧
        state.tree.node rootfs = some .dir := by
  intro state
  have touches := extractApk_below confined below
  obtain ⟨added, touched, inside⟩ := touches.touched
  refine ⟨?_, touches.outside, touches.root started⟩
  rw [show state.touched = added from touched]
  exact inside

section Escape

/-- A root directory with `/etc` and an empty `/root`. -/
def smallTree : LinkTree Bytes RootfsFile :=
  ((LinkTree.bare).put [utf8 "etc"] .dir).put [utf8 "root"] .dir

/-- Unpacks symbolic links, and nothing else. -/
def unpackLinks (rootfs : List Bytes) (entry : ApkEntry)
    (state : RootfsState) : Extracting :=
  match entry.kind, normalNames (pathComponents entry.path) with
  | .symlink target, some names =>
      if state.tree.node (rootfs ++ names) = none then
        (state.set (rootfs ++ names) (.symlink target), .ok ())
      else
        (state, .error .unpack)
  | _, _ => (state, .error .unpack)

/-- Takes data as it is. -/
def plainLibraries : ApkLibraries :=
  { gunzip := some, unpackIn := unpackLinks }

theorem plainLibraries_confined (rootfs : List Bytes) :
    plainLibraries.Confined rootfs := by
  intro entry state
  change TouchesBelow rootfs state (unpackLinks rootfs entry state).1
  rw [unpackLinks]
  split
  · split
    next missing =>
      exact touchesBelow_set (List.prefix_append _ _) (by simp [missing]) _
    next => exact .refl
  · exact .refl

theorem noLinks_put_dir {tree : LinkTree Bytes RootfsFile}
    (noLinks : ∀ path target, tree.node path ≠ some (.symlink target))
    (place : List Bytes) :
    ∀ path target,
      (tree.put place .dir).node path ≠ some (.symlink target) := by
  intro path target
  by_cases accepts : tree.Accepts place
  · rw [LinkTree.node_put accepts]
    split
    · exact nofun
    · exact noLinks path target
  · rw [LinkTree.put, dif_neg accepts]
    exact noLinks path target

def moduleEntry (path : String) : ApkEntry :=
  { path := utf8 path, kind := .regular, data := [0x7f] }

def linkEntry (path : String) (absolute : Bool)
    (target : List (Segment Bytes)) : ApkEntry :=
  { path := utf8 path
    kind := .symlink { absolute := absolute, segments := target }
    data := [] }

/-- A module is written to `opt` through a link `../opt` in `usr`. -/
theorem extraction_inside_relative :
    let entries := [moduleEntry "opt/a.ko.gz", moduleEntry "usr/b.ko.gz",
      linkEntry "usr/lib" false [.parent, .name (utf8 "opt")],
      moduleEntry "usr/lib/c.ko.gz"]
    let state := (extractApk plainLibraries [utf8 "root"] entries
      { tree := smallTree, touched := [] }).1
    [utf8 "root", utf8 "opt", utf8 "c.ko"] ∈ state.touched ∧
      ∀ path ∈ state.touched, [utf8 "root"] <+: path := by
  intro entries state
  refine ⟨by decide +kernel, ?_⟩
  exact (extraction_inside_of_links (plainLibraries_confined _) entries rfl
    (by decide +kernel)).1

/-- A package with a link `lib` to `/etc` and a module below `lib`: the module
is written to `/etc`. -/
theorem extraction_escapes :
    plainLibraries.Confined [utf8 "root"] ∧
      smallTree.node [utf8 "root"] = some .dir ∧
      (∀ path target, smallTree.node path ≠ some (.symlink target)) ∧
      [utf8 "etc", utf8 "a.ko"] ∈
        (extractApk plainLibraries [utf8 "root"]
          [linkEntry "lib" true [.name (utf8 "etc")], moduleEntry "lib/a.ko.gz"]
          { tree := smallTree, touched := [] }).1.touched ∧
      ¬ [utf8 "root"] <+: [utf8 "etc", utf8 "a.ko"] := by
  refine ⟨plainLibraries_confined _, by decide +kernel, ?_, by decide +kernel,
    by decide +kernel⟩
  apply noLinks_put_dir
  apply noLinks_put_dir
  intro path target
  rw [LinkTree.bare]
  dsimp only
  split
  · exact nofun
  · exact nofun

end Escape

end MachinedRs
