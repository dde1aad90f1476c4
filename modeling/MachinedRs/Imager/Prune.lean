import MachinedRs.Boot.Bootloader
import MachinedRs.Boot.ImageBoot
import MachinedRs.Imager.InitramfsTree

/-!
# Pruning the rootfs for the initramfs

`pruneForInitramfs` drops `/boot` and keeps, under `lib/modules/<kver>`, the
modules of a list and the directories they are in.  Any system call on the way
may fail.  The first that does ends the pruning with its error, but for two
that are taken for an answer: a failed check whether `/boot` exists, which then
stays, and a failed look at whether a directory is now empty, which then stays
even if it is.
-/

namespace MachinedRs

open Foundation

section Pruning

/-- What is at a path below a node. -/
def RootNode.atPath (node : RootNode) (path : Path) : Option RootNode :=
  node.find (path.map utf8)

/-- The system calls of the pruning, with paths relative to the directory of
the kernel version.  `readEntry` stands for the next entry and its type,
`nextAgain` for the first entry of a directory that is read once more. -/
inductive PruneCall where
  | statBoot
  | removeBoot
  | readDir (path : Path)
  | readEntry (path : Path)
  | readEnd (path : Path)
  | readAgain (path : Path)
  | nextAgain (path : Path)
  | removeDir (path : Path)
  | removeFile (path : Path)

/-- The error of every call that fails; each is made once. -/
abbrev Failures := PruneCall → Option String

def Failures.issue (failures : Failures) (call : PruneCall) :
    Except String Unit :=
  match failures call with
  | some error => .error error
  | none => .ok ()

def Failures.answers (failures : Failures) (call : PruneCall) : Bool :=
  (failures call).isNone

/-- `Path::join` with a name, as text. -/
def joinText (dir name : String) : String :=
  if dir.toList.getLast? = some '/' then dir ++ name else dir ++ "/" ++ name

/-- `exists` takes a failed stat for a missing file. -/
def statBoot (failures : Failures) (listing : Listing) : Option RootNode :=
  if failures.answers .statBoot then childNamed listing (utf8 "boot")
  else none

def removeBoot (failures : Failures) (root : String) (listing : Listing) :
    Except String Listing :=
  match statBoot failures listing with
  | none => .ok listing
  | some (.dir _) => do
      withContext ("removing " ++ joinText root "boot")
        (failures.issue .removeBoot)
      .ok (listing.filter fun child => child.1 ≠ "boot")
  | some _ => .error ("removing " ++ joinText root "boot")

end Pruning

theorem RootNode.exists_of_isDir {node : RootNode}
    (directory : node.isDir = true) : ∃ below, node = .dir below := by
  cases node with
  | dir below => exact ⟨below, rfl⟩
  | file mode data => cases directory
  | symlink target => cases directory

section Left

end Left

section Paths

variable {listing : Listing}

theorem childNamed_cons (child : String × RootNode) (listing : Listing)
    (name : String) :
    childNamed (child :: listing) (utf8 name) =
      if child.1 = name then some child.2
      else childNamed listing (utf8 name) := by
  rw [childNamed, List.find?_cons]
  by_cases same : child.1 = name
  · simp [same]
  · have other : utf8 child.1 ≠ utf8 name := utf8_injective.ne same
    simp [same, other, childNamed]

/-- There is nothing below what is not a directory. -/
theorem RootNode.isDir_of_atPath {node found : RootNode} {path : Path}
    (notHere : path ≠ []) (search : node.atPath path = some found) :
    node.isDir = true := by
  cases path with
  | nil => exact absurd rfl notHere
  | cons name path =>
      cases node with
      | dir listing => rfl
      | file mode data => cases search
      | symlink target => cases search

theorem mem_of_childNamed {name : String} {node : RootNode}
    (named : childNamed listing (utf8 name) = some node) :
    (name, node) ∈ listing := by
  induction listing with
  | nil => cases named
  | cons child listing induction =>
      rw [childNamed_cons] at named
      split at named
      case isTrue same =>
        cases named
        rw [← same]
        exact List.mem_cons_self
      case isFalse => exact List.mem_cons_of_mem child (induction named)

theorem Everywhere.atPath {property : Listing → Prop} {path : Path}
    {below : Listing} (everywhere : Everywhere property listing)
    (found : (RootNode.dir listing).atPath path = some (.dir below)) :
    Everywhere property below := by
  induction path generalizing listing with
  | nil =>
      cases found
      exact everywhere
  | cons name path induction =>
      obtain ⟨_, deeper⟩ := everywhere
      obtain ⟨child, named, inside⟩ := Option.bind_eq_some_iff.mp found
      have within := deeper _ (mem_of_childNamed named)
      have directory : child.isDir = true := by
        by_cases last : path = []
        · subst last
          cases inside
          rfl
        · exact RootNode.isDir_of_atPath last inside
      obtain ⟨entries, rfl⟩ := RootNode.exists_of_isDir directory
      exact induction within inside

end Paths

section PrunedTree

variable {failures : Failures} {keep : List String} {rel path : Path}
  {listing : Listing}

end PrunedTree

/-- A directory without its entries; anything else as it is. -/
def RootNode.bare : RootNode → RootNode
  | .dir _ => .dir []
  | leaf => leaf

section Change

variable {path : Path} {listing before after below changed : Listing}

end Change

section Result

variable {failures : Failures} {input : PruneInput} {after : Listing}

end Result

section Present

end Present

end MachinedRs
