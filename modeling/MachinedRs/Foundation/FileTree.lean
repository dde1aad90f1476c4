import MachinedRs.Foundation.FileSystem

/-!
# Directory trees under operations that fail or are cut off

Where directories matter, the files of a machine form a tree.  An operation
runs as the system call does, or fails without effect, or takes effect and
reports a failure, or is cut off with a part of its effect.  A directory is
renamed in one step, and only onto nothing or onto an empty directory.
-/

namespace Foundation

inductive TreeNode where
  | dir (mode : Nat)
  | file (content : Content) (mode : Nat)
deriving DecidableEq, Repr

/-- Nodes by their paths; an entry hides the later ones under its path. -/
structure Tree where
  entries : List (Path × TreeNode)
deriving DecidableEq

namespace Tree

def lookup (tree : Tree) (path : Path) : Option TreeNode :=
  tree.entries.lookup path

def put (tree : Tree) (path : Path) (node : TreeNode) : Tree :=
  { entries := (path, node) :: tree.entries }

def remove (tree : Tree) (gone : Path → Bool) : Tree :=
  { entries := tree.entries.filter fun entry => !gone entry.1 }

/-- Everything at and below `source` goes to `target`. -/
def move (tree : Tree) (source target : Path) : Tree :=
  { entries := (tree.remove fun path => target <+: path).entries.map
      fun entry =>
        if source <+: entry.1 then
          (target ++ entry.1.drop source.length, entry.2)
        else
          entry }

/-- The root is always there. -/
def isDir (tree : Tree) (path : Path) : Bool :=
  match path, tree.lookup path with
  | [], _ => true
  | _, some (.dir _) => true
  | _, _ => false

/-- Nothing is below the path. -/
def isEmpty (tree : Tree) (path : Path) : Bool :=
  tree.entries.all fun entry =>
    entry.1 = path ∨ ¬ path <+: entry.1

/-- A file can be put there. -/
def writable (tree : Tree) (path : Path) : Bool :=
  tree.isDir path.dropLast &&
    match tree.lookup path with
    | some (.dir _) => false
    | _ => true

/-- Replace the content of a file, or make a new one. -/
def putFile (tree : Tree) (path : Path) (content : Content) : Tree :=
  match tree.lookup path with
  | some (.file _ mode) => tree.put path (.file content mode)
  | _ => tree.put path (.file content 0o644)

/-- The directories from the root down to the path. -/
def ancestry (path : Path) : List Path :=
  path.inits.filter fun dir => dir ≠ []

/-- No file is in the way. -/
def creatable (tree : Tree) (path : Path) : Bool :=
  (ancestry path).all fun dir =>
    match tree.lookup dir with
    | some (.file _ _) => false
    | _ => true

def createDirs (tree : Tree) (dirs : List Path) : Tree :=
  dirs.foldl
    (fun tree dir =>
      match tree.lookup dir with
      | none => tree.put dir (.dir 0o755)
      | some _ => tree)
    tree

@[simp] theorem lookup_put (tree : Tree) (path other : Path)
    (node : TreeNode) :
    (tree.put path node).lookup other =
      if other = path then some node else tree.lookup other := by
  by_cases same : other = path
  · simp [lookup, put, same]
  · simp [lookup, put, List.lookup_cons, same, beq_eq_false_iff_ne.mpr same]

@[simp] theorem lookup_remove (tree : Tree) (gone : Path → Bool)
    (path : Path) :
    (tree.remove gone).lookup path =
      if gone path then none else tree.lookup path := by
  obtain ⟨entries⟩ := tree
  simp only [lookup, remove]
  induction entries with
  | nil => simp
  | cons entry entries induction =>
      obtain ⟨key, node⟩ := entry
      rw [List.filter_cons]
      by_cases same : path = key
      · subst same
        by_cases isGone : gone path = true
        · simpa [isGone] using induction
        · simp [isGone]
      · have differs := beq_eq_false_iff_ne.mpr same
        by_cases isGone : gone key = true
        · simpa [isGone, List.lookup_cons, differs] using induction
        · simpa [isGone, List.lookup_cons, differs] using induction

theorem lookup_putFile (tree : Tree) (path other : Path)
    (content : Content) :
    ∃ mode, (tree.putFile path content).lookup other =
      if other = path then some (.file content mode)
      else tree.lookup other := by
  unfold putFile
  split
  · exact ⟨_, lookup_put _ _ _ _⟩
  · exact ⟨_, lookup_put _ _ _ _⟩

/-- Neither path is at or below the other. -/
def Apart (first second : Path) : Prop :=
  ¬ first <+: second ∧ ¬ second <+: first

instance (first second : Path) : Decidable (Apart first second) :=
  inferInstanceAs (Decidable (_ ∧ _))

/-- Nothing lies below two paths that are apart. -/
theorem Apart.not_both {first second path : Path} (apart : Apart first second)
    (below : first <+: path) : ¬ second <+: path := by
  intro belowSecond
  rcases List.prefix_or_prefix_of_prefix below belowSecond with under | under
  · exact apart.1 under
  · exact apart.2 under

/-- A renaming of paths under which `path` can only come from `origin`. -/
theorem lookup_map_key {rename : Path → Path} {path : Path} (origin : Path)
    {entries : List (Path × TreeNode)}
    (comes : ∀ entry ∈ entries, rename entry.1 = path ↔ entry.1 = origin) :
    (entries.map fun entry => (rename entry.1, entry.2)).lookup path =
      entries.lookup origin := by
  induction entries with
  | nil => rfl
  | cons entry entries induction =>
      have rest := induction fun other member =>
        comes other (List.mem_cons_of_mem _ member)
      have here := comes entry List.mem_cons_self
      rw [List.map_cons, List.lookup_cons, List.lookup_cons, rest]
      by_cases same : entry.1 = origin
      · rw [here.mpr same, same]
        simp
      · have differs : (path == rename entry.1) = false :=
          beq_eq_false_iff_ne.mpr fun equal => same (here.mp equal.symm)
        have apart : (origin == entry.1) = false :=
          beq_eq_false_iff_ne.mpr fun equal => same equal.symm
        rw [differs, apart]

/-- Where `move` puts the node of a path. -/
def movedPath (source target path : Path) : Path :=
  if source <+: path then target ++ path.drop source.length else path

theorem entries_move (tree : Tree) (source target : Path) :
    (tree.move source target).entries =
      (tree.remove fun path => target <+: path).entries.map fun entry =>
        (movedPath source target entry.1, entry.2) := by
  apply List.map_congr_left
  intro entry _
  by_cases below : source <+: entry.1
  · simp [movedPath, below]
  · simp [movedPath, below]

theorem lookup_move_aside (tree : Tree) {source target path : Path}
    (notSource : ¬ source <+: path) (notTarget : ¬ target <+: path) :
    (tree.move source target).lookup path = tree.lookup path := by
  rw [lookup, entries_move, lookup_map_key path]
  · exact (lookup_remove tree _ path).trans
      (if_neg (by simpa using notTarget))
  · intro entry member
    rw [movedPath]
    split
    · rename_i below
      constructor
      · intro same
        exact absurd ⟨_, same⟩ notTarget
      · intro same
        exact absurd (same ▸ below) notSource
    · rfl

theorem lookup_move (tree : Tree) {source target : Path}
    (apart : Apart source target) (rest : Path) :
    (tree.move source target).lookup (target ++ rest) =
      tree.lookup (source ++ rest) := by
  have notBelow : ∀ entry ∈
      (tree.remove fun path => target <+: path).entries,
      ¬ target <+: entry.1 := by
    intro entry member
    simpa using (List.mem_filter.mp member).2
  have outside : ¬ target <+: source ++ rest :=
    apart.not_both (List.prefix_append source rest)
  rw [lookup, entries_move, lookup_map_key (source ++ rest)]
  · exact (lookup_remove tree _ (source ++ rest)).trans
      (if_neg (by simpa using outside))
  · intro entry member
    rw [movedPath]
    split
    · rename_i below
      obtain ⟨tail, equality⟩ := below
      rw [← equality, List.drop_left, List.append_cancel_left_eq,
        List.append_cancel_left_eq]
    · rename_i aside
      constructor
      · intro same
        exact absurd ⟨rest, same.symm⟩ (notBelow entry member)
      · intro same
        exact absurd ⟨rest, same.symm⟩ aside

theorem isEmpty_eq_false {tree : Tree} {dir path : Path} {node : TreeNode}
    (present : tree.lookup path = some node) (below : dir <+: path)
    (strictly : path ≠ dir) : tree.isEmpty dir = false := by
  obtain ⟨before, after, entries, _⟩ := List.lookup_eq_some_iff.mp present
  have member : (path, node) ∈ tree.entries := by
    rw [entries]
    simp
  rw [isEmpty, List.all_eq_false]
  exact ⟨(path, node), member, by simp [strictly, below]⟩

theorem mem_ancestry {path dir : Path} :
    dir ∈ ancestry path ↔ dir <+: path ∧ dir ≠ [] := by
  simp [ancestry]

/-- Making directories leaves a path alone, or puts one where nothing was. -/
theorem lookup_createDirs (tree : Tree) (dirs : List Path) (path : Path) :
    (tree.createDirs dirs).lookup path =
      if path ∈ dirs ∧ tree.lookup path = none then some (.dir 0o755)
      else tree.lookup path := by
  induction dirs generalizing tree with
  | nil => simp [createDirs]
  | cons dir dirs induction =>
      rw [createDirs, List.foldl_cons, ← createDirs, induction]
      cases stored : tree.lookup dir with
      | none =>
          by_cases same : path = dir
          · simp [same, stored]
          · simp [same]
      | some node =>
          by_cases same : path = dir
          · simp [same, stored]
          · simp [same]

/-- The last of the directories is there afterwards. -/
theorem lookup_createDirs_self {tree : Tree} {dir : Path}
    (creatable : tree.creatable dir = true) (proper : dir ≠ []) :
    ∃ mode, (tree.createDirs (ancestry dir)).lookup dir =
      some (.dir mode) := by
  have listed : dir ∈ ancestry dir :=
    mem_ancestry.mpr ⟨List.prefix_rfl, proper⟩
  rw [lookup_createDirs]
  cases found : tree.lookup dir with
  | none => exact ⟨0o755, if_pos ⟨listed, rfl⟩⟩
  | some node =>
      have clear := List.all_eq_true.mp creatable dir listed
      rw [found] at clear
      cases node with
      | file content mode => cases clear
      | dir mode => exact ⟨mode, if_neg (by simp)⟩

end Tree

inductive TreeOp where
  | exists (path : Path)
  | createDirAll (dir : Path)
  | removeDirAll (dir : Path)
  | setPermissions (path : Path) (mode : Nat)
  | write (path : Path) (content : Content)
  | copy (source target : Path)
  | readToString (path : Path)
  | sync (path : Path)
  | rename (source target : Path)
deriving DecidableEq, Repr

/-- Errors are what they display. -/
@[reducible] def TreeOp.Answer : TreeOp → Type
  | .exists _ => Bool
  | .readToString _ => Except String String
  | _ => Except String Unit

abbrev treeSignature : Signature :=
  { Op := TreeOp, Answer := TreeOp.Answer }

/-- How an operation ends.  A late one has had its effect before it fails; a cut
one has written or created this much, or removed these paths. -/
inductive TreeFate where
  | runs
  | fails (message : String)
  | late (message : String)
  | cut (extent : Nat) (removed : List Path) (message : String)
deriving DecidableEq, Repr

namespace TreeOp

def noSuchFile : String :=
  "No such file or directory (os error 2)"

def fileExists : String :=
  "File exists (os error 17)"

def notDirectory : String :=
  "Not a directory (os error 20)"

def isDirectory : String :=
  "Is a directory (os error 21)"

def invalidArgument : String :=
  "Invalid argument (os error 22)"

def notEmpty : String :=
  "Directory not empty (os error 39)"

def notRegular : String :=
  "the source path is neither a regular file nor a symlink to a regular file"

/-- Why a directory cannot be made: a file is there, or above. -/
def createError (tree : Tree) (dir : Path) : String :=
  match tree.lookup dir with
  | some _ => fileExists
  | none => notDirectory

/-- Why a file cannot be written: a directory is there, or a directory above is
missing or a file. -/
def writeError (tree : Tree) (path : Path) : String :=
  if tree.isDir path then isDirectory
  else if tree.creatable path.dropLast then noSuchFile
  else notDirectory

/-- A rename onto what is there: a directory replaces an empty directory, a
file replaces a file. -/
def renamed (tree : Tree) (source target : Path) :
    Except String Unit × Tree :=
  if source = target then
    (.ok (), tree)
  else if source <+: target then
    (.error invalidArgument, tree)
  else if tree.isDir target.dropLast = false then
    (.error noSuchFile, tree)
  else
    match tree.lookup source, tree.lookup target with
    | none, _ => (.error noSuchFile, tree)
    | some _, none => (.ok (), tree.move source target)
    | some (.dir _), some (.dir _) =>
        if tree.isEmpty target then (.ok (), tree.move source target)
        else (.error notEmpty, tree)
    | some (.dir _), some (.file _ _) => (.error notDirectory, tree)
    | some (.file _ _), some (.dir _) => (.error isDirectory, tree)
    | some (.file _ _), some (.file _ _) => (.ok (), tree.move source target)

/-- The operation when nothing goes wrong from outside. -/
def run (tree : Tree) : (operation : TreeOp) → operation.Answer × Tree
  | .exists path => ((tree.lookup path).isSome, tree)
  | .createDirAll dir =>
      if tree.creatable dir then
        (.ok (), tree.createDirs (Tree.ancestry dir))
      else
        (.error (createError tree dir), tree)
  | .removeDirAll dir =>
      match tree.lookup dir with
      | none => (.error noSuchFile, tree)
      | some (.file _ _) => (.error notDirectory, tree)
      | some (.dir _) => (.ok (), tree.remove fun path => dir <+: path)
  | .setPermissions path mode =>
      match tree.lookup path with
      | none => (.error noSuchFile, tree)
      | some (.dir _) => (.ok (), tree.put path (.dir mode))
      | some (.file content _) => (.ok (), tree.put path (.file content mode))
  | .write path content =>
      if tree.writable path then (.ok (), tree.putFile path content)
      else (.error (writeError tree path), tree)
  | .copy source target =>
      match tree.lookup source with
      | some (.file content mode) =>
          if tree.writable target then
            (.ok (), tree.put target (.file content mode))
          else
            (.error (writeError tree target), tree)
      | some (.dir _) => (.error notRegular, tree)
      | none => (.error noSuchFile, tree)
  | .readToString path =>
      match tree.lookup path with
      | some (.file content _) =>
          match content.text? with
          | some text => (.ok text, tree)
          | none => (.error "stream did not contain valid UTF-8", tree)
      | some (.dir _) => (.error isDirectory, tree)
      | none => (.error noSuchFile, tree)
  | .sync path =>
      match tree.lookup path with
      | some _ => (.ok (), tree)
      | none => (.error noSuchFile, tree)
  | .rename source target => renamed tree source target

/-- The answer of an operation that failed; a path whose existence cannot be
checked counts as absent. -/
def refused (message : String) : (operation : TreeOp) → operation.Answer
  | .exists _ => false
  | .createDirAll _ => .error message
  | .removeDirAll _ => .error message
  | .setPermissions _ _ => .error message
  | .write _ _ => .error message
  | .copy _ _ => .error message
  | .readToString _ => .error message
  | .sync _ => .error message
  | .rename _ _ => .error message

/-- What an operation that is cut off leaves behind.  A cut write lacks at least
one byte. -/
def cutOff (tree : Tree) (extent : Nat) (removed : List Path) :
    TreeOp → Option Tree
  | .createDirAll dir =>
      if tree.creatable dir then
        some (tree.createDirs ((Tree.ancestry dir).take extent))
      else
        none
  | .removeDirAll dir =>
      match tree.lookup dir with
      | some (.dir _) =>
          some (tree.remove fun path => dir <+: path ∧ path ∈ removed)
      | _ => none
  | .write path content =>
      if tree.writable path ∧ extent < content.bytes.length then
        some (tree.putFile path (content.written extent))
      else
        none
  | .copy source target =>
      match tree.lookup source with
      | some (.file content mode) =>
          if tree.writable target ∧ extent < content.bytes.length then
            some (tree.put target (.file (content.written extent) mode))
          else
            none
      | _ => none
  | _ => none

def perform (tree : Tree) (operation : TreeOp) :
    TreeFate → Option (operation.Answer × Tree)
  | .runs => some (operation.run tree)
  | .fails message => some (operation.refused message, tree)
  | .late message => some (operation.refused message, (operation.run tree).2)
  | .cut extent removed message =>
      (operation.cutOff tree extent removed).map fun after =>
        (operation.refused message, after)

/-- The paths whose nodes the operation may change. -/
def Touches (path : Path) : TreeOp → Prop
  | .createDirAll dir => path <+: dir
  | .removeDirAll dir => dir <+: path
  | .setPermissions target _ => path = target
  | .write target _ => path = target
  | .copy _ target => path = target
  | .rename source target => source <+: path ∨ target <+: path
  | _ => False

/-- The operation did what it was asked to. -/
def Succeeded : (operation : TreeOp) → operation.Answer → Prop
  | .exists _, (found : Bool) => found = true
  | .readToString _, (read : Except String String) => ∃ text, read = .ok text
  | .createDirAll _, (answer : Except String Unit) => answer = .ok ()
  | .removeDirAll _, (answer : Except String Unit) => answer = .ok ()
  | .setPermissions _ _, (answer : Except String Unit) => answer = .ok ()
  | .write _ _, (answer : Except String Unit) => answer = .ok ()
  | .copy _ _, (answer : Except String Unit) => answer = .ok ()
  | .sync _, (answer : Except String Unit) => answer = .ok ()
  | .rename _ _, (answer : Except String Unit) => answer = .ok ()

theorem not_succeeded_refused (message : String) (operation : TreeOp) :
    ¬ operation.Succeeded (operation.refused message) := by
  cases operation with
  | readToString path =>
      rintro ⟨text, same⟩
      cases same
  | _ =>
      intro same
      cases same

/-- Only an operation that ran succeeds. -/
theorem run_of_succeeded {tree after : Tree} {operation : TreeOp}
    {fate : TreeFate} {answer : operation.Answer}
    (performed : operation.perform tree fate = some (answer, after))
    (succeeded : operation.Succeeded answer) :
    operation.run tree = (answer, after) := by
  cases fate with
  | runs => exact Option.some.inj performed
  | fails message =>
      cases performed
      exact absurd succeeded (not_succeeded_refused message operation)
  | late message =>
      cases performed
      exact absurd succeeded (not_succeeded_refused message operation)
  | cut extent removed message =>
      obtain ⟨left, _, equality⟩ := Option.map_eq_some_iff.mp performed
      cases equality
      exact absurd succeeded (not_succeeded_refused message operation)

/-- An operation that cannot be cut off has its effect or none. -/
theorem perform_atomic {tree after : Tree} {operation : TreeOp}
    (atomic : ∀ extent removed,
      operation.cutOff tree extent removed = none)
    {fate : TreeFate} {answer : operation.Answer}
    (performed : operation.perform tree fate = some (answer, after)) :
    after = tree ∨ after = (operation.run tree).2 := by
  cases fate with
  | runs =>
      have ran := Option.some.inj performed
      rw [ran]
      exact .inr rfl
  | fails message =>
      cases performed
      exact .inl rfl
  | late message =>
      cases performed
      exact .inr rfl
  | cut extent removed message =>
      rw [perform, atomic] at performed
      cases performed

/-- A directory is renamed as a whole, onto nothing or onto an empty directory,
or it stays. -/
theorem renamed_dir {tree : Tree} {source : Path} {mode : Nat}
    (isDir : tree.lookup source = some (.dir mode)) (target : Path) :
    (renamed tree source target).2 = tree ∨
      ((renamed tree source target).2 = tree.move source target ∧
        (tree.lookup target = none ∨ tree.isEmpty target = true)) := by
  unfold renamed
  split
  · exact .inl rfl
  split
  · exact .inl rfl
  split
  · exact .inl rfl
  rw [isDir]
  cases found : tree.lookup target with
  | none => exact .inr ⟨rfl, .inl rfl⟩
  | some node =>
      cases node with
      | file content fileMode => exact .inl rfl
      | dir dirMode =>
          dsimp only
          split
          · rename_i empty
            exact .inr ⟨rfl, .inr empty⟩
          · exact .inl rfl

theorem rename_dir {tree after : Tree} {source target : Path} {mode : Nat}
    (isDir : tree.lookup source = some (.dir mode)) {fate : TreeFate}
    {answer : Except String Unit}
    (performed : perform tree (.rename source target) fate =
      some (answer, after)) :
    after = tree ∨ (after = tree.move source target ∧
      (tree.lookup target = none ∨ tree.isEmpty target = true)) := by
  rcases perform_atomic (fun _ _ => rfl) performed with unchanged | ran
  · exact .inl unchanged
  · rw [ran]
    exact renamed_dir isDir target

theorem run_renamed_aside {tree : Tree} {source target path : Path}
    (notSource : ¬ source <+: path) (notTarget : ¬ target <+: path) :
    (renamed tree source target).2.lookup path = tree.lookup path := by
  have moved := tree.lookup_move_aside notSource notTarget
  unfold renamed
  split
  · rfl
  split
  · rfl
  split
  · rfl
  split
  · rfl
  · exact moved
  · split
    · exact moved
    · rfl
  · rfl
  · rfl
  · exact moved

theorem run_aside (tree : Tree) {operation : TreeOp} {path : Path}
    (aside : ¬ operation.Touches path) :
    (operation.run tree).2.lookup path = tree.lookup path := by
  cases operation with
  | «exists» other => rfl
  | readToString other =>
      simp only [run]
      split
      · split
        · rfl
        · rfl
      · rfl
      · rfl
  | sync other =>
      simp only [run]
      split
      · rfl
      · rfl
  | createDirAll dir =>
      simp only [run]
      split
      · rw [Tree.lookup_createDirs, if_neg]
        rintro ⟨member, _⟩
        exact aside (Tree.mem_ancestry.mp member).1
      · rfl
  | removeDirAll dir =>
      have notBelow : ¬ dir <+: path := aside
      simp only [run]
      split
      · rfl
      · rfl
      · rw [Tree.lookup_remove, if_neg (by simpa using notBelow)]
  | setPermissions target mode =>
      have differs : path ≠ target := aside
      simp only [run]
      split
      · rfl
      · rw [Tree.lookup_put, if_neg differs]
      · rw [Tree.lookup_put, if_neg differs]
  | write target content =>
      have differs : path ≠ target := aside
      simp only [run]
      split
      · obtain ⟨mode, found⟩ := tree.lookup_putFile target path content
        rw [found, if_neg differs]
      · rfl
  | copy source target =>
      have differs : path ≠ target := aside
      simp only [run]
      split
      · split
        · rw [Tree.lookup_put, if_neg differs]
        · rfl
      · rfl
      · rfl
  | rename source target =>
      have apart := not_or.mp aside
      exact run_renamed_aside apart.1 apart.2

theorem cutOff_aside {tree after : Tree} {extent : Nat}
    {removed : List Path} {operation : TreeOp} {path : Path}
    (left : operation.cutOff tree extent removed = some after)
    (aside : ¬ operation.Touches path) :
    after.lookup path = tree.lookup path := by
  cases operation with
  | createDirAll dir =>
      obtain ⟨_, equality⟩ := Option.ite_none_right_eq_some.mp left
      cases equality
      rw [Tree.lookup_createDirs, if_neg]
      rintro ⟨member, _⟩
      exact aside (Tree.mem_ancestry.mp (List.mem_of_mem_take member)).1
  | removeDirAll dir =>
      have notBelow : ¬ dir <+: path := aside
      simp only [cutOff] at left
      split at left
      · cases left
        rw [Tree.lookup_remove, if_neg (by simp [notBelow])]
      · cases left
  | write target content =>
      have differs : path ≠ target := aside
      obtain ⟨_, equality⟩ := Option.ite_none_right_eq_some.mp left
      cases equality
      obtain ⟨mode, found⟩ :=
        tree.lookup_putFile target path (content.written extent)
      rw [found, if_neg differs]
  | copy source target =>
      have differs : path ≠ target := aside
      simp only [cutOff] at left
      split at left
      · obtain ⟨_, equality⟩ := Option.ite_none_right_eq_some.mp left
        cases equality
        rw [Tree.lookup_put, if_neg differs]
      · cases left
  | _ => cases left

/-- However an operation ends, only the paths it touches change. -/
theorem perform_aside {tree after : Tree} {operation : TreeOp}
    {fate : TreeFate} {answer : operation.Answer}
    (performed : operation.perform tree fate = some (answer, after))
    {path : Path} (aside : ¬ operation.Touches path) :
    after.lookup path = tree.lookup path := by
  cases fate with
  | runs =>
      have ran := Option.some.inj performed
      have same := run_aside tree aside
      rw [ran] at same
      exact same
  | fails message =>
      cases performed
      rfl
  | late message =>
      cases performed
      exact run_aside tree aside
  | cut extent removed message =>
      obtain ⟨left, cut, equality⟩ := Option.map_eq_some_iff.mp performed
      cases equality
      exact cutOff_aside cut aside

/-- However the making of a directory ends, at a path nothing has changed or a
directory was made. -/
theorem createDirAll_made {tree after : Tree} {dir : Path} {fate : TreeFate}
    {answer : Except String Unit}
    (performed : perform tree (.createDirAll dir) fate =
      some (answer, after)) (path : Path) :
    after.lookup path = tree.lookup path ∨
      ∃ mode, after.lookup path = some (.dir mode) := by
  have made : ∀ dirs, (tree.createDirs dirs).lookup path =
      tree.lookup path ∨
        ∃ mode, (tree.createDirs dirs).lookup path = some (.dir mode) := by
    intro dirs
    rw [Tree.lookup_createDirs]
    split
    · exact .inr ⟨0o755, rfl⟩
    · exact .inl rfl
  have ran : (run tree (.createDirAll dir)).2.lookup path =
      tree.lookup path ∨
        ∃ mode, (run tree (.createDirAll dir)).2.lookup path =
          some (.dir mode) := by
    simp only [run]
    split
    · exact made _
    · exact .inl rfl
  cases fate with
  | runs =>
      have effect := Option.some.inj performed
      rw [effect] at ran
      exact ran
  | fails message =>
      cases performed
      exact .inl rfl
  | late message =>
      cases performed
      exact ran
  | cut extent removed message =>
      obtain ⟨left, cut, equality⟩ := Option.map_eq_some_iff.mp performed
      cases equality
      obtain ⟨_, sameLeft⟩ := Option.ite_none_right_eq_some.mp cut
      cases sameLeft
      exact made _

/-- A change of mode keeps a file's content. -/
theorem setPermissions_content {tree after : Tree} {path : Path}
    {mode newMode : Nat} {content : Content} {fate : TreeFate}
    {answer : Except String Unit}
    (found : tree.lookup path = some (.file content mode))
    (performed : perform tree (.setPermissions path newMode) fate =
      some (answer, after)) :
    ∃ mode, after.lookup path = some (.file content mode) := by
  rcases perform_atomic (fun _ _ => rfl) performed with rfl | rfl
  · exact ⟨mode, found⟩
  · simp only [run, found]
    exact ⟨newMode, by rw [Tree.lookup_put, if_pos rfl]⟩

theorem copy_succeeded {tree after : Tree} {source target : Path}
    {fate : TreeFate}
    (performed : perform tree (.copy source target) fate =
      some (.ok (), after)) :
    ∃ content mode, tree.lookup source = some (.file content mode) ∧
      after.lookup target = some (.file content mode) := by
  have ran := run_of_succeeded performed rfl
  simp only [run] at ran
  split at ran
  · rename_i content mode found
    split at ran
    · cases ran
      exact ⟨content, mode, found, by rw [Tree.lookup_put, if_pos rfl]⟩
    · cases ran
  · cases ran
  · cases ran

theorem createDirAll_succeeded {tree after : Tree} {dir : Path}
    {fate : TreeFate} (proper : dir ≠ [])
    (performed : perform tree (.createDirAll dir) fate =
      some (.ok (), after)) :
    ∃ mode, after.lookup dir = some (.dir mode) := by
  have ran := run_of_succeeded performed rfl
  simp only [run] at ran
  split at ran
  · rename_i creatable
    cases ran
    exact Tree.lookup_createDirs_self creatable proper
  · cases ran

end TreeOp

def treeMachine : Machine treeSignature Tree TreeFate :=
  { perform := TreeOp.perform }

/-- Run a program to its end with nothing going wrong from outside. -/
def undisturbed {α : Type} : Program treeSignature α → Tree → α × Tree
  | .done value, tree => (value, tree)
  | .call operation next, tree =>
      undisturbed (next (operation.run tree).1) (operation.run tree).2

theorem undisturbed_call {α : Type} (operation : TreeOp)
    (next : operation.Answer → Program treeSignature α) (tree : Tree) :
    undisturbed (.call operation next) tree =
      undisturbed (next (operation.run tree).1) (operation.run tree).2 :=
  rfl

theorem undisturbed_bind {α β : Type} (program : Program treeSignature α)
    (next : α → Program treeSignature β) (tree : Tree) :
    undisturbed (program.bind next) tree =
      undisturbed (next (undisturbed program tree).1)
        (undisturbed program tree).2 := by
  induction program generalizing tree with
  | done value => rfl
  | call operation following induction =>
      exact induction (operation.run tree).1 (operation.run tree).2

end Foundation
