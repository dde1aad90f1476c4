import Mathlib.Data.List.Basic

/-!
# Paths through symbolic links

A tree holds directories, files and symbolic links, each at the path of real
directories that leads to it.  A path given to the system is walked from a
directory, name by name, and every link met on the way is followed, up to a
number of them; where the walk ends is the place that an operation on the path
is about.  A path of names stays below the directory it starts in if every link
it meets is relative and climbs no higher.
-/

namespace Foundation

/-- A part of a path; parts that stay where they are do not count. -/
inductive Segment (Name : Type) where
  | name (name : Name)
  | parent
deriving DecidableEq, Repr

structure LinkTarget (Name : Type) where
  absolute : Bool
  segments : List (Segment Name)
deriving DecidableEq, Repr

inductive LinkNode (Name File : Type) where
  | dir
  | file (file : File)
  | symlink (target : LinkTarget Name)
deriving DecidableEq, Repr

/-- Whatever is in the tree is in a directory. -/
structure LinkTree (Name File : Type) where
  node : List Name → Option (LinkNode Name File)
  root : node [] = some .dir
  closed : ∀ path name, node (path ++ [name]) ≠ none → node path = some .dir

/-- Nothing but the root. -/
def LinkTree.bare {Name File : Type} [DecidableEq Name] :
    LinkTree Name File :=
  { node := fun path => if path = [] then some .dir else none
    root := if_pos rfl
    closed := by
      intro path name there
      simp at there }

/-- How a call on a path fails. -/
inductive CallError where
  | notFound
  | notDirectory
  | tooManyLinks
  | alreadyExists
  | isDirectory
deriving DecidableEq, Repr

section Walk

variable {Name File : Type}

def walkWith (tree : LinkTree Name File)
    (follow : List Name → List (Segment Name) → Except CallError (List Name)) :
    List Name → List (Segment Name) → Except CallError (List Name)
  | cwd, [] => .ok cwd
  | cwd, .parent :: rest => walkWith tree follow cwd.dropLast rest
  | cwd, .name name :: rest =>
      match tree.node (cwd ++ [name]) with
      | some .dir => walkWith tree follow (cwd ++ [name]) rest
      | some (.symlink target) =>
          follow (if target.absolute then [] else cwd)
            (target.segments ++ rest)
      | some (.file _) =>
          match rest with
          | [] => .ok (cwd ++ [name])
          | _ => .error .notDirectory
      | none =>
          match rest with
          | [] => .ok (cwd ++ [name])
          | _ => .error .notFound

/-- Where a path leads from a directory; its last name may be missing. -/
def walk (tree : LinkTree Name File) :
    Nat → List Name → List (Segment Name) → Except CallError (List Name)
  | 0 => walkWith tree fun _ _ => .error .tooManyLinks
  | links + 1 => walkWith tree (walk tree links)

variable {tree : LinkTree Name File}

@[simp] theorem walk_nil (links : Nat) (cwd : List Name) :
    walk tree links cwd [] = .ok cwd := by
  cases links <;> rfl

@[simp] theorem walk_parent (links : Nat) (cwd : List Name)
    (rest : List (Segment Name)) :
    walk tree links cwd (.parent :: rest) =
      walk tree links cwd.dropLast rest := by
  cases links <;> rfl

theorem walk_dir {links : Nat} {cwd : List Name} {name : Name}
    (dir : tree.node (cwd ++ [name]) = some .dir)
    (rest : List (Segment Name)) :
    walk tree links cwd (.name name :: rest) =
      walk tree links (cwd ++ [name]) rest := by
  cases links <;> simp [walk, walkWith, dir]

theorem walk_symlink {links : Nat} {cwd : List Name} {name : Name}
    {target : LinkTarget Name}
    (link : tree.node (cwd ++ [name]) = some (.symlink target))
    (rest : List (Segment Name)) :
    walk tree (links + 1) cwd (.name name :: rest) =
      walk tree links (if target.absolute then [] else cwd)
        (target.segments ++ rest) := by
  simp [walk, walkWith, link]

theorem walk_symlink_zero {cwd : List Name} {name : Name}
    {target : LinkTarget Name}
    (link : tree.node (cwd ++ [name]) = some (.symlink target))
    (rest : List (Segment Name)) :
    walk tree 0 cwd (.name name :: rest) = .error .tooManyLinks := by
  simp [walk, walkWith, link]

/-- Where there is neither a directory nor a link, the walk ends. -/
theorem eq_of_walk_stops {links : Nat} {cwd last : List Name} {name : Name}
    {rest : List (Segment Name)}
    (notDir : tree.node (cwd ++ [name]) ≠ some .dir)
    (notLink : ∀ target, tree.node (cwd ++ [name]) ≠ some (.symlink target))
    (reached : walk tree links cwd (.name name :: rest) = .ok last) :
    last = cwd ++ [name] := by
  cases found : tree.node (cwd ++ [name]) with
  | none => cases links <;> cases rest <;> simp_all [walk, walkWith]
  | some node =>
      cases node with
      | dir => exact absurd found notDir
      | symlink target => exact absurd found (notLink target)
      | file file => cases links <;> cases rest <;> simp_all [walk, walkWith]

/-- The cases of a path, by the link at its next name. -/
theorem walk_induction (tree : LinkTree Name File)
    {motive : Nat → List Name → List (Segment Name) → Prop}
    (nil : ∀ links cwd, motive links cwd [])
    (parent : ∀ links cwd rest, motive links cwd.dropLast rest →
      motive links cwd (.parent :: rest))
    (plain : ∀ links cwd name rest,
      (∀ target, tree.node (cwd ++ [name]) ≠ some (.symlink target)) →
        motive links (cwd ++ [name]) rest →
          motive links cwd (.name name :: rest))
    (symlink : ∀ links cwd name target rest,
      tree.node (cwd ++ [name]) = some (.symlink target) →
        motive links (if target.absolute then [] else cwd)
            (target.segments ++ rest) →
          motive (links + 1) cwd (.name name :: rest))
    (noLinks : ∀ cwd name target rest,
      tree.node (cwd ++ [name]) = some (.symlink target) →
        motive 0 cwd (.name name :: rest))
    (links : Nat) (cwd : List Name) (segments : List (Segment Name)) :
    motive links cwd segments := by
  induction links generalizing cwd segments with
  | zero =>
      induction segments generalizing cwd with
      | nil => exact nil 0 cwd
      | cons segment rest induction =>
          cases segment with
          | parent => exact parent 0 cwd rest (induction _)
          | name next =>
              by_cases link : ∃ target,
                  tree.node (cwd ++ [next]) = some (.symlink target)
              · obtain ⟨target, found⟩ := link
                exact noLinks cwd next target rest found
              · exact plain 0 cwd next rest (not_exists.mp link) (induction _)
  | succ links fewer =>
      induction segments generalizing cwd with
      | nil => exact nil _ cwd
      | cons segment rest induction =>
          cases segment with
          | parent => exact parent _ cwd rest (induction _)
          | name next =>
              by_cases link : ∃ target,
                  tree.node (cwd ++ [next]) = some (.symlink target)
              · obtain ⟨target, found⟩ := link
                exact symlink links cwd next target rest found (fewer _ _)
              · exact plain _ cwd next rest (not_exists.mp link) (induction _)

end Walk

section Met

variable {Name File : Type}

def metWith (tree : LinkTree Name File)
    (follow : List Name → List (Segment Name) →
      List (List Name × LinkTarget Name)) :
    List Name → List (Segment Name) → List (List Name × LinkTarget Name)
  | _, [] => []
  | cwd, .parent :: rest => metWith tree follow cwd.dropLast rest
  | cwd, .name name :: rest =>
      match tree.node (cwd ++ [name]) with
      | some (.symlink target) =>
          (cwd, target) :: follow (if target.absolute then [] else cwd)
            (target.segments ++ rest)
      | _ => metWith tree follow (cwd ++ [name]) rest

/-- The links on a path, each with the directory it is in. -/
def met (tree : LinkTree Name File) :
    Nat → List Name → List (Segment Name) → List (List Name × LinkTarget Name)
  | 0 => metWith tree fun _ _ => []
  | links + 1 => metWith tree (met tree links)

variable {tree : LinkTree Name File}

@[simp] theorem met_nil (links : Nat) (cwd : List Name) :
    met tree links cwd [] = [] := by
  cases links <;> rfl

@[simp] theorem met_parent (links : Nat) (cwd : List Name)
    (rest : List (Segment Name)) :
    met tree links cwd (.parent :: rest) =
      met tree links cwd.dropLast rest := by
  cases links <;> rfl

theorem met_plain {links : Nat} {cwd : List Name} {name : Name}
    (notLink : ∀ target, tree.node (cwd ++ [name]) ≠ some (.symlink target))
    (rest : List (Segment Name)) :
    met tree links cwd (.name name :: rest) =
      met tree links (cwd ++ [name]) rest := by
  cases found : tree.node (cwd ++ [name]) with
  | none => cases links <;> simp [met, metWith, found]
  | some node =>
      cases node with
      | symlink target => exact absurd found (notLink target)
      | dir => cases links <;> simp [met, metWith, found]
      | file file => cases links <;> simp [met, metWith, found]

theorem met_symlink {links : Nat} {cwd : List Name} {name : Name}
    {target : LinkTarget Name}
    (link : tree.node (cwd ++ [name]) = some (.symlink target))
    (rest : List (Segment Name)) :
    met tree (links + 1) cwd (.name name :: rest) =
      (cwd, target) :: met tree links (if target.absolute then [] else cwd)
        (target.segments ++ rest) := by
  simp [met, metWith, link]

theorem met_symlink_zero {cwd : List Name} {name : Name}
    {target : LinkTarget Name}
    (link : tree.node (cwd ++ [name]) = some (.symlink target))
    (rest : List (Segment Name)) :
    met tree 0 cwd (.name name :: rest) = [(cwd, target)] := by
  simp [met, metWith, link]

/-- The front of a path meets no other links. -/
theorem met_append (links : Nat) (cwd : List Name)
    (first rest : List (Segment Name)) :
    met tree links cwd first ⊆ met tree links cwd (first ++ rest) := by
  induction links, cwd, first using walk_induction tree with
  | nil links cwd =>
      rw [met_nil]
      exact List.nil_subset _
  | parent links cwd further induction =>
      rw [List.cons_append, met_parent, met_parent]
      exact induction
  | plain links cwd name further notLink induction =>
      rw [List.cons_append, met_plain notLink, met_plain notLink]
      exact induction
  | symlink links cwd name target further link induction =>
      rw [List.append_assoc] at induction
      rw [List.cons_append, met_symlink link, met_symlink link]
      exact List.cons_subset_cons _ induction
  | noLinks cwd name target further link =>
      rw [List.cons_append, met_symlink_zero link, met_symlink_zero link]
      exact List.Subset.refl _

def LinkTree.SameLinks (tree other : LinkTree Name File) : Prop :=
  ∀ path target, other.node path = some (.symlink target) ↔
    tree.node path = some (.symlink target)

/-- The links on a path depend on the links of the tree alone. -/
theorem LinkTree.SameLinks.met {other : LinkTree Name File}
    (same : tree.SameLinks other) (links : Nat) (cwd : List Name)
    (segments : List (Segment Name)) :
    Foundation.met other links cwd segments =
      Foundation.met tree links cwd segments := by
  induction links, cwd, segments using walk_induction tree with
  | nil links cwd => rw [met_nil, met_nil]
  | parent links cwd rest induction =>
      rw [met_parent, met_parent]
      exact induction
  | plain links cwd name rest notLink induction =>
      rw [met_plain notLink, met_plain]
      · exact induction
      · intro target link
        exact notLink target ((same _ target).mp link)
  | symlink links cwd name target rest link induction =>
      rw [met_symlink link, met_symlink ((same _ target).mpr link), induction]
  | noLinks cwd name target rest link =>
      rw [met_symlink_zero link, met_symlink_zero ((same _ target).mpr link)]

end Met

section Below

variable {Name File : Type}

/-- All steps up come first, and none of them leaves the top. -/
def StaysBelow (top : List Name) : List Name → List (Segment Name) → Prop
  | _, [] => True
  | cwd, .parent :: rest =>
      top.length < cwd.length ∧ StaysBelow top cwd.dropLast rest
  | _, .name _ :: rest => .parent ∉ rest

instance decidableStaysBelow [DecidableEq Name] (top : List Name) :
    (cwd : List Name) → (segments : List (Segment Name)) →
      Decidable (StaysBelow top cwd segments)
  | _, [] => .isTrue trivial
  | cwd, .parent :: rest =>
      have := decidableStaysBelow top cwd.dropLast rest
      inferInstanceAs (Decidable (_ ∧ _))
  | _, .name _ :: rest => inferInstanceAs (Decidable (.parent ∉ rest))

def LinkTarget.StaysBelow (target : LinkTarget Name) (top place : List Name) :
    Prop :=
  target.absolute = false ∧ Foundation.StaysBelow top place target.segments

instance [DecidableEq Name] (target : LinkTarget Name)
    (top place : List Name) :
    Decidable (target.StaysBelow top place) :=
  inferInstanceAs (Decidable (_ ∧ _))

variable {tree : LinkTree Name File} {top cwd : List Name}
  {segments rest : List (Segment Name)}

theorem staysBelow_of_names (names : .parent ∉ segments) :
    StaysBelow top cwd segments := by
  cases segments with
  | nil => trivial
  | cons segment rest =>
      cases segment with
      | parent => exact absurd List.mem_cons_self names
      | name name => exact fun up => names (List.mem_cons_of_mem _ up)

theorem StaysBelow.append (below : StaysBelow top cwd segments)
    (names : .parent ∉ rest) : StaysBelow top cwd (segments ++ rest) := by
  induction segments generalizing cwd with
  | nil => exact staysBelow_of_names names
  | cons segment segments induction =>
      cases segment with
      | parent => exact ⟨below.1, induction below.2⟩
      | name name => exact fun up => (List.mem_append.mp up).elim below names

theorem prefix_dropLast (inside : top <+: cwd)
    (lower : top.length < cwd.length) : top <+: cwd.dropLast := by
  rw [List.dropLast_eq_take]
  exact List.prefix_take_iff.mpr ⟨inside, by omega⟩

/-- A walk stays below the top if each link it meets does. -/
theorem walk_below {links : Nat} {last : List Name} (inside : top <+: cwd)
    (below : StaysBelow top cwd segments)
    (allBelow : ∀ link ∈ met tree links cwd segments,
      link.2.StaysBelow top link.1)
    (reached : walk tree links cwd segments = .ok last) : top <+: last := by
  induction links, cwd, segments using walk_induction tree with
  | nil links cwd =>
      rw [walk_nil] at reached
      cases reached
      exact inside
  | parent links cwd rest induction =>
      rw [walk_parent] at reached
      rw [met_parent] at allBelow
      exact induction (prefix_dropLast inside below.1) below.2 allBelow reached
  | plain links cwd name rest notLink induction =>
      have deeper : top <+: cwd ++ [name] :=
        inside.trans (List.prefix_append _ _)
      by_cases dir : tree.node (cwd ++ [name]) = some .dir
      · rw [walk_dir dir] at reached
        rw [met_plain notLink] at allBelow
        exact induction deeper (staysBelow_of_names below) allBelow reached
      · rw [eq_of_walk_stops dir notLink reached]
        exact deeper
  | symlink links cwd name target rest link induction =>
      rw [met_symlink link, List.forall_mem_cons] at allBelow
      obtain ⟨⟨relative, targetBelow⟩, later⟩ := allBelow
      rw [walk_symlink link] at reached
      have here : (if target.absolute then [] else cwd) = cwd := by
        rw [relative, if_neg Bool.false_ne_true]
      rw [here] at induction later reached
      exact induction inside (targetBelow.append below) later reached
  | noLinks cwd name target rest link =>
      rw [walk_symlink_zero link] at reached
      cases reached

end Below

end Foundation
