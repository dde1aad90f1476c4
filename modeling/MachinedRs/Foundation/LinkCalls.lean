import MachinedRs.Foundation.Symlink

/-!
# Calls that follow symbolic links

The calls that make directories and write files, on paths below a directory,
with a log of the places they touch.  None of them makes or removes a link, so
a path whose links stay below the directory keeps every call on it there.
-/

namespace Foundation

section Put

variable {Name File : Type} [DecidableEq Name] [DecidableEq File]

/-- A node can be put there: in a directory, and not over one. -/
def LinkTree.Accepts (tree : LinkTree Name File) (path : List Name) : Prop :=
  path ≠ [] ∧ tree.node path.dropLast = some .dir ∧
    tree.node path ≠ some .dir

instance (tree : LinkTree Name File) (path : List Name) :
    Decidable (tree.Accepts path) :=
  inferInstanceAs (Decidable (_ ∧ _ ∧ _))

def LinkTree.put (tree : LinkTree Name File) (path : List Name)
    (node : LinkNode Name File) : LinkTree Name File :=
  if accepts : tree.Accepts path then
    { node := fun other => if other = path then some node else tree.node other
      root := by
        rw [if_neg accepts.1.symm]
        exact tree.root
      closed := by
        intro other name there
        by_cases same : other ++ [name] = path
        · have parent : other = path.dropLast := by
            rw [← same, List.dropLast_concat]
          have shorter : other ≠ path := by
            rw [← same]
            simp
          rw [if_neg shorter, parent]
          exact accepts.2.1
        · rw [if_neg same] at there
          have dir := tree.closed other name there
          have different : other ≠ path := by
            rintro rfl
            exact accepts.2.2 dir
          rw [if_neg different]
          exact dir }
  else
    tree

variable {tree : LinkTree Name File}

theorem LinkTree.node_put {path : List Name} (accepts : tree.Accepts path)
    (node : LinkNode Name File) (other : List Name) :
    (tree.put path node).node other =
      if other = path then some node else tree.node other := by
  rw [put, dif_pos accepts]

theorem LinkTree.node_put_of_ne {path other : List Name}
    (different : other ≠ path) (node : LinkNode Name File) :
    (tree.put path node).node other = tree.node other := by
  by_cases accepts : tree.Accepts path
  · rw [node_put accepts, if_neg different]
  · rw [put, dif_neg accepts]

theorem LinkTree.sameLinks_put {path : List Name} {node : LinkNode Name File}
    (wasNoLink : ∀ target, tree.node path ≠ some (.symlink target))
    (noLink : ∀ target, node ≠ .symlink target) :
    tree.SameLinks (tree.put path node) := by
  intro other target
  by_cases same : other = path
  · subst same
    refine iff_of_false ?_ (wasNoLink target)
    by_cases accepts : tree.Accepts other
    · rw [node_put accepts, if_pos rfl]
      exact fun link => noLink target (Option.some.inj link)
    · rw [put, dif_neg accepts]
      exact wasNoLink target
  · rw [node_put_of_ne same]

end Put

section Calls

variable {Name File : Type} [DecidableEq Name] [DecidableEq File]

/-- The files, and the places where a file or directory was made, written or
changed. -/
structure Touching (Name File : Type) where
  tree : LinkTree Name File
  touched : List (List Name)

abbrev Call (Name File : Type) :=
  Touching Name File → Touching Name File × Except CallError Unit

/-- How many links the system follows on one path. -/
def maxLinks : Nat :=
  40

/-- Where a path of names below a directory leads. -/
def LinkTree.resolve (tree : LinkTree Name File) (start names : List Name) :
    Except CallError (List Name) :=
  walk tree maxLinks start (names.map .name)

def LinkTree.isDir (tree : LinkTree Name File) (start names : List Name) :
    Bool :=
  match tree.resolve start names with
  | .ok place => tree.node place = some .dir
  | .error _ => false

def Touching.set (state : Touching Name File) (place : List Name)
    (node : LinkNode Name File) : Touching Name File :=
  { tree := state.tree.put place node, touched := state.touched ++ [place] }

/-- A link at the last name is not followed. -/
def mkdir (start parents : List Name) (name : Name) : Call Name File :=
  fun state =>
    match state.tree.resolve start parents with
    | .error error => (state, .error error)
    | .ok place =>
        match state.tree.node place with
        | some .dir =>
            match state.tree.node (place ++ [name]) with
            | none => (state.set (place ++ [name]) .dir, .ok ())
            | some _ => (state, .error .alreadyExists)
        | some _ => (state, .error .notDirectory)
        | none => (state, .error .notFound)

/-- A call may find the directory there. -/
def orDirectory (start names : List Name)
    (result : Touching Name File × Except CallError Unit) :
    Touching Name File × Except CallError Unit :=
  match result with
  | (state, .ok ()) => (state, .ok ())
  | (state, .error error) =>
      (state,
        if state.tree.isDir start names then .ok () else .error error)

/-- The names from the last to the first.  Only a missing name above the last
makes the call go up. -/
def createDirAllRev (start : List Name) : List Name → Call Name File
  | [], state => orDirectory start [] (state, .error .alreadyExists)
  | name :: parents, state =>
      match mkdir start parents.reverse name state with
      | (state, .error .notFound) =>
          match createDirAllRev start parents state with
          | (state, .error error) => (state, .error error)
          | (state, .ok ()) =>
              orDirectory start (parents.reverse ++ [name])
                (mkdir start parents.reverse name state)
      | result => orDirectory start (parents.reverse ++ [name]) result

/-- `create_dir_all` -/
def createDirAll (start names : List Name) : Call Name File :=
  createDirAllRev start names.reverse

/-- A call on an existing or, if `create`, a new file. -/
def updateFile (start names : List Name) (create : Bool)
    (update : Option File → File) : Call Name File := fun state =>
  match state.tree.resolve start names with
  | .error error => (state, .error error)
  | .ok place =>
      match state.tree.node place with
      | some (.file file) =>
          (state.set place (.file (update (some file))), .ok ())
      | none =>
          if create then
            (state.set place (.file (update none)), .ok ())
          else
            (state, .error .notFound)
      | some _ => (state, .error .isDirectory)

end Calls

section Inside

variable {Name File : Type}

/-- Every link on the path stays below the directory the path starts in. -/
def LinkTree.LinksBelow (tree : LinkTree Name File) (top names : List Name) :
    Prop :=
  ∀ link ∈ met tree maxLinks top (names.map .name),
    link.2.StaysBelow top link.1

instance [DecidableEq Name] (tree : LinkTree Name File)
    (top names : List Name) :
    Decidable (tree.LinksBelow top names) :=
  List.decidableBAll _ _

/-- From one state to the other, only what is below the directory is touched,
and it stays a directory. -/
structure TouchesBelow (top : List Name) (state next : Touching Name File) :
    Prop where
  root : state.tree.node top = some .dir → next.tree.node top = some .dir
  outside : ∀ path, ¬ top <+: path →
    next.tree.node path = state.tree.node path
  touched : ∃ added, next.touched = state.touched ++ added ∧
    ∀ path ∈ added, top <+: path

variable {top names : List Name} {state next last : Touching Name File}

theorem TouchesBelow.refl : TouchesBelow top state state :=
  ⟨id, fun _ _ => rfl, [], (List.append_nil _).symm, by simp⟩

theorem TouchesBelow.trans (first : TouchesBelow top state next)
    (second : TouchesBelow top next last) : TouchesBelow top state last := by
  obtain ⟨added, touched, inside⟩ := first.touched
  obtain ⟨more, touchedMore, insideMore⟩ := second.touched
  refine ⟨second.root ∘ first.root, ?_, added ++ more, ?_, ?_⟩
  · intro path outside
    rw [second.outside path outside, first.outside path outside]
  · rw [touchedMore, touched, List.append_assoc]
  · exact List.forall_mem_append.mpr ⟨inside, insideMore⟩

/-- What a call on a path below the directory does. -/
structure CallsBelow (top : List Name) (state next : Touching Name File) :
    Prop extends TouchesBelow top state next where
  links : state.tree.SameLinks next.tree

theorem CallsBelow.refl : CallsBelow top state state :=
  ⟨.refl, fun _ _ => .rfl⟩

theorem CallsBelow.trans (first : CallsBelow top state next)
    (second : CallsBelow top next last) : CallsBelow top state last :=
  ⟨first.toTouchesBelow.trans second.toTouchesBelow,
    fun path target => (second.links path target).trans
      (first.links path target)⟩

theorem CallsBelow.linksBelow (calls : CallsBelow top state next)
    (below : state.tree.LinksBelow top names) :
    next.tree.LinksBelow top names := by
  rw [LinkTree.LinksBelow, calls.links.met]
  exact below

theorem LinkTree.LinksBelow.front {tree : LinkTree Name File}
    {rest : List Name} (below : tree.LinksBelow top (names ++ rest)) :
    tree.LinksBelow top names := by
  rw [LinksBelow, List.map_append] at below
  exact fun link onPath => below link (met_append _ _ _ _ onPath)

theorem LinkTree.LinksBelow.resolve {tree : LinkTree Name File}
    {place : List Name} (below : tree.LinksBelow top names)
    (reached : tree.resolve top names = .ok place) : top <+: place :=
  walk_below (List.prefix_refl top) (staysBelow_of_names (by simp)) below
    reached

variable [DecidableEq Name] [DecidableEq File]

theorem touchesBelow_set {place : List Name} (below : top <+: place)
    (notDir : state.tree.node place ≠ some .dir)
    (node : LinkNode Name File) :
    TouchesBelow top state (state.set place node) := by
  refine ⟨?_, ?_, [place], rfl, by simpa using below⟩
  · intro dir
    refine (LinkTree.node_put_of_ne ?_ _).trans dir
    rintro rfl
    exact notDir dir
  · intro path outside
    refine LinkTree.node_put_of_ne ?_ _
    rintro rfl
    exact outside below

theorem mkdir_below (below : state.tree.LinksBelow top names) (name : Name) :
    CallsBelow top state (mkdir top names name state).1 := by
  rw [mkdir]
  split
  next => exact .refl
  next place reached =>
    split
    next =>
      split
      next missing =>
        refine ⟨touchesBelow_set ?_ (by simp [missing]) _,
          LinkTree.sameLinks_put (by simp [missing]) nofun⟩
        exact (below.resolve reached).trans (List.prefix_append _ _)
      next => exact .refl
    next => exact .refl
    next => exact .refl

@[simp] theorem orDirectory_fst (start names : List Name)
    (result : Touching Name File × Except CallError Unit) :
    (orDirectory start names result).1 = result.1 := by
  obtain ⟨state, outcome⟩ := result
  cases outcome <;> rfl

theorem createDirAllRev_below
    (below : state.tree.LinksBelow top names.reverse) :
    CallsBelow top state (createDirAllRev top names state).1 := by
  induction names generalizing state with
  | nil =>
      rw [createDirAllRev, orDirectory_fst]
      exact .refl
  | cons name parents induction =>
      rw [List.reverse_cons] at below
      have first := mkdir_below below.front name
      rw [createDirAllRev]
      split
      next next failed =>
        rw [failed] at first
        have above := induction (first.linksBelow below.front)
        split
        next made =>
          rw [made] at above
          exact first.trans above
        next made =>
          rw [made] at above
          rw [orDirectory_fst]
          refine (first.trans above).trans ?_
          exact mkdir_below ((first.trans above).linksBelow below.front) name
      next =>
        rw [orDirectory_fst]
        exact first

theorem createDirAll_below (below : state.tree.LinksBelow top names) :
    CallsBelow top state (createDirAll top names state).1 := by
  apply createDirAllRev_below
  rw [List.reverse_reverse]
  exact below

theorem updateFile_below (below : state.tree.LinksBelow top names)
    (create : Bool) (update : Option File → File) :
    CallsBelow top state (updateFile top names create update state).1 := by
  rw [updateFile]
  split
  next => exact .refl
  next place reached =>
    have set (file : File) (notDir : state.tree.node place ≠ some .dir)
        (notLink : ∀ target, state.tree.node place ≠ some (.symlink target)) :
        CallsBelow top state (state.set place (.file file)) :=
      ⟨touchesBelow_set (below.resolve reached) notDir _,
        LinkTree.sameLinks_put notLink nofun⟩
    split
    next present => exact set _ (by simp [present]) (by simp [present])
    next missing =>
      split
      · exact set _ (by simp [missing]) (by simp [missing])
      · exact .refl
    next => exact .refl

end Inside

end Foundation
