import Mathlib.Data.Finmap
import MachinedRs.Foundation.DepthFirst
import MachinedRs.Foundation.Program
import MachinedRs.Foundation.Text

/-!
# The modules an image loads

`resolveClosure` reads `modules.dep` into two tables and searches, root by
root, for the modules that have to be loaded.  If a path or a name is declared
twice, the later declaration replaces the earlier one.
-/

namespace MachinedRs.ModulesDep

open Foundation

section Parsing

def stripGz (path : String) : String :=
  match path.toList.dropSuffix? ".gz".toList with
  | some stem => String.ofList stem
  | none => path

/-- `replace('-', "_")` -/
def underscored (name : String) : String :=
  String.ofList
    (name.toList.map fun character =>
      if character = '-' then '_' else character)

/-- `trim_end_matches(".ko")`, on the reversed name. -/
def trimKo : List Char → List Char
  | 'o' :: 'k' :: '.' :: rest => trimKo rest
  | name => name

def moduleName (path : String) : String :=
  let base := String.ofList (path.toList.reverse.takeWhile (· ≠ '/')).reverse
  underscored (String.ofList (trimKo (stripGz base).toList.reverse).reverse)

example : moduleName "kernel/drivers/block/virtio-blk.ko.gz" =
    "virtio_blk" := by
  decide +kernel

structure ModuleDep where
  path : String
  deps : List String
deriving DecidableEq, Repr

/-- A line without a colon declares nothing. -/
def parseLine (line : List Char) : Option ModuleDep :=
  match line.dropWhile (· ≠ ':') with
  | [] => none
  | _ :: rest =>
      some
        { path := stripGz
            (String.ofList (unicode.trim (line.takeWhile (· ≠ ':'))))
          deps := (unicode.words rest).map fun word =>
            stripGz (String.ofList word) }

/-- `deps` and `by_name` -/
structure Tables where
  deps : Finmap fun _ : String => List String
  byName : Finmap fun _ : String => String

def Tables.empty : Tables :=
  { deps := ∅
    byName := ∅ }

def Tables.declare (tables : Tables) (declared : ModuleDep) : Tables :=
  { deps := tables.deps.insert declared.path declared.deps
    byName := tables.byName.insert (moduleName declared.path) declared.path }

def readTables (modulesDep : String) : Tables :=
  (unicode.lines modulesDep.toList).foldl
    (fun tables line =>
      match parseLine line with
      | some declared => tables.declare declared
      | none => tables)
    .empty

/-- Every path points to its dependencies; an undeclared one has none. -/
def Tables.graph (tables : Tables) : Graph String :=
  { next := fun path => (tables.deps.lookup path).getD []
    support := tables.deps.keys
    next_eq_nil := by
      intro path undeclared
      have absent : path ∉ tables.deps := by
        rwa [← Finmap.mem_keys]
      rw [Finmap.lookup_eq_none.mpr absent, Option.getD_none] }

/-- The body of the loop over the roots. -/
def visitRoot (tables : Tables) (search : Graph.Search String)
    (root : String) : Except String (Graph.Search String) :=
  match tables.byName.lookup (underscored root) with
  | some path => .ok (tables.graph.visit path search)
  | none => .error ("module " ++ root ++ " not found in modules.dep")

def resolveClosure (modulesDep : String) (roots : List String) :
    Except String (List String) := do
  let search ← roots.foldlM (visitRoot (readTables modulesDep)) .start
  .ok search.out

end Parsing

section Declarations

/-- What the lines declare, in their order. -/
def declarations (modulesDep : String) : List ModuleDep :=
  (unicode.lines modulesDep.toList).filterMap parseLine

/-- The path that counts for a name. -/
def Declares (declared : List ModuleDep) (name path : String) : Prop :=
  ∃ dep, Latest (fun dep => moduleName dep.path = name) declared dep ∧
    dep.path = path

/-- A direct dependency, by the declaration that counts for the path. -/
def Requires (declared : List ModuleDep) (path required : String) : Prop :=
  ∃ dep, Latest (fun dep => dep.path = path) declared dep ∧
    required ∈ dep.deps

/-- A path that is needed for one of the roots. -/
def Reached (declared : List ModuleDep) (roots : List String)
    (path : String) : Prop :=
  ∃ root ∈ roots, ∃ start, Declares declared (underscored root) start ∧
    Relation.ReflTransGen (Requires declared) start path

/-- What the modules for some roots are to be: each path once, exactly those
that are needed, and unless they need each other in a circle, everything that a
path needs before the path. -/
structure IsClosure (declared : List ModuleDep) (roots order : List String) :
    Prop where
  distinct : order.Nodup
  reached : ∀ path, path ∈ order ↔ Reached declared roots path
  ordered :
    (∀ path, Reached declared roots path →
      ¬ Relation.TransGen (Requires declared) path path) →
    Each (fun before path => ∀ required,
      Relation.TransGen (Requires declared) path required →
        required ∈ before) order

theorem lookup_foldl_insert {α β : Type} (keyOf : α → String)
    (valueOf : α → β) (items : List α) (key : String) (value : β) :
    (items.foldl (fun table item =>
        Finmap.insert (keyOf item) (valueOf item) table)
      (∅ : Finmap fun _ : String => β)).lookup key = some value ↔
      ∃ item, Latest (fun item => keyOf item = key) items item ∧
        valueOf item = value := by
  induction items using List.reverseRecOn with
  | nil =>
      simp only [List.foldl_nil, Finmap.lookup_empty]
      constructor
      · intro impossible
        cases impossible
      · rintro ⟨item, latest, _⟩
        exact absurd latest not_latest_nil
  | append_singleton items last induction =>
      rw [List.foldl_append, List.foldl_cons, List.foldl_nil]
      by_cases same : keyOf last = key
      · rw [same, Finmap.lookup_insert]
        simp only [latest_concat_of_chosen (fun item => keyOf item = key) same,
          exists_eq_left, Option.some.injEq]
      · rw [Finmap.lookup_insert_of_ne _ (Ne.symm same), induction]
        simp only [latest_concat_of_not (fun item => keyOf item = key) same]

theorem readTables_eq (modulesDep : String) :
    readTables modulesDep =
      (declarations modulesDep).foldl Tables.declare .empty := by
  rw [readTables, declarations, List.foldl_filterMap]
  congr 1
  funext tables line
  cases parseLine line with
  | none => rfl
  | some declared => rfl

theorem deps_foldl_declare (declared : List ModuleDep) (tables : Tables) :
    (declared.foldl Tables.declare tables).deps =
      declared.foldl (fun table dep =>
        Finmap.insert dep.path dep.deps table) tables.deps := by
  induction declared generalizing tables with
  | nil => rfl
  | cons dep declared induction => exact induction (tables.declare dep)

theorem byName_foldl_declare (declared : List ModuleDep) (tables : Tables) :
    (declared.foldl Tables.declare tables).byName =
      declared.foldl (fun table dep =>
        Finmap.insert (moduleName dep.path) dep.path table)
        tables.byName := by
  induction declared generalizing tables with
  | nil => rfl
  | cons dep declared induction => exact induction (tables.declare dep)

theorem lookup_deps (modulesDep path : String) (deps : List String) :
    (readTables modulesDep).deps.lookup path = some deps ↔
      ∃ dep, Latest (fun dep => dep.path = path) (declarations modulesDep)
        dep ∧ dep.deps = deps := by
  rw [readTables_eq, deps_foldl_declare]
  exact lookup_foldl_insert ModuleDep.path ModuleDep.deps _ path deps

theorem lookup_byName (modulesDep name path : String) :
    (readTables modulesDep).byName.lookup name = some path ↔
      Declares (declarations modulesDep) name path := by
  have latest := lookup_foldl_insert
    (fun dep : ModuleDep => moduleName dep.path) ModuleDep.path
    (declarations modulesDep) name path
  rw [readTables_eq, byName_foldl_declare]
  exact latest

theorem edge_iff (modulesDep path required : String) :
    (readTables modulesDep).graph.Edge path required ↔
      Requires (declarations modulesDep) path required := by
  have next : (readTables modulesDep).graph.Edge path required ↔
      required ∈ ((readTables modulesDep).deps.lookup path).getD [] :=
    Iff.rfl
  rw [next]
  constructor
  · intro member
    cases found : (readTables modulesDep).deps.lookup path with
    | none =>
        rw [found] at member
        cases member
    | some deps =>
        rw [found] at member
        obtain ⟨dep, latest, rfl⟩ := (lookup_deps _ _ _).mp found
        exact ⟨dep, latest, member⟩
  · rintro ⟨dep, latest, member⟩
    rw [(lookup_deps _ _ _).mpr ⟨dep, latest, rfl⟩]
    exact member

theorem edge_eq (modulesDep : String) :
    (readTables modulesDep).graph.Edge =
      Requires (declarations modulesDep) := by
  funext path required
  exact propext (edge_iff modulesDep path required)

theorem lookup_byName_eq_none (modulesDep name : String) :
    (readTables modulesDep).byName.lookup name = none ↔
      ∀ dep ∈ declarations modulesDep, moduleName dep.path ≠ name := by
  constructor
  · intro absent dep member same
    obtain ⟨last, latest⟩ := exists_latest
      (fun dep : ModuleDep => moduleName dep.path = name) member same
    have found := (lookup_byName modulesDep name last.path).mpr
      ⟨last, latest, rfl⟩
    rw [absent] at found
    cases found
  · intro undeclared
    rw [Option.eq_none_iff_forall_ne_some]
    intro path found
    obtain ⟨dep, latest, _⟩ := (lookup_byName _ _ _).mp found
    exact undeclared dep latest.mem latest.isChosen

end Declarations

section Closure

theorem visitRoots_error_iff (tables : Tables) (roots : List String)
    (search : Graph.Search String) :
    (∃ message, roots.foldlM (visitRoot tables) search = .error message) ↔
      ∃ root ∈ roots, tables.byName.lookup (underscored root) = none := by
  induction roots generalizing search with
  | nil => simp [pure, Except.pure]
  | cons root roots induction =>
      rw [List.foldlM_cons, visitRoot]
      cases found : tables.byName.lookup (underscored root) with
      | none =>
          constructor
          · intro _
            exact ⟨root, List.mem_cons_self, found⟩
          · intro _
            exact ⟨_, rfl⟩
      | some path =>
          have goesOn := induction (tables.graph.visit path search)
          constructor
          · intro failed
            obtain ⟨other, member, absent⟩ := goesOn.mp failed
            exact ⟨other, List.mem_cons_of_mem root member, absent⟩
          · rintro ⟨other, member, absent⟩
            rcases List.mem_cons.mp member with rfl | later
            · rw [found] at absent
              cases absent
            · exact goesOn.mpr ⟨other, later, absent⟩

theorem visitRoots_ok {tables : Tables} {roots : List String}
    {search after : Graph.Search String}
    (result : roots.foldlM (visitRoot tables) search = .ok after) :
    ∃ starts, after = (tables.graph.explore starts search).1 ∧
      ∀ path, path ∈ starts ↔
        ∃ root ∈ roots, tables.byName.lookup (underscored root) =
          some path := by
  induction roots generalizing search with
  | nil =>
      cases result
      exact ⟨[], (tables.graph.explore_nil _).symm, by simp⟩
  | cons root roots induction =>
      rw [List.foldlM_cons, visitRoot] at result
      cases found : tables.byName.lookup (underscored root) with
      | none =>
          rw [found] at result
          cases result
      | some start =>
          rw [found] at result
          obtain ⟨starts, rfl, listed⟩ := induction result
          refine ⟨start :: starts,
            (tables.graph.explore_cons start starts search).symm, ?_⟩
          intro path
          rw [List.mem_cons, listed path]
          simp only [List.exists_mem_cons_iff, found, Option.some.injEq,
            eq_comm]

theorem resolveClosure_error_iff (modulesDep : String)
    (roots : List String) :
    (∃ message, resolveClosure modulesDep roots = .error message) ↔
      ∃ root ∈ roots, ∀ dep ∈ declarations modulesDep,
        moduleName dep.path ≠ underscored root := by
  have loop := visitRoots_error_iff (readTables modulesDep) roots .start
  simp only [lookup_byName_eq_none] at loop
  rw [← loop, resolveClosure]
  cases roots.foldlM (visitRoot (readTables modulesDep)) .start with
  | error message =>
      constructor
      · intro _
        exact ⟨message, rfl⟩
      · intro _
        exact ⟨message, rfl⟩
  | ok search =>
      constructor
      · rintro ⟨message, impossible⟩
        cases impossible
      · rintro ⟨message, impossible⟩
        cases impossible

theorem isClosure_of_resolveClosure {modulesDep : String}
    {roots order : List String}
    (result : resolveClosure modulesDep roots = .ok order) :
    IsClosure (declarations modulesDep) roots order := by
  obtain ⟨search, loop, isOut⟩ := bind_eq_ok_iff.mp result
  cases isOut
  obtain ⟨starts, rfl, listed⟩ := visitRoots_ok loop
  have reached : ∀ path,
      path ∈ ((readTables modulesDep).graph.explore starts .start).1.out ↔
        Reached (declarations modulesDep) roots path := by
    intro path
    rw [Graph.mem_explore_iff, edge_eq]
    constructor
    · rintro ⟨start, isStart, needed⟩
      obtain ⟨root, member, found⟩ := (listed start).mp isStart
      exact ⟨root, member, start, (lookup_byName _ _ _).mp found, needed⟩
    · rintro ⟨root, member, start, declares, needed⟩
      exact ⟨start, (listed start).mpr
        ⟨root, member, (lookup_byName _ _ _).mpr declares⟩, needed⟩
  refine ⟨Graph.nodup_explore _ starts, reached, ?_⟩
  intro acyclic
  have order := Graph.explore_postorder (readTables modulesDep).graph starts
  rw [edge_eq] at order
  apply order
  intro path member
  exact acyclic path ((reached path).mp member)

end Closure

section Blanks

/-- A text without white space. -/
def Unblanked (text : String) : Prop :=
  ∀ character ∈ text.toList, isWhitespace character = false

instance decidableUnblanked (text : String) : Decidable (Unblanked text) :=
  decidable_of_iff
    ((text.toList.all fun character => !isWhitespace character) = true) (by
      simp [Unblanked])

theorem unblanked_stripGz {path : String} (unblanked : Unblanked path) :
    Unblanked (stripGz path) := by
  unfold stripGz
  split
  case h_1 stem stripped =>
    obtain ⟨suffix, split, _⟩ := List.dropSuffix?_eq_some_iff.mp stripped
    intro character member
    rw [String.toList_ofList] at member
    apply unblanked character
    rw [split]
    exact List.mem_append_left _ member
  case h_2 => exact unblanked

theorem unblanked_of_mem_deps {modulesDep required : String} {dep : ModuleDep}
    (member : dep ∈ declarations modulesDep) (isDep : required ∈ dep.deps) :
    Unblanked required := by
  obtain ⟨line, _, parsed⟩ := List.mem_filterMap.mp member
  unfold parseLine at parsed
  split at parsed
  · cases parsed
  · obtain rfl := Option.some.inj parsed
    obtain ⟨word, isWord, rfl⟩ := List.mem_map.mp isDep
    apply unblanked_stripGz
    intro character inWord
    rw [String.toList_ofList] at inWord
    exact unicode.solid_of_mem_words isWord character inWord

theorem unblanked_of_reached {modulesDep path : String}
    {roots : List String}
    (paths : ∀ dep ∈ declarations modulesDep, Unblanked dep.path)
    (reached : Reached (declarations modulesDep) roots path) :
    Unblanked path := by
  obtain ⟨root, _, start, ⟨first, latest, rfl⟩, needed⟩ := reached
  cases needed with
  | refl => exact paths first latest.mem
  | tail _ required =>
      obtain ⟨dep, latest, isDep⟩ := required
      exact unblanked_of_mem_deps latest.mem isDep

end Blanks

end MachinedRs.ModulesDep
