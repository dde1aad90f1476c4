import MachinedRs.RuntimeCore.OwnedPass

/-!
# Working within a scope of the store

A party that reads and writes only the keys of a scope, among parties that
leave the scope alone, does what it does when it is alone.
-/

namespace MachinedRs

open Foundation

/-- The two stores hold the same objects within the scope. -/
def Agree (scope : Key → Prop) (objects other : Objects) : Prop :=
  ∀ key, scope key → objects.lookup key = other.lookup key

/-- The keys of one type in a namespace. -/
def ofType (ns : String) (typ : ResourceType) (key : Key) : Prop :=
  key.ns = ns ∧ key.typ = typ

namespace Agree

variable {scope : Key → Prop} {first second third : Objects}

theorem refl (scope : Key → Prop) (objects : Objects) :
    Agree scope objects objects := by
  intro key _
  rfl

theorem symm (agree : Agree scope first second) :
    Agree scope second first := by
  intro key inside
  exact (agree key inside).symm

theorem trans (agree : Agree scope first second)
    (next : Agree scope second third) : Agree scope first third := by
  intro key inside
  exact (agree key inside).trans (next key inside)

theorem mono {wider : Key → Prop} (agree : Agree wider first second)
    (within : ∀ key, scope key → wider key) : Agree scope first second := by
  intro key inside
  exact agree key (within key inside)

theorem insert (agree : Agree scope first second) (key : Key)
    (object : ResourceObject) :
    Agree scope (first.insert key object) (second.insert key object) := by
  intro other inside
  by_cases same : other = key
  · rw [same, Finmap.lookup_insert, Finmap.lookup_insert]
  · rw [Finmap.lookup_insert_of_ne _ same, Finmap.lookup_insert_of_ne _ same]
    exact agree other inside

theorem erase (agree : Agree scope first second) (key : Key) :
    Agree scope (first.erase key) (second.erase key) := by
  intro other inside
  by_cases same : other = key
  · rw [same, Finmap.lookup_erase, Finmap.lookup_erase]
  · rw [Finmap.lookup_erase_ne same, Finmap.lookup_erase_ne same]
    exact agree other inside

theorem list (agree : Agree scope first second)
    (keyed : State.WellKeyed first) (otherKeyed : State.WellKeyed second)
    {ns : String} {typ : ResourceType}
    (inside : ∀ key, ofType ns typ key → scope key) :
    State.list first ns typ = State.list second ns typ := by
  apply State.list_congr otherKeyed keyed
  intro key ofNs ofTyp
  exact agree key (inside key ⟨ofNs, ofTyp⟩)

end Agree

namespace Op

/-- The key whose object the operation may read or change. -/
def key? : Op → Option Key
  | .get key => some key
  | .list _ _ => none
  | .create object => some object.key
  | .update key _ _ => some key
  | .addFinalizer key _ => some key
  | .removeFinalizer key _ => some key
  | .teardown key => some key
  | .destroy key _ => some key

/-- The operation reads and writes only within the scope. -/
def Within (scope : Key → Prop) : Op → Prop
  | .list ns typ => ∀ key, ofType ns typ key → scope key
  | operation => ∀ key, operation.key? = some key → scope key

/-- The operation changes nothing outside the scope. -/
def Writes (scope : Key → Prop) : Op → Prop
  | .get _ => True
  | operation => ∀ key, operation.key? = some key → scope key

/-- A listing shows objects of the listed type. -/
def Fits : (operation : Op) → operation.Answer → Prop
  | .list ns typ, (listing : List ResourceObject) =>
      ∀ object ∈ listing, ofType ns typ object.key
  | _, _ => True

theorem fits_of_answer? {objects : Objects} {listing : List ResourceObject}
    {operation : Op} {answer : operation.Answer}
    (answered : operation.answer? objects listing = some answer) :
    operation.Fits answer := by
  cases operation with
  | list ns typ =>
      obtain ⟨enumerates, same⟩ := Option.ite_none_right_eq_some.mp answered
      cases same
      intro object member
      have listed : object ∈ State.list objects ns typ := by
        rw [← enumerates]
        exact member
      exact (Multiset.mem_filter.mp listed).2
  | _ => exact trivial

/-- Seen from within the scope, an operation that stays within it gives the
same answer and leaves the same objects in stores that agree. -/
theorem Within.agree {scope : Key → Prop} {objects other : Objects}
    {operation : Op} (within : operation.Within scope)
    (agree : Agree scope objects other) (keyed : State.WellKeyed objects)
    (otherKeyed : State.WellKeyed other) (listing : List ResourceObject) :
    operation.answer? objects listing = operation.answer? other listing ∧
      Agree scope (operation.after objects) (operation.after other) := by
  cases operation with
  | get key =>
      have same := agree key (within key rfl)
      refine ⟨?_, agree⟩
      simp only [answer?, State.get, same]
  | list ns typ =>
      refine ⟨?_, agree⟩
      simp only [answer?, agree.list keyed otherKeyed within]
  | create object =>
      have same := agree object.key (within object.key rfl)
      have present : object.key ∈ objects ↔ object.key ∈ other := by
        rw [Finmap.mem_iff, Finmap.mem_iff, same]
      simp only [answer?, after, commit, State.create, present]
      split
      · exact ⟨rfl, agree⟩
      · exact ⟨rfl, agree.insert _ _⟩
  | update key version spec =>
      simp only [answer?, after, commit, State.update,
        agree key (within key rfl)]
      split
      · exact ⟨rfl, agree⟩
      · split
        · exact ⟨rfl, agree⟩
        · exact ⟨rfl, agree.insert _ _⟩
  | addFinalizer key finalizer =>
      simp only [answer?, after, commit, State.addFinalizer,
        agree key (within key rfl)]
      split
      · exact ⟨rfl, agree⟩
      · split
        · exact ⟨rfl, agree⟩
        · exact ⟨rfl, agree.insert _ _⟩
  | removeFinalizer key finalizer =>
      simp only [answer?, after, commit, State.removeFinalizer,
        agree key (within key rfl)]
      split
      · exact ⟨rfl, agree⟩
      · split
        · exact ⟨rfl, agree.insert _ _⟩
        · exact ⟨rfl, agree⟩
  | teardown key =>
      simp only [answer?, after, commit, State.teardown,
        agree key (within key rfl)]
      split
      · exact ⟨rfl, agree⟩
      · split
        · exact ⟨rfl, agree.insert _ _⟩
        · exact ⟨rfl, agree⟩
  | destroy key version =>
      simp only [answer?, after, commit, State.destroy,
        agree key (within key rfl)]
      split
      · exact ⟨rfl, agree⟩
      · split
        · exact ⟨rfl, agree⟩
        · split
          · exact ⟨rfl, agree.erase _⟩
          · exact ⟨rfl, agree⟩

theorem writes_of_key? {scope : Key → Prop} {operation : Op}
    (inside : ∀ key, operation.key? = some key → scope key) :
    operation.Writes scope := by
  cases operation with
  | get key => exact trivial
  | _ => exact inside

theorem Writes.outside {scope : Key → Prop} {operation : Op}
    (writes : operation.Writes scope) (objects : Objects) :
    Agree (fun key => ¬ scope key) objects (operation.after objects) := by
  intro key outside
  have step := operation.objectStep objects key
  generalize objects.lookup key = before at step
  generalize (operation.after objects).lookup key = later at step
  cases step with
  | stays => rfl
  | begins creation own =>
      subst creation
      exact (outside (writes key (congrArg some own))).elim
  | revised revision =>
      cases revision with
      | _ => exact (outside (writes key rfl)).elim
  | ends destruction released =>
      subst destruction
      exact (outside (writes key rfl)).elim

/-- The operation is not about objects of the type. -/
def spares (typ : ResourceType) (operation : Op) : Bool :=
  match operation.key? with
  | some key => key.typ ≠ typ
  | none => true

theorem lookup_of_spares {typ : ResourceType} {operation : Op}
    (spared : operation.spares typ = true) (objects : Objects) {key : Key}
    (ofTyp : key.typ = typ) :
    objects.lookup key = (operation.after objects).lookup key := by
  have apart : ∀ key, operation.key? = some key → key.typ ≠ typ := by
    intro key same
    rw [spares, same] at spared
    exact of_decide_eq_true spared
  have writes : operation.Writes fun key => key.typ ≠ typ := by
    cases operation with
    | get key => trivial
    | _ => exact apart
  apply writes.outside objects key
  intro other
  exact other ofTyp

theorem Within.writes {scope : Key → Prop} {operation : Op}
    (within : operation.Within scope) : operation.Writes scope := by
  cases operation with
  | get key => exact trivial
  | list ns typ =>
      intro key impossible
      cases impossible
  | _ => exact within

end Op

section Programs

variable {α : Type} {scope : Key → Prop}

theorem upsertDesired_within (owner : String)
    (desired : List ResourceObject)
    (inside : ∀ object ∈ desired, scope object.key) :
    (upsertDesired owner desired).Only (Op.Within scope) := by
  induction desired with
  | nil => exact trivial
  | cons object desired induction =>
      have here : ∀ key, some object.key = some key → scope key := by
        intro key same
        cases same
        exact inside object List.mem_cons_self
      have later := induction fun other member =>
        inside other (List.mem_cons_of_mem object member)
      refine ⟨here, ?_⟩
      intro found
      dsimp only
      split
      · split
        · exact ⟨here, fun _ => Program.Only.attempt fun _ => later⟩
        · exact later
      · exact ⟨here, fun _ => Program.Only.attempt fun _ => later⟩
      · exact trivial

theorem collectUndesired_within (owner : String) (desiredIds : List String)
    (listing : List ResourceObject)
    (inside : ∀ object ∈ listing, scope object.key) :
    (collectUndesired owner desiredIds listing).Only (Op.Within scope) := by
  induction listing with
  | nil => exact trivial
  | cons existing listing induction =>
      have here : ∀ key, some existing.key = some key → scope key := by
        intro key same
        cases same
        exact inside existing List.mem_cons_self
      have later := induction fun other member =>
        inside other (List.mem_cons_of_mem existing member)
      unfold collectUndesired
      split
      · refine ⟨here, fun _ => Program.Only.attempt fun ready => ?_⟩
        split
        · refine ⟨here, fun _ => Program.Only.attempt fun current => ?_⟩
          exact ⟨here, fun _ => Program.Only.attempt fun _ => later⟩
        · exact later
      · exact later

theorem reconcileOwned_within (owner : String) {ns : String}
    {typ : ResourceType} {desired : List ResourceObject}
    (desiredType : ∀ object ∈ desired, ofType ns typ object.key) :
    (reconcileOwned owner ns typ desired).OnlyGiven Op.Fits
      (Op.Within (ofType ns typ)) := by
  apply (upsertDesired_within owner desired desiredType).given.bind
  intro upserted
  cases upserted with
  | error error => exact trivial
  | ok value =>
      refine ⟨fun _ inside => inside, ?_⟩
      intro listing listed
      exact (collectUndesired_within owner _ listing listed).given

end Programs

theorem Op.Within.mono {scope wider : Key → Prop} {operation : Op}
    (within : operation.Within scope)
    (included : ∀ key, scope key → wider key) : operation.Within wider := by
  cases operation with
  | _ =>
      intro key inside
      exact included key (within key inside)

theorem protected_outside {α : Type} {scope : Key → Prop}
    {program : Program stateSignature α}
    (within : program.OnlyGiven Op.Fits (Op.Within scope))
    {start objects : Objects} (keyed : State.WellKeyed objects)
    (agree : Agree (fun key => ¬ scope key) start objects) :
    (storeMachine.alone fun objects => State.WellKeyed objects ∧
        Agree (fun key => ¬ scope key) start objects).Protected
      (fun _ _ => True) program objects := by
  induction program generalizing objects with
  | done value => exact Machine.done ⟨keyed, agree⟩ trivial
  | call operation next induction =>
      apply storeMachine_call ⟨keyed, agree⟩
      intro listing answer answered
      exact induction answer (within.2 answer (Op.fits_of_answer? answered))
        (keyed.after operation)
        (agree.trans (within.1.writes.outside objects))

/-- Other parties leave the scope alone. -/
def scopedSetting (scope : Key → Prop) (invariant : Objects → Prop) :
    Setting stateSignature Objects :=
  { perform := fun objects operation answer after =>
      operation.Answers objects answer ∧ after = operation.after objects
    rely := fun objects later => Agree scope objects later ∧
      (State.WellKeyed objects → State.WellKeyed later)
    invariant := invariant
    rely_refl := fun objects => ⟨Agree.refl scope objects, id⟩
    rely_trans := fun first second =>
      ⟨first.1.trans second.1, fun keyed => second.2 (first.2 keyed)⟩ }

/-- The property speaks about the objects within the scope only. -/
def Local (scope : Key → Prop) (property : Objects → Prop) : Prop :=
  ∀ objects other, State.WellKeyed objects → State.WellKeyed other →
    Agree scope objects other → property objects → property other

/-- What a program within the scope does alone, it does among others who leave
the scope alone. -/
theorem protected_scoped {α : Type} {scope : Key → Prop}
    {invariant : Objects → Prop} {post : α → Objects → Prop}
    (localInvariant : Local scope invariant)
    (localPost : ∀ value, Local scope (post value))
    {program : Program stateSignature α}
    (within : program.OnlyGiven Op.Fits (Op.Within scope))
    {objects : Objects} (keyed : State.WellKeyed objects)
    (safe : (storeMachine.alone invariant).Protected post program objects) :
    (scopedSetting scope invariant).Protected post program objects := by
  have general : ∀ other, Agree scope objects other →
      State.WellKeyed other →
      (scopedSetting scope invariant).Protected post program other := by
    induction program generalizing objects with
    | done value =>
        rintro other agree otherKeyed later ⟨moved, laterKeyed⟩
        have same := agree.trans moved
        exact ⟨localInvariant _ _ keyed (laterKeyed otherKeyed) same
            safe.holds,
          localPost value _ _ keyed (laterKeyed otherKeyed) same
            safe.finished⟩
    | call operation next induction =>
        rintro other agree otherKeyed later ⟨moved, laterKeyed⟩
        have same := agree.trans moved
        have laterIsKeyed := laterKeyed otherKeyed
        refine ⟨localInvariant _ _ keyed laterIsKeyed same safe.holds, ?_⟩
        rintro answer after ⟨⟨listing, answered⟩, rfl⟩
        obtain ⟨sameAnswer, sameAfter⟩ :=
          within.1.agree same keyed laterIsKeyed listing
        rw [← sameAnswer] at answered
        have performed : storeMachine.perform objects operation listing =
            some (answer, operation.after objects) := by
          simp only [storeMachine, answered, Option.map_some]
        exact induction answer
          (within.2 answer (Op.fits_of_answer? answered))
          (keyed.after operation) (safe.advance ⟨listing, performed⟩)
          _ sameAfter (laterIsKeyed.after operation)
  exact general objects (Agree.refl scope objects) keyed

end MachinedRs
