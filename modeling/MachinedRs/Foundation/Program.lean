import Mathlib.Logic.Relation

/-!
# Programs over an operation signature

A program is a tree: it has finished with a value, or it issues one operation
and continues with the answer.  The same tree is executed atomically, one
operation at a time between the steps of other parties, or up to an arbitrary
operation at which it is cut off.
-/

namespace Foundation

/-- Two results in sequence succeed if both do. -/
theorem bind_eq_ok_iff {ε α β : Type} {first : Except ε α}
    {next : α → Except ε β} {result : β} :
    first >>= next = .ok result ↔
      ∃ value, first = .ok value ∧ next value = .ok result := by
  cases first with
  | error error => simp [Bind.bind, Except.bind]
  | ok value => simp [Bind.bind, Except.bind]

theorem map_eq_ok_iff {ε α β : Type} {result : Except ε α} {change : α → β}
    {changed : β} :
    result.map change = .ok changed ↔
      ∃ value, result = .ok value ∧ change value = changed := by
  cases result with
  | error error => simp [Except.map]
  | ok value => simp [Except.map]

theorem mapError_eq_ok_iff {ε δ α : Type} {result : Except ε α}
    {context : ε → δ} {value : α} :
    result.mapError context = .ok value ↔ result = .ok value := by
  cases result with
  | error error =>
      constructor
      · intro impossible
        cases impossible
      · intro impossible
        cases impossible
  | ok found =>
      constructor
      · intro same
        cases same
        rfl
      · intro same
        cases same
        rfl

/-- Operations together with the type of their answers. -/
structure Signature where
  Op : Type
  Answer : Op → Type

/-- Either operations of the first signature or of the second. -/
abbrev Signature.sum (first second : Signature) : Signature :=
  { Op := first.Op ⊕ second.Op
    Answer := fun operation =>
      match operation with
      | .inl operation => first.Answer operation
      | .inr operation => second.Answer operation }

/-- An operation with the answer it got. -/
abbrev Signature.Exchange (signature : Signature) : Type :=
  (operation : signature.Op) × signature.Answer operation

inductive Program (signature : Signature) (α : Type) where
  | done (value : α)
  | call (operation : signature.Op)
      (next : signature.Answer operation → Program signature α)

namespace Program

variable {signature first second : Signature} {α β : Type}

def bind : Program signature α → (α → Program signature β) →
    Program signature β
  | .done value, rest => rest value
  | .call operation next, rest =>
      .call operation fun answer => bind (next answer) rest

/-- Run a program over the first signature among operations of both. -/
def inl : Program first α → Program (first.sum second) α
  | .done value => .done value
  | .call operation next => .call (.inl operation) fun answer => inl (next answer)

/-- Run a program over the second signature among operations of both. -/
def inr : Program second α → Program (first.sum second) α
  | .done value => .done value
  | .call operation next => .call (.inr operation) fun answer => inr (next answer)

/-- Replace every operation of the second signature by a program. -/
def handle {third : Signature}
    (handler : (operation : second.Op) →
      Program (first.sum third) (second.Answer operation)) :
    Program (first.sum second) α → Program (first.sum third) α
  | .done value => .done value
  | .call (.inl operation) next =>
      .call (.inl operation) fun answer => handle handler (next answer)
  | .call (.inr operation) next =>
      (handler operation).bind fun answer => handle handler (next answer)

/-- Go on with the value of an answer, or finish with its error. -/
def attempt {ε : Type} (answer : Except ε α)
    (next : α → Program signature (Except ε β)) :
    Program signature (Except ε β) :=
  match answer with
  | .ok value => next value
  | .error error => .done (.error error)

def value? : Program signature α → Option α
  | .done value => some value
  | .call _ _ => none

def isDone : Program signature α → Bool
  | .done _ => true
  | .call _ _ => false

/-- Whatever the answers, the program issues only allowed operations. -/
def Only (allowed : signature.Op → Prop) : Program signature α → Prop
  | .done _ => True
  | .call operation next =>
      allowed operation ∧ ∀ answer, Only allowed (next answer)

@[simp] theorem done_bind (value : α) (rest : α → Program signature β) :
    (Program.done value).bind rest = rest value :=
  rfl

@[simp] theorem call_bind (operation : signature.Op)
    (next : signature.Answer operation → Program signature α)
    (rest : α → Program signature β) :
    (Program.call operation next).bind rest =
      .call operation fun answer => (next answer).bind rest :=
  rfl

theorem bind_assoc {γ : Type} (program : Program signature α)
    (next : α → Program signature β) (last : β → Program signature γ) :
    (program.bind next).bind last =
      program.bind fun value => (next value).bind last := by
  induction program with
  | done value => rfl
  | call operation following induction =>
      simp only [call_bind, induction]

theorem inl_bind (program : Program first α)
    (next : α → Program first β) :
    (program.bind next).inl =
      (program.inl : Program (first.sum second) α).bind
        fun value => (next value).inl := by
  induction program with
  | done value => rfl
  | call operation following induction =>
      simp only [call_bind, inl, induction]

theorem Only.bind {allowed : signature.Op → Prop}
    {program : Program signature α} {rest : α → Program signature β}
    (only : program.Only allowed)
    (restOnly : ∀ value, (rest value).Only allowed) :
    (program.bind rest).Only allowed := by
  induction program with
  | done value => exact restOnly value
  | call operation next induction =>
      refine ⟨only.1, ?_⟩
      intro answer
      exact induction answer (only.2 answer)

theorem Only.attempt {ε : Type} {allowed : signature.Op → Prop}
    {answer : Except ε α} {next : α → Program signature (Except ε β)}
    (goesOn : ∀ value, (next value).Only allowed) :
    (Program.attempt answer next).Only allowed := by
  cases answer with
  | error error => trivial
  | ok value => exact goesOn value

theorem Only.inl {allowed : (first.sum second).Op → Prop}
    {program : Program first α}
    (only : program.Only fun operation => allowed (.inl operation)) :
    (program.inl : Program (first.sum second) α).Only allowed := by
  induction program with
  | done value => exact trivial
  | call operation next induction =>
      refine ⟨only.1, ?_⟩
      intro answer
      exact induction answer (only.2 answer)

/-- As long as the answers are possible, the program issues only allowed
operations. -/
def OnlyGiven
    (possible : (operation : signature.Op) → signature.Answer operation → Prop)
    (allowed : signature.Op → Prop) : Program signature α → Prop
  | .done _ => True
  | .call operation next =>
      allowed operation ∧ ∀ answer, possible operation answer →
        OnlyGiven possible allowed (next answer)

section OnlyGiven

variable
  {possible : (operation : signature.Op) → signature.Answer operation → Prop}
  {allowed : signature.Op → Prop}

theorem Only.given {program : Program signature α}
    (only : program.Only allowed) :
    program.OnlyGiven possible allowed := by
  induction program with
  | done value => exact trivial
  | call operation next induction =>
      refine ⟨only.1, ?_⟩
      intro answer _
      exact induction answer (only.2 answer)

theorem OnlyGiven.bind {program : Program signature α}
    {rest : α → Program signature β}
    (only : program.OnlyGiven possible allowed)
    (restOnly : ∀ value, (rest value).OnlyGiven possible allowed) :
    (program.bind rest).OnlyGiven possible allowed := by
  induction program with
  | done value => exact restOnly value
  | call operation next induction =>
      refine ⟨only.1, ?_⟩
      intro answer isPossible
      exact induction answer (only.2 answer isPossible)

theorem OnlyGiven.mono {wider : signature.Op → Prop}
    (within : ∀ operation, allowed operation → wider operation)
    {program : Program signature α}
    (only : program.OnlyGiven possible allowed) :
    program.OnlyGiven possible wider := by
  induction program with
  | done value => exact trivial
  | call operation next induction =>
      refine ⟨within operation only.1, ?_⟩
      intro answer isPossible
      exact induction answer (only.2 answer isPossible)

end OnlyGiven

end Program

/-- The world a program runs in.  `perform` relates the state before an
operation, its answer and the state after; `rely` is what other parties may do
between two operations; `invariant` is to hold whenever anyone can look. -/
structure Setting (signature : Signature) (σ : Type) where
  perform : σ → (operation : signature.Op) → signature.Answer operation → σ →
    Prop
  rely : σ → σ → Prop
  invariant : σ → Prop
  rely_refl : ∀ state, rely state state
  rely_trans : ∀ {first second third}, rely first second →
    rely second third → rely first third

namespace Setting

variable {signature first second : Signature} {σ α β : Type}

/-- Whatever the other parties do and wherever the program is cut off, the
invariant holds, and the program finishes only with `post`. -/
def Protected (setting : Setting signature σ) (post : α → σ → Prop) :
    Program signature α → σ → Prop
  | .done value, state => ∀ later, setting.rely state later →
      setting.invariant later ∧ post value later
  | .call operation next, state => ∀ later, setting.rely state later →
      setting.invariant later ∧
        ∀ answer after, setting.perform later operation answer after →
          Protected setting post (next answer) after

variable {setting : Setting signature σ} {post : α → σ → Prop}

theorem Protected.holds {program : Program signature α} {state : σ}
    (safe : setting.Protected post program state) :
    setting.invariant state := by
  cases program with
  | done value => exact (safe state (setting.rely_refl state)).1
  | call operation next => exact (safe state (setting.rely_refl state)).1

theorem Protected.finished {value : α} {state : σ}
    (safe : setting.Protected post (.done value) state) :
    post value state :=
  (safe state (setting.rely_refl state)).2

/-- Steps of the other parties keep a program protected. -/
theorem Protected.interfere {program : Program signature α}
    {state later : σ} (safe : setting.Protected post program state)
    (moved : setting.rely state later) :
    setting.Protected post program later := by
  cases program with
  | done value =>
      intro last movedAgain
      exact safe last (setting.rely_trans moved movedAgain)
  | call operation next =>
      intro last movedAgain
      exact safe last (setting.rely_trans moved movedAgain)

/-- The program's own step keeps it protected. -/
theorem Protected.advance {operation : signature.Op}
    {next : signature.Answer operation → Program signature α}
    {state after : σ} {answer : signature.Answer operation}
    (safe : setting.Protected post (.call operation next) state)
    (performed : setting.perform state operation answer after) :
    setting.Protected post (next answer) after :=
  (safe state (setting.rely_refl state)).2 answer after performed

theorem Protected.mono {weaker : α → σ → Prop}
    (implies : ∀ value state, post value state → weaker value state)
    {program : Program signature α} {state : σ}
    (safe : setting.Protected post program state) :
    setting.Protected weaker program state := by
  induction program generalizing state with
  | done value =>
      intro later moved
      exact ⟨(safe later moved).1, implies value later (safe later moved).2⟩
  | call operation next induction =>
      intro later moved
      refine ⟨(safe later moved).1, ?_⟩
      intro answer after performed
      exact induction answer ((safe later moved).2 answer after performed)

/-- The invariant still holds when the program finishes. -/
theorem Protected.keeping {program : Program signature α} {state : σ}
    (safe : setting.Protected post program state) :
    setting.Protected
      (fun value state => setting.invariant state ∧ post value state)
      program state := by
  induction program generalizing state with
  | done value =>
      intro later moved
      exact ⟨(safe later moved).1, safe later moved⟩
  | call operation next induction =>
      intro later moved
      refine ⟨(safe later moved).1, ?_⟩
      intro answer after performed
      exact induction answer ((safe later moved).2 answer after performed)

theorem Protected.and {other : α → σ → Prop}
    {program : Program signature α} {state : σ}
    (safe : setting.Protected post program state)
    (otherSafe : setting.Protected other program state) :
    setting.Protected (fun value state => post value state ∧ other value state)
      program state := by
  induction program generalizing state with
  | done value =>
      intro later moved
      exact ⟨(safe later moved).1, (safe later moved).2,
        (otherSafe later moved).2⟩
  | call operation next induction =>
      intro later moved
      refine ⟨(safe later moved).1, ?_⟩
      intro answer after performed
      exact induction answer ((safe later moved).2 answer after performed)
        ((otherSafe later moved).2 answer after performed)

theorem Protected.bind {goal : β → σ → Prop}
    {program : Program signature α} {rest : α → Program signature β}
    {state : σ}
    (safe : setting.Protected
      (fun value after => setting.Protected goal (rest value) after)
      program state) :
    setting.Protected goal (program.bind rest) state := by
  induction program generalizing state with
  | done value => exact safe.finished
  | call operation next induction =>
      intro later moved
      refine ⟨(safe later moved).1, ?_⟩
      intro answer after performed
      exact induction answer ((safe later moved).2 answer after performed)

theorem Protected.attempt {ε : Type} {answer : Except ε α}
    {post : Except ε β → σ → Prop}
    {next : α → Program signature (Except ε β)} {state : σ}
    (failed : ∀ error,
      setting.Protected post (.done (.error error)) state)
    (goesOn : ∀ value, answer = .ok value →
      setting.Protected post (next value) state) :
    setting.Protected post (Program.attempt answer next) state := by
  cases answer with
  | error error => exact failed error
  | ok value => exact goesOn value rfl

/-- The part of a setting that concerns the first of two signatures. -/
def left (setting : Setting (first.sum second) σ) : Setting first σ :=
  { setting with
    perform := fun state operation => setting.perform state (.inl operation) }

theorem Protected.inl {setting : Setting (first.sum second) σ}
    {program : Program first α} {state : σ}
    (safe : setting.left.Protected post program state) :
    setting.Protected post program.inl state := by
  induction program generalizing state with
  | done value => exact safe
  | call operation next induction =>
      intro later moved
      refine ⟨(safe later moved).1, ?_⟩
      intro answer after performed
      exact induction answer ((safe later moved).2 answer after performed)

/-- The part of a setting that concerns the second of two signatures. -/
def right (setting : Setting (first.sum second) σ) : Setting second σ :=
  { setting with
    perform := fun state operation => setting.perform state (.inr operation) }

theorem Protected.inr {setting : Setting (first.sum second) σ}
    {program : Program second α} {state : σ}
    (safe : setting.right.Protected post program state) :
    setting.Protected post program.inr state := by
  induction program generalizing state with
  | done value => exact safe
  | call operation next induction =>
      intro later moved
      refine ⟨(safe later moved).1, ?_⟩
      intro answer after performed
      exact induction answer ((safe later moved).2 answer after performed)

/-- No other party acts. -/
def Alone (setting : Setting signature σ) : Prop :=
  ∀ state later, setting.rely state later → state = later

theorem Alone.done (alone : setting.Alone) {value : α} {state : σ}
    (holds : setting.invariant state) (finished : post value state) :
    setting.Protected post (.done value) state := by
  intro later moved
  rw [← alone state later moved]
  exact ⟨holds, finished⟩

theorem Alone.call (alone : setting.Alone) {operation : signature.Op}
    {next : signature.Answer operation → Program signature α} {state : σ}
    (holds : setting.invariant state)
    (goesOn : ∀ answer after, setting.perform state operation answer after →
      setting.Protected post (next answer) after) :
    setting.Protected post (.call operation next) state := by
  intro later moved
  rw [← alone state later moved]
  exact ⟨holds, goesOn⟩

/-- A program with its own history: any answer is possible, and the invariant
speaks about the exchanges made so far. -/
def recording (invariant : List signature.Exchange → Prop) :
    Setting signature (List signature.Exchange) :=
  { perform := fun log operation answer after =>
      after = log ++ [⟨operation, answer⟩]
    rely := Eq
    invariant := invariant
    rely_refl := fun _ => rfl
    rely_trans := Eq.trans }

theorem recording_alone (invariant : List signature.Exchange → Prop) :
    (recording invariant).Alone := by
  intro state later moved
  exact moved

theorem recording_call {invariant : List signature.Exchange → Prop}
    {log : List signature.Exchange}
    {post : α → List signature.Exchange → Prop} {operation : signature.Op}
    {next : signature.Answer operation → Program signature α}
    (holds : invariant log)
    (goesOn : ∀ answer, (recording invariant).Protected post (next answer)
      (log ++ [⟨operation, answer⟩])) :
    (recording invariant).Protected post (.call operation next) log := by
  apply (recording_alone invariant).call holds
  rintro answer after rfl
  exact goesOn answer

/-- A program whose exchanges all keep the invariant is protected. -/
theorem recording_inl {α : Type}
    {invariant : List (first.sum second).Exchange → Prop}
    (kept : ∀ log operation answer, invariant log →
      invariant (log ++ [⟨.inl operation, answer⟩]))
    (program : Program first α) {log : List (first.sum second).Exchange}
    (holds : invariant log) :
    (recording invariant).Protected (fun _ _ => True)
      (program.inl : Program (first.sum second) α) log := by
  induction program generalizing log with
  | done value => exact (recording_alone invariant).done holds trivial
  | call operation next induction =>
      apply recording_call holds
      intro answer
      exact induction answer (kept log operation answer holds)

end Setting

end Foundation
