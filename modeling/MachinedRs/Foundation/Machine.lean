import MachinedRs.Foundation.Program

/-!
# Executing a program alone

A machine says what every operation answers and how it changes the state; a
choice settles what the state leaves open.  A list of choices runs a program up
to some operation, or to its end.
-/

namespace Foundation

structure Machine (signature : Signature) (σ κ : Type) where
  perform : σ → (operation : signature.Op) → κ →
    Option (signature.Answer operation × σ)

namespace Machine

variable {signature first second : Signature} {σ τ κ ι α : Type}

/-- Run a program for as many operations as there are choices. -/
def exec (machine : Machine signature σ κ) :
    Program signature α → σ → List κ → Option (Program signature α × σ)
  | program, state, [] => some (program, state)
  | .done _, _, _ :: _ => none
  | .call operation next, state, choice :: choices =>
      (machine.perform state operation choice).bind fun (answer, after) =>
        exec machine (next answer) after choices

/-- Run a program to its end; the choices it did not need are left over. -/
def complete (machine : Machine signature σ κ) :
    Program signature α → σ → List κ → Option (α × σ × List κ)
  | .done value, state, choices => some (value, state, choices)
  | .call _ _, _, [] => none
  | .call operation next, state, choice :: choices =>
      (machine.perform state operation choice).bind fun (answer, after) =>
        complete machine (next answer) after choices

/-- Some complete run of the program ends with this value in this state. -/
def Returns (machine : Machine signature σ κ) (program : Program signature α)
    (state : σ) (value : α) (final : σ) : Prop :=
  ∃ choices, machine.exec program state choices = some (.done value, final)

/-- No operation ever blocks. -/
def Total (machine : Machine signature σ κ) : Prop :=
  ∀ state operation, ∃ choice answer after,
    machine.perform state operation choice = some (answer, after)

/-- The program is alone with the machine. -/
def alone (machine : Machine signature σ κ) (invariant : σ → Prop) :
    Setting signature σ :=
  { perform := fun state operation answer after =>
      ∃ choice, machine.perform state operation choice = some (answer, after)
    rely := Eq
    invariant := invariant
    rely_refl := fun _ => rfl
    rely_trans := Eq.trans }

/-- Every complete run of the program ends in `post`. -/
abbrev Ensures (machine : Machine signature σ κ) (post : α → σ → Prop)
    (program : Program signature α) (state : σ) : Prop :=
  (machine.alone fun _ => True).Protected post program state

variable {machine : Machine signature σ κ} {invariant : σ → Prop}
  {post : α → σ → Prop} {program : Program signature α} {state final : σ}

@[simp] theorem exec_nil (program : Program signature α) (state : σ) :
    machine.exec program state [] = some (program, state) := by
  cases program with
  | done value => rfl
  | call operation next => rfl

/-- A run of a call has not begun, or performs its operation and goes on. -/
theorem exec_call {operation : signature.Op}
    {next : signature.Answer operation → Program signature α}
    {rest : Program signature α} {choices : List κ}
    (result : machine.exec (.call operation next) state choices =
      some (rest, final)) :
    (choices = [] ∧ final = state) ∨
      ∃ choice later answer after, choices = choice :: later ∧
        machine.perform state operation choice = some (answer, after) ∧
        machine.exec (next answer) after later = some (rest, final) := by
  cases choices with
  | nil =>
      cases result
      exact .inl ⟨rfl, rfl⟩
  | cons choice choices =>
      obtain ⟨⟨answer, after⟩, performed, continued⟩ :=
        Option.bind_eq_some_iff.mp result
      exact .inr ⟨choice, choices, answer, after, rfl, performed, continued⟩

theorem exec_done {value : α} {rest : Program signature α}
    {choices : List κ}
    (result : machine.exec (.done value) state choices =
      some (rest, final)) :
    choices = [] ∧ rest = .done value ∧ final = state := by
  cases choices with
  | nil =>
      cases result
      exact ⟨rfl, rfl, rfl⟩
  | cons choice choices => cases result

theorem returns_of_complete {value : α} {choices rest : List κ}
    (result : machine.complete program state choices =
      some (value, final, rest)) :
    machine.Returns program state value final := by
  induction program generalizing state choices with
  | done done =>
      cases result
      exact ⟨[], rfl⟩
  | call operation next induction =>
      cases choices with
      | nil => cases result
      | cons choice choices =>
          obtain ⟨⟨answer, after⟩, performed, continued⟩ :=
            Option.bind_eq_some_iff.mp result
          obtain ⟨used, returned⟩ := induction answer continued
          refine ⟨choice :: used, ?_⟩
          simp [exec, performed, returned]

theorem Returns.complete {value : α}
    (returns : machine.Returns program state value final) :
    ∃ choices, machine.complete program state choices =
      some (value, final, []) := by
  obtain ⟨choices, result⟩ := returns
  refine ⟨choices, ?_⟩
  induction choices generalizing program state with
  | nil =>
      rw [exec_nil] at result
      cases result
      rfl
  | cons choice choices induction =>
      cases program with
      | done other => cases result
      | call operation next =>
          obtain ⟨⟨answer, after⟩, performed, continued⟩ :=
            Option.bind_eq_some_iff.mp result
          rw [Machine.complete, performed]
          exact induction continued

/-- Completing a sequence completes its first part, then the rest. -/
theorem complete_bind {β : Type} (next : α → Program signature β)
    (choices : List κ) :
    machine.complete (program.bind next) state choices =
      (machine.complete program state choices).bind
        fun (value, middle, rest) =>
          machine.complete (next value) middle rest := by
  induction program generalizing state choices with
  | done value => rfl
  | call operation following induction =>
      cases choices with
      | nil => rfl
      | cons choice choices =>
          rw [Program.call_bind, complete, complete, Option.bind_assoc]
          congr 1
          funext performed
          exact induction performed.1 choices

/-- Operations that leave the state alone leave it alone together. -/
theorem exec_of_only {allowed : signature.Op → Prop}
    (idle : ∀ state operation choice answer after, allowed operation →
      machine.perform state operation choice = some (answer, after) →
      after = state)
    {rest : Program signature α} {choices : List κ}
    (only : program.Only allowed)
    (result : machine.exec program state choices = some (rest, final)) :
    final = state := by
  induction program generalizing state choices with
  | done value =>
      cases choices with
      | nil =>
          cases result
          rfl
      | cons choice choices => cases result
  | call operation next induction =>
      rcases exec_call result with ⟨_, same⟩ |
        ⟨choice, later, answer, after, _, performed, continued⟩
      · exact same
      · have unchanged :=
          idle state operation choice answer after only.1 performed
        rw [← unchanged]
        exact induction answer (only.2 answer) continued

theorem isAlone (machine : Machine signature σ κ) (invariant : σ → Prop) :
    (machine.alone invariant).Alone := by
  intro state later moved
  exact moved

theorem done (holds : invariant state) {value : α}
    (finished : post value state) :
    (machine.alone invariant).Protected post (.done value) state :=
  (machine.isAlone invariant).done holds finished

theorem call {operation : signature.Op}
    {next : signature.Answer operation → Program signature α}
    (holds : invariant state)
    (goesOn : ∀ choice answer after,
      machine.perform state operation choice = some (answer, after) →
      (machine.alone invariant).Protected post (next answer) after) :
    (machine.alone invariant).Protected post (.call operation next) state := by
  apply (machine.isAlone invariant).call holds
  rintro answer after ⟨choice, performed⟩
  exact goesOn choice answer after performed

/-- A protected program stays protected up to wherever it is run. -/
theorem protected_of_exec {rest : Program signature α} {choices : List κ}
    (safe : (machine.alone invariant).Protected post program state)
    (result : machine.exec program state choices = some (rest, final)) :
    (machine.alone invariant).Protected post rest final := by
  induction choices generalizing program state with
  | nil =>
      rw [exec_nil] at result
      cases result
      exact safe
  | cons choice choices induction =>
      cases program with
      | done value => cases result
      | call operation next =>
          obtain ⟨⟨answer, after⟩, performed, continued⟩ :=
            Option.bind_eq_some_iff.mp result
          exact induction (safe.advance ⟨choice, performed⟩) continued

theorem post_of_returns {value : α}
    (safe : (machine.alone invariant).Protected post program state)
    (returns : machine.Returns program state value final) :
    post value final := by
  obtain ⟨choices, result⟩ := returns
  exact (protected_of_exec safe result).finished

/-- On a machine that never blocks every program returns. -/
theorem Total.returns (total : machine.Total)
    (program : Program signature α) (state : σ) :
    ∃ value final, machine.Returns program state value final := by
  induction program generalizing state with
  | done value => exact ⟨value, state, [], rfl⟩
  | call operation next induction =>
      obtain ⟨choice, answer, after, performed⟩ := total state operation
      obtain ⟨value, final, choices, result⟩ := induction answer after
      refine ⟨value, final, choice :: choices, ?_⟩
      simp [exec, performed, result]

/-- An invariant that holds in every state costs nothing. -/
theorem Ensures.protected (ensures : machine.Ensures post program state)
    (always : ∀ state, invariant state) :
    (machine.alone invariant).Protected post program state := by
  induction program generalizing state with
  | done value => exact done (always state) ensures.finished
  | call operation next induction =>
      apply call (always state)
      intro choice answer after performed
      exact induction answer (ensures.advance ⟨choice, performed⟩)

theorem ensures_trivial (machine : Machine signature σ κ)
    (program : Program signature α) (state : σ) :
    machine.Ensures (fun _ _ => True) program state := by
  induction program generalizing state with
  | done value => exact done trivial trivial
  | call operation next induction =>
      apply call trivial
      intro choice answer after performed
      exact induction answer after

/-- An invariant and a result that were shown apart hold together. -/
theorem Ensures.with {other : α → σ → Prop}
    (ensures : machine.Ensures post program state)
    (safe : (machine.alone invariant).Protected other program state) :
    (machine.alone invariant).Protected
      (fun value state => post value state ∧ other value state) program
      state := by
  induction program generalizing state with
  | done value => exact done safe.holds ⟨ensures.finished, safe.finished⟩
  | call operation next induction =>
      apply call safe.holds
      intro choice answer after performed
      exact induction answer (ensures.advance ⟨choice, performed⟩)
        (safe.advance ⟨choice, performed⟩)

theorem weaken {weaker : σ → Prop}
    (implies : ∀ state, invariant state → weaker state)
    (safe : (machine.alone invariant).Protected post program state) :
    (machine.alone weaker).Protected post program state := by
  induction program generalizing state with
  | done value => exact done (implies state safe.holds) safe.finished
  | call operation next induction =>
      apply call (implies state safe.holds)
      intro choice answer after performed
      exact induction answer (safe.advance ⟨choice, performed⟩)

/-- The machine with a record of what was exchanged with it. -/
def recorded (machine : Machine signature σ κ) :
    Machine signature (σ × List signature.Exchange) κ :=
  { perform := fun state operation choice =>
      (machine.perform state.1 operation choice).map fun (answer, after) =>
        (answer, after, state.2 ++ [⟨operation, answer⟩]) }

section Recorded

variable {log : List signature.Exchange}

theorem recorded_call {post : α → σ × List signature.Exchange → Prop}
    {invariant : σ × List signature.Exchange → Prop}
    {operation : signature.Op}
    {next : signature.Answer operation → Program signature α}
    (holds : invariant (state, log))
    (goesOn : ∀ choice answer after,
      machine.perform state operation choice = some (answer, after) →
      (machine.recorded.alone invariant).Protected post (next answer)
        (after, log ++ [⟨operation, answer⟩])) :
    (machine.recorded.alone invariant).Protected post
      (.call operation next) (state, log) := by
  apply call holds
  intro choice answer after performed
  obtain ⟨⟨answered, later⟩, underneath, equality⟩ :=
    Option.map_eq_some_iff.mp performed
  cases equality
  exact goesOn choice _ _ underneath

theorem Ensures.recorded (ensures : machine.Ensures post program state) :
    machine.recorded.Ensures (fun value final => post value final.1) program
      (state, log) := by
  induction program generalizing state log with
  | done value => exact done trivial ensures.finished
  | call operation next induction =>
      apply recorded_call trivial
      intro choice answer after performed
      exact induction answer (ensures.advance ⟨choice, performed⟩)

/-- Every run can be recorded. -/
theorem recorded_of_exec {rest : Program signature α} {choices : List κ}
    (result : machine.exec program state choices = some (rest, final))
    (log : List signature.Exchange) :
    ∃ longer, machine.recorded.exec program (state, log) choices =
      some (rest, final, longer) := by
  induction choices generalizing program state log with
  | nil =>
      rw [exec_nil] at result
      cases result
      exact ⟨log, exec_nil _ _⟩
  | cons choice choices induction =>
      cases program with
      | done value => cases result
      | call operation next =>
          obtain ⟨⟨answer, after⟩, performed, continued⟩ :=
            Option.bind_eq_some_iff.mp result
          obtain ⟨longer, recorded⟩ := induction continued
            (log ++ [⟨operation, answer⟩])
          refine ⟨longer, ?_⟩
          simp only [exec, Machine.recorded, performed, Option.map_some,
            Option.bind_some]
          exact recorded

/-- The record only grows. -/
theorem recorded_grows (machine : Machine signature σ κ)
    (program : Program signature α) (state : σ)
    (log : List signature.Exchange) :
    machine.recorded.Ensures (fun _ final => log ⊆ final.2) program
      (state, log) := by
  induction program generalizing state log with
  | done value => exact done trivial fun _ member => member
  | call operation next induction =>
      apply recorded_call trivial
      intro choice answer after performed
      apply Setting.Protected.mono _ (induction answer after _)
      intro value final grown exchange member
      exact grown (List.mem_append_left _ member)

end Recorded

/-- The operations of two machines over one state. -/
def sum (machine : Machine first σ κ) (other : Machine second σ κ) :
    Machine (first.sum second) σ κ :=
  { perform := fun state operation choice =>
      match operation with
      | .inl operation => machine.perform state operation choice
      | .inr operation => other.perform state operation choice }

theorem protected_sum_inl {machine : Machine first σ κ}
    {other : Machine second σ κ} {program : Program first α}
    (safe : (machine.alone invariant).Protected post program state) :
    ((machine.sum other).alone invariant).Protected post program.inl state :=
  Setting.Protected.inl safe

theorem protected_sum_inr {machine : Machine first σ κ}
    {other : Machine second σ κ} {program : Program second α}
    (safe : (other.alone invariant).Protected post program state) :
    ((machine.sum other).alone invariant).Protected post program.inr state :=
  Setting.Protected.inr safe

/-- A machine that works on a part of a larger state. -/
def zoom (machine : Machine signature σ κ) (get : τ → σ) (put : σ → τ → τ)
    (pick : ι → κ) : Machine signature τ ι :=
  { perform := fun state operation choice =>
      (machine.perform (get state) operation (pick choice)).map
        fun (answer, after) => (answer, put after state) }

/-- What a program does to the part, it does to the whole. -/
theorem protected_zoom {get : τ → σ} {put : σ → τ → τ} {pick : ι → κ}
    {invariant : τ → Prop} {post : α → τ → Prop} {whole : τ}
    (get_put : ∀ part, get (put part whole) = part)
    (put_put : ∀ part later, put later (put part whole) = put later whole)
    (put_get : put (get whole) whole = whole)
    (safe : (machine.alone fun part => invariant (put part whole)).Protected
      (fun value part => post value (put part whole)) program (get whole)) :
    ((machine.zoom get put pick).alone invariant).Protected post program
      whole := by
  have general : ∀ part,
      (machine.alone fun part => invariant (put part whole)).Protected
        (fun value part => post value (put part whole)) program part →
      ((machine.zoom get put pick).alone invariant).Protected post program
        (put part whole) := by
    clear safe
    induction program with
    | done value =>
        intro part safe
        have holds : invariant (put part whole) := safe.holds
        exact done holds safe.finished
    | call operation next induction =>
        intro part safe
        have holds : invariant (put part whole) := safe.holds
        apply call holds
        intro choice answer after performed
        obtain ⟨⟨partAnswer, partAfter⟩, partPerformed, equality⟩ :=
          Option.map_eq_some_iff.mp performed
        cases equality
        rw [get_put] at partPerformed
        rw [put_put]
        exact induction answer partAfter
          (safe.advance ⟨pick choice, partPerformed⟩)
  have result := general (get whole) safe
  rwa [put_get] at result

end Machine

end Foundation
