import MachinedRs.Block.Backend

/-!
# Passes of a block controller

A reconcile pass in the middle of its work: the program that remains, the event
of its last store operation until it is sent, and what it has exchanged with
the store and the backend so far.
-/

namespace MachinedRs

open Foundation

/-- What the backend happens to return.  A call that does not fail takes the
part of its type. -/
structure Reply where
  failure : Option BlockError
  disks : List DiskInfo
  volumes : List VolumeInfo
  devices : List String
deriving DecidableEq, Repr

namespace BlockCall

def value (reply : Reply) : (call : BlockCall) → call.Value
  | .listDisks => reply.disks
  | .listVolumes => reply.volumes
  | .wipe _ => ()
  | .createPartitions _ _ => reply.devices
  | .addPartitions _ _ => reply.devices
  | .format _ _ _ => ()

def answer (reply : Reply) (call : BlockCall) :
    Except BlockError call.Value :=
  match reply.failure with
  | some error => .error error
  | none => .ok (call.value reply)

end BlockCall

/-- The open choices of one step of a pass: the order of a listing and the
reply of the backend. -/
structure Choice where
  listing : List ResourceObject
  reply : Reply
deriving DecidableEq, Repr

abbrev PassLog :=
  List blockControllerSignature.Exchange

structure Pass where
  program : Program blockControllerSignature (Result Unit)
  outbox : List Event
  log : PassLog

namespace Pass

def begin (program : Program blockControllerSignature (Result Unit)) : Pass :=
  { program := program, outbox := [], log := [] }

def finished (pass : Pass) : Bool :=
  pass.program.isDone && pass.outbox.isEmpty

/-- Issue the next operation or call, once the previous event is sent. -/
def step (objects : Objects) (pass : Pass) (choice : Choice) :
    Option (Pass × Objects) :=
  match pass.outbox, pass.program with
  | [], .call (.inl operation) next =>
      (Op.answer? objects choice.listing operation).map fun answer =>
        ({ program := next answer
           outbox := Op.emits objects operation
           log := pass.log ++ [⟨.inl operation, answer⟩] },
          Op.after objects operation)
  | [], .call (.inr call) next =>
      let answer := BlockCall.answer choice.reply call
      some
        ({ program := next answer
           outbox := []
           log := pass.log ++ [⟨.inr call, answer⟩] },
          objects)
  | _, _ => none

/-- Send the event of the last store operation. -/
def emit (pass : Pass) : Option (Pass × Event) :=
  match pass.outbox with
  | [] => none
  | event :: rest => some ({ pass with outbox := rest }, event)

/-- A step issues the next operation of the program and records its answer. -/
theorem step_spec {objects after : Objects} {pass next : Pass}
    {choice : Choice} (stepped : pass.step objects choice = some (next, after)) :
    ∃ operation rest answer, pass.program = .call operation rest ∧
      next.program = rest answer ∧
      next.log = pass.log ++ [⟨operation, answer⟩] := by
  obtain ⟨program, outbox, log⟩ := pass
  cases outbox with
  | cons event events => cases stepped
  | nil =>
      cases program with
      | done value => cases stepped
      | call operation rest =>
          cases operation with
          | inl operation =>
              obtain ⟨answer, answered, equality⟩ :=
                Option.map_eq_some_iff.mp stepped
              cases equality
              exact ⟨.inl operation, rest, answer, rfl, rfl, rfl⟩
          | inr call =>
              cases stepped
              exact ⟨.inr call, rest, _, rfl, rfl, rfl⟩

theorem emit_spec {pass next : Pass} {event : Event}
    (emitted : pass.emit = some (next, event)) :
    next.program = pass.program ∧ next.log = pass.log := by
  obtain ⟨program, outbox, log⟩ := pass
  cases outbox with
  | nil => cases emitted
  | cons head rest =>
      cases emitted
      exact ⟨rfl, rfl⟩

end Pass

end MachinedRs
