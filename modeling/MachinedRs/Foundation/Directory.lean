import MachinedRs.Foundation.Bytes
import MachinedRs.Foundation.Machine

/-!
# One directory under operations that fail or are cut off

The entries of a directory are files, directories and symbolic links; no file
has two names.  Names are paths as seen from the directory, so that a link may
lead anywhere.  An operation runs, or fails without effect, or takes effect and
reports a failure; a write that is cut off leaves any beginning of what it was
to write.  A rename is a single step.  Files remember whether they were written
here or were found.
-/

namespace Foundation

inductive DirEntry where
  | file (content : Bytes) (written : Bool)
  | dir
  | link (target : String)
deriving DecidableEq, Repr

structure Directory where
  entries : String → Option DirEntry

namespace Directory

def put (directory : Directory) (name : String) (entry : DirEntry) :
    Directory :=
  { entries := fun other =>
      if other = name then some entry else directory.entries other }

def erase (directory : Directory) (name : String) : Directory :=
  { entries := fun other =>
      if other = name then none else directory.entries other }

/-- The name that is left when links are followed; not more than so many. -/
def follow (directory : Directory) : Nat → String → Option String
  | links, name =>
      match directory.entries name, links with
      | some (.link _), 0 => none
      | some (.link target), links + 1 => directory.follow links target
      | _, _ => some name

/-- How many links the system follows. -/
def maxFollowed : Nat :=
  40

/-- No entry is a link. -/
def Plain (directory : Directory) : Prop :=
  ∀ name target, directory.entries name ≠ some (.link target)

variable (directory : Directory) {name other : String} (entry : DirEntry)

@[simp] theorem put_self :
    (directory.put name entry).entries name = some entry :=
  if_pos rfl

theorem put_of_ne (differs : other ≠ name) :
    (directory.put name entry).entries other = directory.entries other :=
  if_neg differs

@[simp] theorem erase_self : (directory.erase name).entries name = none :=
  if_pos rfl

theorem erase_of_ne (differs : other ≠ name) :
    (directory.erase name).entries other = directory.entries other :=
  if_neg differs

variable {directory entry}

theorem Plain.follow (plain : directory.Plain) (links : Nat) (name : String) :
    directory.follow links name = some name := by
  cases shown : directory.entries name with
  | none => cases links <;> simp [Directory.follow, shown]
  | some entry =>
      cases entry with
      | link target => exact absurd shown (plain name target)
      | file content written =>
          cases links <;> simp [Directory.follow, shown]
      | dir => cases links <;> simp [Directory.follow, shown]

theorem Plain.erase (plain : directory.Plain) (name : String) :
    (directory.erase name).Plain := by
  intro other target
  by_cases same : other = name
  · rw [same, erase_self]
    exact nofun
  · rw [erase_of_ne directory same]
    exact plain other target

theorem Plain.put (plain : directory.Plain) (name : String)
    (noLink : ∀ target, entry ≠ .link target) :
    (directory.put name entry).Plain := by
  intro other target
  by_cases same : other = name
  · rw [same, put_self]
    exact fun isLink => noLink target (Option.some.inj isLink)
  · rw [put_of_ne directory entry same]
    exact plain other target

end Directory

inductive DirOp where
  | createDirAll
  | exists (name : String)
  | read (name : String)
  | removeFile (name : String)
  | write (name : String) (content : Bytes)
  | rename (source target : String)
deriving DecidableEq, Repr

/-- Errors are what they display. -/
@[reducible] def DirOp.Answer : DirOp → Type
  | .exists _ => Bool
  | .read _ => Except String Bytes
  | _ => Except String Unit

abbrev dirSignature : Signature :=
  { Op := DirOp, Answer := DirOp.Answer }

/-- How an operation ends.  A late one has had its effect before it fails; a cut
one has written this much. -/
inductive DirFate where
  | runs
  | fails (message : String)
  | late (message : String)
  | cut (length : Nat) (message : String)
deriving DecidableEq, Repr

namespace DirOp

def tooManyLinks : String :=
  "Too many levels of symbolic links (os error 40)"

/-- The operation when nothing goes wrong from outside.  Removing and renaming
are about a link itself, the others about what it leads to. -/
def run (directory : Directory) :
    (operation : DirOp) → operation.Answer × Directory
  | .createDirAll => (.ok (), directory)
  | .exists name =>
      (((directory.follow Directory.maxFollowed name).bind
        directory.entries).isSome, directory)
  | .read name =>
      match directory.follow Directory.maxFollowed name with
      | none => (.error tooManyLinks, directory)
      | some name =>
          match directory.entries name with
          | some (.file content _) => (.ok content, directory)
          | some _ => (.error "Is a directory (os error 21)", directory)
          | none =>
              (.error "No such file or directory (os error 2)", directory)
  | .removeFile name =>
      match directory.entries name with
      | some .dir => (.error "Is a directory (os error 21)", directory)
      | some _ => (.ok (), directory.erase name)
      | none =>
          (.error "No such file or directory (os error 2)", directory)
  | .write name content =>
      match directory.follow Directory.maxFollowed name with
      | none => (.error tooManyLinks, directory)
      | some name =>
          match directory.entries name with
          | some .dir => (.error "Is a directory (os error 21)", directory)
          | _ => (.ok (), directory.put name (.file content true))
  | .rename source target =>
      match directory.entries source, directory.entries target with
      | none, _ =>
          (.error "No such file or directory (os error 2)", directory)
      | some .dir, some .dir =>
          (.ok (), (directory.erase source).put target .dir)
      | some _, some .dir =>
          (.error "Is a directory (os error 21)", directory)
      | some .dir, some _ =>
          (.error "Not a directory (os error 20)", directory)
      | some entry, _ =>
          (.ok (), (directory.erase source).put target entry)

/-- The answer of an operation that failed; an entry whose existence cannot be
checked counts as absent. -/
def refused (message : String) : (operation : DirOp) → operation.Answer
  | .exists _ => false
  | .createDirAll => .error message
  | .read _ => .error message
  | .removeFile _ => .error message
  | .write _ _ => .error message
  | .rename _ _ => .error message

def isCheck : DirOp → Bool
  | .exists _ => true
  | _ => false

end DirOp

/-- If the checks are `trusted`, none of them fails. -/
def dirMachine (trusted : Bool) : Machine dirSignature Directory DirFate :=
  { perform := fun directory operation fate =>
      match fate with
      | .runs => some (operation.run directory)
      | .fails message =>
          if trusted && operation.isCheck then none
          else some (operation.refused message, directory)
      | .late message =>
          if operation.isCheck then none
          else some (operation.refused message, (operation.run directory).2)
      | .cut length message =>
          match operation with
          | .write name content =>
              some (.error message,
                (DirOp.run directory (.write name (content.take length))).2)
          | _ => none }

section Effects

variable {trusted : Bool} {directory after : Directory} {fate : DirFate}
  {name source target : String} {content : Bytes}

/-- What an operation that failed may have left behind. -/
inductive DirOp.Leaves (directory : Directory) : DirOp → Directory → Prop where
  | nothing {operation : DirOp} : Leaves directory operation directory
  | whole {operation : DirOp} :
      Leaves directory operation (operation.run directory).2
  | part {name : String} {content : Bytes} (length : Nat) :
      Leaves directory (.write name content)
        (DirOp.run directory (.write name (content.take length))).2

/-- An operation has run, or it is refused. -/
theorem dirMachine_performed {operation : DirOp} {answer : operation.Answer}
    (performed : (dirMachine trusted).perform directory operation fate =
      some (answer, after)) :
    (answer, after) = operation.run directory ∨
      ∃ message, answer = operation.refused message ∧
        (trusted && operation.isCheck) = false ∧
        operation.Leaves directory after := by
  cases fate with
  | runs => exact .inl (Option.some.inj performed).symm
  | fails message =>
      simp only [dirMachine] at performed
      split at performed
      · cases performed
      case isFalse failing =>
        cases performed
        exact .inr ⟨message, rfl, by simpa using failing, .nothing⟩
  | late message =>
      simp only [dirMachine] at performed
      split at performed
      · cases performed
      case isFalse noCheck =>
        cases performed
        refine .inr ⟨message, rfl, ?_, .whole⟩
        rw [Bool.not_eq_true] at noCheck
        rw [noCheck, Bool.and_false]
  | cut length message =>
      cases operation with
      | write name content =>
          cases performed
          exact .inr ⟨message, rfl, Bool.and_false _, .part length⟩
      | createDirAll => cases performed
      | «exists» name => cases performed
      | read name => cases performed
      | removeFile name => cases performed
      | rename source target => cases performed

/-- A check for existence that is trusted tells the truth. -/
theorem performed_exists (plain : directory.Plain) {answer : Bool}
    (performed : (dirMachine trusted).perform directory (.exists name) fate =
      some (answer, after)) :
    after = directory ∧
      (trusted = true → answer = (directory.entries name).isSome) := by
  rcases dirMachine_performed performed with ran | ⟨_, _, failing, left⟩
  · cases ran
    rw [plain.follow]
    exact ⟨rfl, fun _ => rfl⟩
  · refine ⟨?_, ?_⟩
    · cases left with
      | nothing => rfl
      | whole => rfl
    · rintro rfl
      cases failing

theorem performed_createDirAll {answer : Except String Unit}
    (performed : (dirMachine trusted).perform directory .createDirAll fate =
      some (answer, after)) : after = directory := by
  rcases dirMachine_performed performed with ran | ⟨_, _, _, left⟩
  · cases ran
    rfl
  · cases left with
    | nothing => rfl
    | whole => rfl

theorem run_read (plain : directory.Plain) (name : String) :
    (DirOp.run directory (.read name)).2 = directory ∧
      ∀ content, (DirOp.run directory (.read name)).1 = .ok content →
        ∃ written, directory.entries name = some (.file content written) := by
  simp only [DirOp.run, plain.follow]
  split
  case h_1 found written shown =>
    refine ⟨rfl, ?_⟩
    intro content same
    cases same
    exact ⟨written, shown⟩
  case h_2 => exact ⟨rfl, by simp⟩
  case h_3 => exact ⟨rfl, by simp⟩

theorem performed_read (plain : directory.Plain)
    {answer : Except String Bytes}
    (performed : (dirMachine trusted).perform directory (.read name) fate =
      some (answer, after)) :
    after = directory ∧ ∀ content, answer = .ok content →
      ∃ written, directory.entries name = some (.file content written) := by
  obtain ⟨idle, reads⟩ := run_read plain name
  rcases dirMachine_performed performed with ran | ⟨message, rfl, _, left⟩
  · obtain ⟨rfl, rfl⟩ := Prod.mk.inj ran
    exact ⟨idle, reads⟩
  · refine ⟨?_, by simp [DirOp.refused]⟩
    cases left with
    | nothing => rfl
    | whole => exact idle

theorem run_removeFile (directory : Directory) (name : String) :
    DirOp.run directory (.removeFile name) = (.ok (), directory.erase name) ∨
      ∃ error, DirOp.run directory (.removeFile name) =
        (.error error, directory) := by
  rw [DirOp.run]
  split
  · exact .inr ⟨_, rfl⟩
  · exact .inl rfl
  · exact .inr ⟨_, rfl⟩

theorem performed_removeFile {answer : Except String Unit}
    (performed : (dirMachine trusted).perform directory (.removeFile name)
      fate = some (answer, after)) :
    (after = directory ∨ after = directory.erase name) ∧
      (answer = .ok () → after = directory.erase name) := by
  rcases dirMachine_performed performed with ran | ⟨message, rfl, _, left⟩
  · rcases run_removeFile directory name with removed | ⟨error, failed⟩
    · rw [removed] at ran
      obtain ⟨rfl, rfl⟩ := Prod.mk.inj ran
      exact ⟨.inr rfl, fun _ => rfl⟩
    · rw [failed] at ran
      obtain ⟨rfl, rfl⟩ := Prod.mk.inj ran
      exact ⟨.inl rfl, by simp⟩
  · refine ⟨?_, by simp [DirOp.refused]⟩
    cases left with
    | nothing => exact .inl rfl
    | whole =>
        rcases run_removeFile directory name with removed | ⟨error, failed⟩
        · rw [removed]
          exact .inr rfl
        · rw [failed]
          exact .inl rfl

theorem run_write (plain : directory.Plain) (name : String)
    (content : Bytes) :
    DirOp.run directory (.write name content) =
        (.ok (), directory.put name (.file content true)) ∨
      ∃ error, DirOp.run directory (.write name content) =
        (.error error, directory) := by
  simp only [DirOp.run, plain.follow]
  split
  · exact .inr ⟨_, rfl⟩
  · exact .inl rfl

/-- A write has left some content under the name or done nothing; all of it if
it succeeds. -/
theorem performed_write (plain : directory.Plain)
    {answer : Except String Unit}
    (performed : (dirMachine trusted).perform directory (.write name content)
      fate = some (answer, after)) :
    (after = directory ∨
      ∃ part, after = directory.put name (.file part true)) ∧
      (answer = .ok () → after = directory.put name (.file content true)) := by
  have leaves : ∀ content,
      (DirOp.run directory (.write name content)).2 = directory ∨
        ∃ part, (DirOp.run directory (.write name content)).2 =
          directory.put name (.file part true) := by
    intro content
    rcases run_write plain name content with done | ⟨error, failed⟩
    · rw [done]
      exact .inr ⟨content, rfl⟩
    · rw [failed]
      exact .inl rfl
  rcases dirMachine_performed performed with ran | ⟨message, rfl, _, left⟩
  · rcases run_write plain name content with done | ⟨error, failed⟩
    · rw [done] at ran
      obtain ⟨rfl, rfl⟩ := Prod.mk.inj ran
      exact ⟨.inr ⟨content, rfl⟩, fun _ => rfl⟩
    · rw [failed] at ran
      obtain ⟨rfl, rfl⟩ := Prod.mk.inj ran
      exact ⟨.inl rfl, by simp⟩
  · refine ⟨?_, by simp [DirOp.refused]⟩
    cases left with
    | nothing => exact .inl rfl
    | whole => exact leaves content
    | part length => exact leaves _

theorem run_rename (directory : Directory) (source target : String) :
    (∃ entry, directory.entries source = some entry ∧
      DirOp.run directory (.rename source target) =
        (.ok (), (directory.erase source).put target entry)) ∨
      ∃ error, DirOp.run directory (.rename source target) =
        (.error error, directory) := by
  rw [DirOp.run]
  split
  · exact .inr ⟨_, rfl⟩
  case h_2 shown _ => exact .inl ⟨.dir, shown, rfl⟩
  · exact .inr ⟨_, rfl⟩
  · exact .inr ⟨_, rfl⟩
  case h_5 entry shown _ _ _ => exact .inl ⟨entry, shown, rfl⟩

/-- A rename has moved the entry or done nothing; it has moved the entry if it
succeeds. -/
theorem performed_rename {answer : Except String Unit}
    (performed : (dirMachine trusted).perform directory (.rename source target)
      fate = some (answer, after)) :
    (after = directory ∨ ∃ entry, directory.entries source = some entry ∧
      after = (directory.erase source).put target entry) ∧
      (answer = .ok () → ∃ entry, directory.entries source = some entry ∧
        after = (directory.erase source).put target entry) := by
  rcases dirMachine_performed performed with ran | ⟨message, rfl, _, left⟩
  · rcases run_rename directory source target with
      ⟨entry, shown, moved⟩ | ⟨error, failed⟩
    · rw [moved] at ran
      obtain ⟨rfl, rfl⟩ := Prod.mk.inj ran
      exact ⟨.inr ⟨entry, shown, rfl⟩, fun _ => ⟨entry, shown, rfl⟩⟩
    · rw [failed] at ran
      obtain ⟨rfl, rfl⟩ := Prod.mk.inj ran
      exact ⟨.inl rfl, by simp⟩
  · refine ⟨?_, by simp [DirOp.refused]⟩
    cases left with
    | nothing => exact .inl rfl
    | whole =>
        rcases run_rename directory source target with
          ⟨entry, shown, moved⟩ | ⟨error, failed⟩
        · rw [moved]
          exact .inr ⟨entry, shown, rfl⟩
        · rw [failed]
          exact .inl rfl

end Effects

end Foundation
