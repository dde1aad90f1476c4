import MachinedRs.Foundation.Directory
import MachinedRs.Foundation.FileSystem
import MachinedRs.Foundation.System

/-!
# The cache of verified artifacts

`fetchVerified` looks for an artifact under its pinned hash, and trusts what it
finds only if it hashes to the pin.  A download is written to a temporary file
and renamed once it is complete.  Calls follow each other on one cache
directory, and any of them may fail or be cut off at any operation.  All this
needs a cache directory without links: a link at the name of a temporary file
lets a download overwrite what the link leads to.
-/

namespace MachinedRs

open Foundation

/-- The operations on the cache directory, and downloads by their URLs. -/
abbrev fetchSignature : Signature :=
  dirSignature.sum { Op := String, Answer := fun _ => Except String Bytes }

inductive FetchError where
  | invalidPin (url : String)
  /-- A file operation failed; only its context is shown. -/
  | context (message : String)
  | download (error : String)
  | mismatch (url expected actual : String)
deriving DecidableEq, Repr

def isHexDigit (byte : UInt8) : Bool :=
  (48 ≤ byte && byte ≤ 57) || (65 ≤ byte && byte ≤ 70) ||
    (97 ≤ byte && byte ≤ 102)

def validPin (sha256 : String) : Bool :=
  (utf8 sha256).length = 64 && (utf8 sha256).all isHexDigit &&
    sha256 = String.ofList (sha256.toList.map Char.toLower)

def tmpName (sha256 : String) : String :=
  "." ++ sha256 ++ ".tmp"

section Program

variable (digest : Bytes → String) (url sha256 : String) (cacheDir : Path)

abbrev Fetching := Program fetchSignature (Except FetchError Path)

def cachedPath : Path :=
  cacheDir ++ [sha256]

def inContext {α : Type} (context : String) (answer : Except String α) :
    Except FetchError α :=
  answer.mapError fun _ => .context context

/-- From the download on. -/
def fetchFresh : Fetching :=
  .call (.inr url) fun (response : Except String Bytes) =>
    .attempt (response.mapError .download) fun body =>
      if digest body ≠ sha256 then
        .done (.error (.mismatch url sha256 (digest body)))
      else
        .call (.inl (.write (tmpName sha256) body)) fun written =>
          .attempt
            (inContext ("writing artifact to " ++
              Path.display (cacheDir ++ [tmpName sha256])) written) fun _ =>
            .call (.inl (.rename (tmpName sha256) sha256)) fun renamed =>
              .attempt
                (inContext ("moving artifact into place at " ++
                  (cachedPath sha256 cacheDir).display) renamed) fun _ =>
                .done (.ok (cachedPath sha256 cacheDir))

def fetchVerified : Fetching :=
  if validPin sha256 then
    .call (.inl .createDirAll) fun created =>
      .attempt
        (inContext ("creating cache dir " ++ cacheDir.display) created)
        fun _ =>
        .call (.inl (.exists sha256)) fun (found : Bool) =>
          if found then
            .call (.inl (.read sha256)) fun read =>
              .attempt
                (inContext ("reading cached artifact " ++
                  (cachedPath sha256 cacheDir).display) read) fun existing =>
                if digest existing = sha256 then
                  .done (.ok (cachedPath sha256 cacheDir))
                else
                  .call (.inl (.removeFile sha256)) fun removed =>
                    .attempt
                      (inContext ("removing corrupt cache entry " ++
                        (cachedPath sha256 cacheDir).display) removed)
                      fun _ => fetchFresh digest url sha256 cacheDir
          else
            fetchFresh digest url sha256 cacheDir
  else
    .done (.error (.invalidPin url))

end Program

/-- What settles an operation: its fate, or what the server sends. -/
abbrev FetchChoice := DirFate × Except String Bytes

def fetchMachine (trusted : Bool) :
    Machine fetchSignature Directory FetchChoice :=
  { perform := fun directory operation choice =>
      match operation with
      | .inl operation =>
          (dirMachine trusted).perform directory operation choice.1
      | .inr _ => some (choice.2, directory) }

/-- A call that runs as far as its choices go: to its end, or to where it is cut
off. -/
structure FetchCall where
  url : String
  sha256 : String
  choices : List FetchChoice

/-- Calls on one cache directory.  At first it has no links, and nothing in it
was put there by an earlier call. -/
def cacheSystem (digest : Bytes → String) (cacheDir : Path) :
    System Directory FetchCall :=
  { Initial := fun directory => directory.Plain ∧ ∀ name content,
      directory.entries name ≠ some (.file content true)
    step := fun directory call =>
      ((fetchMachine false).exec
        (fetchVerified digest call.url call.sha256 cacheDir) directory
        call.choices).map Prod.snd }

section Cache

variable {digest : Bytes → String} {url sha256 : String} {cacheDir : Path}
  {trusted : Bool} {directory after : Directory}

/-- What the calls have put under a pin hashes to it. -/
def OwnVerified (digest : Bytes → String) (directory : Directory) : Prop :=
  ∀ pin content, validPin pin = true →
    directory.entries pin = some (.file content true) → digest content = pin

/-- The file under a name hashes to the name. -/
def HashesTo (digest : Bytes → String) (directory : Directory)
    (name : String) : Prop :=
  ∃ content written, directory.entries name = some (.file content written) ∧
    digest content = name

theorem validPin_ne_tmpName {pin : String} (valid : validPin pin = true)
    (sha256 : String) : pin ≠ tmpName sha256 := by
  rintro rfl
  have dot : (46 : UInt8) ∈ utf8 (tmpName sha256) := by
    have first : utf8 "." = [46] := by decide +kernel
    rw [tmpName, utf8_append, utf8_append, first]
    simp
  have digits : (utf8 (tmpName sha256)).all isHexDigit = true := by
    simp only [validPin, Bool.and_eq_true] at valid
    exact valid.1.2
  have impossible := List.all_eq_true.mp digits 46 dot
  revert impossible
  decide

/-- What every operation of a call keeps. -/
structure Verified (digest : Bytes → String) (directory : Directory) :
    Prop where
  plain : directory.Plain
  own : OwnVerified digest directory

theorem Verified.erase (verified : Verified digest directory)
    (name : String) : Verified digest (directory.erase name) := by
  refine ⟨verified.plain.erase name, ?_⟩
  intro pin content valid shown
  by_cases same : pin = name
  · rw [same, Directory.erase_self] at shown
    cases shown
  · rw [Directory.erase_of_ne directory same] at shown
    exact verified.own pin content valid shown

theorem Verified.put (verified : Verified digest directory) {name : String}
    {content : Bytes} (written : Bool)
    (hashes : validPin name = true → digest content = name) :
    Verified digest (directory.put name (.file content written)) := by
  refine ⟨verified.plain.put name nofun, ?_⟩
  intro pin other valid shown
  by_cases same : pin = name
  · rw [same, Directory.put_self] at shown
    cases shown
    rw [same] at valid ⊢
    exact hashes valid
  · rw [Directory.put_of_ne directory _ same] at shown
    exact verified.own pin other valid shown

/-- What a call that returns has done, by its result. -/
structure FetchEnds (digest : Bytes → String) (sha256 : String)
    (cacheDir : Path) (trusted : Bool) (result : Except FetchError Path)
    (final : Directory) : Prop where
  ok : ∀ path, result = .ok path →
    path = cacheDir ++ [sha256] ∧ HashesTo digest final sha256
  mismatch : ∀ url expected actual,
    result = .error (.mismatch url expected actual) → trusted = true →
      final.entries sha256 = none

theorem FetchEnds.error {error : FetchError}
    (other : ∀ url expected actual, error ≠ .mismatch url expected actual) :
    FetchEnds digest sha256 cacheDir trusted (.error error) after := by
  constructor
  · intro path impossible
    cases impossible
  · intro url expected actual isMismatch
    exact absurd (Except.error.inj isMismatch) (other url expected actual)

theorem protected_attempt {α : Type} {context : String}
    {answer : Except String α} {next : α → Fetching}
    (verified : Verified digest after)
    (goesOn : ∀ value, answer = .ok value →
      ((fetchMachine trusted).alone (Verified digest)).Protected
        (FetchEnds digest sha256 cacheDir trusted) (next value) after) :
    ((fetchMachine trusted).alone (Verified digest)).Protected
      (FetchEnds digest sha256 cacheDir trusted)
      (.attempt (inContext context answer) next) after := by
  cases answer with
  | error error =>
      exact Machine.done verified (FetchEnds.error (by simp))
  | ok value => exact goesOn value rfl

theorem fetchFresh_protected (verified : Verified digest directory)
    (absent : trusted = true → directory.entries sha256 = none) :
    ((fetchMachine trusted).alone (Verified digest)).Protected
      (FetchEnds digest sha256 cacheDir trusted)
      (fetchFresh digest url sha256 cacheDir) directory := by
  apply Machine.call verified
  intro choice response same downloaded
  cases downloaded
  cases choice.2 with
  | error error => exact Machine.done verified (FetchEnds.error (by simp))
  | ok body =>
      simp only [Except.mapError, Program.attempt]
      split
      case isTrue differs =>
        apply Machine.done verified
        constructor
        · intro path impossible
          cases impossible
        · intro _ _ _ _
          exact absent
      case isFalse matching =>
        have hashes : digest body = sha256 := by
          simpa using matching
        apply Machine.call verified
        intro choice written afterWrite performed
        obtain ⟨writes, complete⟩ := performed_write verified.plain performed
        have temporary : validPin (tmpName sha256) ≠ true := fun valid =>
          validPin_ne_tmpName valid sha256 rfl
        have verifiedWrite : Verified digest afterWrite := by
          rcases writes with rfl | ⟨part, rfl⟩
          · exact verified
          · exact verified.put true fun valid => absurd valid temporary
        apply protected_attempt verifiedWrite
        intro _ isWritten
        have stored : afterWrite.entries (tmpName sha256) =
            some (.file body true) := by
          rw [complete isWritten, Directory.put_self]
        apply Machine.call verifiedWrite
        intro choice renamed afterRename performed
        obtain ⟨moves, arrives⟩ := performed_rename performed
        have moved : ∀ entry,
            afterWrite.entries (tmpName sha256) = some entry →
            Verified digest
              ((afterWrite.erase (tmpName sha256)).put sha256 entry) ∧
            HashesTo digest
              ((afterWrite.erase (tmpName sha256)).put sha256 entry)
              sha256 := by
          intro entry isEntry
          rw [stored] at isEntry
          cases isEntry
          exact ⟨(verifiedWrite.erase _).put true fun _ => hashes,
            body, true, Directory.put_self _ _, hashes⟩
        have verifiedRename : Verified digest afterRename := by
          rcases moves with rfl | ⟨entry, isEntry, rfl⟩
          · exact verifiedWrite
          · exact (moved entry isEntry).1
        apply protected_attempt verifiedRename
        intro _ isRenamed
        obtain ⟨entry, isEntry, rfl⟩ := arrives isRenamed
        apply Machine.done verifiedRename
        constructor
        · intro path isPath
          cases isPath
          exact ⟨rfl, (moved entry isEntry).2⟩
        · intro _ _ _ impossible
          cases impossible

theorem fetchVerified_protected (verified : Verified digest directory) :
    ((fetchMachine trusted).alone (Verified digest)).Protected
      (FetchEnds digest sha256 cacheDir trusted)
      (fetchVerified digest url sha256 cacheDir) directory := by
  unfold fetchVerified
  split
  case isFalse => exact Machine.done verified (FetchEnds.error (by simp))
  case isTrue valid =>
    apply Machine.call verified
    intro choice created same performed
    cases performed_createDirAll performed
    apply protected_attempt verified
    intro _ _
    apply Machine.call verified
    intro choice found same performed
    obtain ⟨rfl, tells⟩ := performed_exists verified.plain performed
    split
    case isFalse notFound =>
      apply fetchFresh_protected verified
      intro isTrusted
      have answered := tells isTrusted
      rw [Bool.not_eq_true] at notFound
      rw [notFound] at answered
      simpa using answered.symm
    case isTrue =>
      apply Machine.call verified
      intro choice read same performed
      obtain ⟨rfl, reads⟩ := performed_read verified.plain performed
      apply protected_attempt verified
      intro existing isRead
      obtain ⟨written, shown⟩ := reads existing isRead
      split
      case isTrue hashes =>
        apply Machine.done verified
        constructor
        · intro path isPath
          cases isPath
          exact ⟨rfl, existing, written, shown, hashes⟩
        · intro _ _ _ impossible
          cases impossible
      case isFalse =>
        apply Machine.call verified
        intro choice removed afterRemove performed
        obtain ⟨removes, gone⟩ := performed_removeFile performed
        have verifiedRemove : Verified digest afterRemove := by
          rcases removes with rfl | rfl
          · exact verified
          · exact verified.erase sha256
        apply protected_attempt verifiedRemove
        intro _ isRemoved
        apply fetchFresh_protected verifiedRemove
        intro _
        rw [gone isRemoved, Directory.erase_self]

theorem verified_of_reachable
    (reachable : (cacheSystem digest cacheDir).Reachable directory) :
    Verified digest directory := by
  apply reachable.invariant
  · rintro start ⟨plain, found⟩
    exact ⟨plain, fun pin content _ shown =>
      absurd shown (found pin content)⟩
  · intro before call next stepped verified
    obtain ⟨⟨rest, final⟩, ran, rfl⟩ := Option.map_eq_some_iff.mp stepped
    exact (Machine.protected_of_exec
      (fetchVerified_protected verified) ran).holds

end Cache

/-- A cache without links yields verified bytes only, whatever fails; and unless
the check for an entry fails, a mismatch leaves none behind. -/
theorem fetchVerified_sound (digest : Bytes → String) (cacheDir : Path)
    {directory : Directory}
    (reachable : (cacheSystem digest cacheDir).Reachable directory) :
    OwnVerified digest directory ∧
    ∀ url sha256,
      (validPin sha256 = false →
        fetchVerified digest url sha256 cacheDir =
          .done (.error (.invalidPin url))) ∧
      (∀ path final, (fetchMachine false).Returns
          (fetchVerified digest url sha256 cacheDir) directory (.ok path)
          final →
        path = cacheDir ++ [sha256] ∧ HashesTo digest final sha256) ∧
      ∀ expected actual final, (fetchMachine true).Returns
          (fetchVerified digest url sha256 cacheDir) directory
          (.error (.mismatch url expected actual)) final →
        final.entries sha256 = none := by
  have verified := verified_of_reachable reachable
  refine ⟨verified.own, ?_⟩
  intro url sha256
  refine ⟨?_, ?_, ?_⟩
  · intro malformed
    simp [fetchVerified, malformed]
  · intro path final returns
    have settles := Machine.post_of_returns
      (fetchVerified_protected verified) returns
    exact settles.ok path rfl
  · intro expected actual final returns
    have settles := Machine.post_of_returns
      (fetchVerified_protected verified) returns
    exact settles.mismatch url expected actual rfl rfl

/-- 64 zeros. -/
def zeroPin : String :=
  String.ofList (List.replicate 64 '0')

/-- A hash that nothing but the empty file meets the pin with. -/
def zeroDigest (content : Bytes) : String :=
  if content = [] then zeroPin else "other"

/-- A cache in which another program left bytes under the pin. -/
def poisonedCache : Directory :=
  { entries := fun name =>
      if name = zeroPin then some (.file [1] false) else none }

theorem poisonedCache_reachable :
    (cacheSystem zeroDigest ["cache"]).Reachable poisonedCache := by
  refine ⟨poisonedCache, [], ⟨?_, ?_⟩, rfl⟩
  · intro name target
    rw [poisonedCache]
    dsimp only
    split <;> exact nofun
  · intro name content
    rw [poisonedCache]
    dsimp only
    split <;> simp

/-- What a call comes to, and what is then under the pin. -/
def fetchOutcome (trusted : Bool) (directory : Directory)
    (choices : List FetchChoice) :
    Option (Except FetchError Path × Option DirEntry) :=
  ((fetchMachine trusted).complete
    (fetchVerified zeroDigest "http://x/a" zeroPin ["cache"]) directory
    choices).map fun (result, final, _) => (result, final.entries zeroPin)

theorem returns_of_fetchOutcome {trusted : Bool} {directory : Directory}
    {choices : List FetchChoice} {result : Except FetchError Path}
    {entry : Option DirEntry}
    (outcome : fetchOutcome trusted directory choices =
      some (result, entry)) :
    ∃ final, (fetchMachine trusted).Returns
        (fetchVerified zeroDigest "http://x/a" zeroPin ["cache"]) directory
        result final ∧
      final.entries zeroPin = entry := by
  obtain ⟨⟨value, final, rest⟩, completed, same⟩ :=
    Option.map_eq_some_iff.mp outcome
  cases same
  exact ⟨final, Machine.returns_of_complete completed, rfl⟩

/-- The server sends the same wrong bytes; the entry is gone. -/
theorem fetchVerified_sound_poisoned :
    (cacheSystem zeroDigest ["cache"]).Reachable poisonedCache ∧
    poisonedCache.entries zeroPin = some (.file [1] false) ∧
    ∃ final, (fetchMachine true).Returns
        (fetchVerified zeroDigest "http://x/a" zeroPin ["cache"])
        poisonedCache (.error (.mismatch "http://x/a" zeroPin "other"))
        final ∧
      final.entries zeroPin = none := by
  have outcome : fetchOutcome true poisonedCache
      (List.replicate 5 (.runs, .ok [1])) =
        some (.error (.mismatch "http://x/a" zeroPin "other"), none) := by
    decide +kernel
  obtain ⟨final, returns, _⟩ := returns_of_fetchOutcome outcome
  refine ⟨poisonedCache_reachable, by decide +kernel, final, returns, ?_⟩
  exact ((fetchVerified_sound zeroDigest ["cache"]
    poisonedCache_reachable).2 "http://x/a" zeroPin).2.2 _ _ _ returns

/-- The check for the entry fails, so that it counts as absent; the mismatch is
reported, and the poisoned entry is still there. -/
theorem poisoned_entry_survives_mismatch :
    (cacheSystem zeroDigest ["cache"]).Reachable poisonedCache ∧
    (∃ final, (fetchMachine false).Returns
        (fetchVerified zeroDigest "http://x/a" zeroPin ["cache"])
        poisonedCache (.error (.mismatch "http://x/a" zeroPin "other"))
        final ∧
      final.entries zeroPin = some (.file [1] false)) ∧
    zeroDigest [1] ≠ zeroPin := by
  have outcome : fetchOutcome false poisonedCache
      [(.runs, .ok []), (.fails "Permission denied (os error 13)", .ok []),
        (.runs, .ok [1])] =
      some (.error (.mismatch "http://x/a" zeroPin "other"),
        some (.file [1] false)) := by
    decide +kernel
  exact ⟨poisonedCache_reachable, returns_of_fetchOutcome outcome,
    by decide +kernel⟩

/-- 64 ones. -/
def onePin : String :=
  String.ofList (List.replicate 64 '1')

/-- A link leads from the temporary name of one artifact to another. -/
def linkedCache : Directory :=
  { entries := fun name =>
      if name = tmpName zeroPin then some (.link onePin) else none }

/-- Why there must be no links: the call succeeds and has put its download under
the other pin, to which it does not hash. -/
theorem linked_temporary_overwrites :
    ((fetchMachine true).complete
        (fetchVerified zeroDigest "http://x/a" zeroPin ["cache"]) linkedCache
        (List.replicate 5 (.runs, .ok []))).map (fun (result, final, _) =>
      (result, final.entries onePin)) =
        some (.ok ["cache", zeroPin], some (.file [] true)) ∧
    validPin onePin = true ∧ zeroDigest [] ≠ onePin := by
  refine ⟨by decide +kernel, by decide +kernel, by decide +kernel⟩

end MachinedRs
