import MachinedRs.Pki.NodePki

/-!
# Generating the certificates

The four files are written one after another, and a later call takes a file
that exists for a complete one.  Where a generation is interrupted decides
whether a later call still gets a set that belongs together.
-/

namespace MachinedRs

open Foundation

/-- The set that one generation made. -/
def Matching (rcgen : Rcgen) (pki : NodePki) : Prop :=
  ∃ entropy serverCn serverSans,
    generateNode rcgen entropy serverCn serverSans = .ok pki

/-- An undisturbed call returns a matching set. -/
def Recovers (rcgen : Rcgen) (entropy : Nat × Nat) (dir : Path)
    (serverCn : String) (serverSans : List String) (tree : Tree) : Prop :=
  ∃ pki, (undisturbed (NodePki.loadOrGenerate rcgen entropy dir serverCn
    serverSans) tree).1 = .ok pki ∧ Matching rcgen pki

/-- A write that has at least emptied or made its file. -/
def begun : Option TreeFate → Bool
  | none => false
  | some (.fails _) => false
  | some _ => true

/-- A write that has put all its bytes. -/
def landed : Option TreeFate → Bool
  | some .runs => true
  | some (.late _) => true
  | _ => false

/-- Among the writes of a generation, that of `ca.pem` was not begun, or that of
`server.key` put all its bytes. -/
def SparedWrites (writes : List TreeFate) : Prop :=
  begun writes[0]? = false ∨ landed writes[4]? = true

/-- The writes begin after the directory is made and restricted and the four
files are looked for. -/
def Spared (fates : List TreeFate) : Prop :=
  SparedWrites (fates.drop 6)

instance (fates : List TreeFate) : Decidable (Spared fates) :=
  inferInstanceAs (Decidable (_ ∨ _))

/-- Some of the files exist, and some do not. -/
def Incomplete (present : List (String × Content)) : Prop :=
  absentFiles present ≠ [] ∧ (absentFiles present).length ≠ 4

section Recovery

variable {rcgen : Rcgen} {entropy : Nat × Nat} {parent : Path}
  {name serverCn : String} {serverSans : List String} {tree : Tree}

theorem recovers_blank (holds : Holds tree (parent ++ [name]) [])
    {fresh : NodePki}
    (generates : generateNode rcgen entropy serverCn serverSans =
      .ok fresh) :
    Recovers rcgen entropy (parent ++ [name]) serverCn serverSans tree := by
  obtain ⟨ready, stillHolds, isReady, _, decides⟩ :=
    undisturbed_loadOrGenerate rcgen entropy serverCn serverSans holds
  obtain ⟨after, _, _, persists⟩ :=
    undisturbed_persist isReady stillHolds fresh
  refine ⟨fresh, ?_, entropy, serverCn, serverSans, generates⟩
  rw [decides, generates]
  exact congrArg Prod.fst persists

theorem recovers_whole {pki : NodePki}
    (holds : Holds tree (parent ++ [name]) pki.contents)
    (matching : Matching rcgen pki) :
    Recovers rcgen entropy (parent ++ [name]) serverCn serverSans tree := by
  obtain ⟨ready, stillHolds, _, _, decides⟩ :=
    undisturbed_loadOrGenerate rcgen entropy serverCn serverSans holds
  refine ⟨pki, ?_, matching⟩
  rw [decides]
  exact congrArg Prod.fst stillHolds.undisturbed_load

theorem not_recovers_incomplete {present : List (String × Content)}
    (holds : Holds tree (parent ++ [name]) present)
    (incomplete : Incomplete present) :
    ¬ Recovers rcgen entropy (parent ++ [name]) serverCn serverSans
      tree := by
  obtain ⟨ready, _, _, _, decides⟩ :=
    undisturbed_loadOrGenerate rcgen entropy serverCn serverSans holds
  rintro ⟨pki, succeeded, _⟩
  have notEmpty : (absentFiles present).isEmpty = false := by
    rw [List.isEmpty_eq_false_iff]
    exact incomplete.1
  rw [decides, NodePki.loadOrPersist, notEmpty, if_neg (by simp),
    if_pos incomplete.2] at succeeded
  cases succeeded

theorem Matching.serverKey {pki : NodePki} (matching : Matching rcgen pki) :
    ∃ key, pki.server.keyPem = rcgen.serializePem key := by
  obtain ⟨entropy, serverCn, serverSans, generates⟩ := matching
  obtain ⟨ca, _, afterCa⟩ := bind_eq_ok_iff.mp generates
  obtain ⟨server, makesServer, assembled⟩ := bind_eq_ok_iff.mp afterCa
  cases assembled
  obtain ⟨caKey, _, afterKey⟩ := bind_eq_ok_iff.mp makesServer
  obtain ⟨caParams, _, afterParams⟩ := bind_eq_ok_iff.mp afterKey
  obtain ⟨caCert, _, afterCert⟩ := bind_eq_ok_iff.mp afterParams
  obtain ⟨params, _, afterNew⟩ := bind_eq_ok_iff.mp afterCert
  obtain ⟨key, _, afterGenerate⟩ := bind_eq_ok_iff.mp afterNew
  obtain ⟨cert, _, finished⟩ := bind_eq_ok_iff.mp afterGenerate
  cases finished
  exact ⟨key, rfl⟩

theorem prefix_of_written {text left : String} {length : Nat}
    (cut : (Content.ofText text).written length = Content.ofText left) :
    left.toList <+: text.toList := by
  obtain ⟨kept, lost, stray, whole, part⟩ :=
    (Content.ofText text).written_shape length
  rw [cut] at part
  have noStray : stray = [] := by
    cases stray with
    | nil => rfl
    | cons value values =>
        have member : Symbol.byte value ∈ Content.ofText left := by
          rw [part]
          simp
        simp [Content.ofText] at member
  rw [noStray, List.map_nil, List.append_nil] at part
  rw [← part] at whole
  have mapped : left.toList.map Symbol.char <+:
      text.toList.map Symbol.char :=
    ⟨lost, whole.symm⟩
  exact (List.prefix_map_iff_of_injective unicode_embeds.injective).mp mapped

theorem not_recovers_truncated {present : List (String × Content)}
    (holds : Holds tree (parent ++ [name]) present)
    (complete : absentFiles present = []) {pki : NodePki}
    (matching : Matching rcgen pki) {length : Nat}
    (cut : length < (Content.ofText pki.server.keyPem).bytes.length)
    (shown : present.lookup "server.key" =
      some ((Content.ofText pki.server.keyPem).written length)) :
    ¬ Recovers rcgen entropy (parent ++ [name]) serverCn serverSans
      tree := by
  obtain ⟨ready, stillHolds, _, _, decides⟩ :=
    undisturbed_loadOrGenerate rcgen entropy serverCn serverSans holds
  rintro ⟨loaded, succeeded, isMatching⟩
  rw [decides, complete] at succeeded
  have seen := load_ok succeeded "server.key" (by decide)
  have written := stillHolds.files "server.key" (by decide)
  rw [shown] at written
  obtain ⟨mode, found⟩ := written
  obtain ⟨otherMode, loadedKey⟩ := seen
  rw [found] at loadedKey
  have sameContent : (Content.ofText pki.server.keyPem).written length =
      Content.ofText loaded.server.keyPem := by
    injection loadedKey with sameNode
    injection sameNode
  obtain ⟨key, isKey⟩ := matching.serverKey
  obtain ⟨other, isOther⟩ := isMatching.serverKey
  have part := prefix_of_written sameContent
  rw [isKey, isOther] at part
  have same : loaded.server.keyPem = pki.server.keyPem := by
    rw [isKey, isOther, rcgen.framed other key part]
  have bytes := Content.bytes_written (.ofText pki.server.keyPem) length
  rw [sameContent, same] at bytes
  have lengths := congrArg List.length bytes
  rw [List.length_take] at lengths
  omega

end Recovery

section Interruption

variable {tree after : Tree} {dir : Path}
  {present : List (String × Content)} {fates : List TreeFate}
  {next rest : Program treeSignature (Except PkiError NodePki)}

/-- How far a write came: it did not begin, its file is there whole or cut off,
or the program went on. -/
theorem exec_write (ready : Ready tree dir) (holds : Holds tree dir present)
    {file : String} (isFile : file ∈ pkiFiles) {data : String}
    (ran : treeMachine.exec (NodePki.write (dir ++ [file]) data next) tree
      fates = some (rest, after)) :
    (Holds after dir present ∧ (fates = [] ∨ ∃ message,
      fates = [.fails message])) ∨
    (Holds after dir ((file, .ofText data) :: present) ∧
      ∃ message, fates = [.late message]) ∨
    (∃ extent removed message, fates = [.cut extent removed message] ∧
      extent < (Content.ofText data).bytes.length ∧
      Holds after dir
        ((file, (Content.ofText data).written extent) :: present)) ∨
    (∃ later written, fates = .runs :: later ∧ Ready written dir ∧
      Holds written dir ((file, .ofText data) :: present) ∧
      treeMachine.exec next written later = some (rest, after)) := by
  have writes := ready.run_write holds isFile (.ofText data)
  rcases Machine.exec_call ran with ⟨rfl, rfl⟩ |
    ⟨fate, later, answer, middle, rfl, performed, continued⟩
  · exact .inl ⟨holds, .inl rfl⟩
  cases fate with
  | runs =>
      have effect := writes.symm.trans (Option.some.inj performed)
      cases effect
      exact .inr (.inr (.inr ⟨later, _, rfl, ready.putFile file _,
        holds.putFile file _, continued⟩))
  | fails message =>
      cases performed
      obtain ⟨rfl, _, rfl⟩ := Machine.exec_done continued
      exact .inl ⟨holds, .inr ⟨message, rfl⟩⟩
  | late message =>
      cases performed
      obtain ⟨rfl, _, rfl⟩ := Machine.exec_done continued
      rw [writes]
      exact .inr (.inl ⟨holds.putFile file _, message, rfl⟩)
  | cut extent removed message =>
      obtain ⟨left, cut, equality⟩ := Option.map_eq_some_iff.mp performed
      cases equality
      obtain ⟨within, sameLeft⟩ := Option.ite_none_right_eq_some.mp cut
      cases sameLeft
      obtain ⟨rfl, _, rfl⟩ := Machine.exec_done continued
      exact .inr (.inr (.inl ⟨extent, removed, message, rfl, within.2,
        holds.putFile file _⟩))

theorem exec_chmod (ready : Ready tree dir) (holds : Holds tree dir present)
    {file : String} (isFile : file ∈ pkiFiles) {content : Content}
    (shown : present.lookup file = some content)
    (ran : treeMachine.exec
      (.call (.setPermissions (dir ++ [file]) 0o600) fun set =>
        NodePki.io (dir ++ [file]) set fun _ => next) tree fates =
        some (rest, after)) :
    (Holds after dir present ∧ fates.length ≤ 1) ∨
    (∃ later changed, fates = .runs :: later ∧ Ready changed dir ∧
      Holds changed dir present ∧
      treeMachine.exec next changed later = some (rest, after)) := by
  obtain ⟨changed, sets, stillHolds, stillReady⟩ :=
    holds.chmod isFile shown 0o600
  rcases Machine.exec_call ran with ⟨rfl, rfl⟩ |
    ⟨fate, later, answer, middle, rfl, performed, continued⟩
  · exact .inl ⟨holds, Nat.zero_le 1⟩
  cases fate with
  | runs =>
      have effect := sets.symm.trans (Option.some.inj performed)
      cases effect
      exact .inr ⟨later, changed, rfl, stillReady ready, stillHolds,
        continued⟩
  | fails message =>
      cases performed
      obtain ⟨rfl, _, rfl⟩ := Machine.exec_done continued
      exact .inl ⟨holds, Nat.le_refl 1⟩
  | late message =>
      cases performed
      obtain ⟨rfl, _, rfl⟩ := Machine.exec_done continued
      rw [sets]
      exact .inl ⟨stillHolds, Nat.le_refl 1⟩
  | cut extent removed message => cases performed

/-- What an interrupted generation can leave, given how its writes ended. -/
inductive Remains (pki : NodePki) (writes : List TreeFate) :
    List (String × Content) → Prop where
  | blank (spared : SparedWrites writes) : Remains pki writes []
  | whole (spared : SparedWrites writes) : Remains pki writes pki.contents
  | incomplete (torn : ¬ SparedWrites writes)
      {present : List (String × Content)} (incomplete : Incomplete present) :
      Remains pki writes present
  | truncated (torn : ¬ SparedWrites writes) {length : Nat}
      (cut : length < (Content.ofText pki.server.keyPem).bytes.length) :
      Remains pki writes
        (("server.key", (Content.ofText pki.server.keyPem).written length) ::
          pki.contents.tail)

theorem incomplete_first (caCert : Content) :
    Incomplete [("ca.pem", caCert)] := by
  simp [Incomplete, absentFiles, pkiFiles, List.lookup_cons]

theorem incomplete_second (caKey caCert : Content) :
    Incomplete [("ca.key", caKey), ("ca.pem", caCert)] := by
  simp [Incomplete, absentFiles, pkiFiles, List.lookup_cons]

theorem incomplete_third (serverCert caKey caCert : Content) :
    Incomplete [("server.pem", serverCert), ("ca.key", caKey),
      ("ca.pem", caCert)] := by
  simp [Incomplete, absentFiles, pkiFiles, List.lookup_cons]

theorem torn_of_length {fate : TreeFate} {writes : List TreeFate}
    (begins : begun (some fate) = true) (short : writes.length ≤ 3) :
    ¬ SparedWrites (fate :: writes) := by
  rintro (notBegun | whole)
  · rw [List.getElem?_cons_zero, begins] at notBegun
    cases notBegun
  · rw [List.getElem?_eq_none (Nat.succ_le_succ short)] at whole
    cases whole

/-- A write between the first and the last: wherever it stops, some files are
there and some are not. -/
theorem exec_middleWrite (ready : Ready tree dir)
    (holds : Holds tree dir present) {file : String}
    (isFile : file ∈ pkiFiles) {data : String} (before : Incomplete present)
    (during : ∀ content, Incomplete ((file, content) :: present))
    (ran : treeMachine.exec (NodePki.write (dir ++ [file]) data next) tree
      fates = some (rest, after)) :
    (∃ left, Holds after dir left ∧ Incomplete left ∧ fates.length ≤ 1) ∨
    (∃ later written, fates = .runs :: later ∧ Ready written dir ∧
      Holds written dir ((file, .ofText data) :: present) ∧
      treeMachine.exec next written later = some (rest, after)) := by
  rcases exec_write ready holds isFile ran with
    ⟨left, rfl | ⟨message, rfl⟩⟩ | ⟨left, message, rfl⟩ |
    ⟨extent, removed, message, rfl, _, left⟩ | goesOn
  · exact .inl ⟨_, left, before, Nat.zero_le 1⟩
  · exact .inl ⟨_, left, before, Nat.le_refl 1⟩
  · exact .inl ⟨_, left, during _, Nat.le_refl 1⟩
  · exact .inl ⟨_, left, during _, Nat.le_refl 1⟩
  · exact .inr goesOn

theorem exec_persist (ready : Ready tree dir) (holds : Holds tree dir [])
    {pki : NodePki}
    (ran : treeMachine.exec (NodePki.persist dir pki) tree fates =
      some (rest, after)) :
    ∃ present, Holds after dir present ∧ Remains pki fates present := by
  rcases exec_write ready holds (by decide) ran with
    ⟨left, rfl | ⟨message, rfl⟩⟩ | ⟨left, message, rfl⟩ |
    ⟨extent, removed, message, rfl, _, left⟩ |
    ⟨later, first, rfl, firstReady, firstHolds, ran⟩
  · exact ⟨_, left, .blank (.inl rfl)⟩
  · exact ⟨_, left, .blank (.inl rfl)⟩
  · exact ⟨_, left, .incomplete (torn_of_length rfl (by simp))
      (incomplete_first _)⟩
  · exact ⟨_, left, .incomplete (torn_of_length rfl (by simp))
      (incomplete_first _)⟩
  rcases exec_middleWrite firstReady firstHolds (by decide)
      (incomplete_first _) (fun _ => incomplete_second _ _) ran with
    ⟨_, left, incomplete, short⟩ |
    ⟨later, second, rfl, secondReady, secondHolds, ran⟩
  · exact ⟨_, left, .incomplete
      (torn_of_length rfl (short.trans (by decide))) incomplete⟩
  rcases exec_chmod secondReady secondHolds (by decide)
      (List.lookup_cons_self ..) ran with
    ⟨left, short⟩ | ⟨later, keyed, rfl, keyedReady, keyedHolds, ran⟩
  · refine ⟨_, left, .incomplete (torn_of_length rfl ?_)
      (incomplete_second _ _)⟩
    rw [List.length_cons]
    omega
  rcases exec_middleWrite keyedReady keyedHolds (by decide)
      (incomplete_second _ _) (fun _ => incomplete_third _ _ _) ran with
    ⟨_, left, incomplete, short⟩ |
    ⟨later, third, rfl, thirdReady, thirdHolds, ran⟩
  · refine ⟨_, left, .incomplete (torn_of_length rfl ?_) incomplete⟩
    rw [List.length_cons, List.length_cons]
    omega
  rcases exec_write thirdReady thirdHolds (by decide) ran with
    ⟨left, rfl | ⟨message, rfl⟩⟩ | ⟨left, message, rfl⟩ |
    ⟨extent, removed, message, rfl, cut, left⟩ |
    ⟨later, fourth, rfl, fourthReady, fourthHolds, ran⟩
  · exact ⟨_, left, .incomplete (torn_of_length rfl (by simp))
      (incomplete_third _ _ _)⟩
  · exact ⟨_, left, .incomplete (by simp [SparedWrites, begun, landed])
      (incomplete_third _ _ _)⟩
  · exact ⟨_, left, .whole (.inr rfl)⟩
  · exact ⟨_, left, .truncated (by simp [SparedWrites, begun, landed]) cut⟩
  rcases exec_chmod fourthReady fourthHolds (by decide)
      (List.lookup_cons_self ..) ran with
    ⟨left, _⟩ | ⟨later, final, rfl, _, finalHolds, ran⟩
  · exact ⟨_, left, .whole (.inr rfl)⟩
  · obtain ⟨_, _, rfl⟩ := Machine.exec_done ran
    exact ⟨_, finalHolds, .whole (.inr rfl)⟩

theorem exec_missingFiles {files : List String}
    {goesOn : List String →
      Program treeSignature (Except PkiError NodePki)}
    (absent : ∀ file ∈ files, tree.lookup (dir ++ [file]) = none)
    (ran : treeMachine.exec ((missingFiles dir files).bind goesOn) tree
      fates = some (rest, after)) :
    (after = tree ∧ fates.length ≤ files.length) ∨
    (∃ checks later, fates = checks ++ later ∧
      checks.length = files.length ∧
      treeMachine.exec (goesOn files) tree later = some (rest, after)) := by
  induction files generalizing fates goesOn with
  | nil => exact .inr ⟨[], fates, rfl, rfl, ran⟩
  | cons file files induction =>
      rw [missingFiles, Program.call_bind] at ran
      rcases Machine.exec_call ran with ⟨rfl, rfl⟩ |
        ⟨fate, later, answer, middle, rfl, performed, continued⟩
      · exact .inl ⟨rfl, Nat.zero_le _⟩
      have notFound : answer = false ∧ middle = tree := by
        have gone := absent file List.mem_cons_self
        cases fate with
        | runs =>
            have effect := Option.some.inj performed
            rw [TreeOp.run, gone] at effect
            cases effect
            exact ⟨rfl, rfl⟩
        | fails message =>
            cases performed
            exact ⟨rfl, rfl⟩
        | late message =>
            cases performed
            exact ⟨rfl, rfl⟩
        | cut extent removed message => cases performed
      obtain ⟨rfl, rfl⟩ := notFound
      rw [Program.bind_assoc] at continued
      rcases induction
          (fun other member => absent other (List.mem_cons_of_mem _ member))
          continued with
        ⟨same, short⟩ | ⟨checks, last, rfl, length, goesOn⟩
      · exact .inl ⟨same, Nat.succ_le_succ short⟩
      · exact .inr ⟨fate :: checks, last, rfl,
          congrArg Nat.succ length, goesOn⟩

theorem Holds.createDirAll (holds : Holds tree dir present)
    {fate : TreeFate} {answer : Except String Unit}
    (performed : treeMachine.perform tree (.createDirAll dir) fate =
      some (answer, after)) : Holds after dir present := by
  apply holds.congr
  · apply creatable_of_dirs holds.creatable
    intro path _
    exact TreeOp.createDirAll_made performed path
  · intro file _
    exact TreeOp.perform_aside performed (child_not_above dir file)

theorem Holds.restricted (holds : Holds tree dir present)
    (proper : dir ≠ []) {mode : Nat} {fate : TreeFate}
    {answer : Except String Unit}
    (performed : treeMachine.perform tree (.setPermissions dir mode) fate =
      some (answer, after)) :
    (after = tree ∧ answer ≠ .ok ()) ∨ after = tree.put dir (.dir mode) := by
  have effect : TreeOp.run tree (.setPermissions dir mode) =
        (.error TreeOp.noSuchFile, tree) ∨
      TreeOp.run tree (.setPermissions dir mode) =
        (.ok (), tree.put dir (.dir mode)) := by
    have listed : dir ∈ Tree.ancestry dir :=
      Tree.mem_ancestry.mpr ⟨List.prefix_rfl, proper⟩
    have clear := List.all_eq_true.mp holds.creatable dir listed
    simp only [TreeOp.run]
    cases found : tree.lookup dir with
    | none => exact .inl rfl
    | some node =>
        rw [found] at clear
        cases node with
        | file content fileMode => cases clear
        | dir dirMode => exact .inr rfl
  cases fate with
  | runs =>
      have ran := Option.some.inj performed
      rcases effect with refused | changed
      · cases refused.symm.trans ran
        exact .inl ⟨rfl, by simp⟩
      · cases changed.symm.trans ran
        exact .inr rfl
  | fails message =>
      cases performed
      exact .inl ⟨rfl, by simp [TreeOp.refused]⟩
  | late message =>
      cases performed
      rcases effect with refused | changed
      · rw [refused]
        exact .inl ⟨rfl, by simp [TreeOp.refused]⟩
      · rw [changed]
        exact .inr rfl
  | cut extent removed message => cases performed

theorem Holds.restrict (holds : Holds tree dir present) (proper : dir ≠ [])
    {mode : Nat} {fate : TreeFate} {answer : Except String Unit}
    (performed : treeMachine.perform tree (.setPermissions dir mode) fate =
      some (answer, after)) :
    Holds after dir present ∧ (answer = .ok () → Ready after dir) := by
  rcases holds.restricted proper performed with ⟨rfl, failed⟩ | rfl
  · exact ⟨holds, fun succeeded => absurd succeeded failed⟩
  · constructor
    · apply holds.congr
      · apply creatable_of_dirs holds.creatable
        intro path _
        rw [Tree.lookup_put]
        split
        · exact .inr ⟨mode, rfl⟩
        · exact .inl rfl
      · intro file _
        rw [Tree.lookup_put, if_neg]
        intro same
        apply child_not_above dir file
        rw [same]
    · intro _
      exact ⟨mode, by rw [Tree.lookup_put, if_pos rfl]⟩

/-- A generation stops before its first write, or comes to its writes with the
directory there. -/
theorem exec_loadOrGenerate {rcgen : Rcgen} {entropy : Nat × Nat}
    {serverCn : String} {serverSans : List String} (proper : dir ≠ [])
    (holds : Holds tree dir [])
    (ran : treeMachine.exec (NodePki.loadOrGenerate rcgen entropy dir serverCn
      serverSans) tree fates = some (rest, after)) :
    (Holds after dir [] ∧ fates.length ≤ 6) ∨
    (∃ reads writes ready pki, fates = reads ++ writes ∧ reads.length = 6 ∧
      Ready ready dir ∧ Holds ready dir [] ∧
      generateNode rcgen entropy serverCn serverSans = .ok pki ∧
      treeMachine.exec (NodePki.persist dir pki) ready writes =
        some (rest, after)) := by
  rcases Machine.exec_call ran with ⟨rfl, rfl⟩ |
    ⟨first, fates, created, made, rfl, performed, ran⟩
  · exact .inl ⟨holds, by simp⟩
  have madeHolds := holds.createDirAll performed
  cases created with
  | error message =>
      obtain ⟨rfl, _, rfl⟩ := Machine.exec_done ran
      exact .inl ⟨madeHolds, by simp⟩
  | ok _ =>
  rcases Machine.exec_call ran with ⟨rfl, rfl⟩ |
    ⟨second, fates, set, ready, rfl, performed, ran⟩
  · exact .inl ⟨madeHolds, by simp⟩
  obtain ⟨readyHolds, isReady⟩ := madeHolds.restrict proper performed
  cases set with
  | error message =>
      obtain ⟨rfl, _, rfl⟩ := Machine.exec_done ran
      exact .inl ⟨readyHolds, by simp⟩
  | ok _ =>
  rcases exec_missingFiles readyHolds.files ran with
    ⟨rfl, short⟩ | ⟨checks, writes, rfl, length, ran⟩
  · exact .inl ⟨readyHolds, Nat.succ_le_succ (Nat.succ_le_succ short)⟩
  rw [NodePki.loadOrPersist, if_neg (by decide), if_neg (by decide)] at ran
  cases generates : generateNode rcgen entropy serverCn serverSans with
  | error error =>
      rw [generates] at ran
      obtain ⟨rfl, _, rfl⟩ := Machine.exec_done ran
      refine .inl ⟨readyHolds, ?_⟩
      simp [length, pkiFiles]
  | ok pki =>
      rw [generates] at ran
      refine .inr ⟨first :: second :: checks, writes, ready, pki, rfl, ?_,
        isReady rfl, readyHolds, rfl, ran⟩
      simp [length, pkiFiles]

end Interruption

/-- A directory without the four files that a generation, interrupted anywhere,
has worked on: a later call returns a matching set just when the write of
`ca.pem` was not begun or that of `server.key` put all its bytes. -/
theorem generation_recovers_iff_spared (rcgen : Rcgen)
    {entropy laterEntropy : Nat × Nat} (parent : Path) (name : String)
    {serverCn laterCn : String} {serverSans laterSans : List String}
    {tree after : Tree} (creatable : tree.creatable (parent ++ [name]) = true)
    (absent : ∀ file ∈ pkiFiles,
      tree.lookup (parent ++ [name] ++ [file]) = none)
    {fates : List TreeFate}
    {rest : Program treeSignature (Except PkiError NodePki)}
    (ran : treeMachine.exec (NodePki.loadOrGenerate rcgen entropy
      (parent ++ [name]) serverCn serverSans) tree fates = some (rest, after))
    {fresh : NodePki}
    (generates : generateNode rcgen laterEntropy laterCn laterSans =
      .ok fresh) :
    (∃ pki, (undisturbed (NodePki.loadOrGenerate rcgen laterEntropy
        (parent ++ [name]) laterCn laterSans) after).1 = .ok pki ∧
      Matching rcgen pki) ↔ Spared fates := by
  have holds : Holds tree (parent ++ [name]) [] := ⟨creatable, absent⟩
  rcases exec_loadOrGenerate (by simp) holds ran with ⟨left, short⟩ |
    ⟨reads, writes, ready, pki, rfl, length, isReady, readyHolds, made, ran⟩
  · refine iff_of_true (recovers_blank left generates) (.inl ?_)
    rw [List.drop_of_length_le short]
    rfl
  · have matching : Matching rcgen pki :=
      ⟨entropy, serverCn, serverSans, made⟩
    have sameWrites : Spared (reads ++ writes) ↔ SparedWrites writes := by
      rw [Spared, ← length, List.drop_left]
    rw [sameWrites]
    obtain ⟨present, left, remains⟩ := exec_persist isReady readyHolds ran
    cases remains with
    | blank spared =>
        exact iff_of_true (recovers_blank left generates) spared
    | whole spared => exact iff_of_true (recovers_whole left matching) spared
    | incomplete torn incomplete =>
        exact iff_of_false (not_recovers_incomplete left incomplete) torn
    | truncated torn cut =>
        exact iff_of_false (not_recovers_truncated left
          (by simp [absentFiles, pkiFiles, NodePki.contents,
            List.lookup_cons]) matching cut
          (List.lookup_cons_self ..)) torn

/-- Power is lost after the bytes of `server.key` and before its mode is set. -/
theorem generation_recovers_iff_spared_lastMode :
    ∃ rest after, treeMachine.exec (NodePki.loadOrGenerate sampleRcgen (0, 1)
        ["pki"] "node" ["localhost"]) ⟨[]⟩ (List.replicate 11 .runs) =
        some (rest, after) ∧
      ∃ pki, (undisturbed (NodePki.loadOrGenerate sampleRcgen (1, 1)
          ["pki"] "node" ["localhost"]) after).1 = .ok pki ∧
        Matching sampleRcgen pki := by
  have computed : (treeMachine.exec (NodePki.loadOrGenerate sampleRcgen
      (0, 1) ["pki"] "node" ["localhost"]) ⟨[]⟩
      (List.replicate 11 .runs)).isSome = true := by
    decide +kernel
  obtain ⟨⟨rest, after⟩, ran⟩ := Option.isSome_iff_exists.mp computed
  have generates : generateNode sampleRcgen (1, 1) "node" ["localhost"] =
      .ok ⟨⟨"machined-ca:", "other key"⟩,
        ⟨"node:localhost by machined-ca:", "other key"⟩⟩ := by
    decide +kernel
  refine ⟨rest, after, ran, ?_⟩
  exact (generation_recovers_iff_spared sampleRcgen [] "pki"
    (by decide) (by decide) ran generates).mpr (by decide)

/-- Power is lost after the write of `ca.pem`: from then on every call fails. -/
theorem generation_not_recovered_afterFirstWrite :
    ∃ rest after, treeMachine.exec (NodePki.loadOrGenerate sampleRcgen (0, 1)
        ["pki"] "node" ["localhost"]) ⟨[]⟩ (List.replicate 7 .runs) =
        some (rest, after) ∧
      (undisturbed (NodePki.loadOrGenerate sampleRcgen (1, 1)
          ["pki"] "node" ["localhost"]) after).1 =
        .error (.partialDir ["ca.key", "server.pem", "server.key"]) := by
  have computed : (treeMachine.exec (NodePki.loadOrGenerate sampleRcgen
      (0, 1) ["pki"] "node" ["localhost"]) ⟨[]⟩
      (List.replicate 7 .runs)).map (fun final =>
        (undisturbed (NodePki.loadOrGenerate sampleRcgen (1, 1)
          ["pki"] "node" ["localhost"]) final.2).1) =
      some (.error (.partialDir ["ca.key", "server.pem", "server.key"])) := by
    decide +kernel
  obtain ⟨⟨rest, after⟩, ran, outcome⟩ := Option.map_eq_some_iff.mp computed
  exact ⟨rest, after, ran, outcome⟩

end MachinedRs
