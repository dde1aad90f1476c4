import MachinedRs.Foundation.FileTree

/-!
# The node's certificates

A CA and a server identity in four files of one directory.  They are loaded
when all four exist, generated when none does, and anything between is an
error.  The certificate library is a parameter.
-/

namespace MachinedRs

open Foundation

inductive KeyUsagePurpose where
  | keyCertSign
  | crlSign
  | digitalSignature
deriving DecidableEq, Repr

inductive ExtendedKeyUsagePurpose where
  | serverAuth
  | clientAuth
deriving DecidableEq, Repr

/-- The certificate library.  Errors are what they display, and a key pair is a
function of the randomness that was drawn for it. -/
structure Rcgen where
  Params : Type
  KeyPair : Type
  Certificate : Type
  newParams : List String → Except String Params
  /-- `is_ca = IsCa::Ca(BasicConstraints::Unconstrained)`. -/
  setCa : Params → Params
  pushCommonName : String → Params → Params
  setKeyUsages : List KeyUsagePurpose → Params → Params
  setExtendedKeyUsages : List ExtendedKeyUsagePurpose → Params → Params
  fromCaCertPem : String → Except String Params
  generate : Nat → Except String KeyPair
  fromPem : String → Except String KeyPair
  serializePem : KeyPair → String
  selfSigned : Params → KeyPair → Except String Certificate
  signedBy : Params → KeyPair → Certificate → KeyPair →
    Except String Certificate
  pem : Certificate → String
  /-- A serialised key ends with the last line of its frame, so none begins
  another. -/
  framed : ∀ key other,
    (serializePem key).toList <+: (serializePem other).toList →
      serializePem key = serializePem other

/-- A library with two keys and with certificates that name their signer. -/
def sampleRcgen : Rcgen :=
  { Params := String
    KeyPair := Bool
    Certificate := String
    newParams := fun sans => .ok (String.intercalate "," sans)
    setCa := fun params => params
    pushCommonName := fun name params => name ++ ":" ++ params
    setKeyUsages := fun _ params => params
    setExtendedKeyUsages := fun _ params => params
    fromCaCertPem := fun text => .ok text
    generate := fun entropy => .ok (entropy % 2 = 0)
    fromPem := fun text => .ok (text = "first key")
    serializePem := fun key => if key then "first key" else "other key"
    selfSigned := fun params _ => .ok params
    signedBy := fun params _ ca _ => .ok (params ++ " by " ++ ca)
    pem := fun cert => cert
    framed := by decide }

inductive PkiError where
  | rcgen (message : String)
  | io (path source : String)
  | partialDir (missing : List String)
deriving DecidableEq, Repr

/-- A certificate and its private key. -/
structure CertKey where
  certPem : String
  keyPem : String
deriving DecidableEq, Repr

inductive CertRole where
  | server
  | client
deriving DecidableEq, Repr

structure NodePki where
  ca : CertKey
  server : CertKey
deriving DecidableEq, Repr

section Generation

variable (rcgen : Rcgen)

def generateCa (entropy : Nat) : Except PkiError CertKey := do
  let params ← (rcgen.newParams []).mapError .rcgen
  let params := rcgen.setCa params
  let params := rcgen.pushCommonName "machined-ca" params
  let params := rcgen.setKeyUsages
    [.keyCertSign, .crlSign, .digitalSignature] params
  let key ← (rcgen.generate entropy).mapError .rcgen
  let cert ← (rcgen.selfSigned params key).mapError .rcgen
  return { certPem := rcgen.pem cert, keyPem := rcgen.serializePem key }

def generateCert (entropy : Nat) (ca : CertKey) (cn : String)
    (role : CertRole) (sans : List String) : Except PkiError CertKey := do
  let caKey ← (rcgen.fromPem ca.keyPem).mapError .rcgen
  let caParams ← (rcgen.fromCaCertPem ca.certPem).mapError .rcgen
  let caCert ← (rcgen.selfSigned caParams caKey).mapError .rcgen
  let params ← (rcgen.newParams sans).mapError .rcgen
  let params := rcgen.pushCommonName cn params
  let params := rcgen.setExtendedKeyUsages
    [match role with
      | .server => .serverAuth
      | .client => .clientAuth] params
  let key ← (rcgen.generate entropy).mapError .rcgen
  let cert ← (rcgen.signedBy params key caCert caKey).mapError .rcgen
  return { certPem := rcgen.pem cert, keyPem := rcgen.serializePem key }

/-- A CA and a server identity signed by it. -/
def generateNode (entropy : Nat × Nat) (serverCn : String)
    (serverSans : List String) : Except PkiError NodePki := do
  let ca ← generateCa rcgen entropy.1
  let server ← generateCert rcgen entropy.2 ca serverCn .server serverSans
  return { ca := ca, server := server }

end Generation

def pkiFiles : List String :=
  ["ca.pem", "ca.key", "server.pem", "server.key"]

theorem forall_pkiFiles {holds : String → Prop} (caCert : holds "ca.pem")
    (caKey : holds "ca.key") (serverCert : holds "server.pem")
    (serverKey : holds "server.key") : ∀ file ∈ pkiFiles, holds file := by
  intro file isFile
  simp only [pkiFiles, List.mem_cons, List.not_mem_nil, or_false] at isFile
  rcases isFile with rfl | rfl | rfl | rfl
  · exact caCert
  · exact caKey
  · exact serverCert
  · exact serverKey

/-- The files of the list that do not exist in the directory. -/
def missingFiles (dir : Path) :
    List String → Program treeSignature (List String)
  | [] => .done []
  | file :: files =>
      .call (.exists (dir ++ [file])) fun (present : Bool) =>
        (missingFiles dir files).bind fun missing =>
          .done (if present then missing else file :: missing)

namespace NodePki

/-- `?` on the answer of a file operation. -/
def io {α β : Type} (path : Path) (answer : Except String α)
    (next : α → Program treeSignature (Except PkiError β)) :
    Program treeSignature (Except PkiError β) :=
  .attempt (answer.mapError (.io path.display)) next

def read {β : Type} (path : Path)
    (next : String → Program treeSignature (Except PkiError β)) :
    Program treeSignature (Except PkiError β) :=
  .call (.readToString path) fun text => io path text next

def write {β : Type} (path : Path) (data : String)
    (next : Program treeSignature (Except PkiError β)) :
    Program treeSignature (Except PkiError β) :=
  .call (.write path (.ofText data)) fun written =>
    io path written fun _ => next

/-- Write a private key and restrict it to its owner. -/
def writeKey {β : Type} (path : Path) (data : String)
    (next : Program treeSignature (Except PkiError β)) :
    Program treeSignature (Except PkiError β) :=
  write path data (.call (.setPermissions path 0o600) fun set =>
    io path set fun _ => next)

def load (dir : Path) : Program treeSignature (Except PkiError NodePki) :=
  read (dir ++ ["ca.pem"]) fun caCert =>
    read (dir ++ ["ca.key"]) fun caKey =>
      read (dir ++ ["server.pem"]) fun serverCert =>
        read (dir ++ ["server.key"]) fun serverKey =>
          .done (.ok ⟨⟨caCert, caKey⟩, ⟨serverCert, serverKey⟩⟩)

def persist (dir : Path) (pki : NodePki) :
    Program treeSignature (Except PkiError NodePki) :=
  write (dir ++ ["ca.pem"]) pki.ca.certPem
    (writeKey (dir ++ ["ca.key"]) pki.ca.keyPem
      (write (dir ++ ["server.pem"]) pki.server.certPem
        (writeKey (dir ++ ["server.key"]) pki.server.keyPem
          (.done (.ok pki)))))

/-- What follows from the files that are missing. -/
def loadOrPersist (dir : Path) (generated : Except PkiError NodePki)
    (missing : List String) :
    Program treeSignature (Except PkiError NodePki) :=
  if missing.isEmpty then
    load dir
  else if missing.length ≠ 4 then
    .done (.error (.partialDir missing))
  else
    .attempt generated (persist dir)

def loadOrGenerate (rcgen : Rcgen) (entropy : Nat × Nat) (dir : Path)
    (serverCn : String) (serverSans : List String) :
    Program treeSignature (Except PkiError NodePki) :=
  .call (.createDirAll dir) fun created =>
    io dir created fun _ =>
      .call (.setPermissions dir 0o700) fun set =>
        io dir set fun _ =>
          (missingFiles dir pkiFiles).bind fun missing =>
            loadOrPersist dir
              (generateNode rcgen entropy serverCn serverSans) missing

end NodePki

/-- What a path shows: nothing, or a file with this content. -/
def Shows (node : Option TreeNode) : Option Content → Prop
  | none => node = none
  | some content => ∃ mode, node = some (.file content mode)

/-- The certificate files in a directory, which exists or can be made. -/
structure Holds (tree : Tree) (dir : Path)
    (present : List (String × Content)) : Prop where
  creatable : tree.creatable dir = true
  files : ∀ file ∈ pkiFiles,
    Shows (tree.lookup (dir ++ [file])) (present.lookup file)

def absentFiles (present : List (String × Content)) : List String :=
  pkiFiles.filter fun file => (present.lookup file).isNone

def NodePki.contents (pki : NodePki) : List (String × Content) :=
  [("server.key", .ofText pki.server.keyPem),
    ("server.pem", .ofText pki.server.certPem),
    ("ca.key", .ofText pki.ca.keyPem),
    ("ca.pem", .ofText pki.ca.certPem)]

section Holds

variable {tree : Tree} {dir : Path} {present : List (String × Content)}

theorem child_not_above (dir : Path) (file : String) :
    ¬ dir ++ [file] <+: dir := by
  intro above
  have longer := above.length_le
  rw [List.length_append] at longer
  exact absurd longer (Nat.not_succ_le_self _)

theorem Shows.isNone {node : Option TreeNode} {content : Option Content}
    (shown : Shows node content) : node.isNone = content.isNone := by
  cases content with
  | none =>
      have absent : node = none := shown
      rw [absent]
      rfl
  | some content =>
      obtain ⟨mode, rfl⟩ := shown
      rfl

/-- A directory that is not in the way of a path keeps its files. -/
theorem Holds.congr {later : Tree} (holds : Holds tree dir present)
    (creatable : later.creatable dir = true)
    (same : ∀ file ∈ pkiFiles,
      later.lookup (dir ++ [file]) = tree.lookup (dir ++ [file])) :
    Holds later dir present := by
  refine ⟨creatable, ?_⟩
  intro file isFile
  rw [same file isFile]
  exact holds.files file isFile

theorem creatable_of_dirs {later : Tree}
    (creatable : tree.creatable dir = true)
    (dirs : ∀ path, path <+: dir → later.lookup path = tree.lookup path ∨
      ∃ mode, later.lookup path = some (.dir mode)) :
    later.creatable dir = true := by
  rw [Tree.creatable, List.all_eq_true] at creatable ⊢
  intro path member
  have before := creatable path member
  rcases dirs path (Tree.mem_ancestry.mp member).1 with same | ⟨mode, isDir⟩
  · rw [same]
    exact before
  · rw [isDir]

theorem Holds.put (holds : Holds tree dir present) (file : String)
    (content : Content) (mode : Nat) :
    Holds (tree.put (dir ++ [file]) (.file content mode)) dir
      ((file, content) :: present) := by
  constructor
  · apply creatable_of_dirs holds.creatable
    intro path above
    refine .inl ?_
    rw [Tree.lookup_put, if_neg]
    rintro rfl
    exact child_not_above dir file above
  · intro other isFile
    rw [Tree.lookup_put, List.lookup_cons]
    by_cases same : other = file
    · subst same
      rw [if_pos rfl, beq_self_eq_true]
      exact ⟨mode, rfl⟩
    · rw [if_neg (by simpa using same), beq_eq_false_iff_ne.mpr same]
      exact holds.files other isFile

/-- The directory is there. -/
def Ready (tree : Tree) (dir : Path) : Prop :=
  ∃ mode, tree.lookup dir = some (.dir mode)

theorem Ready.put (ready : Ready tree dir) (file : String)
    (node : TreeNode) : Ready (tree.put (dir ++ [file]) node) dir := by
  obtain ⟨mode, found⟩ := ready
  refine ⟨mode, ?_⟩
  rw [Tree.lookup_put, if_neg]
  · exact found
  · intro same
    apply child_not_above dir file
    rw [← same]

/-- A change of its mode keeps the directory. -/
theorem Ready.restrict (ready : Ready tree dir) {after : Tree} {mode : Nat}
    {fate : TreeFate} {answer : Except String Unit}
    (performed : treeMachine.perform tree (.setPermissions dir mode) fate =
      some (answer, after)) : Ready after dir := by
  obtain ⟨oldMode, found⟩ := ready
  rcases TreeOp.perform_atomic (fun _ _ => rfl) performed with rfl | rfl
  · exact ⟨oldMode, found⟩
  · simp only [TreeOp.run, found]
    exact ⟨mode, by rw [Tree.lookup_put, if_pos rfl]⟩

theorem Ready.writable (ready : Ready tree dir)
    (holds : Holds tree dir present) {file : String}
    (isFile : file ∈ pkiFiles) : tree.writable (dir ++ [file]) = true := by
  obtain ⟨mode, found⟩ := ready
  have shown := holds.files file isFile
  have isDir : tree.isDir dir = true := by
    unfold Tree.isDir
    cases dir with
    | nil => rfl
    | cons head tail => rw [found]
  rw [Tree.writable, List.dropLast_concat, isDir, Bool.true_and]
  cases content : present.lookup file with
  | none =>
      rw [content] at shown
      rw [show tree.lookup (dir ++ [file]) = none from shown]
  | some content' =>
      rw [content] at shown
      obtain ⟨fileMode, isThere⟩ := shown
      rw [isThere]

theorem Holds.putFile (holds : Holds tree dir present) (file : String)
    (content : Content) :
    Holds (tree.putFile (dir ++ [file]) content) dir
      ((file, content) :: present) := by
  unfold Tree.putFile
  split
  · exact holds.put file content _
  · exact holds.put file content _

theorem Ready.putFile (ready : Ready tree dir) (file : String)
    (content : Content) :
    Ready (tree.putFile (dir ++ [file]) content) dir := by
  unfold Tree.putFile
  split
  · exact ready.put file _
  · exact ready.put file _

/-- A file that is shown can have its mode changed. -/
theorem Holds.chmod (holds : Holds tree dir present) {file : String}
    (isFile : file ∈ pkiFiles) {content : Content}
    (shown : present.lookup file = some content) (mode : Nat) :
    ∃ after, TreeOp.run tree (.setPermissions (dir ++ [file]) mode) =
        (.ok (), after) ∧
      Holds after dir present ∧ (Ready tree dir → Ready after dir) := by
  have found := holds.files file isFile
  rw [shown] at found
  obtain ⟨oldMode, isThere⟩ := found
  refine ⟨tree.put (dir ++ [file]) (.file content mode), ?_, ?_, ?_⟩
  · simp only [TreeOp.run, isThere]
  · have put := holds.put file content mode
    refine ⟨put.creatable, ?_⟩
    intro other isOther
    have seen := put.files other isOther
    rw [List.lookup_cons] at seen
    by_cases same : other = file
    · subst same
      rw [beq_self_eq_true] at seen
      rw [shown]
      exact seen
    · rw [beq_eq_false_iff_ne.mpr same] at seen
      exact seen
  · intro ready
    exact ready.put file _

theorem undisturbed_missingFiles (dir : Path) (files : List String)
    (tree : Tree) :
    undisturbed (missingFiles dir files) tree =
      (files.filter fun file => (tree.lookup (dir ++ [file])).isNone,
        tree) := by
  induction files with
  | nil => rfl
  | cons file files induction =>
      rw [missingFiles, undisturbed_call, undisturbed_bind]
      simp only [TreeOp.run, induction, undisturbed, List.filter_cons]
      cases tree.lookup (dir ++ [file]) with
      | none => rfl
      | some node => rfl

theorem Holds.missing (holds : Holds tree dir present) :
    (pkiFiles.filter fun file => (tree.lookup (dir ++ [file])).isNone) =
      absentFiles present := by
  apply List.filter_congr
  intro file isFile
  exact (holds.files file isFile).isNone

/-- Making the directory and restricting it to its owner. -/
theorem Holds.prepare {parent : Path} {name : String}
    (holds : Holds tree (parent ++ [name]) present) :
    ∃ made ready,
      TreeOp.run tree (.createDirAll (parent ++ [name])) = (.ok (), made) ∧
      TreeOp.run made (.setPermissions (parent ++ [name]) 0o700) =
        (.ok (), ready) ∧
      Holds ready (parent ++ [name]) present ∧
      Ready ready (parent ++ [name]) ∧
      ∀ path, ¬ path <+: parent ++ [name] →
        ready.lookup path = tree.lookup path := by
  generalize target : parent ++ [name] = dir at holds
  have proper : dir ≠ [] := by
    rw [← target]
    simp
  let made := tree.createDirs (Tree.ancestry dir)
  have runs : TreeOp.run tree (.createDirAll dir) = (.ok (), made) :=
    if_pos holds.creatable
  obtain ⟨mode, isDir⟩ := Tree.lookup_createDirs_self holds.creatable proper
  have sets : TreeOp.run made (.setPermissions dir 0o700) =
      (.ok (), made.put dir (.dir 0o700)) := by
    simp only [TreeOp.run, made, isDir]
  have aside : ∀ path, ¬ path <+: dir →
      (made.put dir (.dir 0o700)).lookup path = tree.lookup path := by
    intro path notAbove
    rw [Tree.lookup_put, if_neg, Tree.lookup_createDirs, if_neg]
    · rintro ⟨member, _⟩
      exact notAbove (Tree.mem_ancestry.mp member).1
    · rintro rfl
      exact notAbove List.prefix_rfl
  refine ⟨made, made.put dir (.dir 0o700), runs, sets, ?_, ?_, aside⟩
  · apply holds.congr
    · apply creatable_of_dirs holds.creatable
      intro path above
      by_cases same : path = dir
      · exact .inr ⟨0o700, by rw [Tree.lookup_put, if_pos same]⟩
      · rw [Tree.lookup_put, if_neg same, Tree.lookup_createDirs]
        split
        · exact .inr ⟨0o755, rfl⟩
        · exact .inl rfl
    · intro file _
      exact aside _ (child_not_above dir file)
  · exact ⟨0o700, by rw [Tree.lookup_put, if_pos rfl]⟩

/-- An undisturbed call reaches its decision with the directory there. -/
theorem undisturbed_loadOrGenerate (rcgen : Rcgen) (entropy : Nat × Nat)
    {parent : Path} {name : String} (serverCn : String)
    (serverSans : List String)
    (holds : Holds tree (parent ++ [name]) present) :
    ∃ ready, Holds ready (parent ++ [name]) present ∧
      Ready ready (parent ++ [name]) ∧
      (∀ path, ¬ path <+: parent ++ [name] →
        ready.lookup path = tree.lookup path) ∧
      undisturbed (NodePki.loadOrGenerate rcgen entropy (parent ++ [name])
          serverCn serverSans) tree =
        undisturbed (NodePki.loadOrPersist (parent ++ [name])
          (generateNode rcgen entropy serverCn serverSans)
          (absentFiles present)) ready := by
  obtain ⟨made, ready, creates, sets, stillHolds, isReady, aside⟩ :=
    holds.prepare
  refine ⟨ready, stillHolds, isReady, aside, ?_⟩
  rw [NodePki.loadOrGenerate, undisturbed_call, creates]
  dsimp only [NodePki.io, Except.mapError, Program.attempt]
  rw [undisturbed_call, sets]
  dsimp only [Except.mapError]
  rw [undisturbed_bind, undisturbed_missingFiles, stillHolds.missing]

theorem Ready.run_write (ready : Ready tree dir)
    (holds : Holds tree dir present) {file : String}
    (isFile : file ∈ pkiFiles) (content : Content) :
    TreeOp.run tree (.write (dir ++ [file]) content) =
      (.ok (), tree.putFile (dir ++ [file]) content) :=
  if_pos (ready.writable holds isFile)

theorem undisturbed_write (ready : Ready tree dir)
    (holds : Holds tree dir present) (file : String)
    (isFile : file ∈ pkiFiles) (data : String)
    (next : Program treeSignature (Except PkiError NodePki)) :
    ∃ after, Ready after dir ∧
      Holds after dir ((file, .ofText data) :: present) ∧
      undisturbed (NodePki.write (dir ++ [file]) data next) tree =
        undisturbed next after := by
  refine ⟨tree.putFile (dir ++ [file]) (.ofText data),
    ready.putFile file _, holds.putFile file _, ?_⟩
  rw [NodePki.write, undisturbed_call, ready.run_write holds isFile]
  rfl

theorem undisturbed_writeKey (ready : Ready tree dir)
    (holds : Holds tree dir present) (file : String)
    (isFile : file ∈ pkiFiles) (data : String)
    (next : Program treeSignature (Except PkiError NodePki)) :
    ∃ after, Ready after dir ∧
      Holds after dir ((file, .ofText data) :: present) ∧
      undisturbed (NodePki.writeKey (dir ++ [file]) data next) tree =
        undisturbed next after := by
  obtain ⟨written, isReady, holdsIt, runs⟩ :=
    undisturbed_write ready holds file isFile data
      (.call (.setPermissions (dir ++ [file]) 0o600) fun set =>
        NodePki.io (dir ++ [file]) set fun _ => next)
  obtain ⟨after, sets, stillHolds, stillReady⟩ :=
    holdsIt.chmod isFile (List.lookup_cons_self ..) 0o600
  refine ⟨after, stillReady isReady, stillHolds, ?_⟩
  rw [NodePki.writeKey, runs, undisturbed_call, sets]
  rfl

/-- Writing the set into a directory that is there succeeds. -/
theorem undisturbed_persist (ready : Ready tree dir)
    (holds : Holds tree dir []) (pki : NodePki) :
    ∃ after, Ready after dir ∧ Holds after dir pki.contents ∧
      undisturbed (NodePki.persist dir pki) tree = (.ok pki, after) := by
  obtain ⟨first, firstReady, firstHolds, wroteFirst⟩ :=
    undisturbed_write ready holds "ca.pem" (by decide)
      pki.ca.certPem _
  obtain ⟨second, secondReady, secondHolds, wroteSecond⟩ :=
    undisturbed_writeKey firstReady firstHolds "ca.key" (by decide)
      pki.ca.keyPem _
  obtain ⟨third, thirdReady, thirdHolds, wroteThird⟩ :=
    undisturbed_write secondReady secondHolds "server.pem"
      (by decide) pki.server.certPem _
  obtain ⟨fourth, fourthReady, fourthHolds, wroteFourth⟩ :=
    undisturbed_writeKey thirdReady thirdHolds "server.key"
      (by decide) pki.server.keyPem (.done (.ok pki))
  refine ⟨fourth, fourthReady, fourthHolds, ?_⟩
  rw [NodePki.persist, wroteFirst, wroteSecond, wroteThird, wroteFourth]
  rfl

/-- What a successful read has seen. -/
theorem read_ok {path : Path} {value : NodePki}
    {next : String → Program treeSignature (Except PkiError NodePki)}
    (succeeded : (undisturbed (NodePki.read path next) tree).1 = .ok value) :
    ∃ text mode, tree.lookup path = some (.file (.ofText text) mode) ∧
      (undisturbed (next text) tree).1 = .ok value := by
  rw [NodePki.read, undisturbed_call] at succeeded
  simp only [TreeOp.run] at succeeded
  split at succeeded
  · rename_i content mode found
    split at succeeded
    · rename_i text decoded
      refine ⟨text, mode, ?_, succeeded⟩
      rw [found, Content.ofText_of_text? decoded]
    · cases succeeded
  · cases succeeded
  · cases succeeded

theorem undisturbed_read {path : Path} {text : String} {mode : Nat}
    (found : tree.lookup path = some (.file (.ofText text) mode))
    (next : String → Program treeSignature (Except PkiError NodePki)) :
    undisturbed (NodePki.read path next) tree =
      undisturbed (next text) tree := by
  rw [NodePki.read, undisturbed_call]
  simp only [TreeOp.run, found, Content.text?_ofText]
  rfl

theorem read_tree {path : Path}
    {next : String → Program treeSignature (Except PkiError NodePki)}
    (unchanged : ∀ text, (undisturbed (next text) tree).2 = tree) :
    (undisturbed (NodePki.read path next) tree).2 = tree := by
  rw [NodePki.read, undisturbed_call]
  simp only [TreeOp.run]
  split
  · split
    · exact unchanged _
    · rfl
  · rfl
  · rfl

/-- Loading changes nothing. -/
theorem undisturbed_load_tree (dir : Path) (tree : Tree) :
    (undisturbed (NodePki.load dir) tree).2 = tree := by
  apply read_tree
  intro caCert
  apply read_tree
  intro caKey
  apply read_tree
  intro serverCert
  apply read_tree
  intro serverKey
  rfl

/-- A set that was loaded is what the files show. -/
theorem load_ok {pki : NodePki}
    (succeeded : (undisturbed (NodePki.load dir) tree).1 = .ok pki) :
    ∀ file ∈ pkiFiles,
      Shows (tree.lookup (dir ++ [file])) (pki.contents.lookup file) := by
  obtain ⟨caCert, caCertMode, caCertFound, afterCaCert⟩ := read_ok succeeded
  obtain ⟨caKey, caKeyMode, caKeyFound, afterCaKey⟩ := read_ok afterCaCert
  obtain ⟨serverCert, serverCertMode, serverCertFound, afterServerCert⟩ :=
    read_ok afterCaKey
  obtain ⟨serverKey, serverKeyMode, serverKeyFound, finished⟩ :=
    read_ok afterServerCert
  cases finished
  apply forall_pkiFiles
  · exact ⟨caCertMode, caCertFound⟩
  · exact ⟨caKeyMode, caKeyFound⟩
  · exact ⟨serverCertMode, serverCertFound⟩
  · exact ⟨serverKeyMode, serverKeyFound⟩

theorem Holds.undisturbed_load {pki : NodePki}
    (holds : Holds tree dir pki.contents) :
    undisturbed (NodePki.load dir) tree = (.ok pki, tree) := by
  obtain ⟨caCertMode, caCert⟩ := holds.files "ca.pem" (by decide)
  obtain ⟨caKeyMode, caKey⟩ := holds.files "ca.key" (by decide)
  obtain ⟨serverCertMode, serverCert⟩ := holds.files "server.pem" (by decide)
  obtain ⟨serverKeyMode, serverKey⟩ := holds.files "server.key" (by decide)
  rw [NodePki.load, undisturbed_read caCert, undisturbed_read caKey,
    undisturbed_read serverCert, undisturbed_read serverKey]
  rfl

end Holds

end MachinedRs
