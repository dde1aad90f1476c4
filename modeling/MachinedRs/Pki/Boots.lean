import MachinedRs.Foundation.System
import MachinedRs.Pki.Seed

/-!
# The certificates over many boots

A boot seeds the directory and then loads or generates.  Over any sequence of
boots, with the seed failing or cut off anywhere and with other files on the
boot partition each time, a set that was once returned stays the node's set.
-/

namespace MachinedRs

open Foundation

/-- The node's files, and what `load_or_generate` returned in each boot. -/
structure PkiNode where
  tree : Tree
  returned : List (Except PkiError NodePki)

inductive PkiMove where
  /-- Between boots the source files change in any way. -/
  | source (nodes : String → Option TreeNode)
  /-- A boot that ends inside `seed_pki`. -/
  | crash (fates : List TreeFate)
  /-- A boot that seeds, with any result, and then loads undisturbed.  Where
  there is no `dst` to load from, generating the set succeeds. -/
  | boot (fates : List TreeFate) (entropy : Nat × Nat) (serverCn : String)
      (serverSans : List String)

/-- Replace the source files. -/
def replaceFiles (tree : Tree) (dir : Path)
    (nodes : String → Option TreeNode) (files : List String) : Tree :=
  files.foldl
    (fun tree file =>
      match nodes file with
      | some node => tree.put (dir ++ [file]) node
      | none => tree.remove fun path => path = dir ++ [file])
    tree

namespace PkiNode

def step (rcgen : Rcgen) (place : PkiPlace) (node : PkiNode) :
    PkiMove → Option PkiNode
  | .source nodes =>
      some { node with
        tree := replaceFiles node.tree place.src nodes pkiFiles }
  | .crash fates =>
      (treeMachine.exec place.seed node.tree fates).map fun (_, after) =>
        { node with tree := after }
  | .boot fates entropy serverCn serverSans =>
      (treeMachine.complete place.seed node.tree fates).bind
        fun (_, seeded, rest) =>
          if rest.isEmpty && ((seeded.lookup place.dst).isSome ||
              (generateNode rcgen entropy serverCn serverSans).isOk) then
            let loaded := undisturbed (NodePki.loadOrGenerate rcgen entropy
              place.dst serverCn serverSans) seeded
            some
              { tree := loaded.2
                returned := node.returned ++ [loaded.1] }
          else
            none

end PkiNode

/-- Boots of a node on which `dst` was absent at first. -/
def pkiSystem (rcgen : Rcgen) (place : PkiPlace) : System PkiNode PkiMove :=
  { Initial := fun node => node.returned = [] ∧
      ∀ path, place.dst <+: path → node.tree.lookup path = none
    step := PkiNode.step rcgen place }

/-- Nothing is at or below `dst`. -/
def Vacant (place : PkiPlace) (tree : Tree) : Prop :=
  ∀ path, place.dst <+: path → tree.lookup path = none

/-- `dst` holds the four files. -/
structure Occupied (place : PkiPlace) (tree : Tree) : Prop where
  ready : Ready tree place.dst
  files : ∀ file ∈ pkiFiles, ∃ content mode,
    tree.lookup (place.dst ++ [file]) = some (.file content mode)

section Boots

variable {place : PkiPlace} {start tree : Tree} {pki : NodePki}

theorem Holds.not_vacant (holds : Holds tree place.dst pki.contents) :
    ¬ Vacant place tree := by
  intro vacant
  obtain ⟨mode, shown⟩ := holds.files "ca.pem" (by decide)
  rw [vacant _ (List.prefix_append _ _)] at shown
  cases shown

theorem settled_of_whole (whole : Vacant place tree ∨ Occupied place tree) :
    Settled place tree := by
  rcases whole with vacant | occupied
  · exact .inl (vacant _ List.prefix_rfl)
  · obtain ⟨content, mode, shown⟩ := occupied.files "ca.pem" (by decide)
    refine .inr ⟨"ca.pem", by decide, ?_⟩
    rw [shown]
    nofun

theorem whole_congr (whole : Vacant place start ∨ Occupied place start)
    (same : ∀ path, place.dst <+: path →
      tree.lookup path = start.lookup path) :
    Vacant place tree ∨ Occupied place tree := by
  rcases whole with vacant | occupied
  · refine .inl ?_
    intro path below
    rw [same path below]
    exact vacant path below
  · refine .inr ⟨?_, ?_⟩
    · obtain ⟨mode, isDir⟩ := occupied.ready
      exact ⟨mode, (same _ List.prefix_rfl).trans isDir⟩
    · intro file isFile
      obtain ⟨content, mode, shown⟩ := occupied.files file isFile
      exact ⟨content, mode, (same _ (List.prefix_append _ _)).trans shown⟩

theorem Seeded.whole (seeded : Seeded place start tree)
    (whole : Vacant place start ∨ Occupied place start) :
    Vacant place tree ∨ Occupied place tree := by
  rcases seeded with untouched | arrived
  · exact whole_congr whole fun path below =>
      untouched.same path (.inl below)
  · refine .inr ⟨arrived.ready, ?_⟩
    intro file isFile
    obtain ⟨content, _, mode, _, shown⟩ := arrived.files file isFile
    exact ⟨content, mode, shown⟩

theorem Seeded.holds (seeded : Seeded place start tree)
    (whole : Vacant place start ∨ Occupied place start)
    (holds : Holds start place.dst pki.contents) :
    Holds tree place.dst pki.contents := by
  rcases seeded with untouched | arrived
  · apply holds.congr
    · exact creatable_of_dirs holds.creatable untouched.above
    · intro file _
      exact untouched.same _ (.inl (List.prefix_append _ _))
  · rcases whole with vacant | occupied
    · exact absurd vacant holds.not_vacant
    · obtain ⟨mode, isDir⟩ := occupied.ready
      rw [arrived.vacant] at isDir
      cases isDir

theorem lookup_replaceFiles (tree : Tree) (dir : Path)
    (nodes : String → Option TreeNode) {files : List String} {path : Path}
    (aside : ∀ file ∈ files, path ≠ dir ++ [file]) :
    (replaceFiles tree dir nodes files).lookup path = tree.lookup path := by
  induction files generalizing tree with
  | nil => rfl
  | cons file files induction =>
      have here := aside file List.mem_cons_self
      rw [replaceFiles, List.foldl_cons, ← replaceFiles,
        induction _ fun other member =>
          aside other (List.mem_cons_of_mem _ member)]
      cases nodes file with
      | some node => rw [Tree.lookup_put, if_neg here]
      | none => rw [Tree.lookup_remove, if_neg (by simpa using here)]

theorem Holds.occupied {present : List (String × Content)}
    (ready : Ready tree place.dst) (holds : Holds tree place.dst present)
    (all : ∀ file ∈ pkiFiles, ∃ content,
      present.lookup file = some content) : Occupied place tree := by
  refine ⟨ready, ?_⟩
  intro file isFile
  obtain ⟨content, isPresent⟩ := all file isFile
  have shown := holds.files file isFile
  rw [isPresent] at shown
  obtain ⟨mode, found⟩ := shown
  exact ⟨content, mode, found⟩

theorem NodePki.lookup_contents (pki : NodePki) :
    ∀ file ∈ pkiFiles, ∃ content, pki.contents.lookup file = some content := by
  apply forall_pkiFiles
  · exact ⟨.ofText pki.ca.certPem, rfl⟩
  · exact ⟨.ofText pki.ca.keyPem, rfl⟩
  · exact ⟨.ofText pki.server.certPem, rfl⟩
  · exact ⟨.ofText pki.server.keyPem, rfl⟩

theorem absentFiles_eq_nil {present : List (String × Content)}
    (all : ∀ file ∈ pkiFiles, ∃ content,
      present.lookup file = some content) : absentFiles present = [] := by
  rw [absentFiles, List.filter_eq_nil_iff]
  intro file isFile
  obtain ⟨content, isPresent⟩ := all file isFile
  rw [isPresent]
  nofun

theorem Occupied.table (occupied : Occupied place tree)
    (creatable : tree.creatable place.dst = true) :
    ∃ present, Holds tree place.dst present ∧
      ∀ file ∈ pkiFiles, ∃ content, present.lookup file = some content := by
  obtain ⟨caCert, caCertMode, caCertFound⟩ :=
    occupied.files "ca.pem" (by decide)
  obtain ⟨caKey, caKeyMode, caKeyFound⟩ :=
    occupied.files "ca.key" (by decide)
  obtain ⟨serverCert, serverCertMode, serverCertFound⟩ :=
    occupied.files "server.pem" (by decide)
  obtain ⟨serverKey, serverKeyMode, serverKeyFound⟩ :=
    occupied.files "server.key" (by decide)
  refine ⟨[("ca.pem", caCert), ("ca.key", caKey), ("server.pem", serverCert),
    ("server.key", serverKey)], ⟨creatable, ?_⟩, ?_⟩
  · apply forall_pkiFiles
    · exact ⟨caCertMode, caCertFound⟩
    · exact ⟨caKeyMode, caKeyFound⟩
    · exact ⟨serverCertMode, serverCertFound⟩
    · exact ⟨serverKeyMode, serverKeyFound⟩
  · apply forall_pkiFiles
    · exact ⟨caCert, rfl⟩
    · exact ⟨caKey, rfl⟩
    · exact ⟨serverCert, rfl⟩
    · exact ⟨serverKey, rfl⟩

/-- What an undisturbed call makes of a directory that is whole. -/
structure Loads (place : PkiPlace) (before : Tree)
    (result : Except PkiError NodePki) (after : Tree) : Prop where
  whole : Vacant place after ∨ Occupied place after
  loaded : ∀ pki, result = .ok pki → Holds after place.dst pki.contents
  keeps : ∀ pki, Holds before place.dst pki.contents →
    result = .ok pki ∧ Holds after place.dst pki.contents

section Loads

variable {rcgen : Rcgen} {entropy : Nat × Nat} {serverCn : String}
  {serverSans : List String} {fresh : NodePki}

theorem loads_blocked (whole : Vacant place tree ∨ Occupied place tree)
    (blocked : tree.creatable place.dst = false) :
    Loads place tree
      (undisturbed (NodePki.loadOrGenerate rcgen entropy place.dst serverCn
        serverSans) tree).1
      (undisturbed (NodePki.loadOrGenerate rcgen entropy place.dst serverCn
        serverSans) tree).2 := by
  have fails : TreeOp.run tree (.createDirAll place.dst) =
      (.error (TreeOp.createError tree place.dst), tree) := by
    simp [TreeOp.run, blocked]
  have outcome : undisturbed (NodePki.loadOrGenerate rcgen entropy place.dst
      serverCn serverSans) tree =
        (.error (.io place.dst.display
          (TreeOp.createError tree place.dst)), tree) := by
    rw [NodePki.loadOrGenerate, undisturbed_call, fails]
    rfl
  rw [outcome]
  refine ⟨whole, ?_, ?_⟩
  · intro pki loaded
    cases loaded
  · intro pki holds
    rw [holds.creatable] at blocked
    cases blocked

theorem loads_vacant
    (generates : generateNode rcgen entropy serverCn serverSans = .ok fresh)
    (vacant : Vacant place tree)
    (creatable : tree.creatable place.dst = true) :
    Loads place tree
      (undisturbed (NodePki.loadOrGenerate rcgen entropy place.dst serverCn
        serverSans) tree).1
      (undisturbed (NodePki.loadOrGenerate rcgen entropy place.dst serverCn
        serverSans) tree).2 := by
  have nothing : Holds tree place.dst [] :=
    ⟨creatable, fun file _ => vacant _ (List.prefix_append _ _)⟩
  obtain ⟨ready, stillHolds, isReady, _, decides⟩ :=
    undisturbed_loadOrGenerate rcgen entropy serverCn serverSans nothing
  obtain ⟨after, afterReady, afterHolds, persists⟩ :=
    undisturbed_persist isReady stillHolds fresh
  have outcome : undisturbed (NodePki.loadOrGenerate rcgen entropy place.dst
      serverCn serverSans) tree = (.ok fresh, after) := by
    rw [PkiPlace.dst, decides, generates]
    exact persists
  rw [outcome]
  refine ⟨.inr (afterHolds.occupied afterReady fresh.lookup_contents),
    ?_, ?_⟩
  · rintro pki ⟨⟩
    exact afterHolds
  · intro pki holds
    exact absurd vacant holds.not_vacant

theorem loads_occupied (occupied : Occupied place tree)
    (creatable : tree.creatable place.dst = true) :
    Loads place tree
      (undisturbed (NodePki.loadOrGenerate rcgen entropy place.dst serverCn
        serverSans) tree).1
      (undisturbed (NodePki.loadOrGenerate rcgen entropy place.dst serverCn
        serverSans) tree).2 := by
  obtain ⟨present, holds, all⟩ := occupied.table creatable
  obtain ⟨ready, stillHolds, isReady, aside, decides⟩ :=
    undisturbed_loadOrGenerate rcgen entropy serverCn serverSans holds
  rw [absentFiles_eq_nil all] at decides
  have unchanged := undisturbed_load_tree place.dst ready
  have outcome : undisturbed (NodePki.loadOrGenerate rcgen entropy place.dst
      serverCn serverSans) tree =
        undisturbed (NodePki.load place.dst) ready := decides
  rw [outcome, unchanged]
  refine ⟨.inr (stillHolds.occupied isReady all), ?_, ?_⟩
  · intro pki succeeded
    exact ⟨stillHolds.creatable, load_ok succeeded⟩
  · intro pki holds
    have kept : Holds ready place.dst pki.contents :=
      holds.congr stillHolds.creatable fun file _ =>
        aside _ (child_not_above place.dst file)
    rw [kept.undisturbed_load]
    exact ⟨rfl, kept⟩

theorem loads_of_whole
    (generates : (tree.lookup place.dst).isSome = true ∨
      (generateNode rcgen entropy serverCn serverSans).isOk = true)
    (whole : Vacant place tree ∨ Occupied place tree) :
    Loads place tree
      (undisturbed (NodePki.loadOrGenerate rcgen entropy place.dst serverCn
        serverSans) tree).1
      (undisturbed (NodePki.loadOrGenerate rcgen entropy place.dst serverCn
        serverSans) tree).2 := by
  cases creatable : tree.creatable place.dst with
  | false => exact loads_blocked whole creatable
  | true =>
      rcases whole with vacant | occupied
      · rw [vacant _ List.prefix_rfl] at generates
        cases generated : generateNode rcgen entropy serverCn serverSans with
        | error error => simp [generated, Except.isOk, Except.toBool] at generates
        | ok fresh => exact loads_vacant generated vacant creatable
      · exact loads_occupied occupied creatable

end Loads

/-- Between boots `dst` is whole, and it holds every set that was returned. -/
structure PkiNode.Kept (place : PkiPlace) (node : PkiNode) : Prop where
  whole : Vacant place node.tree ∨ Occupied place node.tree
  holds : ∀ pki, .ok pki ∈ node.returned →
    Holds node.tree place.dst pki.contents
  same : node.returned.Pairwise fun earlier later =>
    ∀ pki, earlier = .ok pki → later = .ok pki

theorem PkiNode.Kept.carried {node : PkiNode} (kept : node.Kept place)
    (whole : Vacant place tree ∨ Occupied place tree)
    (holds : ∀ pki : NodePki, Holds node.tree place.dst pki.contents →
      Holds tree place.dst pki.contents) :
    PkiNode.Kept place { node with tree := tree } :=
  ⟨whole, fun pki member => holds pki (kept.holds pki member), kept.same⟩

theorem PkiNode.Kept.source {node : PkiNode} (kept : node.Kept place)
    (nodes : String → Option TreeNode) :
    PkiNode.Kept place
      { node with tree := replaceFiles node.tree place.src nodes pkiFiles } := by
  have below : ∀ path, place.dst <+: path →
      (replaceFiles node.tree place.src nodes pkiFiles).lookup path =
        node.tree.lookup path := by
    intro path below
    apply lookup_replaceFiles
    rintro file isFile rfl
    exact (place.apart file isFile).1.2 below
  have above : ∀ path, path <+: place.dst →
      (replaceFiles node.tree place.src nodes pkiFiles).lookup path =
        node.tree.lookup path := by
    intro path above
    apply lookup_replaceFiles
    rintro file isFile rfl
    exact (place.apart file isFile).1.1 above
  refine kept.carried (whole_congr kept.whole below) ?_
  intro pki holds
  apply holds.congr
  · exact creatable_of_dirs holds.creatable fun path isAbove =>
      .inl (above path isAbove)
  · intro file _
    exact below _ (List.prefix_append _ _)

theorem PkiNode.Kept.seeded {node : PkiNode} (kept : node.Kept place)
    (seeded : Seeded place node.tree tree) :
    PkiNode.Kept place { node with tree := tree } :=
  kept.carried (seeded.whole kept.whole)
    fun _ holds => seeded.holds kept.whole holds

theorem PkiNode.Kept.loads {node : PkiNode} (kept : node.Kept place)
    {result : Except PkiError NodePki}
    (loads : Loads place node.tree result tree) :
    PkiNode.Kept place
      { tree := tree, returned := node.returned ++ [result] } := by
  refine ⟨loads.whole, ?_, ?_⟩
  · intro pki member
    rcases List.mem_append.mp member with earlier | last
    · exact (loads.keeps pki (kept.holds pki earlier)).2
    · exact loads.loaded pki (List.mem_singleton.mp last).symm
  · rw [List.pairwise_append]
    refine ⟨kept.same, List.pairwise_singleton _ _, ?_⟩
    intro earlier member later last pki succeeded
    rw [List.mem_singleton.mp last]
    rw [succeeded] at member
    exact (loads.keeps pki (kept.holds pki member)).1

theorem PkiNode.Kept.step {rcgen : Rcgen} {node next : PkiNode}
    {move : PkiMove} (kept : node.Kept place)
    (stepped : node.step rcgen place move = some next) :
    next.Kept place := by
  have safe := seed_protected (settled_of_whole kept.whole)
  cases move with
  | source nodes =>
      cases stepped
      exact kept.source nodes
  | crash fates =>
      obtain ⟨⟨rest, after⟩, ran, rfl⟩ := Option.map_eq_some_iff.mp stepped
      exact kept.seeded (Machine.protected_of_exec safe ran).holds
  | boot fates entropy serverCn serverSans =>
      obtain ⟨⟨result, seeded, rest⟩, ran, loaded⟩ :=
        Option.bind_eq_some_iff.mp stepped
      obtain ⟨choices, finished⟩ := Machine.returns_of_complete ran
      have kept := kept.seeded (Machine.protected_of_exec safe finished).holds
      obtain ⟨allowed, same⟩ := Option.ite_none_right_eq_some.mp loaded
      cases same
      have generates := Bool.or_eq_true_iff.mp
        (Bool.and_eq_true_iff.mp allowed).2
      exact kept.loads (loads_of_whole generates kept.whole)

/-- A set that was once returned stays, and a seed makes the whole of `dst` or
nothing. -/
theorem pki_never_rekeyed (rcgen : Rcgen) (place : PkiPlace) {node : PkiNode}
    (reachable : (pkiSystem rcgen place).Reachable node) :
    (∀ fates rest after,
      treeMachine.exec place.seed node.tree fates = some (rest, after) →
        (node.tree.lookup place.dst = none → after.lookup place.dst ≠ none →
          ∀ file ∈ pkiFiles, ∃ content mode seededMode,
            node.tree.lookup (place.src ++ [file]) =
                some (.file content mode) ∧
              after.lookup (place.dst ++ [file]) =
                some (.file content seededMode)) ∧
        (node.tree.lookup place.dst ≠ none →
          ∀ path, place.dst <+: path →
            after.lookup path = node.tree.lookup path)) ∧
      node.returned.Pairwise fun earlier later =>
        ∀ pki, earlier = .ok pki → later = .ok pki := by
  have kept : node.Kept place := by
    apply reachable.invariant
    · rintro start ⟨nothing, vacant⟩
      refine ⟨.inl vacant, ?_, ?_⟩
      · intro pki member
        rw [nothing] at member
        cases member
      · rw [nothing]
        exact .nil
    · intro state move next stepped kept
      exact kept.step stepped
  refine ⟨?_, kept.same⟩
  intro fates rest after ran
  have seeded : Seeded place node.tree after :=
    (Machine.protected_of_exec
      (seed_protected (settled_of_whole kept.whole)) ran).holds
  constructor
  · intro absent present
    rcases seeded with untouched | arrived
    · rw [untouched.same _ (.inl List.prefix_rfl)] at present
      exact absurd absent present
    · exact arrived.files
  · intro present path below
    rcases seeded with untouched | arrived
    · exact untouched.same path (.inl below)
    · exact absurd arrived.vacant present

end Boots

def samplePlace : PkiPlace :=
  { src := ["boot", "pki"]
    parent := ["state"]
    name := "pki"
    notTmp := by decide +kernel
    apart := by decide +kernel }

/-- The second boot finds another set on the boot partition. -/
theorem pki_never_rekeyed_otherSource :
    ∃ node pki, (pkiSystem sampleRcgen samplePlace).Reachable node ∧
      node.returned = [.ok pki, .ok pki] ∧
      node.returned.Pairwise fun earlier later =>
        ∀ pki, earlier = .ok pki → later = .ok pki := by
  let moves : List PkiMove :=
    [.source fun file => some (.file (.ofText file) 0o755),
      .crash (List.replicate 10 .runs),
      .boot (List.replicate 22 .runs) (0, 1) "node" [],
      .source fun file => some (.file (.ofText ("other " ++ file)) 0o755),
      .boot [.runs] (0, 1) "node" []]
  have computed : ((pkiSystem sampleRcgen samplePlace).run ⟨⟨[]⟩, []⟩
      moves).map PkiNode.returned =
        some [.ok ⟨⟨"ca.pem", "ca.key"⟩, ⟨"server.pem", "server.key"⟩⟩,
          .ok ⟨⟨"ca.pem", "ca.key"⟩, ⟨"server.pem", "server.key"⟩⟩] := by
    decide +kernel
  obtain ⟨node, ran, returned⟩ := Option.map_eq_some_iff.mp computed
  have reachable : (pkiSystem sampleRcgen samplePlace).Reachable node :=
    ⟨_, moves, ⟨rfl, fun _ _ => rfl⟩, ran⟩
  exact ⟨node, _, reachable, returned,
    (pki_never_rekeyed sampleRcgen samplePlace reachable).2⟩

end MachinedRs
