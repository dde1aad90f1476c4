import MachinedRs.Pki.NodePki

/-!
# Seeding the certificates from the boot partition

`seedPki` copies a complete set into a directory beside the final one and
renames it into place.  Wherever it fails or is cut off, the final directory is
as it was, or it has come into being whole.
-/

namespace MachinedRs

open Foundation

/-- A file name before and after its last dot; a dot in front does not count. -/
def splitAtDot (name : String) : Option (String × String) :=
  let reversed := name.toList.reverse
  match reversed.dropWhile (· ≠ '.') with
  | [] => none
  | _ :: stem =>
      if stem = [] ∨ name = ".." then none
      else some (String.ofList stem.reverse,
        String.ofList (reversed.takeWhile (· ≠ '.')).reverse)

def extension (name : String) : Option String :=
  (splitAtDot name).map Prod.snd

def withExtension (name suffix : String) : String :=
  ((splitAtDot name).map Prod.fst).getD name ++ "." ++ suffix

theorem splitAtDot_eq {name stem suffix : String}
    (splits : splitAtDot name = some (stem, suffix)) :
    name = stem ++ "." ++ suffix := by
  simp only [splitAtDot] at splits
  split at splits
  · cases splits
  · rename_i dot before rest
    obtain ⟨_, equality⟩ := Option.ite_none_left_eq_some.mp splits
    cases equality
    have isDot : dot = '.' := by
      have first := List.head?_dropWhile_not (· ≠ '.') name.toList.reverse
      rw [rest] at first
      simpa using first
    have parts := List.takeWhile_append_dropWhile (p := (· ≠ '.'))
      (l := name.toList.reverse)
    rw [rest, isDot] at parts
    apply String.toList_injective
    have whole := congrArg List.reverse parts
    rw [List.reverse_reverse] at whole
    refine whole.symm.trans ?_
    simp

theorem withExtension_ne {name suffix : String}
    (other : extension name ≠ some suffix) :
    withExtension name suffix ≠ name := by
  intro same
  rw [withExtension] at same
  cases splits : splitAtDot name with
  | none =>
      rw [splits] at same
      have lengths := congrArg (fun text => text.toList.length) same
      simp at lengths
  | some parts =>
      obtain ⟨stem, old⟩ := parts
      have whole := splitAtDot_eq splits
      rw [splits] at same
      have equal : stem ++ "." ++ suffix = stem ++ "." ++ old :=
        same.trans whole
      apply other
      have characters := congrArg String.toList equal
      simp only [String.toList_append, List.append_cancel_left_eq]
        at characters
      rw [extension, splits, String.toList_injective characters]
      rfl

/-- The context that was attached to an error, and what the error displays. -/
structure SeedError where
  context : Option String
  source : String
deriving DecidableEq, Repr

/-- The modes of the seeded files. -/
def seededMode (file : String) : Nat :=
  if ".key".toList.isSuffixOf file.toList then 0o600 else 0o644

/-- The loop that copies the files and sets their modes. -/
def stageFiles (src tmp : Path) :
    List String → Program treeSignature (Except SeedError Unit)
  | [] => .done (.ok ())
  | file :: files =>
      .call (.copy (src ++ [file]) (tmp ++ [file])) fun copied =>
        .attempt (copied.mapError (SeedError.mk
            (some ("copy " ++ file ++ " from " ++ src.display)))) fun _ =>
          .call (.setPermissions (tmp ++ [file]) (seededMode file)) fun set =>
            .attempt (set.mapError (SeedError.mk none)) fun _ =>
              stageFiles src tmp files

def syncFiles (tmp : Path) :
    List String → Program treeSignature (Except SeedError Unit)
  | [] => .done (.ok ())
  | file :: files =>
      .call (.sync (tmp ++ [file])) fun synced =>
        .attempt (synced.mapError (SeedError.mk (some ("fsync " ++ file))))
          fun _ => syncFiles tmp files

/-- Stage the set beside `dst`, then rename it into place. -/
def stageAndRename (src parent : Path) (name : String) :
    Program treeSignature (Except SeedError Unit) :=
  let dst := parent ++ [name]
  let tmp := parent ++ [withExtension name "tmp"]
  .call (.removeDirAll tmp) fun _ =>
    .call (.createDirAll tmp) fun created =>
      .attempt (created.mapError (SeedError.mk
          (some ("create " ++ tmp.display)))) fun _ =>
        .call (.setPermissions tmp 0o700) fun set =>
          .attempt (set.mapError (SeedError.mk none)) fun _ =>
            (stageFiles src tmp pkiFiles).bind fun staged =>
              .attempt staged fun _ =>
                (syncFiles tmp pkiFiles).bind fun synced =>
                  .attempt synced fun _ =>
                    .call (.rename tmp dst) fun renamed =>
                      .attempt (renamed.mapError (SeedError.mk
                          (some ("rename " ++ tmp.display ++ " -> " ++
                            dst.display)))) fun _ =>
                        .call (.sync parent) fun _ => .done (.ok ())

def seedPki (src parent : Path) (name : String) :
    Program treeSignature (Except SeedError Unit) :=
  .call (.exists (parent ++ [name])) fun (present : Bool) =>
    if present then
      .done (.ok ())
    else
      (missingFiles src pkiFiles).bind fun missing =>
        if missing.length = pkiFiles.length then
          .done (.ok ())
        else if missing.isEmpty = false then
          .done (.ok ())
        else
          stageAndRename src parent name

/-- Where a node's set comes from and goes to.  The four source files are not
in the two directories, nor on the way to them. -/
structure PkiPlace where
  src : Path
  parent : Path
  name : String
  notTmp : extension name ≠ some "tmp"
  apart : ∀ file ∈ pkiFiles,
    Tree.Apart (src ++ [file]) (parent ++ [name]) ∧
      Tree.Apart (src ++ [file]) (parent ++ [withExtension name "tmp"])

namespace PkiPlace

variable (place : PkiPlace)

def dst : Path :=
  place.parent ++ [place.name]

def tmp : Path :=
  place.parent ++ [withExtension place.name "tmp"]

def seed : Program treeSignature (Except SeedError Unit) :=
  seedPki place.src place.parent place.name

end PkiPlace

section Paths

variable (place : PkiPlace)

theorem PkiPlace.dst_apart_tmp : Tree.Apart place.dst place.tmp := by
  have different := withExtension_ne place.notTmp
  constructor
  · intro below
    have same := below.eq_of_length (by simp [PkiPlace.dst, PkiPlace.tmp])
    simp only [PkiPlace.dst, PkiPlace.tmp, List.append_cancel_left_eq,
      List.cons.injEq, and_true] at same
    exact different same.symm
  · intro below
    have same := below.eq_of_length (by simp [PkiPlace.dst, PkiPlace.tmp])
    simp only [PkiPlace.dst, PkiPlace.tmp, List.append_cancel_left_eq,
      List.cons.injEq, and_true] at same
    exact different same

/-- The nodes that must not change before the rename. -/
def PkiPlace.Guarded (path : Path) : Prop :=
  place.dst <+: path ∨ ∃ file ∈ pkiFiles, path = place.src ++ [file]

theorem PkiPlace.Guarded.apart {path : Path} (guarded : place.Guarded path) :
    ¬ path <+: place.tmp ∧ ¬ place.tmp <+: path := by
  have siblings := place.dst_apart_tmp
  rcases guarded with below | ⟨file, isFile, rfl⟩
  · exact ⟨fun above => siblings.1 (below.trans above),
      siblings.not_both below⟩
  · exact (place.apart file isFile).2

end Paths

/-- A seed has not touched what is guarded; above `dst` it has at most made
directories. -/
structure Untouched (place : PkiPlace) (start tree : Tree) : Prop where
  same : ∀ path, place.Guarded path → tree.lookup path = start.lookup path
  above : ∀ path, path <+: place.dst →
    tree.lookup path = start.lookup path ∨
      ∃ mode, tree.lookup path = some (.dir mode)

/-- The source file and the staged or seeded one have one content. -/
def Copied (place : PkiPlace) (start : Tree) (target : Path) (tree : Tree)
    (file : String) : Prop :=
  ∃ content mode targetMode,
    start.lookup (place.src ++ [file]) = some (.file content mode) ∧
      tree.lookup (target ++ [file]) = some (.file content targetMode)

/-- The final directory came into being, whole. -/
structure Arrived (place : PkiPlace) (start tree : Tree) : Prop where
  vacant : start.lookup place.dst = none
  ready : Ready tree place.dst
  files : ∀ file ∈ pkiFiles, Copied place start place.dst tree file
  above : ∀ path, path <+: place.dst →
    tree.lookup path = start.lookup path ∨
      ∃ mode, tree.lookup path = some (.dir mode)

/-- What holds wherever a seed is cut off. -/
def Seeded (place : PkiPlace) (start tree : Tree) : Prop :=
  Untouched place start tree ∨ Arrived place start tree

section Seeding

variable {place : PkiPlace} {start tree after : Tree} {operation : TreeOp}
  {fate : TreeFate}

theorem Untouched.refl (place : PkiPlace) (start : Tree) :
    Untouched place start start := by
  constructor
  · intro path _
    rfl
  · intro path _
    exact .inl rfl

theorem Untouched.below (untouched : Untouched place start tree)
    (confined : ∀ path, operation.Touches path → place.tmp <+: path)
    {answer : operation.Answer}
    (performed : treeMachine.perform tree operation fate =
      some (answer, after)) : Untouched place start after := by
  have siblings := place.dst_apart_tmp
  constructor
  · intro path guarded
    rw [TreeOp.perform_aside performed fun touches =>
      guarded.apart.2 (confined path touches)]
    exact untouched.same path guarded
  · intro path above
    rw [TreeOp.perform_aside performed fun touches =>
      siblings.2 ((confined path touches).trans above)]
    exact untouched.above path above

theorem Untouched.createDirAll (untouched : Untouched place start tree)
    {answer : Except String Unit}
    (performed : treeMachine.perform tree (.createDirAll place.tmp) fate =
      some (answer, after)) :
    Untouched place start after := by
  constructor
  · intro path guarded
    rw [TreeOp.perform_aside performed guarded.apart.1]
    exact untouched.same path guarded
  · intro path above
    rcases TreeOp.createDirAll_made performed path with same | made
    · rw [same]
      exact untouched.above path above
    · exact .inr made

/-- The set is staged in `tmp` up to these files. -/
structure Staged (place : PkiPlace) (start : Tree) (files : List String)
    (tree : Tree) : Prop where
  untouched : Untouched place start tree
  ready : Ready tree place.tmp
  files : ∀ file ∈ files, Copied place start place.tmp tree file

theorem tmp_below (file : String) : place.tmp <+: place.tmp ++ [file] :=
  List.prefix_append _ _

theorem Staged.single {files later : List String} (file : String)
    (staged : Staged place start files tree)
    (confined : ∀ path, operation.Touches path →
      path = place.tmp ++ [file])
    {answer : operation.Answer}
    (performed : treeMachine.perform tree operation fate =
      some (answer, after))
    (others : ∀ other ∈ later, other ≠ file → other ∈ files)
    (here : Copied place start place.tmp after file) :
    Staged place start later after := by
  refine ⟨staged.untouched.below (fun path touches => ?_) performed, ?_, ?_⟩
  · rw [confined path touches]
    exact tmp_below file
  · obtain ⟨mode, isDir⟩ := staged.ready
    refine ⟨mode, ?_⟩
    rw [TreeOp.perform_aside performed]
    · exact isDir
    · intro touches
      apply child_not_above place.tmp file
      rw [← confined _ touches]
  · intro other member
    by_cases same : other = file
    · rw [same]
      exact here
    · obtain ⟨content, mode, targetMode, source, target⟩ :=
        staged.files other (others other member same)
      refine ⟨content, mode, targetMode, source, ?_⟩
      rw [TreeOp.perform_aside performed]
      · exact target
      · intro touches
        have equal := confined _ touches
        simp only [List.append_cancel_left_eq, List.cons.injEq,
          and_true] at equal
        exact same equal

theorem Staged.copy {files : List String} {file : String}
    (staged : Staged place start files tree) (isFile : file ∈ pkiFiles)
    (performed : treeMachine.perform tree
      (.copy (place.src ++ [file]) (place.tmp ++ [file])) fate =
        some (.ok (), after)) :
    Staged place start (files ++ [file]) after := by
  obtain ⟨content, mode, source, target⟩ := TreeOp.copy_succeeded performed
  rw [staged.untouched.same _ (.inr ⟨file, isFile, rfl⟩)] at source
  refine staged.single file ?_ performed ?_ ?_
  · intro path touches
    exact touches
  · intro other member different
    rcases List.mem_append.mp member with earlier | last
    · exact earlier
    · exact absurd (List.mem_singleton.mp last) different
  · exact ⟨content, mode, mode, source, target⟩

theorem Staged.chmod {files : List String} {file : String}
    (staged : Staged place start files tree) (isStaged : file ∈ files)
    {mode : Nat} {answer : Except String Unit}
    (performed : treeMachine.perform tree
      (.setPermissions (place.tmp ++ [file]) mode) fate =
        some (answer, after)) :
    Staged place start files after := by
  obtain ⟨content, sourceMode, targetMode, source, target⟩ :=
    staged.files file isStaged
  obtain ⟨newMode, kept⟩ := TreeOp.setPermissions_content target performed
  refine staged.single file ?_ performed ?_ ?_
  · intro path touches
    exact touches
  · intro other member _
    exact member
  · exact ⟨content, sourceMode, newMode, source, kept⟩

/-- The result of staging: if it succeeded, these files are staged. -/
def Stages (place : PkiPlace) (start : Tree) (files : List String)
    (result : Except SeedError Unit) (tree : Tree) : Prop :=
  Untouched place start tree ∧
    (result = .ok () → Staged place start files tree)

theorem stages_error {files : List String} {error : SeedError}
    (untouched : Untouched place start tree) :
    (treeMachine.alone (Seeded place start)).Protected
      (Stages place start files) (.done (.error error)) tree :=
  Machine.done (.inl untouched) ⟨untouched, nofun⟩

theorem stageFiles_protected (files staged : List String)
    (isStaged : Staged place start staged tree)
    (areFiles : ∀ file ∈ files, file ∈ pkiFiles) :
    (treeMachine.alone (Seeded place start)).Protected
      (Stages place start (staged ++ files))
      (stageFiles place.src place.tmp files) tree := by
  induction files generalizing staged tree with
  | nil =>
      refine Machine.done (.inl isStaged.untouched)
        ⟨isStaged.untouched, fun _ => ?_⟩
      rw [List.append_nil]
      exact isStaged
  | cons file files induction =>
      apply Machine.call (.inl isStaged.untouched)
      intro fate copied middle performed
      cases copied with
      | error message =>
          apply stages_error
          refine isStaged.untouched.below ?_ performed
          rintro path rfl
          exact tmp_below file
      | ok _ =>
          have copied := isStaged.copy (areFiles file List.mem_cons_self)
            performed
          apply Machine.call (.inl copied.untouched)
          intro fate set last performed
          have changed := copied.chmod (by simp) performed
          cases set with
          | error message => exact stages_error changed.untouched
          | ok _ =>
              rw [List.append_cons]
              exact induction _ changed fun other member =>
                areFiles other (List.mem_cons_of_mem _ member)

theorem Staged.idle {files : List String}
    (staged : Staged place start files tree)
    (idle : ∀ path, ¬ operation.Touches path) {answer : operation.Answer}
    (performed : treeMachine.perform tree operation fate =
      some (answer, after)) : Staged place start files after := by
  refine ⟨staged.untouched.below (fun path touches =>
    absurd touches (idle path)) performed, ?_, ?_⟩
  · obtain ⟨mode, isDir⟩ := staged.ready
    refine ⟨mode, ?_⟩
    rw [TreeOp.perform_aside performed (idle _)]
    exact isDir
  · intro file member
    obtain ⟨content, mode, targetMode, source, target⟩ :=
      staged.files file member
    refine ⟨content, mode, targetMode, source, ?_⟩
    rw [TreeOp.perform_aside performed (idle _)]
    exact target

theorem syncFiles_protected (files : List String)
    (isStaged : Staged place start pkiFiles tree) :
    (treeMachine.alone (Seeded place start)).Protected
      (fun _ tree => Staged place start pkiFiles tree)
      (syncFiles place.tmp files) tree := by
  induction files generalizing tree with
  | nil => exact Machine.done (.inl isStaged.untouched) isStaged
  | cons file files induction =>
      apply Machine.call (.inl isStaged.untouched)
      intro fate synced after performed
      have still : Staged place start pkiFiles after := by
        refine isStaged.idle ?_ performed
        intro path touches
        exact touches
      cases synced with
      | error message => exact Machine.done (.inl still.untouched) still
      | ok _ => exact induction still

theorem Staged.rename (staged : Staged place start pkiFiles tree)
    (settled : start.lookup place.dst = none ∨
      ∃ file ∈ pkiFiles, start.lookup (place.dst ++ [file]) ≠ none)
    {answer : Except String Unit}
    (performed : treeMachine.perform tree (.rename place.tmp place.dst) fate =
      some (answer, after)) : Seeded place start after := by
  have siblings := place.dst_apart_tmp
  have swapped : Tree.Apart place.tmp place.dst := ⟨siblings.2, siblings.1⟩
  obtain ⟨mode, isDir⟩ := staged.ready
  rcases TreeOp.rename_dir isDir performed with rfl | ⟨rfl, free⟩
  · exact .inl staged.untouched
  have arrives : (tree.move place.tmp place.dst).lookup place.dst =
      some (.dir mode) := by
    have moved := tree.lookup_move swapped []
    rw [List.append_nil, List.append_nil] at moved
    rw [moved]
    exact isDir
  refine .inr ⟨?_, ⟨mode, arrives⟩, ?_, ?_⟩
  · rcases settled with vacant | ⟨file, isFile, occupied⟩
    · exact vacant
    · rw [← staged.untouched.same _ (.inl (List.prefix_append _ _))]
        at occupied
      rcases free with vacant | empty
      · rw [← staged.untouched.same _ (.inl List.prefix_rfl)]
        exact vacant
      · obtain ⟨node, present⟩ := Option.ne_none_iff_exists'.mp occupied
        have notEmpty := Tree.isEmpty_eq_false present
          (List.prefix_append _ _) (by simp)
        rw [empty] at notEmpty
        cases notEmpty
  · intro file isFile
    obtain ⟨content, sourceMode, targetMode, source, target⟩ :=
      staged.files file isFile
    refine ⟨content, sourceMode, targetMode, source, ?_⟩
    rw [tree.lookup_move swapped]
    exact target
  · intro path above
    by_cases same : path = place.dst
    · exact .inr ⟨mode, by rw [same, arrives]⟩
    · rw [tree.lookup_move_aside]
      · exact staged.untouched.above path above
      · intro below
        exact siblings.2 (below.trans above)
      · intro below
        exact same (above.sublist.antisymm below.sublist)

/-- Once the directory is in place, an operation that touches nothing keeps
it. -/
theorem Seeded.idle (seeded : Seeded place start tree)
    (idle : ∀ path, ¬ operation.Touches path) {answer : operation.Answer}
    (performed : treeMachine.perform tree operation fate =
      some (answer, after)) : Seeded place start after := by
  have same : ∀ path, after.lookup path = tree.lookup path :=
    fun path => TreeOp.perform_aside performed (idle path)
  rcases seeded with untouched | arrived
  · exact .inl (untouched.below (fun path touches =>
      absurd touches (idle path)) performed)
  · refine .inr ⟨arrived.vacant, ?_, ?_, ?_⟩
    · obtain ⟨mode, isDir⟩ := arrived.ready
      exact ⟨mode, (same _).trans isDir⟩
    · intro file isFile
      obtain ⟨content, mode, targetMode, source, target⟩ :=
        arrived.files file isFile
      exact ⟨content, mode, targetMode, source, (same _).trans target⟩
    · intro path above
      rw [same]
      exact arrived.above path above

/-- `dst` is not there, or it holds something. -/
def Settled (place : PkiPlace) (tree : Tree) : Prop :=
  tree.lookup place.dst = none ∨
    ∃ file ∈ pkiFiles, tree.lookup (place.dst ++ [file]) ≠ none

theorem stageAndRename_protected (untouched : Untouched place start tree)
    (settled : Settled place start) :
    (treeMachine.alone (Seeded place start)).Protected (fun _ _ => True)
      (stageAndRename place.src place.parent place.name) tree := by
  have proper : place.tmp ≠ [] := by simp [PkiPlace.tmp]
  apply Machine.call (.inl untouched)
  intro fate removed cleared performed
  have untouched : Untouched place start cleared := by
    refine untouched.below ?_ performed
    intro path touches
    exact touches
  apply Machine.call (.inl untouched)
  intro fate created made performed
  have untouched := untouched.createDirAll performed
  cases created with
  | error message => exact Machine.done (.inl untouched) trivial
  | ok _ =>
  have ready : Ready made place.tmp :=
    TreeOp.createDirAll_succeeded proper performed
  apply Machine.call (.inl untouched)
  intro fate set restricted performed
  have untouched : Untouched place start restricted := by
    refine untouched.below ?_ performed
    rintro path rfl
    exact List.prefix_rfl
  cases set with
  | error message => exact Machine.done (.inl untouched) trivial
  | ok _ =>
  have ready := ready.restrict performed
  have nothing : Staged place start [] restricted :=
    ⟨untouched, ready, nofun⟩
  apply Setting.Protected.bind
  apply Setting.Protected.mono _
    (stageFiles_protected pkiFiles [] nothing fun _ member => member)
  rintro result staged ⟨untouched, succeeded⟩
  cases result with
  | error error => exact Machine.done (.inl untouched) trivial
  | ok _ =>
  apply Setting.Protected.bind
  apply Setting.Protected.mono _
    (syncFiles_protected pkiFiles (succeeded rfl))
  rintro result synced staged
  cases result with
  | error error => exact Machine.done (.inl staged.untouched) trivial
  | ok _ =>
  apply Machine.call (.inl staged.untouched)
  intro fate renamed final performed
  have seeded := staged.rename settled performed
  cases renamed with
  | error message => exact Machine.done seeded trivial
  | ok _ =>
  apply Machine.call seeded
  intro fate answer last performed
  refine Machine.done (seeded.idle ?_ performed) trivial
  intro path touches
  exact touches

theorem missingFiles_protected (dir : Path) (files : List String)
    (untouched : Untouched place start tree) :
    (treeMachine.alone (Seeded place start)).Protected
      (fun _ tree => Untouched place start tree)
      (missingFiles dir files) tree := by
  induction files generalizing tree with
  | nil => exact Machine.done (.inl untouched) untouched
  | cons file files induction =>
      apply Machine.call (.inl untouched)
      intro fate present after performed
      have untouched : Untouched place start after := by
        refine untouched.below ?_ performed
        intro path touches
        exact touches.elim
      apply Setting.Protected.bind
      apply Setting.Protected.mono _ (induction untouched)
      intro missing last still
      exact Machine.done (.inl still) still

/-- Wherever a seed fails or is cut off, `dst` is as it was, or it has come into
being whole. -/
theorem seed_protected (settled : Settled place start) :
    (treeMachine.alone (Seeded place start)).Protected (fun _ _ => True)
      place.seed start := by
  have untouched := Untouched.refl place start
  apply Machine.call (.inl untouched)
  intro fate present after performed
  have untouched : Untouched place start after := by
    refine untouched.below ?_ performed
    intro path touches
    exact touches.elim
  cases present with
  | true => exact Machine.done (.inl untouched) trivial
  | false =>
      apply Setting.Protected.bind
      apply Setting.Protected.mono _
        (missingFiles_protected place.src pkiFiles untouched)
      intro missing last untouched
      split
      · exact Machine.done (.inl untouched) trivial
      · split
        · exact Machine.done (.inl untouched) trivial
        · exact stageAndRename_protected untouched settled

end Seeding

end MachinedRs
