import MachinedRs.Foundation.Machine
import MachinedRs.Imager.Initramfs
import MachinedRs.Imager.Modules

/-!
# Loading the kernel modules of an image

`loadModules` asks for one module after the other, in the order of the list the
imager wrote.  A module that cannot be loaded does not keep the others from
being asked for; how many failed is only logged.
-/

namespace MachinedRs

open Foundation ModulesDep

inductive ModuleCall where
  | readToString (path : String)
  | loadModule (path : String)

def moduleSignature : Signature :=
  { Op := ModuleCall
    Answer := fun operation =>
      match operation with
      | .readToString _ => Except String String
      | .loadModule _ => Except String Unit }

/-- `MODULES_LOAD` -/
def modulesLoadPath : String :=
  "/etc/machined/modules.load"

def loadEach : List (List Char) → Program moduleSignature (Except String Unit)
  | [] => .done (.ok ())
  | line :: lines =>
      .call (.loadModule (String.ofList line)) fun _ => loadEach lines

def loadModules (list : String) :
    Program moduleSignature (Except String Unit) :=
  .call (.readToString list) fun (read : Except String String) =>
    match read with
    | .error _ => .done (.ok ())
    | .ok text =>
        loadEach
          (((unicode.lines text.toList).map unicode.trim).filter (· ≠ []))

/-- The files of a node, and the modules its kernel was asked to load. -/
structure ModuleWorld where
  files : String → Except String String
  requested : List String

/-- A choice is what the kernel answers to a request. -/
def moduleMachine :
    Machine moduleSignature ModuleWorld (Except String Unit) :=
  { perform := fun world operation outcome =>
      match operation with
      | .readToString path => some (world.files path, world)
      | .loadModule path =>
          some (outcome, { world with requested := world.requested ++ [path] }) }

section Loading

theorem exec_loadEach (lines : List (List Char)) (world : ModuleWorld)
    (outcomes : List (Except String Unit))
    (enough : outcomes.length = lines.length) :
    moduleMachine.exec (loadEach lines) world outcomes =
      some (.done (.ok ()),
        { world with
          requested := world.requested ++ lines.map String.ofList }) := by
  induction lines generalizing world outcomes with
  | nil =>
      rw [List.length_eq_zero_iff.mp enough, List.map_nil, List.append_nil]
      rfl
  | cons line lines induction =>
      cases outcomes with
      | nil => cases enough
      | cons outcome outcomes =>
          have asked := induction
            { world with
              requested := world.requested ++ [String.ofList line] }
            outcomes (Nat.succ.inj enough)
          rw [List.map_cons, List.append_cons]
          exact asked

/-- A line of the list. -/
def loadLine (kver path : String) : String :=
  "/lib/modules/" ++ kver ++ "/" ++ path

theorem loadLine_eq (kver path : String) :
    loadLine kver path = "/lib/modules/" ++ kver ++ "/" ++ path := by
  delta loadLine
  rfl

theorem toList_loadLine (kver path : String) :
    (loadLine kver path).toList =
      "/lib/modules/".toList ++ kver.toList ++ "/".toList ++ path.toList := by
  rw [loadLine_eq, String.toList_append, String.toList_append,
    String.toList_append]

theorem toList_modulesLoad (input : InitramfsInput) :
    input.modulesLoad.toList =
      unicode.unlines (input.modulePaths.map fun path =>
        (loadLine input.kver path).toList) := by
  rw [InitramfsInput.modulesLoad]
  induction input.modulePaths with
  | nil => rfl
  | cons path paths induction =>
      have newline : unicode.newline = '\n' := rfl
      rw [List.map_cons, String.join_cons, String.toList_append, induction,
        List.map_cons, Alphabet.unlines, Alphabet.unlines, List.flatMap_cons,
        newline, String.toList_append]
      rfl

theorem unblanked_loadLine {kver path : String} (version : Unblanked kver)
    (unblanked : Unblanked path) : Unblanked (loadLine kver path) := by
  have root : Unblanked "/lib/modules/" := by decide +kernel
  have slash : Unblanked "/" := by decide +kernel
  intro character member
  simp only [toList_loadLine, List.mem_append] at member
  rcases member with ((first | second) | third) | last
  · exact root character first
  · exact version character second
  · exact slash character third
  · exact unblanked character last

theorem entries_modulesLoad {input : InitramfsInput}
    (version : Unblanked input.kver)
    (paths : ∀ path ∈ input.modulePaths, Unblanked path) :
    ((unicode.lines input.modulesLoad.toList).map unicode.trim).filter
        (· ≠ []) =
      input.modulePaths.map fun path => (loadLine input.kver path).toList := by
  rw [toList_modulesLoad]
  apply unicode.trimmed_lines_unlines
  · intro line member
    obtain ⟨path, _, rfl⟩ := List.mem_map.mp member
    intro isNil
    rw [toList_loadLine, List.append_eq_nil_iff, List.append_eq_nil_iff,
      List.append_eq_nil_iff] at isNil
    exact absurd isNil.1.1.1 (by decide)
  · intro line member
    obtain ⟨path, isPath, rfl⟩ := List.mem_map.mp member
    exact unblanked_loadLine version (paths path isPath)

end Loading

/-- The modules a node asks its kernel for are those its roots need, in an order
in which they can be loaded. -/
theorem resolveClosure_loaded (modulesDep : String) (roots : List String)
    (paths : ∀ dep ∈ declarations modulesDep, Unblanked dep.path) :
    ((∃ message, resolveClosure modulesDep roots = .error message) ↔
      ∃ root ∈ roots, ∀ dep ∈ declarations modulesDep,
        moduleName dep.path ≠ underscored root) ∧
    ∀ order, resolveClosure modulesDep roots = .ok order →
      IsClosure (declarations modulesDep) roots order ∧
      ∀ (input : InitramfsInput) (world : ModuleWorld)
        (outcomes : List (Except String Unit)),
        input.modulePaths = order → Unblanked input.kver →
        world.files modulesLoadPath = .ok input.modulesLoad →
        outcomes.length = order.length + 1 →
        moduleMachine.exec (loadModules modulesLoadPath) world outcomes =
          some (.done (.ok ()),
            { world with
              requested := world.requested ++
                order.map fun path =>
                  "/lib/modules/" ++ input.kver ++ "/" ++ path }) := by
  refine ⟨resolveClosure_error_iff modulesDep roots, ?_⟩
  intro order result
  have closure := isClosure_of_resolveClosure result
  refine ⟨closure, ?_⟩
  rintro input world outcomes rfl version written enough
  have unblanked : ∀ path ∈ input.modulePaths, Unblanked path := by
    intro path member
    exact unblanked_of_reached paths ((closure.reached path).mp member)
  cases outcomes with
  | nil => cases enough
  | cons first outcomes =>
      have asked := exec_loadEach
        (input.modulePaths.map fun path => (loadLine input.kver path).toList)
        world outcomes (by simpa using enough)
      have lines : (input.modulePaths.map fun path =>
          (loadLine input.kver path).toList).map String.ofList =
            input.modulePaths.map fun path =>
              "/lib/modules/" ++ input.kver ++ "/" ++ path := by
        rw [List.map_map]
        apply List.map_congr_left
        intro path _
        exact String.ofList_toList
      rw [lines, ← entries_modulesLoad version unblanked] at asked
      have read : moduleMachine.perform world (.readToString modulesLoadPath)
          first = some (.ok input.modulesLoad, world) := by
        rw [← written]
        rfl
      simp only [loadModules, Machine.exec, read, Option.bind_some]
      exact asked

/-- Two modules of which one needs the other. -/
def ext4Dep : String :=
  "kernel/fs/ext4.ko.gz: kernel/fs/jbd2.ko.gz\nkernel/fs/jbd2.ko.gz:\n"

def ext4Input : InitramfsInput :=
  { rootfs :=
      { path := "/tmp/rootfs"
        listing := []
        proper := .intro
          { distinct := List.nodup_nil
            names := by simp
            targets := by simp }
          (by simp) }
    machinedPath := "/tmp/machined"
    machined := some []
    modulePaths := ["kernel/fs/jbd2.ko", "kernel/fs/ext4.ko"]
    kver := "6.12.81-0-virt"
    imageId := "test"
    bootloader := "sdboot" }

def ext4World : ModuleWorld :=
  { files := fun _ => .ok ext4Input.modulesLoad
    requested := [] }

/-- The first load fails, and the second is asked for all the same. -/
theorem resolveClosure_loaded_ext4 :
    resolveClosure ext4Dep ["ext4"] =
      .ok ["kernel/fs/jbd2.ko", "kernel/fs/ext4.ko"] ∧
    IsClosure (declarations ext4Dep) ["ext4"]
      ["kernel/fs/jbd2.ko", "kernel/fs/ext4.ko"] ∧
    moduleMachine.exec (loadModules modulesLoadPath) ext4World
        [.ok (), .error "finit_module", .ok ()] =
      some (.done (.ok ()),
        { ext4World with
          requested :=
            ["/lib/modules/6.12.81-0-virt/kernel/fs/jbd2.ko",
              "/lib/modules/6.12.81-0-virt/kernel/fs/ext4.ko"] }) := by
  have declared : declarations ext4Dep =
      [⟨"kernel/fs/ext4.ko", ["kernel/fs/jbd2.ko"]⟩,
        ⟨"kernel/fs/jbd2.ko", []⟩] := by
    decide +kernel
  have paths : ∀ dep ∈ declarations ext4Dep, Unblanked dep.path := by
    rw [declared]
    simp only [List.forall_mem_cons]
    exact ⟨by decide +kernel, by decide +kernel, by simp⟩
  have resolved : resolveClosure ext4Dep ["ext4"] =
      .ok ["kernel/fs/jbd2.ko", "kernel/fs/ext4.ko"] := by
    decide +kernel
  obtain ⟨closure, loads⟩ :=
    (resolveClosure_loaded ext4Dep ["ext4"] paths).2 _ resolved
  exact ⟨resolved, closure,
    loads ext4Input ext4World _ rfl (by decide +kernel) rfl rfl⟩

end MachinedRs
