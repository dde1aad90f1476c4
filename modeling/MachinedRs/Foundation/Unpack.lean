import Mathlib.Data.List.Basic

/-!
# Trees unpacked item by item

A tree maps paths to nodes.  Items are put into it one after the other: the
directory of an item must be there, and only a directory may be met again.  If
the items are those of some tree, directories come before what is in them and
nothing but a directory comes twice, then unpacking them gives that tree.
-/

namespace Foundation

abbrev FileMap (Name Node : Type) :=
  List Name → Option Node

section Order

variable {Name Node : Type} (isDir : Node → Bool)

/-- Every item is in a directory that is known or is itself an earlier
item. -/
def ParentsFirst : List (List Name) → List (List Name × Node) → Prop
  | _, [] => True
  | known, item :: items =>
      item.1.dropLast ∈ known ∧
        ParentsFirst (if isDir item.2 then item.1 :: known else known) items

/-- Only directories come twice. -/
def LeavesOnce (items : List (List Name × Node)) : Prop :=
  items.Pairwise fun earlier later =>
    earlier.1 = later.1 → isDir later.2 = true

variable {isDir}

theorem ParentsFirst.mono {known more : List (List Name)}
    {items : List (List Name × Node)} (wider : known ⊆ more)
    (first : ParentsFirst isDir known items) :
    ParentsFirst isDir more items := by
  induction items generalizing known more with
  | nil => trivial
  | cons item items induction =>
      refine ⟨wider first.1, induction ?_ first.2⟩
      split
      · exact List.cons_subset_cons item.1 wider
      · exact wider

theorem ParentsFirst.append {known : List (List Name)}
    {items others : List (List Name × Node)}
    (first : ParentsFirst isDir known items)
    (second : ParentsFirst isDir known others) :
    ParentsFirst isDir known (items ++ others) := by
  induction items generalizing known with
  | nil => exact second
  | cons item items induction =>
      refine ⟨first.1, induction first.2 (second.mono ?_)⟩
      split
      · exact List.subset_cons_self item.1 known
      · exact List.Subset.refl known

/-- The names and the nodes may be written in another way. -/
theorem ParentsFirst.map {Name' Node' : Type}
    {isDir' : Node' → Bool} {rename : Name → Name'} {change : Node → Node'}
    (same : ∀ node, isDir' (change node) = isDir node)
    {known : List (List Name)} {items : List (List Name × Node)}
    (first : ParentsFirst isDir known items) :
    ParentsFirst isDir' (known.map (List.map rename))
      (items.map fun item => (item.1.map rename, change item.2)) := by
  induction items generalizing known with
  | nil => trivial
  | cons item items induction =>
      have later := induction first.2
      refine ⟨?_, ?_⟩
      · rw [← List.map_dropLast]
        exact List.mem_map_of_mem first.1
      · simp only [same]
        split at later <;> rename_i directory
        · rw [if_pos directory]
          exact later
        · rw [if_neg directory]
          exact later

/-- Only the paths matter, and which of them are directories. -/
theorem parentsFirst_of_shape {known : List (List Name)}
    {items : List (List Name × Node)}
    (first : ParentsFirst id known
      (items.map fun item => (item.1, isDir item.2))) :
    ParentsFirst isDir known items := by
  induction items generalizing known with
  | nil => trivial
  | cons item items induction => exact ⟨first.1, induction first.2⟩

instance decidableParentsFirst [DecidableEq Name] :
    (known : List (List Name)) → (items : List (List Name × Node)) →
      Decidable (ParentsFirst isDir known items)
  | _, [] => isTrue trivial
  | known, item :: items =>
      have := decidableParentsFirst
        (if isDir item.2 then item.1 :: known else known) items
      inferInstanceAs (Decidable (_ ∧ _))

theorem leavesOnce_of_nodup {items : List (List Name × Node)}
    (distinct : (items.map Prod.fst).Nodup) : LeavesOnce isDir items := by
  rw [List.Nodup, List.pairwise_map] at distinct
  exact distinct.imp fun differ same => absurd same differ

end Order

section Unpack

variable {Name Node : Type} [DecidableEq Name] (isDir : Node → Bool)

namespace FileMap

def put (tree : FileMap Name Node) (path : List Name) (node : Node) :
    FileMap Name Node := fun other =>
  if other = path then some node else tree other

def hasDir (tree : FileMap Name Node) (path : List Name) : Bool :=
  (tree path).any isDir

/-- Nothing but the root. -/
def bare (node : Node) : FileMap Name Node := fun path =>
  if path = [] then some node else none

/-- The part of a tree that is the root and the given paths. -/
def restrict (tree : FileMap Name Node) (paths : List (List Name)) :
    FileMap Name Node := fun path =>
  if path = [] ∨ path ∈ paths then tree path else none

end FileMap

def unpackItem (tree : FileMap Name Node) (item : List Name × Node) :
    Option (FileMap Name Node) :=
  if tree.hasDir isDir item.1.dropLast then
    match tree item.1 with
    | none => some (tree.put item.1 item.2)
    | some present =>
        if isDir present ∧ isDir item.2 then
          some (tree.put item.1 item.2)
        else
          none
  else
    none

def unpackItems (tree : FileMap Name Node)
    (items : List (List Name × Node)) : Option (FileMap Name Node) :=
  items.foldlM (unpackItem isDir) tree

/-- The items are those of the tree, in an order to unpack them in. -/
structure Describes (tree : FileMap Name Node)
    (items : List (List Name × Node)) : Prop where
  sound : ∀ item ∈ items, item.1 ≠ [] ∧ tree item.1 = some item.2
  complete : ∀ path node, path ≠ [] → tree path = some node →
    path ∈ items.map Prod.fst
  parentsFirst : ParentsFirst isDir [[]] items
  leavesOnce : LeavesOnce isDir items

variable {isDir}

section Run

variable {tree : FileMap Name Node} {done : List (List Name × Node)}

theorem FileMap.restrict_nil {node : Node} (root : tree [] = some node) :
    tree.restrict [] = FileMap.bare node := by
  funext path
  by_cases top : path = []
  · simp [restrict, bare, top, root]
  · simp [restrict, bare, top]

theorem FileMap.restrict_of_mem {path : List Name}
    {paths : List (List Name)} (member : path ∈ paths) :
    tree.restrict paths path = tree path :=
  if_pos (.inr member)

/-- Putting the next item of a tree adds its path to those unpacked. -/
theorem FileMap.put_restrict {item : List Name × Node}
    (sound : tree item.1 = some item.2) :
    (tree.restrict (done.map Prod.fst)).put item.1 item.2 =
      tree.restrict ((done ++ [item]).map Prod.fst) := by
  funext path
  by_cases here : path = item.1
  · rw [here, put, if_pos rfl,
      restrict_of_mem (List.mem_map_of_mem (List.mem_append_right done
        List.mem_cons_self)), sound]
  · have listed : path ∈ (done ++ [item]).map Prod.fst ↔
        path ∈ done.map Prod.fst := by
      rw [List.map_append, List.mem_append, List.map_singleton,
        List.mem_singleton, or_iff_left here]
    simp only [put, if_neg here, restrict, listed]

theorem unpackItem_restrict {item : List Name × Node}
    (sound : tree item.1 = some item.2)
    (parent : (tree.restrict (done.map Prod.fst)).hasDir isDir
      item.1.dropLast)
    (once : item.1 = [] ∨ item.1 ∈ done.map Prod.fst → isDir item.2) :
    unpackItem isDir (tree.restrict (done.map Prod.fst)) item =
      some (tree.restrict ((done ++ [item]).map Prod.fst)) := by
  rw [unpackItem, if_pos parent, FileMap.put_restrict sound]
  by_cases present : item.1 = [] ∨ item.1 ∈ done.map Prod.fst
  · rw [FileMap.restrict, if_pos present, sound]
    exact if_pos ⟨once present, once present⟩
  · rw [FileMap.restrict, if_neg present]

theorem FileMap.hasDir_restrict_append {path : List Name}
    (item : List Name × Node)
    (known : (tree.restrict (done.map Prod.fst)).hasDir isDir path) :
    (tree.restrict ((done ++ [item]).map Prod.fst)).hasDir isDir path := by
  rw [hasDir, restrict] at known ⊢
  split at known
  next present =>
    rw [if_pos]
    · exact known
    · rcases present with top | member
      · exact .inl top
      · rw [List.map_append]
        exact .inr (List.mem_append_left _ member)
  next => cases known

theorem unpackItems_restrict {items : List (List Name × Node)}
    {known : List (List Name)}
    (sound : ∀ item ∈ items, item.1 ≠ [] ∧ tree item.1 = some item.2)
    (first : ParentsFirst isDir known items)
    (once : LeavesOnce isDir (done ++ items))
    (dirs : ∀ path ∈ known,
      (tree.restrict (done.map Prod.fst)).hasDir isDir path) :
    unpackItems isDir (tree.restrict (done.map Prod.fst)) items =
      some (tree.restrict ((done ++ items).map Prod.fst)) := by
  induction items generalizing done known with
  | nil =>
      rw [List.append_nil]
      rfl
  | cons item items induction =>
      obtain ⟨notRoot, found⟩ := sound item List.mem_cons_self
      have here := unpackItem_restrict found (dirs _ first.1) (by
        rintro (top | member)
        · exact absurd top notRoot
        · obtain ⟨earlier, isDone, same⟩ := List.mem_map.mp member
          exact (List.pairwise_append.mp once).2.2 earlier isDone item
            List.mem_cons_self same)
      rw [unpackItems, List.foldlM_cons, here]
      have split : done ++ item :: items = (done ++ [item]) ++ items := by
        rw [List.append_assoc, List.singleton_append]
      rw [split] at once ⊢
      refine induction
        (fun other member => sound other (List.mem_cons_of_mem item member))
        first.2 once ?_
      intro path member
      split at member
      next directory =>
        rcases List.mem_cons.mp member with same | old
        · rw [same, FileMap.hasDir, FileMap.restrict_of_mem
            (List.mem_map_of_mem (List.mem_append_right done
              List.mem_cons_self)), found]
          exact directory
        · exact FileMap.hasDir_restrict_append item (dirs path old)
      next => exact FileMap.hasDir_restrict_append item (dirs path member)

end Run

/-- Unpacking the items of a tree gives the tree. -/
theorem Describes.unpackItems {tree : FileMap Name Node}
    {items : List (List Name × Node)} {node : Node}
    (describes : Describes isDir tree items) (root : tree [] = some node)
    (directory : isDir node = true) :
    unpackItems isDir (FileMap.bare node) items = some tree := by
  have whole : tree.restrict (items.map Prod.fst) = tree := by
    funext path
    by_cases present : path = [] ∨ path ∈ items.map Prod.fst
    · rw [FileMap.restrict, if_pos present]
    · rw [FileMap.restrict, if_neg present]
      cases found : tree path with
      | none => rfl
      | some node =>
          have member := describes.complete path node
            (fun top => present (.inl top)) found
          exact absurd (.inr member) present
  have run := @unpackItems_restrict Name Node _ isDir tree [] items [[]]
    describes.sound describes.parentsFirst describes.leavesOnce (by
      intro path member
      rw [List.mem_singleton.mp member, FileMap.hasDir, FileMap.restrict,
        if_pos (.inl rfl), root]
      exact directory)
  rw [List.nil_append, List.map_nil, FileMap.restrict_nil root, whole] at run
  exact run

end Unpack

end Foundation
