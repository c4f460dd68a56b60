import DocumentRelay.Firebase.CompoundWrite
import DocumentRelay.Lib.TreeValues

/-!
# What a compound write does

`applyToNode:` on the values of a node, place by place.  A compound write is a patch
(`valueAt_applyToNode`): at and below each of its writes there is what is written, above
one that does not remove there is no value, and the rest stays.

* `applyToNode_addWrites` — writes may be collected first and made later.  Collecting a
  removal below a value of the underlying node is the exception: a child written below a
  value replaces the value, and when the child is removed again the collected write is a
  removal, which leaves the value as it is.
* `getChild_applyToNode` — the writes below a place are all that is needed to read there.
-/

namespace DocumentRelay

namespace FCompoundWrite

variable {κ : Type} [DecidableEq κ] {keys : KeySet κ}

/-! ## What a compound write overwrites -/

/-- The places a compound write overwrites: all at and below its writes, and all above
one that does not remove. -/
def patch (write : FCompoundWrite keys) : Patch (FPath κ) (Option Leaf) := fun path =>
  match write.completeNodeAtPath path with
  | some node => some node.leafValue
  | none =>
      if write.writes.any fun w => path.contains w.1 && !w.2.isEmpty then some none else none

section Patch

variable {write write' : FCompoundWrite keys}

/-- At and below a write, the values are those of the written node. -/
theorem patch_of_writeAt {place : FPath κ} {node : FNode κ}
    (holds : write.writeAt place = some node)
    (rest : FPath κ) : write.patch (place ++ rest) = some (node.valueAt rest) := by
  rw [patch, completeNodeAtPath_of_writeAt holds]
  rfl

/-- There is a write at or below the place that does not remove. -/
def WritesBelow (write : FCompoundWrite keys) (path : FPath κ) : Prop :=
  ∃ place node, path <+: place ∧ write.writeAt place = some node ∧ node.isEmpty = false

/-- Where nothing is written above, the writes below leave no value, or change nothing. -/
theorem patch_of_free {path : FPath κ} (free : ∀ q, q <+: path → write.writeAt q = none) :
    write.patch path = some none ∧ write.WritesBelow path ∨
      write.patch path = none ∧ ¬ write.WritesBelow path := by
  have asked : (write.writes.any fun w => path.contains w.1 && !w.2.isEmpty) = true ↔
      write.WritesBelow path := by
    simp only [List.any_eq_true, Bool.and_eq_true, FPath.contains_iff, Bool.not_eq_true']
    constructor
    · rintro ⟨w, mem, below, present⟩
      exact ⟨w.1, w.2, below, mem_writes.mp mem, present⟩
    · rintro ⟨place, node, below, holds, present⟩
      exact ⟨(place, node), mem_writes.mpr holds, below, present⟩
  rw [patch, completeNodeAtPath_eq_none.mpr free]
  simp only
  split
  case isTrue found => exact Or.inl ⟨rfl, asked.mp found⟩
  case isFalse missing => exact Or.inr ⟨rfl, mt asked.mpr missing⟩

/-- Above a write that puts something, and below none, there is no value. -/
theorem patch_of_writesBelow {path : FPath κ} (free : ∀ q, q <+: path → write.writeAt q = none)
    (below : write.WritesBelow path) : write.patch path = some none := by
  rcases patch_of_free free with ⟨gone, -⟩ | ⟨-, missing⟩
  · exact gone
  · exact absurd below missing

/-- What two compound writes do at two places is the same when the same is written above,
and likewise below. -/
theorem patch_eq_of_free {path path' : FPath κ}
    (free : ∀ q, q <+: path → write.writeAt q = none)
    (free' : ∀ q, q <+: path' → write'.writeAt q = none)
    (below : write.WritesBelow path ↔ write'.WritesBelow path') :
    write.patch path = write'.patch path' := by
  rcases patch_of_free free with ⟨here, found⟩ | ⟨here, missing⟩
  · rw [here, patch_of_writesBelow free' (below.mp found)]
  · rcases patch_of_free free' with ⟨-, found⟩ | ⟨there, -⟩
    · exact absurd (below.mpr found) missing
    · rw [here, there]

/-- What is written at a place depends on the writes above and below it. -/
theorem patch_congr {path : FPath κ}
    (same : ∀ q, q <+: path ∨ path <+: q → write.writeAt q = write'.writeAt q) :
    write.patch path = write'.patch path := by
  cases complete : write.completeNodeAtPath path with
  | some node =>
      obtain ⟨place, rest, value, rfl, holds, -⟩ := exists_of_completeNodeAtPath complete
      have holds' := holds
      rw [same place (Or.inl (List.prefix_append place rest))] at holds'
      rw [patch_of_writeAt holds, patch_of_writeAt holds']
  | none =>
      have free := completeNodeAtPath_eq_none.mp complete
      refine patch_eq_of_free free (fun q above => same q (Or.inl above) ▸ free q above) ?_
      constructor
      · rintro ⟨place, node, below, holds, present⟩
        exact ⟨place, node, below, same place (Or.inr below) ▸ holds, present⟩
      · rintro ⟨place, node, below, holds, present⟩
        exact ⟨place, node, below, (same place (Or.inr below)).symm ▸ holds, present⟩

/-! ## Applying -/

/-- Writes made one after the other. -/
def updateChildren (keys : KeySet κ) (node : FNode κ)
    (ws : List (FPath κ × FNode κ)) : FNode κ :=
  ws.foldl (fun node w => keys.updateChild node w.1 w.2) node

/-- The values after writes one after the other. -/
theorem valueAt_updateChildren (node : FNode κ) (ws : List (FPath κ × FNode κ)) :
    (updateChildren keys node ws).valueAt =
      Patch.applyAll (ws.map fun w => KeyTree.writePatch w.1 w.2) node.valueAt := by
  induction ws generalizing node with
  | nil => rfl
  | cons w rest ih =>
      rw [updateChildren, List.foldl_cons, ← updateChildren, ih, List.map_cons,
        Patch.applyAll_cons, KeySet.updateChild, KeyTree.valueAt_set]

mutual

/-- Applying a tree makes the writes that `forEach:` meets, in its order. -/
theorem applySubtreeWrite_eq_foldl (tree : FImmutableTree κ (FNode κ))
    (ordered : tree.Ordered keys.cmp)
    (leaves : tree.Leaves keys.cmp) (relativePath : FPath κ) (node : FNode κ) :
    applySubtreeWrite keys tree relativePath node =
      tree.forEach.foldl
        (fun node w => keys.updateChild node (relativePath ++ w.1) w.2) node := by
  match tree with
  | .mk (some value) children =>
      rw [applySubtreeWrite, FImmutableTree.forEach, leaves.forEachChild_eq_nil ordered]
      simp
  | .mk none children =>
      rw [applySubtreeWrite, FImmutableTree.forEach,
        applyChildWrites_eq_foldl children (fun e mem => ordered.of_mem mem)
          (fun e mem => leaves.of_mem ordered mem) relativePath node]
      simp

theorem applyChildWrites_eq_foldl (children : List (κ × FImmutableTree κ (FNode κ)))
    (ordered : ∀ e ∈ children, e.2.Ordered keys.cmp)
    (leaves : ∀ e ∈ children, e.2.Leaves keys.cmp)
    (relativePath : FPath κ) (node : FNode κ) :
    applyChildWrites keys children relativePath node =
      (FImmutableTree.forEachChild children).foldl
        (fun node w => keys.updateChild node (relativePath ++ w.1) w.2) node := by
  match children with
  | [] => rfl
  | (childKey, childTree) :: rest =>
      rw [applyChildWrites, FImmutableTree.forEachChild, List.foldl_append, List.foldl_map,
        applySubtreeWrite_eq_foldl childTree (ordered _ List.mem_cons_self)
          (leaves _ List.mem_cons_self) (relativePath ++ [childKey]) node,
        applyChildWrites_eq_foldl rest (fun e mem => ordered e (List.mem_cons_of_mem _ mem))
          (fun e mem => leaves e (List.mem_cons_of_mem _ mem)) relativePath]
      simp

end

/-- `applyToNode:` makes the writes one after the other. -/
theorem applyToNode_eq_updateChildren (write : FCompoundWrite keys) (node : FNode κ) :
    write.applyToNode node = updateChildren keys node write.writes :=
  applySubtreeWrite_eq_foldl write.writeTree write.ordered write.leaves [] node

/-- **A compound write is a patch.** -/
theorem valueAt_applyToNode (write : FCompoundWrite keys) (node : FNode κ) :
    (write.applyToNode node).valueAt = write.patch.apply node.valueAt := by
  rw [applyToNode_eq_updateChildren, valueAt_updateChildren]
  funext path
  cases complete : write.completeNodeAtPath path with
  | some c =>
      obtain ⟨place, rest, value, rfl, holds, -⟩ := exists_of_completeNodeAtPath complete
      rw [Patch.apply_of_some (patch_of_writeAt holds rest)]
      refine Patch.applyAll_of_agree (List.mem_map_of_mem (mem_writes.mpr holds))
        (KeyTree.writePatch_below place rest value) ?_ _
      · -- Of the writes above and below a place there is at most one.
        intro P mem
        obtain ⟨w, met, rfl⟩ := List.mem_map.mp mem
        have written := mem_writes.mp met
        by_cases above : w.1 <+: place ++ rest
        · obtain ⟨same, rfl⟩ := write.leaves.eq_of_prefix above (List.prefix_append place rest)
            written holds
          rw [same]
          exact Or.inr (KeyTree.writePatch_below place rest w.2)
        · left
          refine KeyTree.writePatch_of_diverge above ?_ w.2
          intro below
          have further := (List.prefix_append place rest).trans below
          obtain ⟨rfl, -⟩ :=
            write.leaves.eq_of_prefix further (List.prefix_refl w.1) holds written
          exact above (List.prefix_append _ rest)
  | none =>
      have free := completeNodeAtPath_eq_none.mp complete
      have notAbove : ∀ w ∈ write.writes, ¬ w.1 <+: path := by
        intro w met above
        have written := mem_writes.mp met
        rw [free w.1 above] at written
        cases written
      rcases patch_of_free free with ⟨gone, place, node, below, holds, present⟩
        | ⟨same, missing⟩
      · have met := mem_writes.mpr holds
        rw [Patch.apply_of_some gone]
        refine Patch.applyAll_of_agree (List.mem_map_of_mem met)
          (KeyTree.writePatch_above below (notAbove _ met) present) ?_ _
        intro P mem
        obtain ⟨w', met', rfl⟩ := List.mem_map.mp mem
        rw [KeyTree.writePatch, if_neg (notAbove w' met')]
        split
        · exact Or.inr rfl
        · exact Or.inl rfl
      · rw [Patch.apply_of_none same]
        refine Patch.applyAll_of_none ?_ _
        intro P mem
        obtain ⟨w, met, rfl⟩ := List.mem_map.mp mem
        rw [KeyTree.writePatch, if_neg (notAbove w met), if_neg]
        rintro ⟨under, present⟩
        exact missing ⟨w.1, w.2, under, mem_writes.mp met, present⟩

/-- A compound write that writes everything leaves nothing of the node. -/
theorem applyToNode_of_complete {node : FNode κ} (complete : write.writeAt [] = some node)
    (old : FNode κ) : (write.applyToNode old).Same node := by
  funext path
  rw [valueAt_applyToNode]
  exact Patch.apply_of_some (patch_of_writeAt complete path) _

/-- An empty one leaves the node as it is. -/
theorem applyToNode_of_isEmpty (nothing : write.isEmpty = true) (node : FNode κ) :
    write.applyToNode node = node := by
  rw [applyToNode, FImmutableTree.eq_empty_of_isEmpty nothing]
  rfl

theorem apply_emptyWrite (values : FPath κ → Option Leaf) :
    (emptyWrite : FCompoundWrite keys).patch.apply values = values := by
  funext path
  refine Patch.apply_of_none ?_ values
  cases path <;> rfl

/-- Two compound writes that write the same do the same. -/
theorem same_applyToNode_of_writeAt (same : write.writeAt = write'.writeAt) (node : FNode κ) :
    (write.applyToNode node).Same (write'.applyToNode node) := by
  have patches : write.patch = write'.patch := by
    funext path
    exact patch_congr fun q _ => congrFun same q
  rw [KeyTree.Same, valueAt_applyToNode, valueAt_applyToNode, patches]

/-! ## Collecting and applying -/

/-- Above a new write there is no value afterwards, whether the tree or the write itself
is asked. -/
theorem apply_addWrite_of_above {path place : FPath κ} (above : path <+: place)
    (strict : ¬ place <+: path) {node : FNode κ}
    (free : ∀ q, q <+: path → write.writeAt q = none)
    (free' : ∀ q, q <+: path → (write.addWrite node place).writeAt q = none)
    (below : node.isEmpty = false → (write.addWrite node place).WritesBelow path)
    {values : FPath κ → Option Leaf} (plain : node.isEmpty = true → values path = none) :
    (write.addWrite node place).patch.apply values path =
      (KeyTree.writePatch place node).apply (write.patch.apply values) path := by
  cases present : node.isEmpty with
  | false =>
      rw [Patch.apply_of_some (patch_of_writesBelow free' (below present)),
        Patch.apply_of_some (KeyTree.writePatch_above above strict present)]
  | true =>
      have bare : ∀ other : FCompoundWrite keys, (∀ q, q <+: path → other.writeAt q = none) →
          other.patch.apply values path = none := by
        intro other unwritten
        rcases patch_of_free unwritten with ⟨gone, -⟩ | ⟨same, -⟩
        · exact Patch.apply_of_some gone values
        · rw [Patch.apply_of_none same, plain present]
      rw [bare _ free', Patch.apply_of_none (by simp [KeyTree.writePatch, strict, present]),
        bare _ free]

/-- No write of these removes something below a value. -/
def Plain (ws : List (FPath κ × FNode κ)) (values : FPath κ → Option Leaf) : Prop :=
  ∀ w ∈ ws, w.2.isEmpty = true → ∀ q, q <+: w.1 → q ≠ w.1 → values q = none

/-- **Collecting a write is making it after the others**, unless it removes something
below a value. -/
theorem apply_addWrite (write : FCompoundWrite keys) (node : FNode κ) (place : FPath κ)
    {values : FPath κ → Option Leaf}
    (plain : node.isEmpty = true → ∀ q, q <+: place → q ≠ place → values q = none) :
    (write.addWrite node place).patch.apply values =
      (KeyTree.writePatch place node).apply (write.patch.apply values) := by
  funext path
  cases complete : write.completeNodeAtPath place with
  | some c =>
      obtain ⟨top, rest, value, rfl, holds, -⟩ := exists_of_completeNodeAtPath complete
      have written := writeAt_addWrite_of_writeAt holds rest node
      by_cases inside : top <+: path
      · obtain ⟨path, rfl⟩ := inside
        have new : (write.addWrite node (top ++ rest)).writeAt top =
            some (keys.updateChild value rest node) := by
          rw [written, if_pos rfl]
        rw [Patch.apply_of_some (patch_of_writeAt new path), KeySet.updateChild,
          KeyTree.valueAt_set, Patch.apply, Patch.apply, KeyTree.writePatch_append,
          Patch.apply_of_some (patch_of_writeAt holds path)]
      · have other : ∀ q, q <+: path → q ≠ top := fun q near same => inside (same ▸ near)
        by_cases above : path <+: top
        · have free : ∀ q, q <+: path → write.writeAt q = none := by
            intro q near
            cases here : write.writeAt q with
            | none => rfl
            | some v =>
                obtain ⟨same, -⟩ := write.leaves.eq_of_prefix (near.trans above)
                  (List.prefix_refl top) here holds
                exact absurd same (other q near)
          refine apply_addWrite_of_above (above.trans (List.prefix_append top rest))
            (fun under => inside ((List.prefix_append top rest).trans under)) free ?_ ?_ ?_
          · intro q near
            rw [written, if_neg (other q near), free q near]
          · intro present
            exact ⟨top, _, above, (written top).trans (if_pos rfl),
              KeyTree.isEmpty_set _ rest value present⟩
          · intro removed
            refine plain removed path (above.trans (List.prefix_append top rest)) ?_
            rintro rfl
            exact inside (List.prefix_append top rest)
        · have elsewhere : (write.addWrite node (top ++ rest)).patch path =
            write.patch path := by
            refine patch_congr ?_
            intro q near
            rw [written, if_neg]
            rintro rfl
            exact near.elim inside above
          have apart : ¬ top ++ rest <+: path := fun under =>
            inside ((List.prefix_append top rest).trans under)
          have apart' : ¬ path <+: top ++ rest := by
            intro under
            rcases List.prefix_or_prefix_of_prefix under
              (List.prefix_append top rest) with h | h
            · exact above h
            · exact inside h
          rw [Patch.apply_of_none
            (KeyTree.writePatch_of_diverge apart apart' node), Patch.apply,
            Patch.apply, elsewhere]
  | none =>
      have free := completeNodeAtPath_eq_none.mp complete
      have written := writeAt_addWrite_of_free free node
      have new : (write.addWrite node place).writeAt place = some node := by
        rw [written, if_pos (List.prefix_refl place), if_pos rfl]
      by_cases under : place <+: path
      · obtain ⟨rest, rfl⟩ := under
        rw [Patch.apply_of_some (patch_of_writeAt new rest),
          Patch.apply_of_some (KeyTree.writePatch_below place rest node)]
      · by_cases above : path <+: place
        · refine apply_addWrite_of_above above under
            (fun q near => free q (near.trans above)) ?_
            (fun present => ⟨place, node, above, new, present⟩) ?_
          · intro q near
            rw [written, if_neg fun h => under (h.trans near), free q (near.trans above)]
          · intro removed
            exact plain removed path above fun same => under (same ▸ List.prefix_refl _)
        · have elsewhere : (write.addWrite node place).patch path = write.patch path := by
            refine patch_congr ?_
            intro q near
            rw [written, if_neg]
            intro h
            rcases near with near | near
            · exact under (h.trans near)
            · rcases List.prefix_or_prefix_of_prefix h near with h | h
              · exact under h
              · exact above h
          rw [Patch.apply_of_none (KeyTree.writePatch_of_diverge under above node), Patch.apply,
            Patch.apply, elsewhere]

/-- Writes that are added have their effect after those that were there. -/
theorem apply_addWrites (write : FCompoundWrite keys) (ws : List (FPath κ × FNode κ))
    {values : FPath κ → Option Leaf} (plain : Plain ws values) :
    (write.addWrites ws).patch.apply values =
      Patch.applyAll (ws.map fun w => KeyTree.writePatch w.1 w.2)
        (write.patch.apply values) := by
  induction ws generalizing write with
  | nil => rfl
  | cons w rest ih =>
      rw [addWrites_cons, ih _ fun w' mem => plain w' (List.mem_cons_of_mem _ mem),
        apply_addWrite write w.2 w.1 (plain w List.mem_cons_self), List.map_cons,
        Patch.applyAll_cons]

/-- **Writes may be collected first and made later.** -/
theorem applyToNode_addWrites (write : FCompoundWrite keys) (ws : List (FPath κ × FNode κ))
    {node : FNode κ} (plain : Plain ws node.valueAt) :
    ((write.addWrites ws).applyToNode node).Same
      (updateChildren keys (write.applyToNode node) ws) := by
  rw [KeyTree.Same, valueAt_applyToNode, apply_addWrites write ws plain, valueAt_updateChildren,
    valueAt_applyToNode]

/-! ## Below a place -/

/-- The values a compound write puts below a place are those it puts there after it was taken to
it. -/
theorem patch_childCompoundWriteAtPath (write : FCompoundWrite keys) (place path : FPath κ) :
    (write.childCompoundWriteAtPath place).patch path = write.patch (place ++ path) := by
  cases complete : write.completeNodeAtPath place with
  | some node =>
      obtain ⟨top, rest, value, rfl, holds, rfl⟩ := exists_of_completeNodeAtPath complete
      have shadowing := patch_of_writeAt (childCompoundWriteAtPath_of_complete complete) path
      rw [List.nil_append] at shadowing
      rw [shadowing, List.append_assoc, patch_of_writeAt holds, FNode.getChild,
        KeyTree.valueAt_get]
  | none =>
      have free := completeNodeAtPath_eq_none.mp complete
      have below := writeAt_childCompoundWriteAtPath complete
      cases complete' : write.completeNodeAtPath (place ++ path) with
      | some node =>
          obtain ⟨top, rest, value, eq, holds, -⟩ := exists_of_completeNodeAtPath complete'
          rcases List.prefix_or_prefix_of_prefix (List.prefix_append top rest)
            (eq ▸ List.prefix_append place path) with above | ⟨inside, rfl⟩
          · rw [free top above] at holds
            cases holds
          · rw [List.append_assoc, List.append_cancel_left_eq] at eq
            subst eq
            have holds' := (below inside).trans holds
            rw [patch_of_writeAt holds', ← List.append_assoc, patch_of_writeAt holds]
      | none =>
          have free' := completeNodeAtPath_eq_none.mp complete'
          refine patch_eq_of_free ?_ free' ?_
          · intro q above
            rw [below]
            exact free' _ (List.prefix_append_right_inj place |>.mpr above)
          · constructor
            · rintro ⟨q, node, under, holds, present⟩
              exact ⟨place ++ q, node, (List.prefix_append_right_inj place).mpr under,
                below q ▸ holds, present⟩
            · rintro ⟨q, node, ⟨rest, rfl⟩, holds, present⟩
              refine ⟨path ++ rest, node, List.prefix_append path rest, ?_, present⟩
              rw [below, ← List.append_assoc]
              exact holds

/-- **The writes below a place are all that is needed to read there.** -/
theorem getChild_applyToNode (write : FCompoundWrite keys) (place : FPath κ) (node : FNode κ) :
    ((write.applyToNode node).getChild place).Same
      ((write.childCompoundWriteAtPath place).applyToNode (node.getChild place)) := by
  funext path
  rw [FNode.getChild, KeyTree.valueAt_get, valueAt_applyToNode,
    valueAt_applyToNode, Patch.apply,
    Patch.apply, patch_childCompoundWriteAtPath, FNode.getChild, KeyTree.valueAt_get]

/-- Two fields are written, then the first is removed. -/
def removalWrites : List (FPath UntiedKey × FNode UntiedKey) :=
  [([.doc1, .x], .leaf (.string "a")), ([.doc1, .y], .leaf (.string "b")),
    ([.doc1, .x], KeyTree.empty)]

end Patch

end FCompoundWrite

end DocumentRelay
