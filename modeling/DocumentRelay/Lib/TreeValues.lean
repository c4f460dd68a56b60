import DocumentRelay.Lib.KeyTree
import DocumentRelay.Lib.Patch

/-!
# The values of a tree

What a `KeyTree` holds, place by place: `valueAt` gives the value at a path, if
there is one.  Two trees with the same values are `Same`; the order in which names
are kept, and subtrees that hold nothing, do not count.

Seen so, writing is overwriting (`valueAt_set`): a write is the patch that has the
values of the written tree below the place, no value above it, unless it removes,
and leaves the rest alone.  All that is known about patches is then known about
writes.
-/

universe u v

namespace KeyTree

variable {κ : Type u} {ν : Type v}

/-- The value a tree is, if it is one. -/
def leafValue : KeyTree κ ν → Option ν
  | .leaf value => some value
  | .node _ => none

@[simp] theorem leafValue_empty : (empty : KeyTree κ ν).leafValue = none := rfl

variable [DecidableEq κ]

/-- The value at a path. -/
def valueAt (t : KeyTree κ ν) (path : List κ) : Option ν := (get path t).leafValue

@[simp] theorem valueAt_nil (t : KeyTree κ ν) : t.valueAt [] = t.leafValue := rfl

@[simp] theorem valueAt_cons (t : KeyTree κ ν) (k : κ) (path : List κ) :
    t.valueAt (k :: path) = (t.child k).valueAt path := rfl

theorem get_append (t : KeyTree κ ν) (path rest : List κ) :
    get (path ++ rest) t = get rest (get path t) := by
  induction path generalizing t with
  | nil => rfl
  | cons k path ih => exact ih (t.child k)

@[simp] theorem get_empty (path : List κ) : get path (empty : KeyTree κ ν) = empty := by
  induction path with
  | nil => rfl
  | cons k path ih => exact ih

/-- The values below a place are those of the subtree there. -/
theorem valueAt_get (t : KeyTree κ ν) (path rest : List κ) :
    (get path t).valueAt rest = t.valueAt (path ++ rest) := by
  rw [valueAt, valueAt, get_append]

@[simp] theorem valueAt_empty (path : List κ) : (empty : KeyTree κ ν).valueAt path = none := by
  rw [valueAt, get_empty, leafValue_empty]

/-- **The same values at every place.** -/
def Same (t t' : KeyTree κ ν) : Prop := t.valueAt = t'.valueAt

theorem Same.get {t t' : KeyTree κ ν} (same : Same t t') (path : List κ) :
    Same (get path t) (get path t') := by
  funext rest
  rw [valueAt_get, valueAt_get, congrFun same]

/-! ## Writes as patches -/

/-- The places a write of `c` at `place` overwrites: all below it, and all above it
unless nothing is written. -/
def writePatch (place : List κ) (c : KeyTree κ ν) : Patch (List κ) (Option ν) := fun path =>
  if place <+: path then some (c.valueAt (path.drop place.length))
  else if path <+: place ∧ c.isEmpty = false then some none
  else none

/-- A write below a place, seen from there. -/
theorem writePatch_append (place rest path : List κ) (c : KeyTree κ ν) :
    writePatch (place ++ rest) c (place ++ path) = writePatch rest c path := by
  simp [writePatch]

theorem restrict_writePatch_append (place rest : List κ) (c : KeyTree κ ν) :
    (writePatch (place ++ rest) c).restrict (place ++ ·) = writePatch rest c := by
  funext path
  exact writePatch_append place rest path c

theorem writePatch_below (place rest : List κ) (c : KeyTree κ ν) :
    writePatch place c (place ++ rest) = some (c.valueAt rest) := by
  simp [writePatch]

theorem writePatch_above {place path : List κ} (above : path <+: place)
    (strict : ¬ place <+: path) {c : KeyTree κ ν} (present : c.isEmpty = false) :
    writePatch place c path = some none := by
  simp [writePatch, above, strict, present]

theorem writePatch_of_diverge {place path : List κ} (apart : ¬ place <+: path)
    (apart' : ¬ path <+: place) (c : KeyTree κ ν) : writePatch place c path = none := by
  simp [writePatch, apart, apart']

/-- Where the paths part, a write does nothing. -/
theorem Diverge.writePatch_append {place path : List κ} (parted : Diverge place path)
    (rest : List κ) (c : KeyTree κ ν) : writePatch path c (place ++ rest) = none := by
  obtain ⟨common, k, k', p, q, ne, rfl, rfl⟩ := parted
  refine writePatch_of_diverge ?_ ?_ c
  · rw [List.append_assoc, List.prefix_append_right_inj, List.cons_append,
      List.cons_prefix_cons]
    exact fun same => ne same.1.symm
  · rw [List.append_assoc, List.prefix_append_right_inj, List.cons_append,
      List.cons_prefix_cons]
    exact fun same => ne same.1

/-- Removing what is not there. -/
theorem set_empty_empty (before : κ → κ → Bool) (path : List κ) :
    set before path (empty : KeyTree κ ν) empty = empty := by
  induction path with
  | nil => rfl
  | cons k path ih =>
      rw [set_cons, child_empty, ih]
      rfl

/-- The value right above a write. -/
theorem leafValue_set_cons (before : κ → κ → Bool) (k : κ) (path : List κ) (t c : KeyTree κ ν) :
    (set before (k :: path) t c).leafValue = if c.isEmpty =
      false then none else t.leafValue := by
  rw [set_cons]
  cases t with
  | node entries =>
      rw [setChild]
      split <;> simp [leafValue]
  | leaf value =>
      have absent : (leaf value : KeyTree κ ν).child k = empty := rfl
      rw [setChild, absent]
      cases present : c.isEmpty with
      | true =>
          rw [eq_empty_of_isEmpty present, set_empty_empty]
          simp
      | false =>
          rw [if_neg (by simp [isEmpty_set before path _ present])]
          rfl

/-- **A write is a patch.** -/
theorem valueAt_set (before : κ → κ → Bool) (place : List κ) (t c : KeyTree κ ν) :
    (set before place t c).valueAt = (writePatch place c).apply t.valueAt := by
  funext path
  induction place generalizing t path with
  | nil => simp [writePatch, Patch.apply]
  | cons k place ih =>
      cases path with
      | nil =>
          rw [valueAt_nil, leafValue_set_cons]
          cases present : c.isEmpty <;> simp [writePatch, Patch.apply, present]
      | cons k' path =>
          by_cases same : k' = k
          · subst same
            rw [valueAt_cons, set_cons, child_setChild_self, ih]
            simp [writePatch, Patch.apply]
          · rw [valueAt_cons, set_cons, child_setChild_of_ne before same]
            simp [writePatch, Patch.apply, same, Ne.symm same]

/-- Writing keeps trees the same. -/
theorem Same.set {t t' : KeyTree κ ν} (same : Same t t') (before : κ → κ → Bool)
    (place : List κ)
    (c : KeyTree κ ν) : Same (set before place t c) (KeyTree.set before place t' c) := by
  rw [Same, valueAt_set, valueAt_set, same]

end KeyTree
