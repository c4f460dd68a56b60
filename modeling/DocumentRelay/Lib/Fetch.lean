import Mathlib.Data.List.Nodup
import Mathlib.Data.List.Perm.Basic
import Mathlib.Order.Lattice

/-!
# Results of a sorted fetch

A store of rows has no order of its own.  A fetch with one ascending sort
descriptor answers with *some* arrangement of all rows in which the sorted
attribute never decreases; rows that agree on the attribute may come in any
order, and a missing attribute sorts first.  `Fetch key rows fetched` is that
relation.  It is what a program may assume of a query result, and no more.
-/

universe u v w

variable {α : Type u} {β : Type v}

/-- `a` may stand before `b` under an ascending sort descriptor on `key`; a
missing attribute sorts first. -/
def ascending [LE β] (key : α → Option β) (a b : α) : Prop :=
  match key a, key b with
  | none, _ => True
  | some _, none => False
  | some x, some y => x ≤ y

/-- `fetched` is an answer to a fetch of `rows` sorted by `key`. -/
structure Fetch [LE β] (key : α → Option β) (rows fetched : List α) : Prop where
  perm : fetched.Perm rows
  sorted : fetched.Pairwise (ascending key)

instance [LE β] [DecidableRel (α := β) (· ≤ ·)] (key : α → Option β) (a b : α) :
    Decidable (ascending key a b) :=
  match ha : key a, hb : key b with
  | none, _ => isTrue (by simp [ascending, ha])
  | some _, none => isFalse (by simp [ascending, ha, hb])
  | some x, some y => decidable_of_iff (x ≤ y) (by simp [ascending, ha, hb])

namespace Fetch

section LE

variable [LE β] {key : α → Option β} {rows rows' fetched : List α}

theorem of_perm (fetch : Fetch key rows fetched) (same : rows.Perm rows') :
    Fetch key rows' fetched :=
  ⟨fetch.perm.trans same, fetch.sorted⟩

theorem mem_iff (fetch : Fetch key rows fetched) {row : α} : row ∈ fetched ↔ row ∈ rows :=
  fetch.perm.mem_iff

/-- Dropping rows from an answer leaves an answer to the fetch of the rest. -/
theorem filter (fetch : Fetch key rows fetched) (p : α → Bool) :
    Fetch key (rows.filter p) (fetched.filter p) :=
  ⟨fetch.perm.filter p, fetch.sorted.sublist List.filter_sublist⟩

end LE

/-- Rows that are encodings, in some order, are the encodings of the same things in
some order. -/
theorem exists_arrangement {f : α → β} {rows : List β} {l : List α}
    (perm : rows.Perm (l.map f)) :
    ∃ arranged : List α, arranged.Perm l ∧ rows = arranged.map f := by
  have inverted : Relation.Comp (· = List.map f ·) List.Perm rows l := by
    rw [List.eq_map_comp_perm]
    exact perm
  obtain ⟨arranged, eq, same⟩ := inverted
  exact ⟨arranged, same, eq⟩

section Delete

variable [DecidableEq α]

/-- Erasing the first part of an arrangement leaves the second. -/
theorem foldl_erase_perm {rows gone rest : List α} (split : rows.Perm (gone ++ rest)) :
    (gone.foldl List.erase rows).Perm rest := by
  induction gone generalizing rows with
  | nil => simpa using split
  | cons row gone ih =>
      refine ih ?_
      simpa using split.erase row

/-- **Deleting the fetched rows that pass a test leaves the rows that fail it.** -/
theorem foldl_erase_filter [LE β] {key : α → Option β} {rows fetched : List α}
    (fetch : Fetch key rows fetched) (p : α → Bool) :
    ((fetched.filter p).foldl List.erase rows).Perm (rows.filter fun row => !p row) := by
  refine foldl_erase_perm ?_
  have parts : (fetched.filter p ++ fetched.filter fun row => !p row).Perm fetched :=
    List.filter_append_perm p fetched
  exact (fetch.perm.symm.trans parts.symm).trans
    (List.Perm.append_left _ (fetch.perm.filter _))

theorem foldl_erase_sublist (gone rows : List α) :
    (gone.foldl List.erase rows).Sublist rows := by
  induction gone generalizing rows with
  | nil => exact List.Sublist.refl _
  | cons row gone ih => exact (ih (rows.erase row)).trans List.erase_sublist

/-- Where no two rows share the key, erasing the row a search found drops all rows
with its key. -/
theorem erase_eq_filter_of_nodup {γ : Type w} [DecidableEq γ] {key : α → γ}
    {rows : List α} (nodup : (rows.map key).Nodup) {row : α} (mem : row ∈ rows) :
    rows.erase row = rows.filter fun other => key other ≠ key row := by
  have rowsNodup : rows.Nodup := List.Nodup.of_map key nodup
  rw [rowsNodup.erase_eq_filter]
  refine List.filter_congr ?_
  intro other otherMem
  have inj := List.inj_on_of_nodup_map nodup otherMem mem
  simp only [ne_eq, decide_not]
  by_cases same : key other = key row
  · simp [inj same]
  · have differ : other ≠ row := fun eq => same (congrArg key eq)
    simp [same, differ]

end Delete

section Group

variable {κ : Type w} [DecidableEq κ]

/-- **Rows grouped by distinct keys**: together the groups hold each row whose key is
among the keys, once. -/
theorem flatMap_filter_perm {keys : List κ} (distinct : keys.Nodup) (key : α → κ)
    (rows : List α) :
    (keys.flatMap fun k => rows.filter fun row => key row = k).Perm
      (rows.filter fun row => key row ∈ keys) := by
  induction keys with
  | nil => simp
  | cons k keys ih =>
      obtain ⟨new, distinct⟩ := List.nodup_cons.mp distinct
      -- The rows of the listed keys, split into those of `k` and the others.
      have parts := List.filter_append_perm (fun row => decide (key row = k))
        (rows.filter fun row => key row ∈ k :: keys)
      rw [List.filter_filter, List.filter_filter] at parts
      have first :
          (rows.filter fun row => decide (key row = k) && decide (key row ∈ k :: keys)) =
          rows.filter fun row => key row = k := by
        refine List.filter_congr ?_
        intro row _
        by_cases same : key row = k <;> simp [same]
      have second : (rows.filter fun row => !decide (key row = k) &&
          decide (key row ∈ k :: keys)) = rows.filter fun row => key row ∈ keys := by
        refine List.filter_congr ?_
        intro row _
        by_cases same : key row = k
        · simp [same, new]
        · simp [same]
      rw [first, second] at parts
      rw [List.flatMap_cons]
      exact (List.Perm.append_left _ (ih distinct)).trans parts

end Group

section LinearOrder

variable [LinearOrder β] (key : α → Option β)

theorem ascending_total (a b : α) : ascending key a b ∨ ascending key b a := by
  unfold ascending
  cases key a <;> cases key b <;> simp [le_total]

theorem ascending_trans {a b c : α} (ab : ascending key a b) (bc : ascending key b c) :
    ascending key a c := by
  unfold ascending at *
  revert ab bc
  cases key a <;> cases key b <;> cases key c <;> simp
  exact le_trans

/-- Every fetch has an answer. -/
theorem exists_fetch (rows : List α) : ∃ fetched, Fetch key rows fetched := by
  refine ⟨rows.mergeSort fun a b => decide (ascending key a b), List.mergeSort_perm _ _, ?_⟩
  have trans : ∀ a b c :
      α, decide (ascending key a b) = true → decide (ascending key b c) = true →
      decide (ascending key a c) = true := by
    intro a b c ab bc
    simp only [decide_eq_true_eq] at ab bc ⊢
    exact ascending_trans key ab bc
  have total : ∀ a b : α, (decide (ascending key a b) || decide (ascending key b a)) = true :=
    fun a b => by simpa using ascending_total key a b
  exact (List.pairwise_mergeSort trans total rows).imp fun h => by simpa using h

end LinearOrder

end Fetch
