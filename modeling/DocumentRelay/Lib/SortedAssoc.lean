import Mathlib.Data.List.Basic
import Mathlib.Order.Basic

/-!
# Sorted association lists

Entries kept in the order a comparison gives their keys.  The comparison need not
tell all keys apart: keys it calls equal are one key here, and the entry of a key
is replaced together with its key.

* `find_insert`, `find_erase` — what is found after an insertion or a removal;
* `Sorted.insert`, `Sorted.erase` — both keep the order;
* `find_put`, `Sorted.put` — the same for an insertion that keeps an equal key.
-/

universe u v

namespace SortedAssoc

variable {κ : Type u} {β : Type v} (cmp : κ → κ → Ordering)

/-- The entry of a key; in order, so the search stops at the first larger key. -/
def findEntry (k : κ) : List (κ × β) → Option (κ × β)
  | [] => none
  | e :: rest =>
      match cmp k e.1 with
      | .lt => none
      | .eq => some e
      | .gt => findEntry k rest

/-- The value of a key. -/
def find (k : κ) (l : List (κ × β)) : Option β := (findEntry cmp k l).map Prod.snd

/-- Put an entry in its place, over the one of an equal key. -/
def insert (k : κ) (b : β) : List (κ × β) → List (κ × β)
  | [] => [(k, b)]
  | e :: rest =>
      match cmp k e.1 with
      | .lt => (k, b) :: e :: rest
      | .eq => (k, b) :: rest
      | .gt => e :: insert k b rest

/-- The same, but an equal key stays. -/
def put (k : κ) (b : β) : List (κ × β) → List (κ × β)
  | [] => [(k, b)]
  | e :: rest =>
      match cmp k e.1 with
      | .lt => (k, b) :: e :: rest
      | .eq => (e.1, b) :: rest
      | .gt => e :: put k b rest

/-- The entries without that of a key. -/
def erase (k : κ) : List (κ × β) → List (κ × β)
  | [] => []
  | e :: rest =>
      match cmp k e.1 with
      | .lt => e :: rest
      | .eq => rest
      | .gt => e :: erase k rest

/-- The keys grow. -/
def Sorted (l : List (κ × β)) : Prop := l.Pairwise fun e e' => cmp e.1 e'.1 = .lt

variable {cmp}

instance (l : List (κ × β)) :
    Decidable (Sorted cmp l) := inferInstanceAs (Decidable (List.Pairwise _ l))

theorem Sorted.nil : Sorted cmp ([] : List (κ × β)) := List.Pairwise.nil

theorem Sorted.tail {e : κ × β} {l : List (κ × β)}
    (sorted : Sorted cmp (e :: l)) : Sorted cmp l :=
  (List.pairwise_cons.mp sorted).2

theorem mem_of_mem_insert {k : κ} {b : β} {l : List (κ × β)} {e : κ × β}
    (mem : e ∈ insert cmp k b l) : e = (k, b) ∨ e ∈ l := by
  induction l with
  | nil => exact Or.inl (List.mem_singleton.mp mem)
  | cons first rest ih =>
      rw [insert] at mem
      split at mem
      · exact List.mem_cons.mp mem
      · exact (List.mem_cons.mp mem).imp_right (List.mem_cons_of_mem first)
      · rcases List.mem_cons.mp mem with rfl | later
        · exact Or.inr List.mem_cons_self
        · exact (ih later).imp_right (List.mem_cons_of_mem first)

theorem erase_sublist (k : κ) (l : List (κ × β)) : (erase cmp k l).Sublist l := by
  induction l with
  | nil => exact List.Sublist.refl _
  | cons first rest ih =>
      rw [erase]
      split
      · exact List.Sublist.refl _
      · exact List.sublist_cons_self first rest
      · exact ih.cons_cons first

theorem Sorted.erase {l : List (κ × β)} (sorted : Sorted cmp l) (k : κ) :
    Sorted cmp (erase cmp k l) :=
  sorted.sublist (erase_sublist k l)

theorem mem_of_findEntry {k : κ} {l : List (κ × β)} {e : κ × β}
    (found : findEntry cmp k l = some e) : e ∈ l ∧ cmp k e.1 = .eq := by
  induction l with
  | nil => cases found
  | cons first rest ih =>
      rw [findEntry] at found
      split at found
      · cases found
      case h_2 same =>
        obtain rfl := Option.some.inj found
        exact ⟨List.mem_cons_self, same⟩
      · obtain ⟨mem, same⟩ := ih found
        exact ⟨List.mem_cons_of_mem _ mem, same⟩

/-- A key before all others is not found. -/
theorem findEntry_eq_none_of_lt {k : κ} {l : List (κ × β)} (before : ∀ e ∈ l, cmp k e.1 = .lt) :
    findEntry cmp k l = none := by
  cases l with
  | nil => rfl
  | cons first rest => rw [findEntry, before first List.mem_cons_self]

/-! ## In the middle of a list -/

section Append

variable {k : κ} {l : List (κ × β)}

theorem findEntry_append_of_gt (before : ∀ e ∈ l, cmp k e.1 = .gt) (r : List (κ × β)) :
    findEntry cmp k (l ++ r) = findEntry cmp k r := by
  induction l with
  | nil => rfl
  | cons e rest ih =>
      rw [List.cons_append, findEntry, before e List.mem_cons_self]
      exact ih fun e' mem => before e' (List.mem_cons_of_mem _ mem)

theorem findEntry_append_of_lt {e : κ × β} (after : cmp k e.1 = .lt) (l r : List (κ × β)) :
    findEntry cmp k (l ++ e :: r) = findEntry cmp k l := by
  induction l with
  | nil => simp [findEntry, after]
  | cons first rest ih => rw [List.cons_append, findEntry, findEntry, ih]

theorem put_append_of_gt (before : ∀ e ∈ l, cmp k e.1 = .gt) (b : β) (r : List (κ × β)) :
    put cmp k b (l ++ r) = l ++ put cmp k b r := by
  induction l with
  | nil => rfl
  | cons e rest ih =>
      rw [List.cons_append, put, before e List.mem_cons_self, List.cons_append]
      exact congrArg (e :: ·) (ih fun e' mem => before e' (List.mem_cons_of_mem _ mem))

theorem put_append_of_lt {e : κ × β} (after : cmp k e.1 = .lt) (b : β) (l r : List (κ × β)) :
    put cmp k b (l ++ e :: r) = put cmp k b l ++ e :: r := by
  induction l with
  | nil => simp [put, after]
  | cons first rest ih =>
      rw [List.cons_append, put, put, ih]
      cases cmp k first.1 <;> rfl

theorem erase_append_of_gt (before : ∀ e ∈ l, cmp k e.1 = .gt) (r : List (κ × β)) :
    erase cmp k (l ++ r) = l ++ erase cmp k r := by
  induction l with
  | nil => rfl
  | cons e rest ih =>
      rw [List.cons_append, erase, before e List.mem_cons_self, List.cons_append]
      exact congrArg (e :: ·) (ih fun e' mem => before e' (List.mem_cons_of_mem _ mem))

theorem erase_append_of_lt {e : κ × β} (after : cmp k e.1 = .lt) (l r : List (κ × β)) :
    erase cmp k (l ++ e :: r) = erase cmp k l ++ e :: r := by
  induction l with
  | nil => simp [erase, after]
  | cons first rest ih =>
      rw [List.cons_append, erase, erase, ih]
      cases cmp k first.1 <;> rfl

/-- A key that is not found is not there to be erased. -/
theorem erase_of_findEntry (absent : findEntry cmp k l = none) : erase cmp k l = l := by
  induction l with
  | nil => rfl
  | cons e rest ih =>
      rw [findEntry] at absent
      rw [erase]
      cases order : cmp k e.1 with
      | lt => rfl
      | eq => simp [order] at absent
      | gt =>
          simp only [order] at absent
          exact congrArg (e :: ·) (ih absent)

theorem insert_perm_of_findEntry (absent : findEntry cmp k l = none) (b : β) :
    (insert cmp k b l).Perm ((k, b) :: l) := by
  induction l with
  | nil => exact .refl _
  | cons e rest ih =>
      rw [findEntry] at absent
      rw [insert]
      cases order : cmp k e.1 with
      | lt => exact .refl _
      | eq => simp [order] at absent
      | gt =>
          simp only [order] at absent
          exact ((ih absent).cons e).trans (.swap _ _ _)

end Append

variable [Std.TransCmp cmp]

/-- Around the middle of a sorted list. -/
theorem Sorted.around {l r : List (κ × β)} {e : κ × β}
    (sorted : Sorted cmp (l ++ e :: r)) {k : κ} :
    (cmp k e.1 ≠ .lt → ∀ e' ∈ l, cmp k e'.1 = .gt) ∧
      (cmp k e.1 ≠ .gt → ∀ e' ∈ r, cmp k e'.1 = .lt) := by
  obtain ⟨-, later, across⟩ := List.pairwise_append.mp sorted
  constructor
  · intro reached e' mem
    have behind : cmp e'.1 e.1 = .lt := across e' mem e List.mem_cons_self
    cases order : cmp k e.1 with
    | lt => exact absurd order reached
    | eq =>
        have turned : cmp e.1 k = .eq := Std.OrientedCmp.eq_symm order
        exact Std.OrientedCmp.gt_of_lt (Std.TransCmp.lt_of_lt_of_eq behind turned)
    | gt => exact Std.OrientedCmp.gt_of_lt (Std.TransCmp.lt_trans behind
        (Std.OrientedCmp.lt_of_gt order))
  · intro reached e' mem
    have ahead : cmp e.1 e'.1 = .lt := (List.pairwise_cons.mp later).1 e' mem
    cases order : cmp k e.1 with
    | lt => exact Std.TransCmp.lt_trans order ahead
    | eq => exact Std.TransCmp.lt_of_eq_of_lt order ahead
    | gt => exact absurd order reached

theorem Sorted.insert {l : List (κ × β)} (sorted : Sorted cmp l) (k : κ) (b : β) :
    Sorted cmp (insert cmp k b l) := by
  induction l with
  | nil => exact List.pairwise_singleton _ _
  | cons first rest ih =>
      have ahead := (List.pairwise_cons.mp sorted).1
      rw [SortedAssoc.insert]
      split
      case h_1 smaller =>
        refine List.pairwise_cons.mpr ⟨?_, sorted⟩
        intro e mem
        rcases List.mem_cons.mp mem with rfl | later
        · exact smaller
        · exact Std.TransCmp.lt_trans smaller (ahead e later)
      case h_2 same =>
        refine List.pairwise_cons.mpr ⟨?_, sorted.tail⟩
        intro e mem
        exact Std.TransCmp.lt_of_eq_of_lt same (ahead e mem)
      case h_3 larger =>
        refine List.pairwise_cons.mpr ⟨?_, ih sorted.tail⟩
        intro e mem
        rcases mem_of_mem_insert mem with rfl | later
        · exact Std.OrientedCmp.lt_of_gt larger
        · exact ahead e later

/-- Equal keys have the same entry. -/
theorem findEntry_congr {k k' : κ} (same : cmp k k' = .eq) (l : List (κ × β)) :
    findEntry cmp k l = findEntry cmp k' l := by
  induction l with
  | nil => rfl
  | cons first rest ih => rw [findEntry, findEntry, Std.TransCmp.congr_left same, ih]

/-- Every entry of a sorted list is found. -/
theorem findEntry_of_mem {l : List (κ × β)} (sorted : Sorted cmp l) {e : κ × β} (mem : e ∈ l) :
    findEntry cmp e.1 l = some e := by
  induction l with
  | nil => cases mem
  | cons first rest ih =>
      rcases List.mem_cons.mp mem with rfl | later
      · have self : cmp e.1 e.1 = .eq := Std.ReflCmp.compare_self
        rw [findEntry, self]
      · have after := (List.pairwise_cons.mp sorted).1 e later
        rw [findEntry, Std.OrientedCmp.gt_of_lt after]
        exact ih sorted.tail later

/-- **What is found after an insertion.** -/
theorem findEntry_insert {l : List (κ × β)} (sorted : Sorted cmp l) (k k' : κ) (b : β) :
    findEntry cmp k' (insert cmp k b l) =
      if cmp k' k = .eq then some (k, b) else findEntry cmp k' l := by
  induction l with
  | nil =>
      rw [insert]
      cases order : cmp k' k <;> simp [findEntry, order]
  | cons first rest ih =>
      rw [insert]
      split
      case h_1 smaller =>
        cases order : cmp k' k with
        | lt =>
            have before : cmp k' first.1 = .lt := Std.TransCmp.lt_trans order smaller
            simp [findEntry, order, before]
        | eq => simp [findEntry, order]
        | gt => simp [findEntry, order]
      case h_2 same =>
        cases order : cmp k' k with
        | lt =>
            have before : cmp k' first.1 = .lt := Std.TransCmp.lt_of_lt_of_eq order same
            simp [findEntry, order, before]
        | eq => simp [findEntry, order]
        | gt =>
            have after : cmp k' first.1 = .gt := Std.TransCmp.gt_of_gt_of_eq order same
            simp [findEntry, order, after]
      case h_3 larger =>
        rw [findEntry, ih sorted.tail]
        by_cases same : cmp k' k = .eq
        · have after : cmp k' first.1 = .gt := Std.TransCmp.gt_of_eq_of_gt same larger
          rw [if_pos same, if_pos same, after]
        · rw [if_neg same, if_neg same, findEntry]

/-- **What is found after a removal.** -/
theorem findEntry_erase {l : List (κ × β)} (sorted : Sorted cmp l) (k k' : κ) :
    findEntry cmp k' (erase cmp k l) =
      if cmp k' k = .eq then none else findEntry cmp k' l := by
  induction l with
  | nil => simp [erase, findEntry]
  | cons first rest ih =>
      rw [erase]
      split
      case h_1 smaller =>
        by_cases same : cmp k' k = .eq
        · have before : cmp k' first.1 = .lt := Std.TransCmp.lt_of_eq_of_lt same smaller
          rw [if_pos same, findEntry, before]
        · rw [if_neg same]
      case h_2 found =>
        have ahead := (List.pairwise_cons.mp sorted).1
        cases order : cmp k' k with
        | lt =>
            have before : cmp k' first.1 = .lt := Std.TransCmp.lt_of_lt_of_eq order found
            have absent : findEntry cmp k' rest = none := findEntry_eq_none_of_lt fun e mem =>
              Std.TransCmp.lt_trans before (ahead e mem)
            simp [findEntry, before, absent]
        | eq =>
            have equal : cmp k' first.1 = .eq := Std.TransCmp.eq_trans order found
            have absent : findEntry cmp k' rest = none := findEntry_eq_none_of_lt fun e mem =>
              Std.TransCmp.lt_of_eq_of_lt equal (ahead e mem)
            simp [absent]
        | gt =>
            have after : cmp k' first.1 = .gt := Std.TransCmp.gt_of_gt_of_eq order found
            simp [findEntry, after]
      case h_3 larger =>
        rw [findEntry, ih sorted.tail]
        by_cases same : cmp k' k = .eq
        · have after : cmp k' first.1 = .gt := Std.TransCmp.gt_of_eq_of_gt same larger
          rw [if_pos same, if_pos same, after]
        · rw [if_neg same, if_neg same, findEntry]

theorem find_insert {l : List (κ × β)} (sorted : Sorted cmp l) (k k' : κ) (b : β) :
    find cmp k' (insert cmp k b l) = if cmp k' k = .eq then some b else find cmp k' l := by
  rw [find, findEntry_insert sorted, find]
  split <;> rfl

theorem find_erase {l : List (κ × β)} (sorted : Sorted cmp l) (k k' : κ) :
    find cmp k' (erase cmp k l) = if cmp k' k = .eq then none else find cmp k' l := by
  rw [find, findEntry_erase sorted, find]
  split <;> rfl

/-! ## Keeping an equal key -/

omit [Std.TransCmp cmp] in
theorem put_cases (k : κ) (b : β) (l : List (κ × β)) :
    put cmp k b l = insert cmp k b l ∨ (put cmp k b l).map Prod.fst = l.map Prod.fst := by
  induction l with
  | nil => exact Or.inl rfl
  | cons e rest ih =>
      rw [put, insert]
      cases cmp k e.1 with
      | lt => exact Or.inl rfl
      | eq => exact Or.inr rfl
      | gt => exact ih.imp (congrArg (e :: ·)) (congrArg (e.1 :: ·))

theorem Sorted.put {l : List (κ × β)} (sorted : Sorted cmp l) (k : κ) (b : β) :
    Sorted cmp (put cmp k b l) := by
  have cases : SortedAssoc.put cmp k b l = SortedAssoc.insert cmp k b l ∨ _ := put_cases k b l
  rcases cases with same | keys
  · rw [same]
    exact sorted.insert k b
  · have ascending : (l.map Prod.fst).Pairwise fun a b => cmp a b = .lt :=
      List.pairwise_map.mpr sorted
    rw [← keys] at ascending
    exact List.pairwise_map.mp ascending

theorem find_put {l : List (κ × β)} (sorted : Sorted cmp l) (k k' : κ) (b : β) :
    find cmp k' (put cmp k b l) = if cmp k' k = .eq then some b else find cmp k' l := by
  rw [← find_insert sorted]
  clear sorted
  induction l with
  | nil => rfl
  | cons e rest ih =>
      rw [put, insert]
      cases order : cmp k e.1 with
      | lt => rfl
      | eq =>
          have alike : cmp k' k = cmp k' e.1 := Std.TransCmp.congr_right order
          rw [find, find, findEntry, findEntry, alike]
          cases cmp k' e.1 <;> rfl
      | gt =>
          rw [find, find] at ih
          rw [find, find, findEntry, findEntry]
          cases cmp k' e.1 with
          | lt => rfl
          | eq => rfl
          | gt => exact ih

omit [Std.TransCmp cmp] in
theorem put_eq_insert [Std.LawfulEqCmp cmp] (k : κ) (b : β) (l : List (κ × β)) :
    put cmp k b l = insert cmp k b l := by
  induction l with
  | nil => rfl
  | cons e rest ih =>
      rw [put, insert, ih]
      cases order : cmp k e.1 with
      | lt => rfl
      | eq => rw [Std.LawfulEqCmp.eq_of_compare order]
      | gt => rfl

/-! ## Keys that are told apart

With a comparator under which only equal keys are the same, searching by the order is
searching by equality. -/

section Lawful

variable [Std.LawfulEqCmp cmp] [DecidableEq κ] {l : List (κ × β)}

omit [Std.LawfulEqCmp cmp] [DecidableEq κ] in
/-- A key before the first is before all. -/
theorem Sorted.lt_of_lt_head {e : κ × β} (sorted : Sorted cmp (e :: l)) {k : κ}
    (before : cmp k e.1 = .lt) : ∀ e' ∈ e :: l, cmp k e'.1 = .lt := by
  intro e' mem
  rcases List.mem_cons.mp mem with rfl | later
  · exact before
  · exact Std.TransCmp.lt_trans before ((List.pairwise_cons.mp sorted).1 e' later)

omit [Std.TransCmp cmp] [DecidableEq κ] in
theorem ne_of_compare {k k' : κ} {order : Ordering} (compared : cmp k k' = order)
    (apart : order ≠ .eq) : k' ≠ k := by
  rintro rfl
  exact apart (compared.symm.trans Std.ReflCmp.compare_self)

theorem find_eq_lookup (sorted : Sorted cmp l) (k : κ) : find cmp k l = l.lookup k := by
  induction l with
  | nil => rfl
  | cons e rest ih =>
      obtain ⟨k', b⟩ := e
      rw [find, findEntry]
      cases order : cmp k k' with
      | lt =>
          have missing : ((k', b) :: rest).lookup k = none := by
            refine List.lookup_eq_none_iff.mpr ?_
            intro e mem
            have before := sorted.lt_of_lt_head order e mem
            have apart : e.1 ≠ k := ne_of_compare before (by decide)
            simpa using Ne.symm apart
          rw [missing]
          rfl
      | eq =>
          obtain rfl := Std.LawfulEqCmp.eq_of_compare order
          simp
      | gt =>
          have apart : k' ≠ k := ne_of_compare order (by decide)
          rw [List.lookup_cons, beq_eq_false_iff_ne.mpr (Ne.symm apart)]
          exact ih sorted.tail

theorem erase_eq_filter (sorted : Sorted cmp l) (k : κ) :
    erase cmp k l = l.filter fun e => e.1 ≠ k := by
  induction l with
  | nil => rfl
  | cons e rest ih =>
      rw [erase]
      cases order : cmp k e.1 with
      | lt =>
          refine (List.filter_eq_self.mpr ?_).symm
          intro e' mem
          have before := sorted.lt_of_lt_head order e' mem
          exact decide_eq_true (ne_of_compare before (by decide))
      | eq =>
          obtain rfl := Std.LawfulEqCmp.eq_of_compare order
          have others : rest.filter (fun e' => e'.1 ≠ e.1) = rest := by
            refine List.filter_eq_self.mpr ?_
            intro e' mem
            have after := (List.pairwise_cons.mp sorted).1 e' mem
            exact decide_eq_true (ne_of_compare after (by decide))
          rw [List.filter_cons, others]
          simp
      | gt =>
          have apart : e.1 ≠ k := ne_of_compare order (by decide)
          rw [List.filter_cons, if_pos (decide_eq_true apart), ← ih sorted.tail]

end Lawful

/-! ## Sorting -/

/-- Sorting a list with a new entry puts the entry in its place. -/
theorem mergeSort_append_of_findEntry {k : κ} {l : List (κ × β)} (sorted : Sorted cmp l)
    (absent : findEntry cmp k l = none) (b : β) :
    ((l ++ [(k, b)]).mergeSort fun e e' => (cmp e.1 e'.1).isLE) = insert cmp k b l := by
  have sorted' := sorted.insert k b
  have perm : ((l ++ [(k, b)]).mergeSort fun e e' => (cmp e.1 e'.1).isLE).Perm
      (insert cmp k b l) :=
    (List.mergeSort_perm _ _).trans
      ((List.perm_append_singleton _ _).trans (insert_perm_of_findEntry absent b).symm)
  refine List.Perm.eq_of_pairwise ?_ (List.pairwise_mergeSort ?_ ?_ _) (sorted'.imp ?_) perm
  · intro e e' mem mem' before after
    have tied : cmp e.1 e'.1 = .eq := Std.OrientedCmp.isLE_antisymm before after
    have first := findEntry_of_mem sorted' (perm.mem_iff.mp mem)
    rw [findEntry_congr tied, findEntry_of_mem sorted' mem'] at first
    exact (Option.some.inj first).symm
  · intro e e' e'' before after
    exact Std.TransCmp.isLE_trans before after
  · intro e e'
    have turned : cmp e'.1 e.1 = (cmp e.1 e'.1).swap := Std.OrientedCmp.eq_swap
    rw [turned]
    cases cmp e.1 e'.1 <;> rfl
  · intro e e' less
    rw [less]
    rfl

end SortedAssoc
