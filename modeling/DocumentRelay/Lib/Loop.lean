import Mathlib.Data.List.Induction
import Mathlib.Data.List.OfFn

/-!
# Loops over indices

A loop `for i in 0..<n` whose passes may fail.  Where the state before every pass is
known ahead, as a function of the index, one pass at a time is all there is to
prove:

* `foldlM_range` — if each pass leads from one state to the next, the loop leads from
  the first to the last;
* `foldlM_range_error` — if some pass fails, the loop fails with it;
* `foldlM_zipIdx` — the same rule for a loop over a list with its indices.

`exists_foldlM` is the rule for a loop over a list that keeps a relation to one beside it.
`mapM_range_getElem?` is the loop that reads a list through its indices, and `upTo`
the state of a loop that writes one.
-/

universe u v w

namespace IndexLoop

section Rule

variable {m : Type u → Type v} [Monad m] [LawfulMonad m] {σ : Type u} {α : Type w}

/-- **The rule for loops over `0..<n`.** -/
theorem foldlM_range {f : σ → ℕ → m σ} (state : ℕ → σ) {n : ℕ}
    (pass : ∀ k < n, f (state k) k = pure (state (k + 1))) :
    (List.range n).foldlM f (state 0) = pure (state n) := by
  induction n with
  | zero => rfl
  | succ n ih =>
      have before := ih fun k lt => pass k (Nat.lt_succ_of_lt lt)
      have last := pass n (Nat.lt_succ_self n)
      rw [List.range_succ, List.foldlM_append, before, pure_bind, List.foldlM_cons,
        last, pure_bind]
      rfl

/-- The rule for loops over a list with its indices. -/
theorem foldlM_zipIdx {f : σ → α × ℕ → m σ} (state : ℕ → σ) {l : List α}
    (pass : ∀ k (inside : k < l.length), f (state k) (l[k], k) = pure (state (k + 1))) :
    l.zipIdx.foldlM f (state 0) = pure (state l.length) := by
  induction l using List.reverseRecOn with
  | nil => rfl
  | append_singleton l a ih =>
      have before : l.zipIdx.foldlM f (state 0) = pure (state l.length) := by
        refine ih ?_
        intro k inside
        have here := pass k (by simp; omega)
        rwa [List.getElem_append_left inside] at here
      have last := pass l.length (by simp)
      rw [List.getElem_concat_length rfl] at last
      rw [List.zipIdx_append, List.foldlM_append, before, pure_bind, Nat.zero_add,
        List.zipIdx_singleton, List.foldlM_cons, last, pure_bind, List.length_append]
      rfl

end Rule

/-- A pass that fails ends the loop. -/
theorem foldlM_range_error {ε σ : Type u} {f : σ → ℕ → Except ε σ} (state : ℕ → σ) {n k : ℕ}
    {error : ε} (inside : k < n) (pass : ∀ i < k, f (state i) i = .ok (state (i + 1)))
    (fails : f (state k) k = .error error) :
    (List.range n).foldlM f (state 0) = .error error := by
  obtain ⟨more, rfl⟩ := Nat.exists_eq_add_of_lt inside
  have before : (List.range k).foldlM f (state 0) = .ok (state k) := foldlM_range state pass
  rw [Nat.add_assoc, List.range_add, List.range_succ_eq_map, List.map_cons, List.foldlM_append,
    before]
  simp only [bind, Except.bind, List.foldlM_cons, Nat.add_zero, fails]

/-- Reading the indices from some place on reads what stands there. -/
theorem mapM_range'_getElem? {α : Type u} (front back : List α) :
    ((List.range' front.length back.length).mapM fun i => (front ++ back)[i]?) = some back := by
  induction back generalizing front with
  | nil => simp
  | cons a back ih =>
      have tail := ih (front ++ [a])
      rw [List.length_append, List.length_singleton, List.append_assoc,
        List.singleton_append] at tail
      rw [List.length_cons, List.range'_succ, List.mapM_cons, tail]
      simp

/-- **Reading every index of a list reads the list.** -/
theorem mapM_range_getElem? {α : Type u} (l : List α) :
    ((List.range l.length).mapM fun i => l[i]?) = some l := by
  rw [List.range_eq_range']
  exact mapM_range'_getElem? [] l

section Write

variable {α : Type u} {n : ℕ}

/-- One element of a list of known length is replaced. -/
theorem set_ofFn (values : Fin n → α) (i : Fin n) (value : α) :
    (List.ofFn values).set i value = List.ofFn (Function.update values i value) := by
  refine List.ext_getElem (by simp) ?_
  intro j _ _
  simp only [List.getElem_set, List.getElem_ofFn, Function.update_apply, Fin.ext_iff]
  by_cases same : i.val = j
  · rw [if_pos same, if_pos same.symm]
  · rw [if_neg same, if_neg (Ne.symm same)]

/-- The new values below an index, the old ones from it on. -/
def upTo (new old : Fin n → α) (k : ℕ) : Fin n → α :=
  fun i => if i.val < k then new i else old i

@[simp] theorem upTo_zero (new old : Fin n → α) : upTo new old 0 = old := by
  funext i
  simp [upTo]

@[simp] theorem upTo_length (new old : Fin n → α) : upTo new old n = new := by
  funext i
  simp [upTo]

@[simp] theorem upTo_self (new old : Fin n → α) (k : Fin n) : upTo new old k k = old k := by
  simp [upTo]

/-- **Writing at the index moves it on.** -/
theorem update_upTo (new old : Fin n → α) (k : Fin n) :
    Function.update (upTo new old k) k (new k) = upTo new old (k + 1) := by
  funext i
  rcases lt_trichotomy i k with below | rfl | above
  · have le : i.val < k.val + 1 := Nat.lt_succ_of_lt below
    simp [upTo, below.ne, Fin.lt_def.mp below, le]
  · simp [upTo]
  · have after : ¬ i.val < k.val + 1 := by
      have lt := Fin.lt_def.mp above
      omega
    simp [upTo, above.ne', above.not_gt, after]

end Write

/-! ## Beside a loop that cannot fail -/

/-- **A loop that follows one that cannot fail.**  If every pass succeeds and stays related to
the pass beside it, so does the loop. -/
theorem exists_foldlM {σ : Type u} {τ : Type v} {α : Type w} {f : σ → α → Option σ}
    {g : τ → α → τ} {R : σ → τ → Prop}
    (pass : ∀ s t a, R s t → ∃ s', f s a = some s' ∧ R s' (g t a)) (l : List α) {s : σ} {t : τ}
    (start : R s t) : ∃ s', l.foldlM f s = some s' ∧ R s' (l.foldl g t) := by
  induction l generalizing s t with
  | nil => exact ⟨s, rfl, start⟩
  | cons a rest ih =>
      obtain ⟨next, eq, related⟩ := pass s t a start
      obtain ⟨last, eq', related'⟩ := ih related
      refine ⟨last, ?_, related'⟩
      rw [List.foldlM_cons, eq]
      exact eq'

end IndexLoop
