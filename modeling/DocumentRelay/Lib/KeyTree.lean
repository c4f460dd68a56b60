import Mathlib.Data.List.Basic
import Mathlib.Data.List.Perm.Basic

/-!
# Trees addressed by key paths

The hierarchical key/value tree of a realtime database: a tree is a value, or a
list of named subtrees, and the tree with no subtrees is the *absent* one.
Writing at a path replaces everything below it and creates what is missing
above it; writing the absent tree removes the name.  The named subtrees are kept
in the order of a comparison `before`.  What is read or written at a path does not
depend on it; the order in which the names are met does (`Sorted`).

The two facts every client of the tree uses are the read-over-write laws:

* `get_set_append` — reading above (or at) a write sees that write, relative to
  the place read;
* `get_set_of_diverge` — reading where the path parts from the written one sees
  nothing of it.
-/

universe u v

/-- A tree of values with named subtrees. -/
inductive KeyTree (κ : Type u) (ν : Type v) where
  | leaf (value : ν)
  | node (entries : List (κ × KeyTree κ ν))

namespace KeyTree

variable {κ : Type u} {ν : Type v}

/-- The absent tree. -/
def empty : KeyTree κ ν := .node []

/-- Is this the absent tree? -/
def isEmpty : KeyTree κ ν → Bool
  | .node [] => true
  | _ => false

/-- The named subtrees; a value has none. -/
def entries : KeyTree κ ν → List (κ × KeyTree κ ν)
  | .leaf _ => []
  | .node es => es

@[simp] theorem entries_node (es : List (κ × KeyTree κ ν)) : (node es).entries = es := rfl

@[simp] theorem entries_empty : (empty : KeyTree κ ν).entries = [] := rfl

theorem eq_empty_of_isEmpty {t : KeyTree κ ν} (h : t.isEmpty = true) : t = empty := by
  match t with
  | .node [] => rfl

@[simp] theorem isEmpty_empty : (empty : KeyTree κ ν).isEmpty = true := rfl

@[simp] theorem isEmpty_leaf (value : ν) : (leaf value : KeyTree κ ν).isEmpty = false := rfl

@[simp] theorem leaf_ne_empty (value : ν) : (leaf value : KeyTree κ ν) ≠ empty := by
  simp [empty]

variable [DecidableEq κ]

/-- The subtree named `k`, absent if there is none. -/
def child (k : κ) (t : KeyTree κ ν) : KeyTree κ ν := (t.entries.lookup k).getD empty

/-- The subtree at a path. -/
def get : List κ → KeyTree κ ν → KeyTree κ ν
  | [], t => t
  | k :: path, t => get path (t.child k)

/-- The entries without those named `k`. -/
def dropKey (k : κ) (es : List (κ × KeyTree κ ν)) : List (κ × KeyTree κ ν) :=
  es.filter fun e => e.1 ≠ k

/-- Put an entry before the first one that `before` sorts after it. -/
def insertEntry (before : κ → κ → Bool) (k : κ) (c : KeyTree κ ν) :
    List (κ × KeyTree κ ν) → List (κ × KeyTree κ ν)
  | [] => [(k, c)]
  | e :: rest => if before k e.1 then (k, c) :: e :: rest else e :: insertEntry before k c rest

/-- Replace the subtree named `k` by `c`.  The absent tree removes the name, and
a value gives way to subtrees only when there is one. -/
def setChild (before : κ → κ → Bool) (k : κ) : KeyTree κ ν → KeyTree κ ν → KeyTree κ ν
  | .leaf value, c => if c.isEmpty then .leaf value else .node [(k, c)]
  | .node es, c =>
      if c.isEmpty then .node (dropKey k es)
      else .node (insertEntry before k c (dropKey k es))

/-- Replace the subtree at a path by `c`. -/
def set (before : κ → κ → Bool) : List κ → KeyTree κ ν → KeyTree κ ν → KeyTree κ ν
  | [], _, c => c
  | k :: path, t, c => t.setChild before k (set before path (t.child k) c)

/-! ## Entries -/

omit [DecidableEq κ] in
theorem insertEntry_perm (before : κ → κ → Bool) (k : κ) (c : KeyTree κ ν)
    (es : List (κ × KeyTree κ ν)) : (insertEntry before k c es).Perm ((k, c) :: es) := by
  induction es with
  | nil => exact List.Perm.refl _
  | cons e rest ih =>
      unfold insertEntry
      split
      · exact List.Perm.refl _
      · exact (List.Perm.cons e ih).trans (List.Perm.swap (k, c) e rest)

theorem lookup_cons_of_ne {k : κ} {e : κ × KeyTree κ ν} (ne : e.1 ≠ k)
    (es : List (κ × KeyTree κ ν)) : (e :: es).lookup k = es.lookup k := by
  obtain ⟨name, value⟩ := e
  rw [List.lookup_cons, beq_eq_false_iff_ne.mpr (Ne.symm ne)]

theorem lookup_insertEntry_self (before : κ → κ → Bool) (k : κ) (c : KeyTree κ ν)
    {es : List (κ × KeyTree κ ν)} (absent : ∀ e ∈ es, e.1 ≠ k) :
    (insertEntry before k c es).lookup k = some c := by
  induction es with
  | nil => simp [insertEntry]
  | cons e rest ih =>
      unfold insertEntry
      split
      · simp
      · rw [lookup_cons_of_ne (absent e List.mem_cons_self)]
        exact ih fun e' mem => absent e' (List.mem_cons_of_mem _ mem)

theorem lookup_insertEntry_of_ne (before : κ → κ → Bool) {k k' : κ} (ne : k' ≠ k)
    (c : KeyTree κ ν) (es : List (κ × KeyTree κ ν)) :
    (insertEntry before k c es).lookup k' = es.lookup k' := by
  induction es with
  | nil => exact lookup_cons_of_ne (Ne.symm ne) []
  | cons e rest ih =>
      unfold insertEntry
      split
      · exact lookup_cons_of_ne (Ne.symm ne) (e :: rest)
      · obtain ⟨name, value⟩ := e
        rw [List.lookup_cons, List.lookup_cons, ih]

theorem ne_of_mem_dropKey {k : κ} {es : List (κ × KeyTree κ ν)} {e : κ × KeyTree κ ν}
    (mem : e ∈ dropKey k es) : e.1 ≠ k := by
  simpa using (List.mem_filter.mp mem).2

theorem dropKey_of_absent {k : κ} {es : List (κ × KeyTree κ ν)}
    (absent : ∀ e ∈ es, e.1 ≠ k) : dropKey k es = es :=
  List.filter_eq_self.mpr fun e mem => by simpa using absent e mem

theorem dropKey_cons_self {k : κ} {e : κ × KeyTree κ ν} (same : e.1 = k)
    (es : List (κ × KeyTree κ ν)) : dropKey k (e :: es) = dropKey k es := by
  simp [dropKey, same]

theorem dropKey_cons_of_ne {k : κ} {e : κ × KeyTree κ ν} (ne : e.1 ≠ k)
    (es : List (κ × KeyTree κ ν)) : dropKey k (e :: es) = e :: dropKey k es := by
  simp [dropKey, ne]

theorem lookup_dropKey_self (k : κ) (es : List (κ × KeyTree κ ν)) :
    (dropKey k es).lookup k = none := by
  induction es with
  | nil => rfl
  | cons e rest ih =>
      by_cases same : e.1 = k
      · rw [dropKey_cons_self same, ih]
      · rw [dropKey_cons_of_ne same, lookup_cons_of_ne same, ih]

theorem lookup_dropKey_of_ne {k k' : κ} (ne : k' ≠ k) (es : List (κ × KeyTree κ ν)) :
    (dropKey k es).lookup k' = es.lookup k' := by
  induction es with
  | nil => rfl
  | cons e rest ih =>
      by_cases same : e.1 = k
      · rw [dropKey_cons_self same, ih, lookup_cons_of_ne (same.trans_ne (Ne.symm ne))]
      · obtain ⟨name, value⟩ := e
        rw [dropKey_cons_of_ne same, List.lookup_cons, List.lookup_cons, ih]

/-! ## Reading over writing -/

@[simp] theorem child_empty (k : κ) : (empty : KeyTree κ ν).child k = empty := rfl

@[simp] theorem get_nil (t : KeyTree κ ν) : get [] t = t := rfl

@[simp] theorem get_cons (k : κ) (path : List κ) (t : KeyTree κ ν) :
    get (k :: path) t = get path (t.child k) := rfl

@[simp] theorem set_nil (before : κ → κ → Bool) (t c : KeyTree κ ν) :
    set before [] t c = c := rfl

@[simp] theorem set_cons (before : κ → κ → Bool) (k : κ) (path : List κ) (t c : KeyTree κ ν) :
    set before (k :: path) t c = t.setChild before k (set before path (t.child k) c) := rfl

@[simp] theorem child_setChild_self (before : κ → κ → Bool) (k : κ) (t c : KeyTree κ ν) :
    (t.setChild before k c).child k = c := by
  by_cases gone : c.isEmpty = true
  · rw [eq_empty_of_isEmpty gone]
    cases t with
    | leaf value => rfl
    | node es => simp [setChild, child, lookup_dropKey_self]
  · cases t with
    | leaf value => simp [setChild, gone, child]
    | node es =>
        simp [setChild, gone, child,
          lookup_insertEntry_self before k c fun e => ne_of_mem_dropKey]

theorem child_setChild_of_ne (before : κ → κ → Bool) {k k' : κ} (ne : k' ≠ k)
    (t c : KeyTree κ ν) : (t.setChild before k c).child k' = t.child k' := by
  by_cases gone : c.isEmpty = true
  · cases t with
    | leaf value => simp [setChild, gone]
    | node es => simp [setChild, gone, child, lookup_dropKey_of_ne ne]
  · cases t with
    | leaf value =>
        simp [setChild, gone, child, lookup_cons_of_ne (e := (k, c)) (Ne.symm ne), entries]
    | node es =>
        simp [setChild, gone, child, lookup_insertEntry_of_ne before ne,
          lookup_dropKey_of_ne ne]

/-- Reading at or above a written place sees the write, relative to the place
read. -/
theorem get_set_append (before : κ → κ → Bool) (path rest : List κ) (t c : KeyTree κ ν) :
    get path (set before (path ++ rest) t c) = set before rest (get path t) c := by
  induction path generalizing t with
  | nil => rfl
  | cons k path ih => simpa using ih (t.child k)

/-- Two paths part ways: after a common beginning they take different names. -/
def Diverge (p q : List κ) : Prop :=
  ∃ common k k' p' q', k ≠ k' ∧ p = common ++ k :: p' ∧ q = common ++ k' :: q'

/-- Reading where the path parts from the written one sees nothing of the
write. -/
theorem get_set_of_diverge (before : κ → κ → Bool) {p q : List κ} (parted : Diverge p q)
    (t c : KeyTree κ ν) : get p (set before q t c) = get p t := by
  obtain ⟨common, k, k', p', q', ne, rfl, rfl⟩ := parted
  -- Along the common beginning both paths descend into the same subtree.
  induction common generalizing t with
  | nil => simp [child_setChild_of_ne before ne]
  | cons step common ih => simpa using ih (t.child step)

/-- Writing a present tree at a name leaves it next to all the others. -/
theorem entries_setChild_perm (before : κ → κ → Bool) (k : κ) (t : KeyTree κ ν)
    {c : KeyTree κ ν} (present : c.isEmpty = false) :
    (t.setChild before k c).entries.Perm ((k, c) :: dropKey k t.entries) := by
  cases t with
  | leaf value => simp [setChild, present, entries, dropKey]
  | node es => simpa [setChild, present] using insertEntry_perm before k c (dropKey k es)

theorem isEmpty_setChild (before : κ → κ → Bool) (k : κ) (t : KeyTree κ ν) {c : KeyTree κ ν}
    (present : c.isEmpty = false) : (t.setChild before k c).isEmpty = false := by
  cases written : t.setChild before k c with
  | leaf value => rfl
  | node es =>
      cases es with
      | nil =>
          have none := entries_setChild_perm before k t present
          rw [written] at none
          exact absurd none.length_eq (by simp)
      | cons e rest => rfl

/-- Where a present tree was written, the whole is present. -/
theorem isEmpty_set (before : κ → κ → Bool) (path : List κ) (t : KeyTree κ ν) {c : KeyTree κ ν}
    (present : c.isEmpty = false) : (set before path t c).isEmpty = false := by
  induction path generalizing t with
  | nil => exact present
  | cons k path ih => exact isEmpty_setChild before k t (ih _)

theorem child_eq_empty_of_absent {k : κ} {t : KeyTree κ ν} (absent : ∀ e ∈ t.entries, e.1 ≠ k) :
    t.child k = empty := by
  have none : t.entries.lookup k = none := by
    rw [List.lookup_eq_none_iff]
    intro e mem
    simpa using Ne.symm (absent e mem)
  rw [child, none]
  rfl

/-! ## The order of the names -/

/-- `before` is a strict total order on the keys in `P`. -/
structure Orders (before : κ → κ → Bool) (P : κ → Prop) : Prop where
  irrefl : ∀ k, P k → before k k = false
  trans : ∀ a b c, P a → P b → P c → before a b = true → before b c = true → before a c = true
  total : ∀ a b, P a → P b → a ≠ b → before a b = true ∨ before b a = true

omit [DecidableEq κ] in
theorem Orders.asymm {before : κ → κ → Bool} {P : κ → Prop} (orders : Orders before P) {a b : κ}
    (pa : P a) (pb : P b) (ab : before a b = true) : before b a = false := by
  cases ba : before b a with
  | false => rfl
  | true =>
      have loop := orders.trans a b a pa pb pa ab ba
      rw [orders.irrefl a pa] at loop
      cases loop

/-- **The names of a tree are in `P`, and in order.** -/
structure Sorted (before : κ → κ → Bool) (P : κ → Prop) (t : KeyTree κ ν) : Prop where
  keys : ∀ e ∈ t.entries, P e.1
  sorted : t.entries.Pairwise fun e e' => before e.1 e'.1 = true

section Sorted

variable {before : κ → κ → Bool} {P : κ → Prop}

omit [DecidableEq κ] in
theorem sorted_empty : Sorted before P (empty : KeyTree κ ν) := ⟨by simp, List.Pairwise.nil⟩

omit [DecidableEq κ] in
theorem pairwise_insertEntry (orders : Orders before P) {k : κ} (pk : P k) (c : KeyTree κ ν)
    {es : List (κ × KeyTree κ ν)} (keys : ∀ e ∈ es, P e.1) (absent : ∀ e ∈ es, e.1 ≠ k)
    (sorted : es.Pairwise fun e e' => before e.1 e'.1 = true) :
    (insertEntry before k c es).Pairwise fun e e' => before e.1 e'.1 = true := by
  induction es with
  | nil => exact List.pairwise_singleton _ _
  | cons first rest ih =>
      obtain ⟨ahead, sortedRest⟩ := List.pairwise_cons.mp sorted
      have pfirst := keys first List.mem_cons_self
      unfold insertEntry
      split
      case isTrue smaller =>
        refine List.pairwise_cons.mpr ⟨?_, sorted⟩
        intro e mem
        rcases List.mem_cons.mp mem with rfl | later
        · exact smaller
        · exact orders.trans _ _ _ pk pfirst (keys e mem) smaller (ahead e later)
      case isFalse larger =>
        have tail := ih (fun e mem => keys e (List.mem_cons_of_mem _ mem))
          (fun e mem => absent e (List.mem_cons_of_mem _ mem)) sortedRest
        refine List.pairwise_cons.mpr ⟨?_, tail⟩
        intro e mem
        rcases List.mem_cons.mp
          ((insertEntry_perm before k c rest).mem_iff.mp mem) with rfl | later
        · exact (orders.total _ _ pfirst pk
            (absent first List.mem_cons_self)).resolve_right larger
        · exact ahead e later

/-- Writing under a key of `P` keeps the names in order. -/
theorem Sorted.setChild (orders : Orders before P) {k : κ} (pk : P k) {t : KeyTree κ ν}
    (sorted : Sorted before P t) (c : KeyTree κ ν) :
    Sorted before P (t.setChild before k c) := by
  cases t with
  | leaf value =>
      by_cases gone : c.isEmpty = true
      · rw [KeyTree.setChild, if_pos gone]
        exact sorted
      · rw [KeyTree.setChild, if_neg gone]
        exact ⟨by simpa using pk, List.pairwise_singleton _ _⟩
  | node es =>
      have rest : ∀ e ∈ dropKey k es, P e.1 :=
        fun e mem => sorted.keys e (List.mem_filter.mp mem).1
      have sortedRest : (dropKey k es).Pairwise fun e e' => before e.1 e'.1 = true :=
        sorted.sorted.sublist List.filter_sublist
      by_cases gone : c.isEmpty = true
      · rw [KeyTree.setChild, if_pos gone]
        exact ⟨rest, sortedRest⟩
      · rw [KeyTree.setChild, if_neg gone]
        refine ⟨?_, pairwise_insertEntry orders pk c rest
          (fun e => ne_of_mem_dropKey) sortedRest⟩
        intro e mem
        rcases List.mem_cons.mp ((insertEntry_perm before k c _).mem_iff.mp mem) with rfl | old
        · exact pk
        · exact rest e old

/-- **In a tree in order, of two names the smaller one is met first.** -/
theorem Sorted.idxOf_lt_iff (orders : Orders before P) {t : KeyTree κ ν}
    (sorted : Sorted before P t) {k k' : κ} (mem : k ∈ t.entries.map Prod.fst)
    (mem' : k' ∈ t.entries.map Prod.fst) :
    (t.entries.map Prod.fst).idxOf k < (t.entries.map Prod.fst).idxOf k' ↔
      before k k' = true := by
  have inP {k : κ} (mem : k ∈ t.entries.map Prod.fst) : P k := by
    obtain ⟨e, inEntries, rfl⟩ := List.mem_map.mp mem
    exact sorted.keys e inEntries
  have ordered : (t.entries.map Prod.fst).Pairwise fun a b => before a b = true :=
    List.pairwise_map.mpr sorted.sorted
  have forward {k k' : κ} (mem : k ∈ t.entries.map Prod.fst)
      (mem' : k' ∈ t.entries.map Prod.fst)
      (lt : (t.entries.map Prod.fst).idxOf k < (t.entries.map Prod.fst).idxOf k') :
      before k k' = true := by
    have inside := List.idxOf_lt_length_of_mem mem
    have inside' := List.idxOf_lt_length_of_mem mem'
    have related := List.pairwise_iff_getElem.mp ordered _ _ inside inside' lt
    rwa [List.getElem_idxOf, List.getElem_idxOf] at related
  refine ⟨forward mem mem', ?_⟩
  intro smaller
  by_contra notBefore
  rcases Nat.lt_or_eq_of_le (Nat.le_of_not_lt notBefore) with later | same
  · have back := forward mem' mem later
    rw [orders.asymm (inP mem) (inP mem') smaller] at back
    cases back
  · have equal : k' = k := (List.idxOf_inj mem').mp same
    rw [equal, orders.irrefl k (inP mem)] at smaller
    cases smaller

end Sorted

end KeyTree
