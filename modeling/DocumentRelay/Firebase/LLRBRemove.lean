import DocumentRelay.Firebase.LLRBNode

/-!
# Removal from a left-leaning red-black tree

`removeMin` and `remove` of `FLLRBValueNode`.  On the way down a node is reshaped so that the
child that is visited next can give an entry away (`leanLeft`, `leanRight`), and on the way up
`fixUp` repairs what is left.

Where the key is met, the source puts the next entry in its place, takes that one from the
right side, and then, in the same pass, removes the key from the right side once more, where
it no longer is.  This second removal reshapes the right side and has to put everything back
(`balanced_remove_of_lt`).

* `removed_removeMin` — `removeMin` takes away the first entry and nothing else.
* `removes_of_present` — `remove` takes away the entry of the key and nothing else; the tree
  keeps its shape, except that the root may lose a level.
-/

namespace DocumentRelay

namespace FLLRBNode

variable {κ β : Type}

/-! ## The methods -/

/-- `min`. -/
def min : FLLRBNode κ β → FLLRBNode κ β
  | empty => empty
  | node key value color l r => if l.isEmpty then node key value color l r else l.min

/-- `copyWith:withValue:`, with the entry of another node. -/
def withEntry (smallest : FLLRBNode κ β) : FLLRBNode κ β → FLLRBNode κ β
  | empty => empty
  | node key value color l r =>
      match smallest with
      | empty => node key value color l r
      | node key' value' _ _ _ => node key' value' color l r

/-- What `removeMin` and `remove` do before they go down to the left. -/
def leanLeft (n : FLLRBNode κ β) : FLLRBNode κ β :=
  if !n.left.isEmpty && !n.left.isRed && !n.left.left.isRed then n.moveRedLeft else n

/-- What `remove` does before it goes down to the right. -/
def leanRight (n : FLLRBNode κ β) : FLLRBNode κ β :=
  let n := if n.left.isRed then n.rotateRight else n
  if !n.right.isEmpty && !n.right.isRed && !n.right.left.isRed then n.moveRedRight else n

theorem toList_moveRedLeft (n : FLLRBNode κ β) : n.moveRedLeft.toList = n.toList := by
  unfold moveRedLeft
  simp only
  split
  case isTrue red =>
    cases n with
    | empty => cases red
    | node key value color l r =>
        cases r with
        | empty => cases red
        | node key' value' color' rl rr =>
            cases rl with
            | empty => cases red
            | node key'' value'' color'' a b =>
                simp [colorFlip, withRight, rotateRight, rotateLeft, toList]
  · exact toList_colorFlip n

theorem toList_moveRedRight (n : FLLRBNode κ β) : n.moveRedRight.toList = n.toList := by
  unfold moveRedRight
  simp only
  split
  case isTrue red =>
    cases n with
    | empty => cases red
    | node key value color l r =>
        cases l with
        | empty => cases red
        | node key' value' color' ll lr => simp [colorFlip, rotateRight, toList]
  · exact toList_colorFlip n

theorem toList_leanLeft (n : FLLRBNode κ β) : n.leanLeft.toList = n.toList := by
  unfold leanLeft
  split
  · exact toList_moveRedLeft n
  · rfl

theorem toList_leanRight (n : FLLRBNode κ β) : n.leanRight.toList = n.toList := by
  have first : (if n.left.isRed then n.rotateRight else n).toList = n.toList := by
    split
    case isTrue red => exact toList_rotateRight red
    · rfl
  have second : ∀ m :
      FLLRBNode κ β, (if !m.right.isEmpty && !m.right.isRed && !m.right.left.isRed
      then m.moveRedRight else m).toList = m.toList := by
    intro m
    split
    · exact toList_moveRedRight m
    · rfl
  exact (second _).trans first

/-- `count` is the number of entries. -/
theorem count_eq_length (n : FLLRBNode κ β) : n.count = n.toList.length := by
  induction n with
  | empty => rfl
  | node key value color l r ihl ihr =>
      rw [count, toList, List.length_append, List.length_cons, ihl, ihr]
      omega

theorem count_left_lt {m : FLLRBNode κ β} {key : κ} {value : β} {color : FLLRBColor}
    {l r : FLLRBNode κ β} (same : m.toList = (node key value color l r).toList) :
    m.left.count < (node key value color l r).count := by
  rw [count_eq_length (node key value color l r), ← same, ← count_eq_length]
  cases m with
  | empty => simp [toList] at same
  | node key' value' color' l' r' =>
      rw [left_node, count]
      omega

theorem count_right_lt {key key' : κ} {value value' : β} {color color' : FLLRBColor}
    {l r l' r' : FLLRBNode κ β}
    (leaning : leanRight (node key value color l r) = node key' value' color' l' r') :
    r'.count < (node key value color l r).count := by
  rw [count_eq_length (node key value color l r), ← toList_leanRight, leaning,
    ← count_eq_length,
    count]
  omega

/-- `removeMin`. -/
def removeMin : FLLRBNode κ β → FLLRBNode κ β
  | empty => empty
  | node key value color l r =>
      if l.isEmpty then empty
      else fixUp ((leanLeft (node key value color l r)).withLeft
        (removeMin (leanLeft (node key value color l r)).left))
  termination_by n => n.count
  decreasing_by exact count_left_lt (toList_leanLeft _)

/-- Rotations and colour flips keep the count, on which the recursion of `remove` goes down. -/
theorem count_fixUp (n : FLLRBNode κ β) : n.fixUp.count = n.count := by
  rw [count_eq_length, toList_fixUp, count_eq_length]

theorem count_removeMin_le (n : FLLRBNode κ β) : n.removeMin.count ≤ n.count := by
  induction n using removeMin.induct with
  | case1 => simp [removeMin, count]
  | case2 key value color l r none => simp [removeMin, none, count]
  | case3 key value color l r some ih =>
      rw [removeMin, if_neg some, count_fixUp, count_eq_length (node key value color l r),
        ← toList_leanLeft, ← count_eq_length]
      revert ih
      cases leanLeft (node key value color l r) with
      | empty => exact fun _ => Nat.le_refl 0
      | node key' value' color' l' r' =>
          intro ih
          rw [left_node] at ih
          simp only [withLeft, left_node, count]
          omega

variable (cmp : κ → κ → Ordering)

/-- `remove:withComparator:`.  Where the key is met its entry is replaced by the next one, and
the key is removed from the right side all the same. -/
def remove (aKey : κ) : FLLRBNode κ β → FLLRBNode κ β
  | empty => empty
  | node key value color l r =>
      if cmp aKey key = .lt then
        fixUp ((leanLeft (node key value color l r)).withLeft
          (remove aKey (leanLeft (node key value color l r)).left))
      else
        match _leaning : leanRight (node key value color l r) with
        | empty => empty
        | node key' value' color' l' r' =>
            if cmp aKey key' = .eq then
              if r'.isEmpty then empty
              else fixUp (withEntry r'.min
                (node key' value' color' l' (remove aKey r'.removeMin)))
            else fixUp (node key' value' color' l' (remove aKey r'))
  termination_by n => n.count
  decreasing_by
  · exact count_left_lt (toList_leanLeft _)
  · exact Nat.lt_of_le_of_lt (count_removeMin_le r') (count_right_lt _leaning)
  · exact count_right_lt _leaning

/-! ## Shapes on the way down -/

/-- How much a tree can give away: a red one may turn black, a full one keeps its shape, and
one of two blacks, which is the root, may lose a level. -/
inductive Kind where
  | red
  | full
  | two

/-- The color of a tree of this kind. -/
def Kind.color : Kind → FLLRBColor
  | .red => .red
  | .full => .black
  | .two => .black

/-- A tree an entry is removed from. -/
inductive Entry : Kind → ℕ → FLLRBNode κ β → Prop
  | red {key : κ} {value : β} {depth : ℕ} {l r : FLLRBNode κ β} (left : Balanced .black depth l)
      (right : Balanced .black depth r) : Entry .red depth (node key value .red l r)
  | three {key : κ} {value : β} {depth : ℕ} {l r : FLLRBNode κ β} (left : Balanced .red depth l)
      (right : Balanced .black depth r) : Entry .full (depth + 1) (node key value .black l r)
  | two {key : κ} {value : β} {depth : ℕ} {l r : FLLRBNode κ β} (left : Balanced .black depth l)
      (right : Balanced .black depth r) : Entry .two (depth + 1) (node key value .black l r)

/-- A black tree whose red child is on the right, as `moveRedRight` leaves it. -/
inductive Leaning (key : κ) : ℕ → FLLRBNode κ β → Prop
  | intro {value : β} {depth : ℕ} {l r : FLLRBNode κ β} (left : Balanced .black depth l)
      (right : Balanced .red depth r) : Leaning key (depth + 1) (node key value .black l r)

/-- What a removal leaves. -/
def Removed : Kind → ℕ → FLLRBNode κ β → Prop
  | .red, depth, n => Balanced .red depth n ∨ Balanced .black depth n
  | .full, depth, n => Balanced .black depth n
  | .two, depth, n =>
      Balanced .black depth n ∨ (∃ lower, depth = lower + 2 ∧ RedRed lower n) ∨
        depth = 1 ∧ n = empty

/-- A tree whose left child can give an entry. -/
inductive DownLeft : Kind → ℕ → FLLRBNode κ β → Prop
  | red {key : κ} {value : β} {depth : ℕ} {l r : FLLRBNode κ β} (left : Entry .full depth l)
      (right : Balanced .black depth r) : DownLeft .red depth (node key value .red l r)
  | four {key : κ} {value : β} {depth : ℕ} {l r : FLLRBNode κ β} (left : Entry .red depth l)
      (right : Balanced .red depth r) : DownLeft .red (depth + 1) (node key value .black l r)
  | full {key : κ} {value : β} {depth : ℕ} {l r : FLLRBNode κ β} (left : Entry .red depth l)
      (right : Balanced .black depth r) : DownLeft .full (depth + 1) (node key value .black l r)
  | two {key : κ} {value : β} {depth : ℕ} {l r : FLLRBNode κ β} (left : Entry .full depth l)
      (right : Balanced .black depth r) : DownLeft .two (depth + 1) (node key value .black l r)
  | flipped {key : κ} {value : β} {depth : ℕ} {l r : FLLRBNode κ β} (left : Entry .red depth l)
      (right : Balanced .red depth r) : DownLeft .two (depth + 2) (node key value .red l r)

/-- A tree whose right child can give an entry, with the key the root had. -/
inductive DownRight (top : κ) : Kind → ℕ → FLLRBNode κ β → Prop
  | red {key : κ} {value : β} {depth : ℕ} {l r : FLLRBNode κ β} (left : Balanced .black depth l)
      (right : Entry .full depth r ∨ Leaning top depth r) :
        DownRight top .red depth (node key value .red l r)
  | four {key : κ} {value : β} {depth : ℕ} {l r : FLLRBNode κ β} (left : Balanced .red depth l)
      (right : Entry .red depth r) : DownRight top .red (depth + 1) (node key value .black l r)
  | full {key : κ} {value : β} {depth : ℕ} {l r : FLLRBNode κ β}
      (left : Balanced .black depth l)
      (right : Entry .red depth r) : DownRight top .full (depth + 1) (node key value .black l r)
  | two {key : κ} {value : β} {depth : ℕ} {l r : FLLRBNode κ β} (left : Balanced .black depth l)
      (right : Entry .full depth r ∨ Leaning top depth r) :
      DownRight top .two (depth + 1) (node key value .black l r)
  | flipped {key : κ} {value : β} {depth : ℕ} {l r : FLLRBNode κ β}
      (left : Balanced .red depth l)
      (right : Entry .red depth r) : DownRight top .two (depth + 2) (node key value .red l r)

variable {cmp} {depth : ℕ} {kind : Kind} {n l r : FLLRBNode κ β} {key : κ} {value : β}
  {color : FLLRBColor}

/-- A black tree with something in it is of two kinds. -/
theorem Balanced.black_cases (balanced : Balanced .black depth n) :
    (depth = 0 ∧ n = .empty) ∨ (Entry .full depth n ∧ n.left.isRed = true) ∨
      ∃ lower key value l r, depth = lower + 1 ∧ n = node key value .black l r ∧
        Balanced .black lower l ∧ Balanced .black lower r := by
  cases balanced with
  | empty => exact Or.inl ⟨rfl, rfl⟩
  | two left right => exact Or.inr (Or.inr ⟨_, _, _, _, _, rfl, rfl, left, right⟩)
  | three left right => exact Or.inr (Or.inl ⟨.three left right, left.isRed⟩)

theorem Entry.ofRed (balanced : Balanced .red depth n) : Entry .red depth n := by
  cases balanced with
  | red left right => exact .red left right

theorem Balanced.empty_of_zero (balanced : Balanced .black 0 n) : n = .empty := by
  cases balanced with
  | empty => rfl

/-- The left child of a red node or of one of two blacks gets a red node. -/
theorem Balanced.moveRedLeft {lower : ℕ} {key' : κ} {value' : β} {ll lr : FLLRBNode κ β}
    (left : Balanced .black lower ll) (left' : Balanced .black lower lr)
    (right : Balanced .black (lower + 1) r) :
    (DownLeft .red (lower + 1)
      (FLLRBNode.moveRedLeft (node key value .red (node key' value' .black ll lr) r))) ∧
    DownLeft .two (lower + 2)
      (FLLRBNode.moveRedLeft (node key value .black (node key' value' .black ll lr) r)) := by
  cases right with
  | two rl rr =>
      have black := rl.isRed
      constructor
      · simp only [FLLRBNode.moveRedLeft, colorFlip, flipped_node, FLLRBColor.flip, right_node,
          left_node, black]
        exact .four (.red left left') (.red rl rr)
      · simp only [FLLRBNode.moveRedLeft, colorFlip, flipped_node, FLLRBColor.flip, right_node,
          left_node, black]
        exact .flipped (.red left left') (.red rl rr)
  | three rl rr =>
      cases rl with
      | red a b =>
          constructor
          · exact .red (.three (.red left left') a) (.two b rr)
          · exact .two (.three (.red left left') a) (.two b rr)

theorem leanLeft_of_red (left : l.isRed = true) :
    leanLeft (node key value color l r) = node key value color l r := by
  simp [leanLeft, left]

theorem leanLeft_of_left_red (left : l.left.isRed = true) :
    leanLeft (node key value color l r) = node key value color l r := by
  simp [leanLeft, left]

/-- **Going down to the left.** -/
theorem Entry.leanLeft (entry : Entry kind depth n) (some_left : n.left.isEmpty = false) :
    DownLeft kind depth n.leanLeft := by
  cases entry with
  | three left right =>
      rw [leanLeft_of_red left.isRed]
      exact .full (.ofRed left) right
  | red left right =>
      rcases left.black_cases with ⟨-, rfl⟩ | ⟨full, red⟩ | ⟨lower, _, _, ll, lr, rfl, rfl,
        ll_black, lr_black⟩
      · cases some_left
      · rw [leanLeft_of_left_red red]
        exact .red full right
      · rw [FLLRBNode.leanLeft, if_pos (by simp [ll_black.isRed])]
        exact (ll_black.moveRedLeft lr_black right).1
  | two left right =>
      rcases left.black_cases with ⟨-, rfl⟩ | ⟨full, red⟩ | ⟨lower, _, _, ll, lr, rfl, rfl,
        ll_black, lr_black⟩
      · cases some_left
      · rw [leanLeft_of_left_red red]
        exact .two full right
      · rw [FLLRBNode.leanLeft, if_pos (by simp [ll_black.isRed])]
        exact (ll_black.moveRedLeft lr_black right).2

/-- The right child of a red node or of one of two blacks gets a red node. -/
theorem Balanced.moveRedRight {lower : ℕ} {key' : κ} {value' : β} {rl rr : FLLRBNode κ β}
    (left : Balanced .black (lower + 1) l) (right : Balanced .black lower rl)
    (right' : Balanced .black lower rr) :
    DownRight key .red (lower + 1)
      (FLLRBNode.moveRedRight (node key value .red l (node key' value' .black rl rr))) ∧
    DownRight key .two (lower + 2)
      (FLLRBNode.moveRedRight (node key value .black l (node key' value' .black rl rr))) := by
  cases left with
  | two ll lr =>
      have black := ll.isRed
      constructor
      · simp only [FLLRBNode.moveRedRight, colorFlip, flipped_node, FLLRBColor.flip,
          left_node, black]
        exact .four (.red ll lr) (.red right right')
      · simp only [FLLRBNode.moveRedRight, colorFlip, flipped_node, FLLRBColor.flip,
          left_node, black]
        exact .flipped (.red ll lr) (.red right right')
  | three ll lr =>
      cases ll with
      | red a b =>
          constructor
          · exact .red (.two a b) (Or.inr (.intro lr (.red right right')))
          · exact .two (.two a b) (Or.inr (.intro lr (.red right right')))

theorem leanRight_of_black (left : l.isRed = false) :
    leanRight (node key value color l r) =
      if !r.isEmpty && !r.isRed && !r.left.isRed then moveRedRight (node key value color l r)
      else node key value color l r := by
  simp [leanRight, left]

/-- **Going down to the right**, unless there is a single entry. -/
theorem Entry.leanRight (entry : Entry kind depth (node key value color l r)) :
    DownRight key kind depth (leanRight (node key value color l r)) ∨
      (∃ key' value' color', FLLRBNode.leanRight (node key value color l r) =
        node key' value' color' .empty .empty) ∧
          Removed kind depth (.empty : FLLRBNode κ β) := by
  cases entry with
  | three left right =>
      cases left with
      | red a b =>
          refine Or.inl ?_
          simp only [FLLRBNode.leanRight, left_node, isRed_red, if_true,
            rotateRight, right_node,
            isEmpty_node, Bool.not_true, Bool.and_false, Bool.false_and,
              Bool.false_eq_true, if_false]
          exact .full a (.red b right)
  | red left right =>
      rw [leanRight_of_black left.isRed]
      rcases right.black_cases with ⟨rfl, rfl⟩ | ⟨full, red⟩ | ⟨lower, _, _, rl, rr, rfl, rfl,
        rl_black, rr_black⟩
      · obtain rfl := left.empty_of_zero
        exact Or.inr ⟨⟨_, _, _, rfl⟩, Or.inr .empty⟩
      · rw [if_neg (by simp [red])]
        exact Or.inl (.red left (Or.inl full))
      · rw [if_pos (by simp [rl_black.isRed])]
        exact Or.inl (left.moveRedRight rl_black rr_black).1
  | two left right =>
      rw [leanRight_of_black left.isRed]
      rcases right.black_cases with ⟨rfl, rfl⟩ | ⟨full, red⟩ | ⟨lower, _, _, rl, rr, rfl, rfl,
        rl_black, rr_black⟩
      · obtain rfl := left.empty_of_zero
        exact Or.inr ⟨⟨_, _, _, rfl⟩, Or.inr (Or.inr ⟨rfl, rfl⟩)⟩
      · rw [if_neg (by simp [red])]
        exact Or.inl (.two left (Or.inl full))
      · rw [if_pos (by simp [rl_black.isRed])]
        exact Or.inl (left.moveRedRight rl_black rr_black).2

/-- A leaning tree needs no rotation, its red child is on the right already. -/
theorem Leaning.leanRight {top : κ} (leaning : Leaning key depth n) :
    DownRight top .full depth n.leanRight := by
  cases leaning with
  | intro left right =>
      rw [leanRight_of_black left.isRed, if_neg (by simp [right.isRed])]
      exact .full left (.ofRed right)

/-! ## The way up -/

/-- The left child has given its entry. -/
theorem DownLeft.fixUp (down : DownLeft kind depth (node key value color l r))
    {l' : FLLRBNode κ β}
    (gave : ∀ {kind depth}, Entry kind depth l → Removed kind depth l') :
    Removed kind depth (fixUp (node key value color l' r)) := by
  cases down with
  | red left right => exact Or.inl (fixUp_red (gave left) right)
  | four left right =>
      rcases gave left with red | black
      · exact Or.inl (fixUp_black_of_red red right)
      · exact Or.inr (fixUp_black black right (Or.inl rfl))
  | full left right =>
      rcases gave left with red | black
      · exact fixUp_black red right (Or.inr rfl)
      · exact fixUp_black black right (Or.inl rfl)
  | two left right => exact Or.inl (fixUp_black (gave left) right (Or.inl rfl))
  | flipped left right =>
      rcases gave left with red | black
      · exact Or.inl (fixUp_red_of_red red right)
      · exact Or.inr (Or.inl ⟨_, rfl, fixUp_red_of_right_red black right⟩)

/-- The right child has given its entry. -/
theorem DownRight.fixUp {top : κ} (down : DownRight top kind depth (node key value color l r))
    {r' : FLLRBNode κ β} (gave : ∀ {depth}, Entry .red depth r → Removed .red depth r')
    (gave' : ∀ {depth}, Entry .full depth r ∨ Leaning top depth r → Removed .full depth r')
    (key' : κ) (value' : β) : Removed kind depth (fixUp (node key' value' color l r')) := by
  cases down with
  | red left right => exact Or.inl (fixUp_red left (gave' right))
  | four left right =>
      rcases gave right with red | black
      · exact Or.inl (fixUp_black_of_red left red)
      · exact Or.inr (fixUp_black left black (Or.inr rfl))
  | full left right =>
      rcases gave right with red | black
      · exact fixUp_black left red (Or.inl rfl)
      · exact fixUp_black left black (Or.inl rfl)
  | two left right => exact Or.inl (fixUp_black left (gave' right) (Or.inl rfl))
  | flipped left right =>
      rcases gave right with red | black
      · exact Or.inl (fixUp_red_of_red left red)
      · exact Or.inr (Or.inl ⟨_, rfl, fixUp_red_of_left_red left black⟩)

theorem DownLeft.exists_node (down : DownLeft kind depth n) :
    ∃ key value color l r, n = node key value color l r ∧ ∃ kind depth, Entry kind depth l := by
  cases down with
  | red left right => exact ⟨_, _, _, _, _, rfl, _, _, left⟩
  | four left right => exact ⟨_, _, _, _, _, rfl, _, _, left⟩
  | full left right => exact ⟨_, _, _, _, _, rfl, _, _, left⟩
  | two left right => exact ⟨_, _, _, _, _, rfl, _, _, left⟩
  | flipped left right => exact ⟨_, _, _, _, _, rfl, _, _, left⟩

theorem Entry.toList_ne_nil (entry : Entry kind depth n) : n.toList ≠ [] := by
  cases entry <;> simp [toList]

/-! ## The least entry -/

/-- **`removeMin` takes the first entry away, and nothing else.** -/
theorem removed_removeMin (entry : Entry kind depth n) :
    Removed kind depth n.removeMin ∧ n.removeMin.toList = n.toList.tail := by
  induction n using removeMin.induct generalizing kind depth with
  | case1 => cases entry
  | case2 key value color l r none =>
      rw [removeMin, if_pos none]
      cases entry with
      | red left right =>
          cases left with
          | empty =>
              obtain rfl := right.empty_of_zero
              exact ⟨Or.inr .empty, rfl⟩
          | two => cases none
          | three => cases none
      | three left right =>
          cases left with
          | red => cases none
      | two left right =>
          cases left with
          | empty =>
              obtain rfl := right.empty_of_zero
              exact ⟨Or.inr (Or.inr ⟨rfl, rfl⟩), rfl⟩
          | two => cases none
          | three => cases none
  | case3 key value color l r some ih =>
      rw [removeMin, if_neg some]
      have down : DownLeft kind depth (leanLeft (node key value color l r)) :=
        entry.leanLeft (by simpa using some)
      rw [← toList_leanLeft (node key value color l r)]
      obtain ⟨key', value', color', l', r', eq, kind', depth', entry'⟩ := down.exists_node
      rw [eq] at down ih ⊢
      rw [left_node] at ih
      refine ⟨down.fixUp fun entry => (ih entry).1, ?_⟩
      show (fixUp (node key' value' color' l'.removeMin r')).toList = _
      rw [toList_fixUp, toList, toList, (ih entry').2,
        List.tail_append_of_ne_nil entry'.toList_ne_nil]

/-- The entry `min` finds. -/
theorem exists_min (some_entry : n.toList ≠ []) :
    ∃ key value color l r, n.min = node key value color l r ∧
      (key, value) :: n.toList.tail = n.toList := by
  induction n with
  | empty => exact absurd rfl some_entry
  | node key value color l r ihl ihr =>
      rw [FLLRBNode.min]
      cases l with
      | empty => exact ⟨key, value, color, .empty, r, rfl, rfl⟩
      | node key' value' color' l' r' =>
          have more : (node key' value' color' l' r').toList ≠ [] := by simp [toList]
          obtain ⟨k, v, c, a, b, eq, first⟩ := ihl more
          refine ⟨k, v, c, a, b, eq, ?_⟩
          rw [toList, List.tail_append_of_ne_nil more, ← List.cons_append, first]

/-! ## A key that is not there -/

/-- What a removal enters is balanced. -/
theorem Entry.balanced (entry : Entry kind depth n) : Balanced kind.color depth n := by
  cases entry with
  | red left right => exact .red left right
  | three left right => exact .three left right
  | two left right => exact .two left right

/-- A balanced tree that is not empty can be entered. -/
theorem Balanced.exists_entry (balanced : Balanced color depth n)
    (some_entry : n.isEmpty = false) :
    ∃ kind : Kind, kind.color = color ∧ Entry kind depth n := by
  cases balanced with
  | empty => cases some_entry
  | red left right => exact ⟨.red, rfl, .red left right⟩
  | two left right => exact ⟨.two, rfl, .two left right⟩
  | three left right => exact ⟨.full, rfl, .three left right⟩

/-- Repairing does nothing to what is in order. -/
theorem Balanced.fixUp {c : FLLRBColor} (balanced : Balanced c depth n) : n.fixUp = n := by
  cases balanced with
  | empty => rfl
  | red left right => exact fixUp_of_black left.isRed right.isRed
  | two left right => exact fixUp_of_black left.isRed right.isRed
  | three left right => exact fixUp_of_left_red left.isRed left.left_black right.isRed

/-- The left child has kept its entries. -/
theorem DownLeft.fixUp_kept (down : DownLeft kind depth (node key value color l r))
    {l' : FLLRBNode κ β} (kept : ∀ {c depth}, Balanced c depth l → Balanced c depth l') :
    Balanced kind.color depth (FLLRBNode.fixUp (node key value color l' r)) := by
  cases down with
  | red left right => exact fixUp_red (kept left.balanced) right
  | four left right => exact fixUp_black_of_red (kept left.balanced) right
  | full left right => exact fixUp_black (kept left.balanced) right (Or.inr rfl)
  | two left right => exact fixUp_black (kept left.balanced) right (Or.inl rfl)
  | flipped left right => exact fixUp_red_of_red (kept left.balanced) right

/-- **To remove a key before all others changes nothing but the shape.** -/
theorem balanced_remove_of_lt {aKey : κ} {c : FLLRBColor} (balanced : Balanced c depth n)
    (before : ∀ e ∈ n.toList, cmp aKey e.1 = .lt) :
    Balanced c depth (remove cmp aKey n) ∧ (remove cmp aKey n).toList = n.toList := by
  induction size : n.count using Nat.strongRecOn generalizing n c depth with
  | _ size ih =>
      cases n with
      | empty =>
          rw [remove]
          exact ⟨balanced, rfl⟩
      | node key value color l r =>
          have first : cmp aKey key = .lt := before (key, value) (by simp [toList])
          rw [remove, if_pos first]
          cases none : l.isEmpty with
          | true =>
              have same : leanLeft (node key value color l r) = node key value color l r := by
                simp [leanLeft, none]
              cases l with
              | node => cases none
              | empty =>
                  rw [same, left_node, remove, withLeft, balanced.fixUp]
                  exact ⟨balanced, rfl⟩
          | false =>
              obtain ⟨kind, rfl, entry⟩ := balanced.exists_entry rfl
              have down := entry.leanLeft none
              have smaller := count_left_lt (toList_leanLeft (node key value color l r))
              rw [← toList_leanLeft (node key value color l r)] at before ⊢
              obtain ⟨key', value', color', l', r', eq, kind', depth', entry'⟩ :=
                down.exists_node
              rw [eq] at down smaller before ⊢
              rw [left_node] at smaller ⊢
              have kept : ∀ {c depth}, Balanced c depth l' →
                  Balanced c depth (remove cmp aKey l') ∧
                    (remove cmp aKey l').toList = l'.toList := by
                intro c depth balanced
                refine ih l'.count (size ▸ smaller) balanced ?_ rfl
                intro e mem
                exact before e (List.mem_append_left _ mem)
              refine ⟨down.fixUp_kept fun balanced => (kept balanced).1, ?_⟩
              rw [toList_fixUp, withLeft, toList, toList, (kept entry'.balanced).2]

/-! ## Where the root goes -/

/-- An entry is at the root or to the right of it. -/
def AtRight (e : κ × β) : FLLRBNode κ β → Prop
  | .empty => False
  | node key value _ _ r => (key, value) = e ∨ e ∈ r.toList

/-- An entry is at the root or to the left of it. -/
def AtLeft (e : κ × β) : FLLRBNode κ β → Prop
  | .empty => False
  | node key value _ l _ => (key, value) = e ∨ e ∈ l.toList

variable {e : κ × β}

/-- A colour flip moves no entry. -/
theorem AtRight.colorFlip (at_right : AtRight e n) : AtRight e n.colorFlip := by
  cases n with
  | empty => exact at_right
  | node key value color l r => exact at_right.imp_right fun mem => by rwa [toList_flipped]

/-- Rotating to the right, the root goes down on that side. -/
theorem AtRight.rotateRight (at_right : AtRight e n) (some_left : n.left.isEmpty = false) :
    AtRight e n.rotateRight := by
  cases n with
  | empty => exact at_right.elim
  | node key value color l r =>
      cases l with
      | empty => cases some_left
      | node key' value' color' ll lr =>
          refine Or.inr ?_
          rw [toList]
          rcases at_right with rfl | mem
          · exact List.mem_append_right _ List.mem_cons_self
          · exact List.mem_append_right _ (List.mem_cons_of_mem _ mem)

theorem isEmpty_of_isRed (red : n.isRed = true) : n.isEmpty = false := by
  cases n with
  | empty => cases red
  | node => rfl

theorem isEmpty_of_left_isRed (red : n.left.isRed = true) : n.isEmpty = false := by
  cases n with
  | empty => cases red
  | node => rfl

theorem AtRight.leanRight (at_right : AtRight e n) : AtRight e n.leanRight := by
  have first : AtRight e (if n.left.isRed then n.rotateRight else n) := by
    split
    case isTrue red => exact at_right.rotateRight (isEmpty_of_isRed red)
    · exact at_right
  have second : ∀ m : FLLRBNode κ β, AtRight e m → AtRight e m.moveRedRight := by
    intro m at_right
    unfold moveRedRight
    simp only
    split
    case isTrue red =>
      exact (at_right.colorFlip.rotateRight (isEmpty_of_left_isRed red)).colorFlip
    · exact at_right.colorFlip
  have third : ∀ m : FLLRBNode κ β, AtRight e m →
      AtRight e (if !m.right.isEmpty && !m.right.isRed && !m.right.left.isRed then
        m.moveRedRight else m) := by
    intro m at_right
    split
    · exact second m at_right
    · exact at_right
  exact third _ first

/-- A colour flip moves no entry. -/
theorem AtLeft.colorFlip (at_left : AtLeft e n) : AtLeft e n.colorFlip := by
  cases n with
  | empty => exact at_left
  | node key value color l r => exact at_left.imp_right fun mem => by rwa [toList_flipped]

theorem AtLeft.leanLeft (at_left : AtLeft e n) : AtLeft e n.leanLeft := by
  unfold FLLRBNode.leanLeft
  split
  case isFalse => exact at_left
  case isTrue =>
    have flipped := at_left.colorFlip
    unfold moveRedLeft
    simp only
    revert flipped
    cases n.colorFlip with
    | empty => exact False.elim
    | node key value color l r =>
        intro flipped
        split
        case isFalse => exact flipped
        case isTrue red =>
          cases r with
          | empty => cases red
          | node key' value' color' rl rr =>
              cases rl with
              | empty => cases red
              | node key'' value'' color'' a b =>
                  refine AtLeft.colorFlip (Or.inr ?_)
                  rw [toList]
                  rcases flipped with rfl | mem
                  · exact List.mem_append_right _ List.mem_cons_self
                  · exact List.mem_append_left _ mem

/-! ## A key that is there -/

/-- A key that is not smaller than that of the root is removed after leaning right: it is that
of the new root, or on its right. -/
theorem remove_of_right {aKey key' : κ} {value' : β} {color' : FLLRBColor}
    {l' r' : FLLRBNode κ β}
    (reached : cmp aKey key ≠ .lt)
    (leaning : leanRight (node key value color l r) = node key' value' color' l' r') :
    remove cmp aKey (node key value color l r) =
      if cmp aKey key' = .eq then
        if r'.isEmpty then empty
        else fixUp (withEntry r'.min
          (node key' value' color' l' (remove cmp aKey r'.removeMin)))
      else fixUp (node key' value' color' l' (remove cmp aKey r')) := by
  rw [remove, if_neg reached]
  split
  case h_1 none => cases none.symm.trans leaning
  case h_2 key'' value'' color'' l'' r'' eq =>
    cases eq.symm.trans leaning
    rfl

/-- A removal from this tree takes away the entry of the key and nothing else. -/
def Removes (cmp : κ → κ → Ordering) (aKey : κ) (kind : Kind) (depth : ℕ)
    (n : FLLRBNode κ β) : Prop :=
  Removed kind depth (remove cmp aKey n) ∧
    (remove cmp aKey n).toList = SortedAssoc.erase cmp aKey n.toList

variable [Std.TransCmp cmp]

/-- What is on the right can be entered, or leans. -/
theorem DownRight.exists_child {top : κ}
    (down : DownRight top kind depth (node key value color l r)) :
    ∃ depth, Entry .red depth r ∨ Entry .full depth r ∨ Leaning top depth r := by
  cases down with
  | red left right => exact ⟨_, Or.inr right⟩
  | four left right => exact ⟨_, Or.inl right⟩
  | full left right => exact ⟨_, Or.inl right⟩
  | two left right => exact ⟨_, Or.inr right⟩
  | flipped left right => exact ⟨_, Or.inl right⟩

omit [Std.TransCmp cmp] in
/-- The second of two removals from the right side changes nothing. -/
theorem remove_removeMin {aKey : κ} (before : ∀ e ∈ r.toList, cmp aKey e.1 = .lt)
    (entry : Entry .red depth r ∨ Entry .full depth r) :
    (∀ {depth}, Entry .red depth r → Removed .red depth (remove cmp aKey r.removeMin)) ∧
      (∀ {depth}, Entry .full depth r → Removed .full depth (remove cmp aKey r.removeMin)) ∧
      (remove cmp aKey r.removeMin).toList = r.toList.tail := by
  have tail : r.removeMin.toList = r.toList.tail := by
    rcases entry with red | full
    · exact (removed_removeMin red).2
    · exact (removed_removeMin full).2
  have rest : ∀ e ∈ r.removeMin.toList, cmp aKey e.1 = .lt := by
    intro e mem
    rw [tail] at mem
    exact before e (List.mem_of_mem_tail mem)
  refine ⟨?_, ?_, ?_⟩
  · intro depth red
    exact (removed_removeMin red).1.imp (fun red => (balanced_remove_of_lt red rest).1)
      fun black => (balanced_remove_of_lt black rest).1
  · intro depth full
    exact (balanced_remove_of_lt (removed_removeMin full).1 rest).1
  · rw [← tail]
    rcases entry with red | full
    · rcases (removed_removeMin red).1 with red | black
      · exact (balanced_remove_of_lt red rest).2
      · exact (balanced_remove_of_lt black rest).2
    · exact (balanced_remove_of_lt (removed_removeMin full).1 rest).2

omit [Std.TransCmp cmp] in
/-- The key is met at the root, and the next entry takes its place. -/
theorem removed_of_next {aKey top : κ}
    (down : DownRight top kind depth (node key value color l r))
    (before : ∀ e ∈ r.toList, cmp aKey e.1 = .lt) (upright : ∀ {depth}, ¬ Leaning top depth r) :
    r.isEmpty = false ∧
      Removed kind depth
        (fixUp (withEntry r.min (node key value color l (remove cmp aKey r.removeMin)))) ∧
      (fixUp (withEntry r.min (node key value color l (remove cmp aKey r.removeMin)))).toList =
        l.toList ++ r.toList := by
  obtain ⟨depth', child⟩ := down.exists_child
  have entry : Entry .red depth' r ∨ Entry .full depth' r :=
    child.imp_right fun right => right.resolve_right upright
  obtain ⟨red, full, tail⟩ := remove_removeMin before entry
  have some_entry : r.toList ≠ [] := entry.elim Entry.toList_ne_nil Entry.toList_ne_nil
  obtain ⟨key', value', _, _, _, min, first⟩ := exists_min some_entry
  rw [min]
  refine ⟨?_, down.fixUp red (fun right => full (right.resolve_right upright)) key' value', ?_⟩
  · cases r with
    | empty => exact absurd rfl some_entry
    | node => rfl
  · rw [toList_fixUp, withEntry, toList, tail, first]

/-- **Down the right side.** -/
theorem removes_of_down {aKey : κ}
    (sorted : SortedAssoc.Sorted cmp (node key value color l r).toList)
    (reached : cmp aKey key ≠ .lt)
    (present : ∃ e ∈ (node key value color l r).toList, cmp aKey e.1 = .eq)
    (down : DownRight key kind depth (leanRight (node key value color l r)))
    (ih : ∀ m : FLLRBNode κ β, m.count < (node key value color l r).count →
      SortedAssoc.Sorted cmp m.toList → (∃ e ∈ m.toList, cmp aKey e.1 = .eq) →
      (∀ {kind depth}, Entry kind depth m → Removes cmp aKey kind depth m) ∧
        ∀ {depth}, Leaning key depth m → Removes cmp aKey .full depth m) :
    Removes cmp aKey kind depth (node key value color l r) := by
  have at_right : AtRight (key, value) (leanRight (node key value color l r)) :=
    AtRight.leanRight (Or.inl rfl)
  cases leaning : leanRight (node key value color l r) with
  | empty =>
      rw [leaning] at at_right
      exact at_right.elim
  | node key' value' color' l' r' =>
      have smaller := count_right_lt leaning
      have same := toList_leanRight (node key value color l r)
      rw [leaning] at at_right down same
      rw [← same] at sorted present
      rw [toList] at sorted present
      have around := sorted.around (k := aKey)
      have not_after : cmp aKey key' ≠ .gt → ¬ (key, value) ∈ r'.toList := by
        intro order mem
        exact reached (around.2 order _ mem)
      have order : cmp aKey key' ≠ .lt := by
        intro less
        rcases at_right with root | mem
        · cases root
          exact reached less
        · exact not_after (by simp [less]) mem
      rw [Removes, remove_of_right reached leaning, ← same, toList,
        SortedAssoc.erase_append_of_gt (around.1 order), SortedAssoc.erase]
      cases met : cmp aKey key' with
      | lt => exact absurd met order
      | eq =>
          have upright : ∀ {depth}, ¬ Leaning key depth r' := by
            intro depth leans
            cases leans with
            | intro left right =>
                exact reached (around.2 (by simp [met]) (key, _)
                  (List.mem_append_right _ List.mem_cons_self))
          obtain ⟨some_right, removed, entries⟩ :=
            removed_of_next down (around.2 (by simp [met])) upright
          rw [if_pos rfl, some_right]
          exact ⟨removed, entries⟩
      | gt =>
          have below : ∃ e ∈ r'.toList, cmp aKey e.1 = .eq := by
            obtain ⟨e, mem, found⟩ := present
            rcases List.mem_append.mp mem with left | right
            · cases (around.1 order e left).symm.trans found
            · rcases List.mem_cons.mp right with rfl | right
              · cases met.symm.trans found
              · exact ⟨e, right, found⟩
          have sorted' : SortedAssoc.Sorted cmp r'.toList :=
            (List.pairwise_append.mp sorted).2.1.tail
          obtain ⟨gave, gave'⟩ := ih r' smaller sorted' below
          have entries : (remove cmp aKey r').toList =
              SortedAssoc.erase cmp aKey r'.toList := by
            obtain ⟨depth', red | full | leans⟩ := down.exists_child
            · exact (gave red).2
            · exact (gave full).2
            · exact (gave' leans).2
          rw [if_neg (by simp)]
          refine ⟨down.fixUp (fun red => (gave red).1)
            (fun right => right.elim (fun full => (gave full).1) fun leans =>
              (gave' leans).1) _ _, ?_⟩
          rw [toList_fixUp, toList, entries]

/-- **Down the left side.** -/
theorem removes_of_left {aKey : κ}
    (sorted : SortedAssoc.Sorted cmp (node key value color l r).toList)
    (ahead : cmp aKey key = .lt)
    (present : ∃ e ∈ (node key value color l r).toList, cmp aKey e.1 = .eq)
    (entry : Entry kind depth (node key value color l r))
    (ih : ∀ m : FLLRBNode κ β, m.count < (node key value color l r).count →
      SortedAssoc.Sorted cmp m.toList → (∃ e ∈ m.toList, cmp aKey e.1 = .eq) →
      ∀ {kind depth}, Entry kind depth m → Removes cmp aKey kind depth m) :
    Removes cmp aKey kind depth (node key value color l r) := by
  have within : ∀ {key : κ} {value : β} {l r : FLLRBNode κ β},
      SortedAssoc.Sorted cmp (l.toList ++ (key, value) :: r.toList) → cmp aKey key = .lt →
      (∃ e ∈ l.toList ++ (key, value) :: r.toList, cmp aKey e.1 = .eq) →
      ∃ e ∈ l.toList, cmp aKey e.1 = .eq := by
    intro key value l r sorted ahead present
    obtain ⟨e, mem, found⟩ := present
    rcases List.mem_append.mp mem with left | right
    · exact ⟨e, left, found⟩
    · rcases List.mem_cons.mp right with rfl | right
      · cases ahead.symm.trans found
      · cases (sorted.around.2 (by simp [ahead]) e right).symm.trans found
  have some_left : l.isEmpty = false := by
    obtain ⟨e, mem, -⟩ := within sorted ahead present
    cases l with
    | empty => cases mem
    | node => rfl
  have down := entry.leanLeft some_left
  have at_left : AtLeft (key, value) (leanLeft (node key value color l r)) :=
    AtLeft.leanLeft (Or.inl rfl)
  have smaller := count_left_lt (toList_leanLeft (node key value color l r))
  have same := toList_leanLeft (node key value color l r)
  rw [Removes, remove, if_pos ahead]
  obtain ⟨key', value', color', l', r', eq, kind', depth', entry'⟩ := down.exists_node
  rw [eq] at down at_left smaller same ⊢
  rw [left_node] at smaller ⊢
  rw [← same] at sorted present ⊢
  rw [toList] at sorted present ⊢
  have ahead' : cmp aKey key' = .lt := by
    rcases at_left with root | mem
    · cases root
      exact ahead
    · by_contra reached
      cases ahead.symm.trans (sorted.around.1 reached (key, value) mem)
  have sorted' : SortedAssoc.Sorted cmp l'.toList := (List.pairwise_append.mp sorted).1
  have gave : ∀ {kind depth}, Entry kind depth l' → Removes cmp aKey kind depth l' :=
    ih l' smaller sorted' (within sorted ahead' present)
  refine ⟨down.fixUp fun entry => (gave entry).1, ?_⟩
  rw [toList_fixUp, withLeft, toList, (gave entry').2, SortedAssoc.erase_append_of_lt ahead']

/-- **`remove` takes the entry of the key away, and nothing else**, and the tree stays in
shape. -/
theorem removes_of_present {aKey : κ} (sorted : SortedAssoc.Sorted cmp n.toList)
    (present : ∃ e ∈ n.toList, cmp aKey e.1 = .eq) :
    (∀ {kind depth}, Entry kind depth n → Removes cmp aKey kind depth n) ∧
      ∀ {top depth}, cmp aKey top ≠ .lt → Leaning top depth n →
        Removes cmp aKey .full depth n := by
  induction size : n.count using Nat.strongRecOn generalizing n with
  | _ size ih =>
      subst size
      constructor
      · intro kind depth entry
        cases n with
        | empty => cases entry
        | node key value color l r =>
            by_cases ahead : cmp aKey key = .lt
            · exact removes_of_left sorted ahead present entry fun m smaller sorted present =>
                (ih m.count smaller sorted present rfl).1
            · rcases entry.leanRight with down | ⟨⟨key', value', color', single⟩, removed⟩
              · exact removes_of_down sorted ahead present down fun m smaller sorted present =>
                  ⟨(ih m.count smaller sorted present rfl).1,
                    (ih m.count smaller sorted present rfl).2 ahead⟩
              · have same := toList_leanRight (node key value color l r)
                rw [single] at same
                obtain ⟨e, mem, found⟩ := present
                rw [← same] at mem
                obtain rfl := List.mem_singleton.mp mem
                have found' : cmp aKey key' = .eq := found
                rw [Removes, remove_of_right ahead single, if_pos found', ← same]
                refine ⟨removed, ?_⟩
                simp [toList, SortedAssoc.erase, found']
      · intro top depth reached leaning
        have down : DownRight top .full depth n.leanRight := leaning.leanRight
        cases leaning with
        | intro left right =>
            exact removes_of_down sorted reached present down fun m smaller sorted present =>
              ⟨(ih m.count smaller sorted present rfl).1,
                (ih m.count smaller sorted present rfl).2 reached⟩

omit [Std.TransCmp cmp] in
theorem Removed.withColor {kind : Kind} (removed : Removed kind depth n) :
    ∃ depth, Balanced .black depth (n.withColor .black) := by
  cases kind with
  | red => exact removed.elim Balanced.withColor Balanced.withColor
  | full => exact Balanced.withColor removed
  | two =>
      rcases removed with balanced | ⟨lower, -, redRed⟩ | ⟨-, rfl⟩
      · exact balanced.withColor
      · exact redRed.withColor
      · exact ⟨0, .empty⟩

end FLLRBNode

end DocumentRelay
