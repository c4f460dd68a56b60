import Mathlib.Algebra.Group.Nat.Defs
import DocumentRelay.Lib.SortedAssoc

/-!
# Left-leaning red-black trees

`FLLRBValueNode` and `FLLRBEmptyNode`, the nodes behind a sorted dictionary of more than
twenty-five entries.  Nodes are never changed, so every method is a function on trees.

Two steps of the source throw a subtree away: `removeMin` returns the empty node when there
is no left child, whatever the right one is, and `remove` does so when there is no right
child.  That nothing is lost this way rests on the shape of the tree (`Balanced`): at every
node both sides have the same number of black nodes on every way down, and red nodes are
black nodes' left children.

This module has the nodes, the shape, and insertion; `LLRBRemove` has removal.
-/

namespace DocumentRelay

/-- `FLLRBColor`, `RED` and `BLACK`. -/
inductive FLLRBColor where
  | red
  | black
  deriving DecidableEq, Repr

/-- The color that is not this one. -/
def FLLRBColor.flip : FLLRBColor → FLLRBColor
  | .red => .black
  | .black => .red

/-- `FLLRBEmptyNode` and `FLLRBValueNode`. -/
inductive FLLRBNode (κ β : Type) where
  | empty
  | node (key : κ) (value : β) (color : FLLRBColor) (left right : FLLRBNode κ β)
  deriving DecidableEq, Repr

namespace FLLRBNode

variable {κ β : Type}

/-! ## The nodes -/

/-- `isEmpty`. -/
def isEmpty : FLLRBNode κ β → Bool
  | empty => true
  | node .. => false

/-- `isRed`. -/
def isRed : FLLRBNode κ β → Bool
  | empty => false
  | node _ _ color _ _ => color = .red

/-- `left`; that of the empty node is `nil`, which is asked like the empty node. -/
def left : FLLRBNode κ β → FLLRBNode κ β
  | empty => empty
  | node _ _ _ l _ => l

/-- `right`. -/
def right : FLLRBNode κ β → FLLRBNode κ β
  | empty => empty
  | node _ _ _ _ r => r

/-- `count`. -/
def count : FLLRBNode κ β → ℕ
  | empty => 0
  | node _ _ _ l r => l.count + 1 + r.count

/-- `inorderTraversal:`, the entries in the order they are met. -/
def toList : FLLRBNode κ β → List (κ × β)
  | empty => []
  | node key value _ l r => l.toList ++ (key, value) :: r.toList

/-- `copyWith:`, with a color, a left or a right child.  The empty node stays as it is. -/
def withColor (color : FLLRBColor) : FLLRBNode κ β → FLLRBNode κ β
  | empty => empty
  | node key value _ l r => node key value color l r

@[inherit_doc withColor]
def withLeft : FLLRBNode κ β → FLLRBNode κ β → FLLRBNode κ β
  | empty, _ => empty
  | node key value color _ r, l => node key value color l r

@[inherit_doc withColor]
def withRight : FLLRBNode κ β → FLLRBNode κ β → FLLRBNode κ β
  | empty, _ => empty
  | node key value color l _, r => node key value color l r

/-- A copy in the other color. -/
def flipped : FLLRBNode κ β → FLLRBNode κ β
  | empty => empty
  | node key value color l r => node key value color.flip l r

/-- `rotateLeft`.  Without a right child the copy is one of the empty node. -/
def rotateLeft : FLLRBNode κ β → FLLRBNode κ β
  | node key value color l (node key' value' _ rl rr) =>
      node key' value' color (node key value .red l rl) rr
  | _ => empty

/-- `rotateRight`. -/
def rotateRight : FLLRBNode κ β → FLLRBNode κ β
  | node key value color (node key' value' _ ll lr) r =>
      node key' value' color ll (node key value .red lr r)
  | _ => empty

/-- `colorFlip`. -/
def colorFlip : FLLRBNode κ β → FLLRBNode κ β
  | empty => empty
  | node key value color l r => node key value color.flip l.flipped r.flipped

/-- `fixUp`. -/
def fixUp (n : FLLRBNode κ β) : FLLRBNode κ β :=
  let n := if n.right.isRed && !n.left.isRed then n.rotateLeft else n
  let n := if n.left.isRed && n.left.left.isRed then n.rotateRight else n
  if n.left.isRed && n.right.isRed then n.colorFlip else n

/-- `moveRedLeft`. -/
def moveRedLeft (n : FLLRBNode κ β) : FLLRBNode κ β :=
  let n := n.colorFlip
  if n.right.left.isRed then ((n.withRight n.right.rotateRight).rotateLeft).colorFlip else n

/-- `moveRedRight`. -/
def moveRedRight (n : FLLRBNode κ β) : FLLRBNode κ β :=
  let n := n.colorFlip
  if n.left.left.isRed then n.rotateRight.colorFlip else n

/-- What `check` throws: a red node has a red child, a right child is red, or the two sides
have different numbers of black nodes. -/
inductive CheckError where
  | redChild
  | rightRed
  | blackDepth (left right : ℕ)

/-- `check`: the number of black nodes on every way down. -/
def check : FLLRBNode κ β → Except CheckError ℕ
  | empty => .ok 0
  | node _ _ color l r => do
      if color = .red && l.isRed then throw .redChild
      if r.isRed then throw .rightRed
      let blackDepth ← l.check
      let other ← r.check
      if blackDepth ≠ other then throw (.blackDepth blackDepth other)
      return blackDepth + if color = .red then 0 else 1

/-- `checkMaxDepth`. -/
def checkMaxDepth (n : FLLRBNode κ β) : Except CheckError Bool := do
  let blackDepth ← n.check
  return 2 ^ blackDepth ≤ n.count + 1

variable (cmp : κ → κ → Ordering)

/-- `insertKey:forValue:withComparator:`.  Over an entry of the same key the value is
replaced, and the key is not. -/
def insertKey (key : κ) (value : β) : FLLRBNode κ β → FLLRBNode κ β
  | empty => node key value .red empty empty
  | node key' value' color l r =>
      match cmp key key' with
      | .lt => fixUp (node key' value' color (insertKey key value l) r)
      | .eq => fixUp (node key' value color l r)
      | .gt => fixUp (node key' value' color l (insertKey key value r))

/-- The loop of `get:`. -/
def get (key : κ) : FLLRBNode κ β → Option β
  | empty => none
  | node key' value _ l r =>
      match cmp key key' with
      | .eq => some value
      | .lt => l.get key
      | .gt => r.get key

section Accessors

variable (key : κ) (value : β) (color : FLLRBColor) (l r : FLLRBNode κ β)

@[simp] theorem isEmpty_empty : (empty : FLLRBNode κ β).isEmpty = true := rfl

@[simp] theorem isEmpty_node : (node key value color l r).isEmpty = false := rfl

@[simp] theorem isRed_empty : (empty : FLLRBNode κ β).isRed = false := rfl

@[simp] theorem isRed_red : (node key value .red l r).isRed = true := rfl

@[simp] theorem isRed_black : (node key value .black l r).isRed = false := rfl

@[simp] theorem left_empty : (empty : FLLRBNode κ β).left = empty := rfl

@[simp] theorem left_node : (node key value color l r).left = l := rfl

@[simp] theorem right_empty : (empty : FLLRBNode κ β).right = empty := rfl

@[simp] theorem right_node : (node key value color l r).right = r := rfl

@[simp] theorem flipped_empty : (empty : FLLRBNode κ β).flipped = empty := rfl

@[simp] theorem flipped_node :
    (node key value color l r).flipped = node key value color.flip l r := rfl

end Accessors

/-! ## Rotations keep the entries -/

section Entries

variable (n : FLLRBNode κ β)

@[simp] theorem toList_flipped : n.flipped.toList = n.toList := by
  cases n <;> rfl

@[simp] theorem toList_withColor (color : FLLRBColor) :
    (n.withColor color).toList = n.toList := by
  cases n <;> rfl

@[simp] theorem toList_colorFlip : n.colorFlip.toList = n.toList := by
  cases n <;> simp [colorFlip, toList]

variable {n}

theorem toList_rotateLeft (red : n.right.isRed = true) : n.rotateLeft.toList = n.toList := by
  cases n with
  | empty => cases red
  | node key value color l r =>
      cases r with
      | empty => cases red
      | node key' value' color' rl rr => simp [rotateLeft, toList]

theorem toList_rotateRight (red : n.left.isRed = true) : n.rotateRight.toList = n.toList := by
  cases n with
  | empty => cases red
  | node key value color l r =>
      cases l with
      | empty => cases red
      | node key' value' color' ll lr => simp [rotateRight, toList]

@[simp] theorem toList_fixUp (n : FLLRBNode κ β) : n.fixUp.toList = n.toList := by
  have first :
      (if n.right.isRed && !n.left.isRed then n.rotateLeft else n).toList = n.toList := by
    split
    case isTrue red => exact toList_rotateLeft (Bool.and_eq_true_iff.mp red).1
    · rfl
  have second : ∀ m : FLLRBNode κ β,
      (if m.left.isRed && m.left.left.isRed then m.rotateRight else m).toList = m.toList := by
    intro m
    split
    case isTrue red => exact toList_rotateRight (Bool.and_eq_true_iff.mp red).1
    · rfl
  have third : ∀ m : FLLRBNode κ β,
      (if m.left.isRed && m.right.isRed then m.colorFlip else m).toList = m.toList := by
    intro m
    split
    · exact toList_colorFlip m
    · rfl
  exact (third _).trans ((second _).trans first)

end Entries

/-! ## The shape -/

/-- **`Balanced color depth n`**: the root has this color, every way down has `depth` black
nodes, and every red node is the left child of a black one, or the root. -/
inductive Balanced : FLLRBColor → ℕ → FLLRBNode κ β → Prop
  | empty : Balanced .black 0 empty
  | red {key : κ} {value : β} {depth : ℕ} {l r : FLLRBNode κ β} (left : Balanced .black depth l)
      (right : Balanced .black depth r) : Balanced .red depth (node key value .red l r)
  | two {key : κ} {value : β} {depth : ℕ} {l r : FLLRBNode κ β} (left : Balanced .black depth l)
      (right : Balanced .black depth r) :
        Balanced .black (depth + 1) (node key value .black l r)
  | three {key : κ} {value : β} {depth : ℕ} {l r : FLLRBNode κ β} (left : Balanced .red depth l)
      (right : Balanced .black depth r) :
        Balanced .black (depth + 1) (node key value .black l r)

variable {depth : ℕ} {n l r : FLLRBNode κ β} {key : κ} {value : β}

/-- The kind of a balanced tree is the colour of its root. -/
theorem Balanced.isRed {color : FLLRBColor} (balanced : Balanced color depth n) :
    n.isRed = decide (color = .red) := by
  cases balanced <;> rfl

theorem Balanced.left_black (balanced : Balanced .red depth n) : n.left.isRed = false := by
  cases balanced with
  | red left right => exact left.isRed

/-- In the other color a red node counts. -/
theorem Balanced.flipped_red (balanced : Balanced .red depth n) :
    Balanced .black (depth + 1) n.flipped := by
  cases balanced with
  | red left right => exact .two left right

/-- **The source's own check passes.** -/
theorem Balanced.check {color : FLLRBColor} (balanced : Balanced color depth n) :
    n.check = .ok depth := by
  induction balanced with
  | empty => rfl
  | red left right ihl ihr => simp [FLLRBNode.check, ihl, ihr, left.isRed, right.isRed, bind,
      Except.bind, pure, Except.pure]
  | two left right ihl ihr => simp [FLLRBNode.check, ihl, ihr, left.isRed, right.isRed, bind,
      Except.bind, pure, Except.pure]
  | three left right ihl ihr => simp [FLLRBNode.check, ihl, ihr, left.isRed, right.isRed, bind,
      Except.bind, pure, Except.pure]

/-- A tree is no deeper than its entries allow. -/
theorem Balanced.le_count {color : FLLRBColor} (balanced : Balanced color depth n) :
    2 ^ depth ≤ n.count + 1 := by
  induction balanced with
  | empty => exact Nat.le_refl 1
  | red left right ihl ihr =>
      rw [count]
      omega
  | two left right ihl ihr =>
      rw [count, Nat.pow_succ]
      omega
  | three left right ihl ihr =>
      rw [count, Nat.pow_succ]
      omega

/-! ## Repairing -/

/-- A red node with a red left child, which must not stay. -/
inductive RedRed : ℕ → FLLRBNode κ β → Prop
  | intro {key : κ} {value : β} {depth : ℕ} {l r : FLLRBNode κ β} (left : Balanced .red depth l)
      (right : Balanced .black depth r) : RedRed depth (node key value .red l r)

section FixUp

variable {key' : κ} {value' : β} {color : FLLRBColor} {ll lr rl rr : FLLRBNode κ β}

/-- A node with black children needs no repair. -/
theorem fixUp_of_black (left : l.isRed = false) (right : r.isRed = false) :
    fixUp (node key value color l r) = node key value color l r := by
  simp [fixUp, left, right]

/-- Nor does one with a red child on the left only, and none below it. -/
theorem fixUp_of_left_red (left : l.isRed = true) (below : l.left.isRed = false)
    (right : r.isRed = false) :
    fixUp (node key value color l r) = node key value color l r := by
  simp [fixUp, left, below, right]

/-- A red child on the right is rotated to the left. -/
theorem fixUp_of_right_red (left : l.isRed = false) (right : rr.isRed = false) :
    fixUp (node key value color l (node key' value' .red rl rr)) =
      node key' value' color (node key value .red l rl) rr := by
  simp [fixUp, rotateLeft, left, right]

/-- Two red children hand their colour up. -/
theorem fixUp_of_both_red (left : l.isRed = true) (below : l.left.isRed = false)
    (right : r.isRed = true) :
    fixUp (node key value color l r) = node key value color.flip l.flipped r.flipped := by
  simp [fixUp, colorFlip, left, below, right]

/-- Two red nodes in a row on the left are rotated, and hand their colour up. -/
theorem fixUp_of_redRed (left : ll.isRed = true) (right : r.isRed = false) :
    fixUp (node key value color (node key' value' .red ll lr) r) =
      node key' value' color.flip ll.flipped (node key value .black lr r) := by
  simp [fixUp, rotateRight, colorFlip, flipped, FLLRBColor.flip, left, right]

/-- A black node is repaired, unless both children are red. -/
theorem fixUp_black {color color' : FLLRBColor} (left : Balanced color depth l)
    (right : Balanced color' depth r) (some_black : color = .black ∨ color' = .black) :
    Balanced .black (depth + 1) (fixUp (node key value .black l r)) := by
  cases color' with
  | black =>
      cases color with
      | black =>
          rw [fixUp_of_black left.isRed right.isRed]
          exact .two left right
      | red =>
          rw [fixUp_of_left_red left.isRed left.left_black right.isRed]
          exact .three left right
  | red =>
      obtain rfl : color = .black := some_black.resolve_right (by simp)
      cases right with
      | red rl rr =>
          rw [fixUp_of_right_red left.isRed rr.isRed]
          exact .three (.red left rl) rr

/-- With two red children it gives its black to both. -/
theorem fixUp_black_of_red (left : Balanced .red depth l) (right : Balanced .red depth r) :
    Balanced .red (depth + 1) (fixUp (node key value .black l r)) := by
  rw [fixUp_of_both_red left.isRed left.left_black right.isRed]
  exact .red left.flipped_red right.flipped_red

theorem fixUp_black_of_redRed (left : RedRed depth l) (right : Balanced .black depth r) :
    Balanced .red (depth + 1) (fixUp (node key value .black l r)) := by
  cases left with
  | intro left below =>
      rw [fixUp_of_redRed left.isRed right.isRed]
      exact .red left.flipped_red (.two below right)

theorem fixUp_red (left : Balanced .black depth l) (right : Balanced .black depth r) :
    Balanced .red depth (fixUp (node key value .red l r)) := by
  rw [fixUp_of_black left.isRed right.isRed]
  exact .red left right

/-- A red node with one red child is left to the node above it. -/
theorem fixUp_red_of_left_red (left : Balanced .red depth l) (right : Balanced .black depth r) :
    RedRed depth (fixUp (node key value .red l r)) := by
  rw [fixUp_of_left_red left.isRed left.left_black right.isRed]
  exact .intro left right

theorem fixUp_red_of_right_red (left : Balanced .black depth l)
    (right : Balanced .red depth r) :
    RedRed depth (fixUp (node key value .red l r)) := by
  cases right with
  | red rl rr =>
      rw [fixUp_of_right_red left.isRed rr.isRed]
      exact .intro (.red left rl) rr

/-- With two red children it was a black node before. -/
theorem fixUp_red_of_red (left : Balanced .red depth l) (right : Balanced .red depth r) :
    Balanced .black (depth + 2) (fixUp (node key value .red l r)) := by
  rw [fixUp_of_both_red left.isRed left.left_black right.isRed]
  exact .two left.flipped_red right.flipped_red

end FixUp

/-! ## Insertion -/

/-- In black any root is in order. -/
theorem Balanced.withColor {color : FLLRBColor} (balanced : Balanced color depth n) :
    ∃ depth, Balanced .black depth (n.withColor .black) := by
  cases balanced with
  | empty => exact ⟨_, .empty⟩
  | red left right => exact ⟨_, .two left right⟩
  | two left right => exact ⟨_, .two left right⟩
  | three left right => exact ⟨_, .three left right⟩

theorem RedRed.withColor (redRed : RedRed depth n) :
    ∃ depth, Balanced .black depth (n.withColor .black) := by
  cases redRed with
  | intro left right => exact ⟨_, .three left right⟩

variable {cmp : κ → κ → Ordering}

/-- What an insertion leaves of a tree. -/
def Inserted : FLLRBColor → ℕ → FLLRBNode κ β → Prop
  | .black, depth, n => Balanced .black depth n ∨ Balanced .red depth n
  | .red, depth, n => Balanced .red depth n ∨ RedRed depth n

theorem Inserted.withColor {color : FLLRBColor} (inserted : Inserted color depth n) :
    ∃ depth, Balanced .black depth (n.withColor .black) := by
  cases color with
  | black => exact inserted.elim Balanced.withColor Balanced.withColor
  | red => exact inserted.elim Balanced.withColor RedRed.withColor

/-- An insertion leaves a tree of the same black height, with at most two red nodes in a row at
its root. -/
theorem inserted_insertKey {color : FLLRBColor} (balanced : Balanced color depth n) (key : κ)
    (value : β) : Inserted color depth (insertKey cmp key value n) := by
  induction balanced with
  | empty => exact Or.inr (.red .empty .empty)
  | red left right ihl ihr =>
      rw [insertKey]
      split
      · rcases ihl with black | red
        · exact Or.inl (fixUp_red black right)
        · exact Or.inr (fixUp_red_of_left_red red right)
      · exact Or.inl (fixUp_red left right)
      · rcases ihr with black | red
        · exact Or.inl (fixUp_red left black)
        · exact Or.inr (fixUp_red_of_right_red left red)
  | two left right ihl ihr =>
      rw [insertKey]
      split
      · rcases ihl with black | red
        · exact Or.inl (fixUp_black black right (Or.inl rfl))
        · exact Or.inl (fixUp_black red right (Or.inr rfl))
      · exact Or.inl (fixUp_black left right (Or.inl rfl))
      · rcases ihr with black | red
        · exact Or.inl (fixUp_black left black (Or.inl rfl))
        · exact Or.inl (fixUp_black left red (Or.inl rfl))
  | three left right ihl ihr =>
      rw [insertKey]
      split
      · rcases ihl with red | redRed
        · exact Or.inl (fixUp_black red right (Or.inr rfl))
        · exact Or.inr (fixUp_black_of_redRed redRed right)
      · exact Or.inl (fixUp_black left right (Or.inr rfl))
      · rcases ihr with black | red
        · exact Or.inl (fixUp_black left black (Or.inr rfl))
        · exact Or.inr (fixUp_black_of_red left red)

variable [Std.TransCmp cmp]

/-- The entries after an insertion. -/
theorem toList_insertKey {n : FLLRBNode κ β}
    (sorted : SortedAssoc.Sorted cmp n.toList) (key : κ)
    (value : β) :
    (insertKey cmp key value n).toList = SortedAssoc.put cmp key value n.toList := by
  induction n with
  | empty => rfl
  | node key' value' color l r ihl ihr =>
      rw [toList] at sorted ⊢
      obtain ⟨sortedLeft, sortedRight, -⟩ := List.pairwise_append.mp sorted
      have around := sorted.around (k := key)
      rw [insertKey]
      split
      case h_1 smaller =>
        rw [toList_fixUp, toList, ihl sortedLeft, SortedAssoc.put_append_of_lt smaller]
      case h_2 same =>
        rw [toList_fixUp, toList, SortedAssoc.put_append_of_gt (around.1 (by simp [same])),
          SortedAssoc.put, same]
      case h_3 larger =>
        rw [toList_fixUp, toList, ihr sortedRight.tail,
          SortedAssoc.put_append_of_gt (around.1 (by simp [larger])), SortedAssoc.put, larger]

/-- What the loop of `get:` finds. -/
theorem get_eq_find {n : FLLRBNode κ β} (sorted : SortedAssoc.Sorted cmp n.toList) (key : κ) :
    n.get cmp key = SortedAssoc.find cmp key n.toList := by
  induction n with
  | empty => rfl
  | node key' value' color l r ihl ihr =>
      rw [toList] at sorted ⊢
      obtain ⟨sortedLeft, sortedRight, -⟩ := List.pairwise_append.mp sorted
      have around := sorted.around (k := key)
      rw [get, SortedAssoc.find]
      cases order : cmp key key' with
      | lt => rw [SortedAssoc.findEntry_append_of_lt order, ihl sortedLeft, SortedAssoc.find]
      | eq =>
          rw [SortedAssoc.findEntry_append_of_gt (around.1 (by simp [order])),
            SortedAssoc.findEntry, order]
          rfl
      | gt =>
          rw [SortedAssoc.findEntry_append_of_gt (around.1 (by simp [order])),
            SortedAssoc.findEntry, order, ihr sortedRight.tail, SortedAssoc.find]

end FLLRBNode

end DocumentRelay
