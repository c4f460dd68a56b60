import DocumentRelay.Firebase.KeyOrder
import DocumentRelay.Firebase.LLRBRemove
import DocumentRelay.Lib.Loop

/-!
# Sorted dictionaries

`FImmutableSortedDictionary`, in which a node keeps its children and a tree of writes its
branches.  Up to twenty-five entries are in two arrays (`FArraySortedDictionary`); with one
more a red-black tree is built of them (`FTreeSortedDictionary`), and it stays one.

A tree carries its shape and its order, so that one that is out of shape cannot be built.

* `FTreeSortedDictionary.fromSorted` — the tree that is built from an array, one pennant
  after the other, is in shape and holds the array.
* `FImmutableSortedDictionary.exists_insertKey`, `toList_removeKey`, `get_eq_find` — a
  dictionary does what a sorted association list does, by which `FImmutableTree` keeps its
  branches.
* `FImmutableSortedDictionary.get_of_edits` — after any edits, each key has the value it was
  given last.
* `FImmutableSortedDictionary.children_of_updates` — a node with its children in a list is
  what an `FChildrenNode` holds in its dictionary, for keys that are told apart.

The arrays of keys and values are one list of entries.  The number of pennants is a
logarithm in floating point in the source, which is exact for the counts it can meet.
-/

namespace DocumentRelay

variable {κ β : Type}

/-! ## Building a tree -/

namespace FLLRBNode

/-- `buildBalancedTree:dictionary:subArrayStartIndex:length:`. -/
def buildBalancedTree (keys : List (κ × β)) (startIndex length : ℕ) : FLLRBNode κ β :=
  let length' := Nat.min (keys.length - startIndex) length
  if length' = 0 then empty
  else if length' = 1 then
    match keys[startIndex]? with
    | some (key, value) => node key value .black empty empty
    | none => empty
  else
    let middle := length' / 2
    match keys[startIndex + middle]? with
    | some (key, value) =>
        node key value .black (buildBalancedTree keys startIndex middle)
          (buildBalancedTree keys (startIndex + middle + 1) middle)
    | none => empty
  termination_by length
  decreasing_by
  all_goals
    have bound : Nat.min (keys.length - startIndex) length ≤ length := Nat.min_le_right _ _
    omega

/-- `buildPennant`, with what is attached to its left later. -/
def buildPennant (keys : List (κ × β)) (color : FLLRBColor) (index chunkSize : ℕ)
    (left : FLLRBNode κ β) : FLLRBNode κ β :=
  match keys[index - chunkSize]? with
  | some (key, value) =>
      node key value color left (buildBalancedTree keys (index - chunkSize + 1) (chunkSize - 1))
  | none => empty

/-- `rootFrom12List:keyList:dictionary:`, from the digit `count - 1` of `bits` down, with the
keys before `index` still to come. -/
def rootFrom12List (keys : List (κ × β)) (bits : ℕ) : ℕ → ℕ → FLLRBNode κ β
  | 0, _ => empty
  | count + 1, index =>
      let chunkSize := 2 ^ count
      if bits.testBit count then
        buildPennant keys .black index chunkSize
          (buildPennant keys .red (index - chunkSize) chunkSize
            (rootFrom12List keys bits count (index - chunkSize - chunkSize)))
      else buildPennant keys .black index chunkSize
        (rootFrom12List keys bits count (index - chunkSize))

section Builder

variable {keys : List (κ × β)}

/-- An entry in the middle of a part of the array. -/
theorem take_drop_middle {start m : ℕ} {e : κ × β} (here : keys[start + m]? = some e) (m' : ℕ) :
    (keys.drop start).take (m + 1 + m') =
      (keys.drop start).take m ++ e :: (keys.drop (start + m + 1)).take m' := by
  obtain ⟨inside, eq⟩ := List.getElem?_eq_some_iff.mp here
  rw [Nat.add_assoc, List.take_add, List.drop_drop, List.drop_eq_getElem_cons inside, eq,
    Nat.add_comm 1 m', List.take_succ_cons]

theorem buildBalancedTree_zero (start : ℕ) : buildBalancedTree keys start 0 = empty := by
  rw [buildBalancedTree]
  simp

/-- **A part of the right size becomes a full tree.** -/
theorem balanced_buildBalancedTree (depth start : ℕ)
    (fits : start + (2 ^ depth - 1) ≤ keys.length) :
    Balanced .black depth (buildBalancedTree keys start (2 ^ depth - 1)) ∧
      (buildBalancedTree keys start (2 ^ depth - 1)).toList =
        (keys.drop start).take (2 ^ depth - 1) := by
  induction depth generalizing start with
  | zero =>
      rw [Nat.pow_zero, Nat.sub_self, buildBalancedTree_zero, List.take_zero]
      exact ⟨.empty, rfl⟩
  | succ depth ih =>
      have positive : 0 < 2 ^ depth := Nat.two_pow_pos depth
      have double : 2 ^ (depth + 1) - 1 = (2 ^ depth - 1) + 1 + (2 ^ depth - 1) := by
        rw [Nat.pow_succ]
        omega
      rw [double] at fits ⊢
      generalize 2 ^ depth - 1 = m at fits ih ⊢
      obtain ⟨e, here⟩ : ∃ e, keys[start + m]? = some e :=
        ⟨_, List.getElem?_eq_getElem (by omega)⟩
      have left := ih start (by omega)
      have right := ih (start + m + 1) (by omega)
      have all : Nat.min (keys.length - start) (m + 1 + m) = m + 1 + m :=
        Nat.min_eq_right (by omega)
      have middle : (m + 1 + m) / 2 = m := by omega
      have built : buildBalancedTree keys start (m + 1 + m) =
          node e.1 e.2 .black (buildBalancedTree keys start m)
            (buildBalancedTree keys (start + m + 1) m) := by
        rw [buildBalancedTree]
        simp only [all]
        rw [if_neg (by omega)]
        split
        case isTrue single =>
          obtain rfl : m = 0 := by omega
          have here' : keys[start]? = some e := here
          rw [here', buildBalancedTree_zero, buildBalancedTree_zero]
        case isFalse => rw [middle, here]
      rw [built, take_drop_middle here, ← left.2, ← right.2]
      exact ⟨.two left.1 right.1, rfl⟩

/-- A pennant, and what it holds. -/
theorem exists_buildPennant (depth index : ℕ) (lower : 2 ^ depth ≤ index)
    (upper : index ≤ keys.length)
    (color : FLLRBColor) {left : FLLRBNode κ β}
    (before : left.toList = keys.take (index - 2 ^ depth)) :
    (buildPennant keys color index (2 ^ depth) left).toList = keys.take index ∧
      ∃ key value right, buildPennant keys color index (2 ^ depth) left =
        node key value color left right ∧
        Balanced .black depth right := by
  have positive : 0 < 2 ^ depth := Nat.two_pow_pos depth
  obtain ⟨e, here⟩ : ∃ e, keys[index - 2 ^ depth]? = some e :=
    ⟨_, List.getElem?_eq_getElem (by omega)⟩
  obtain ⟨balanced, entries⟩ :=
    balanced_buildBalancedTree depth (index - 2 ^ depth + 1)
      (by omega : index - 2 ^ depth + 1 + (2 ^ depth - 1) ≤ keys.length)
  have built : buildPennant keys color index (2 ^ depth) left =
      node e.1 e.2 color left
        (buildBalancedTree keys (index - 2 ^ depth + 1) (2 ^ depth - 1)) := by
    rw [buildPennant, here]
  refine ⟨?_, _, _, _, built, balanced⟩
  have here' : keys[0 + (index - 2 ^ depth)]? = some e := by rwa [Nat.zero_add]
  have middle := take_drop_middle here' (2 ^ depth - 1)
  have total : index - 2 ^ depth + 1 + (2 ^ depth - 1) = index := by omega
  rw [List.drop_zero, total, Nat.zero_add] at middle
  rw [built, toList, before, entries, middle]

/-- **The pennants make a tree in shape, which holds the array.** -/
theorem balanced_rootFrom12List {bits count : ℕ} (index : ℕ)
    (size : index = 2 ^ count - 1 + bits % 2 ^ count)
    (upper : index ≤ keys.length) :
    Balanced .black count (rootFrom12List keys bits count index) ∧
      (rootFrom12List keys bits count index).toList = keys.take index := by
  induction count generalizing index with
  | zero =>
      have none : index = 0 := by simpa [Nat.mod_one] using size
      rw [none]
      exact ⟨.empty, rfl⟩
  | succ count ih =>
      have positive : 0 < 2 ^ count := Nat.two_pow_pos count
      rw [Nat.mod_pow_succ, Nat.pow_succ] at size
      rw [rootFrom12List]
      have value : bits.testBit count = decide (bits / 2 ^ count % 2 = 1) :=
        Nat.testBit_eq_decide_div_mod_eq
      cases digit : bits.testBit count with
      | false =>
          have zero : bits / 2 ^ count % 2 = 0 := by
            have not_one := of_decide_eq_false (value.symm.trans digit)
            omega
          rw [zero, Nat.mul_zero] at size
          obtain ⟨balanced, entries⟩ := ih (index - 2 ^ count) (by omega) (by omega)
          obtain ⟨all, key, value, right, eq, perfect⟩ :=
            exists_buildPennant count index (by omega) upper .black entries
          rw [if_neg (by simp)]
          refine ⟨?_, all⟩
          rw [eq]
          exact .two balanced perfect
      | true =>
          rw [of_decide_eq_true (value.symm.trans digit), Nat.mul_one] at size
          obtain ⟨balanced, entries⟩ :=
            ih (index - 2 ^ count - 2 ^ count) (by omega) (by omega)
          obtain ⟨upTo, key, value, right, eq, perfect⟩ :=
            exists_buildPennant count (index - 2 ^ count) (by omega) (by omega) .red entries
          obtain ⟨all, key', value', right', eq', perfect'⟩ :=
            exists_buildPennant count index (by omega) upper .black upTo
          rw [if_pos rfl]
          refine ⟨?_, all⟩
          rw [eq', eq]
          exact .three (.red balanced perfect) perfect'

end Builder

end FLLRBNode

/-! ## Trees -/

/-- `FTreeSortedDictionary`. -/
structure FTreeSortedDictionary (β : Type) (cmp : κ → κ → Ordering) where
  root : FLLRBNode κ β
  balanced : ∃ depth, FLLRBNode.Balanced .black depth root
  sorted : SortedAssoc.Sorted cmp root.toList

variable {cmp : κ → κ → Ordering}

/-- The number of entries decides how many pennants there are, and which come in pairs. -/
theorem pennants (length : ℕ) :
    length = 2 ^ (length + 1).log2 - 1 + (length + 1) % 2 ^ (length + 1).log2 % 2 ^
      (length + 1).log2 := by
  have lower : 2 ^ (length + 1).log2 ≤ length + 1 := Nat.log2_self_le (by omega)
  have upper : length + 1 < 2 ^ ((length + 1).log2 + 1) := Nat.lt_log2_self
  rw [Nat.pow_succ] at upper
  rw [Nat.mod_mod, Nat.mod_eq_sub_mod lower, Nat.mod_eq_of_lt (by omega)]
  omega

namespace FTreeSortedDictionary

/-- The tree of a sorted array. -/
def fromSorted (keys : List (κ × β)) (sorted : SortedAssoc.Sorted cmp keys) :
    FTreeSortedDictionary β cmp where
  root := .rootFrom12List keys ((keys.length + 1) % 2 ^ (keys.length + 1).log2)
    (keys.length + 1).log2
    keys.length
  balanced := ⟨_,
    (FLLRBNode.balanced_rootFrom12List _ (pennants keys.length) (Nat.le_refl _)).1⟩
  sorted := by
    rw [(FLLRBNode.balanced_rootFrom12List _ (pennants keys.length) (Nat.le_refl _)).2,
      List.take_length]
    exact sorted

/-- The tree that is built holds the entries it is built from. -/
theorem toList_fromSorted (keys : List (κ × β)) (sorted : SortedAssoc.Sorted cmp keys) :
    (fromSorted keys sorted).root.toList = keys := by
  have entries := (FLLRBNode.balanced_rootFrom12List _ (pennants keys.length) (Nat.le_refl _)).2
  rwa [List.take_length] at entries

/-- `fromDictionary:withComparator:`, which throws if two keys are the same to the
comparator. -/
def fromDictionary (cmp : κ → κ → Ordering) (dictionary : List (κ × β)) :
    Option (FTreeSortedDictionary β cmp) :=
  let sortedKeyList := dictionary.mergeSort fun a b => (cmp a.1 b.1).isLE
  if sorted : SortedAssoc.Sorted cmp sortedKeyList then some
    (fromSorted sortedKeyList sorted) else none

/-- `get:`. -/
def get (key : κ) (self : FTreeSortedDictionary β cmp) : Option β := self.root.get cmp key

/-- `contains:`. -/
def contains (key : κ) (self : FTreeSortedDictionary β cmp) : Bool := (self.get key).isSome

section Edits

variable [Std.TransCmp cmp] (key : κ) (self : FTreeSortedDictionary β cmp)

theorem get_eq_find : self.get key = SortedAssoc.find cmp key self.root.toList :=
  FLLRBNode.get_eq_find self.sorted key

/-- `insertKey:withValue:`. -/
def insertKey (value : β) : FTreeSortedDictionary β cmp where
  root := (self.root.insertKey cmp key value).withColor .black
  balanced := by
    obtain ⟨depth, balanced⟩ := self.balanced
    exact (FLLRBNode.inserted_insertKey balanced key value).withColor
  sorted := by
    rw [FLLRBNode.toList_withColor, FLLRBNode.toList_insertKey self.sorted]
    exact self.sorted.put key value

theorem toList_insertKey (value : β) :
    (self.insertKey key value).root.toList =
      SortedAssoc.put cmp key value self.root.toList := by
  rw [insertKey, FLLRBNode.toList_withColor, FLLRBNode.toList_insertKey self.sorted]

/-- A key that is there can be removed. -/
theorem removed_of_contains (here : self.contains key = true) :
    ∃ kind depth, FLLRBNode.Removes cmp key kind depth self.root := by
  rw [contains, get_eq_find, SortedAssoc.find, Option.isSome_map] at here
  obtain ⟨e, found⟩ := Option.isSome_iff_exists.mp here
  obtain ⟨mem, same⟩ := SortedAssoc.mem_of_findEntry found
  obtain ⟨depth, balanced⟩ := self.balanced
  have some_entry : self.root.isEmpty = false := by
    cases shape : self.root with
    | empty =>
        rw [shape] at mem
        cases mem
    | node => rfl
  obtain ⟨kind, -, entry⟩ := balanced.exists_entry some_entry
  exact ⟨kind, depth, (FLLRBNode.removes_of_present self.sorted ⟨e, mem, same⟩).1 entry⟩

/-- `removeKey:`. -/
def removeKey : FTreeSortedDictionary β cmp :=
  if here : self.contains key then
    { root := (self.root.remove cmp key).withColor .black
      balanced := by
        obtain ⟨kind, depth, removed, -⟩ := self.removed_of_contains key here
        exact removed.withColor
      sorted := by
        obtain ⟨kind, depth, -, entries⟩ := self.removed_of_contains key here
        rw [FLLRBNode.toList_withColor, entries]
        exact self.sorted.erase key }
  else self

theorem toList_removeKey :
    (self.removeKey key).root.toList = SortedAssoc.erase cmp key self.root.toList := by
  rw [removeKey]
  split
  case isTrue here =>
    obtain ⟨kind, depth, -, entries⟩ := self.removed_of_contains key here
    rw [FLLRBNode.toList_withColor, entries]
  case isFalse absent =>
    refine (SortedAssoc.erase_of_findEntry ?_).symm
    rwa [contains, get_eq_find, SortedAssoc.find, Option.isSome_map,
      Option.not_isSome_iff_eq_none] at absent

end Edits

end FTreeSortedDictionary

/-! ## Arrays -/

namespace FArraySortedDictionary

section Arrays

variable (cmp) (key : κ) (value : β)

/-- `findKey:`. -/
def findKey : List (κ × β) → Option ℕ
  | [] => none
  | e :: rest =>
      match cmp key e.1 with
      | .eq => some 0
      | .lt => none
      | .gt => (findKey rest).map (· + 1)

/-- `findInsertPositionForKey:`. -/
def findInsertPositionForKey : List (κ × β) → ℕ
  | [] => 0
  | e :: rest => if cmp e.1 key = .lt then findInsertPositionForKey rest + 1 else 0

/-- `insertKey:withValue:` below the threshold. -/
def insertKey (entries : List (κ × β)) : List (κ × β) :=
  match findKey cmp key entries with
  | some pos => entries.set pos (key, value)
  | none => entries.insertIdx (findInsertPositionForKey cmp key entries) (key, value)

/-- `removeKey:`. -/
def removeKey (entries : List (κ × β)) : List (κ × β) :=
  match findKey cmp key entries with
  | some pos => entries.eraseIdx pos
  | none => entries

/-- `get:`. -/
def get (entries : List (κ × β)) : Option β :=
  (findKey cmp key entries).bind fun pos => entries[pos]?.map Prod.snd

end Arrays

variable (key : κ) (value : β) (entries : List (κ × β))

theorem insertKey_eq_insert [Std.OrientedCmp cmp] :
    insertKey cmp key value entries = SortedAssoc.insert cmp key value entries := by
  induction entries with
  | nil => rfl
  | cons e rest ih =>
      rw [insertKey] at ih
      rw [insertKey, findKey, findInsertPositionForKey, SortedAssoc.insert, ← ih]
      cases order : cmp key e.1 with
      | lt =>
          have turned : cmp e.1 key = .gt := Std.OrientedCmp.gt_of_lt order
          simp [turned]
      | eq => rfl
      | gt =>
          have turned : cmp e.1 key = .lt := Std.OrientedCmp.lt_of_gt order
          cases found : findKey cmp key rest with
          | some pos => rfl
          | none => simp [turned]

theorem removeKey_eq_erase : removeKey cmp key entries = SortedAssoc.erase cmp key entries := by
  induction entries with
  | nil => rfl
  | cons e rest ih =>
      rw [removeKey] at ih
      rw [removeKey, findKey, SortedAssoc.erase, ← ih]
      cases order : cmp key e.1 with
      | lt => rfl
      | eq => rfl
      | gt =>
          cases found : findKey cmp key rest with
          | some pos => rfl
          | none => rfl

theorem get_eq_find : get cmp key entries = SortedAssoc.find cmp key entries := by
  induction entries with
  | nil => rfl
  | cons e rest ih =>
      rw [get, SortedAssoc.find] at ih
      rw [get, findKey, SortedAssoc.find, SortedAssoc.findEntry]
      cases order : cmp key e.1 with
      | lt => rfl
      | eq => rfl
      | gt =>
          rw [← ih]
          cases found : findKey cmp key rest with
          | some pos => simp
          | none => rfl

/-- A key without a position is not there. -/
theorem findEntry_of_findKey (absent : findKey cmp key entries = none) :
    SortedAssoc.findEntry cmp key entries = none := by
  induction entries with
  | nil => rfl
  | cons e rest ih =>
      rw [findKey] at absent
      rw [SortedAssoc.findEntry]
      cases order : cmp key e.1 with
      | lt => rfl
      | eq => simp [order] at absent
      | gt =>
          rw [order] at absent
          exact ih (Option.map_eq_none_iff.mp absent)

/-- Writing over an entry adds none. -/
theorem length_insertKey_of_findKey (found : findKey cmp key entries ≠ none) :
    (insertKey cmp key value entries).length = entries.length := by
  rw [insertKey]
  split
  · exact List.length_set
  case h_2 absent => exact absurd absent found

theorem length_insertKey_le :
    (insertKey cmp key value entries).length ≤ entries.length + 1 := by
  rw [insertKey]
  split
  · rw [List.length_set]
    exact Nat.le_succ _
  · rw [List.length_insertIdx]
    split
    · exact Nat.le_refl _
    · exact Nat.le_succ _

variable {entries}

theorem sorted_insertKey [Std.TransCmp cmp] (sorted : SortedAssoc.Sorted cmp entries) :
    SortedAssoc.Sorted cmp (insertKey cmp key value entries) := by
  rw [insertKey_eq_insert]
  exact sorted.insert key value

theorem sorted_removeKey (sorted : SortedAssoc.Sorted cmp entries) :
    SortedAssoc.Sorted cmp (removeKey cmp key entries) := by
  rw [removeKey_eq_erase]
  exact sorted.erase key

end FArraySortedDictionary

/-! ## Dictionaries -/

/-- `SORTED_DICTIONARY_ARRAY_TO_RB_TREE_SIZE_THRESHOLD`. -/
def sortedDictionaryArrayToRBTreeSizeThreshold : ℕ := 25

/-- `FImmutableSortedDictionary`. -/
inductive FImmutableSortedDictionary (β : Type) (cmp : κ → κ → Ordering) where
  | array (entries : List (κ × β)) (sorted : SortedAssoc.Sorted cmp entries)
  | tree (dictionary : FTreeSortedDictionary β cmp)

namespace FImmutableSortedDictionary

/-- `dictionaryWithComparator:`. -/
def dictionaryWithComparator :
    FImmutableSortedDictionary β cmp := .array [] SortedAssoc.Sorted.nil

/-- `enumerateKeysAndObjectsUsingBlock:`, the entries in the order they are met. -/
def toList : FImmutableSortedDictionary β cmp → List (κ × β)
  | .array entries _ => entries
  | .tree dictionary => dictionary.root.toList

theorem sorted (self : FImmutableSortedDictionary β cmp) : SortedAssoc.Sorted cmp self.toList :=
  match self with
  | .array _ sorted => sorted
  | .tree dictionary => dictionary.sorted

/-- `get:`. -/
def get (key : κ) : FImmutableSortedDictionary β cmp → Option β
  | .array entries _ => FArraySortedDictionary.get cmp key entries
  | .tree dictionary => dictionary.get key

variable [Std.TransCmp cmp] (key : κ) (value : β)

/-- `insertKey:withValue:`; `none` if it throws. -/
def insertKey : FImmutableSortedDictionary β cmp → Option (FImmutableSortedDictionary β cmp)
  | .array entries sorted =>
      if FArraySortedDictionary.findKey cmp key entries = none ∧
          sortedDictionaryArrayToRBTreeSizeThreshold ≤ entries.length then
        (FTreeSortedDictionary.fromDictionary cmp (entries ++ [(key, value)])).map .tree
      else some (.array (FArraySortedDictionary.insertKey cmp key value entries)
        (FArraySortedDictionary.sorted_insertKey key value sorted))
  | .tree dictionary => some (.tree (dictionary.insertKey key value))

/-- `removeKey:`. -/
def removeKey : FImmutableSortedDictionary β cmp → FImmutableSortedDictionary β cmp
  | .array entries sorted =>
      .array (FArraySortedDictionary.removeKey cmp key entries)
        (FArraySortedDictionary.sorted_removeKey key sorted)
  | .tree dictionary => .tree (dictionary.removeKey key)

variable {key}

/-- A new key is sorted in when the array becomes a tree. -/
theorem exists_fromDictionary {entries : List (κ × β)} (sorted : SortedAssoc.Sorted cmp entries)
    (absent : FArraySortedDictionary.findKey cmp key entries = none) (value : β) :
    ∃ dictionary, FTreeSortedDictionary.fromDictionary cmp (entries ++ [(key, value)]) =
      some dictionary ∧
      dictionary.root.toList = SortedAssoc.insert cmp key value entries := by
  have eq := SortedAssoc.mergeSort_append_of_findEntry sorted
    (FArraySortedDictionary.findEntry_of_findKey key entries absent) value
  have sorted' := sorted.insert key value
  rw [FTreeSortedDictionary.fromDictionary]
  simp only [eq]
  rw [dif_pos sorted']
  exact ⟨_, rfl, FTreeSortedDictionary.toList_fromSorted _ sorted'⟩

variable (key) (self : FImmutableSortedDictionary β cmp)

/-- **An insertion never throws, and does what an insertion in a sorted list does**; a tree
keeps an equal key, an array does not. -/
theorem exists_insertKey :
    ∃ self', self.insertKey key value = some self' ∧
      (self'.toList = SortedAssoc.insert cmp key value self.toList ∨
        self'.toList = SortedAssoc.put cmp key value self.toList) := by
  cases self with
  | tree dictionary => exact ⟨_, rfl, Or.inr (dictionary.toList_insertKey key value)⟩
  | array entries sorted =>
      rw [insertKey]
      split
      case isTrue full =>
        obtain ⟨dictionary, eq, entries⟩ := exists_fromDictionary sorted full.1 value
        rw [eq]
        exact ⟨_, rfl, Or.inl entries⟩
      case isFalse =>
        exact ⟨_, rfl, Or.inl (FArraySortedDictionary.insertKey_eq_insert key value entries)⟩

theorem toList_removeKey :
    (self.removeKey key).toList = SortedAssoc.erase cmp key self.toList := by
  cases self with
  | tree dictionary => exact dictionary.toList_removeKey key
  | array entries sorted => exact FArraySortedDictionary.removeKey_eq_erase key entries

theorem get_eq_find : self.get key = SortedAssoc.find cmp key self.toList := by
  cases self with
  | tree dictionary => exact dictionary.get_eq_find key
  | array entries sorted => exact FArraySortedDictionary.get_eq_find key entries

/-! ## Any edits -/

/-- An array is short, and a tree is not too deep and passes its own check. -/
def InShape : FImmutableSortedDictionary β cmp → Prop
  | .array entries _ => entries.length ≤ sortedDictionaryArrayToRBTreeSizeThreshold
  | .tree dictionary => dictionary.root.checkMaxDepth.toOption = some true

omit [Std.TransCmp cmp] in
/-- Every tree is in shape, since it carries that it is balanced. -/
theorem inShape_tree (dictionary : FTreeSortedDictionary β cmp) :
    InShape (.tree dictionary) := by
  obtain ⟨depth, balanced⟩ := dictionary.balanced
  have fits := balanced.le_count
  simp only [InShape, FLLRBNode.checkMaxDepth, balanced.check, bind, Except.bind,
    pure, Except.pure,
    Except.toOption, fits, decide_true]

/-- An array becomes a tree before it holds too many entries. -/
theorem InShape.insertKey {self self' : FImmutableSortedDictionary β cmp} (shape : self.InShape)
    (inserted : self.insertKey key value = some self') : self'.InShape := by
  cases self' with
  | tree dictionary => exact inShape_tree dictionary
  | array entries' sorted' =>
      cases self with
      | tree dictionary => cases inserted
      | array entries sorted =>
          rw [FImmutableSortedDictionary.insertKey] at inserted
          split at inserted
          case isTrue =>
            obtain ⟨dictionary, -, eq⟩ := Option.map_eq_some_iff.mp inserted
            cases eq
          case isFalse room =>
            cases inserted
            by_cases absent : FArraySortedDictionary.findKey cmp key entries = none
            · have below : entries.length < sortedDictionaryArrayToRBTreeSizeThreshold :=
                Nat.lt_of_not_le fun full => room ⟨absent, full⟩
              exact Nat.le_trans
                (FArraySortedDictionary.length_insertKey_le key value entries) below
            · exact Nat.le_trans
                (Nat.le_of_eq
                  (FArraySortedDictionary.length_insertKey_of_findKey key value entries absent))
                shape

theorem InShape.removeKey {self : FImmutableSortedDictionary β cmp} (shape : self.InShape) :
    (self.removeKey key).InShape := by
  cases self with
  | tree dictionary => exact inShape_tree _
  | array entries sorted =>
      show (FArraySortedDictionary.removeKey cmp key entries).length ≤ _
      rw [FArraySortedDictionary.removeKey_eq_erase]
      exact Nat.le_trans (SortedAssoc.erase_sublist key entries).length_le shape

/-- What is done to a dictionary. -/
inductive Edit (κ β : Type) where
  | insert (key : κ) (value : β)
  | remove (key : κ)

/-- One edit; `none` if it throws. -/
def edit (self : FImmutableSortedDictionary β cmp) :
    Edit κ β → Option (FImmutableSortedDictionary β cmp)
  | .insert key value => self.insertKey key value
  | .remove key => some (self.removeKey key)

/-- The value of a key after an edit. -/
def Edit.valueAfter (cmp : κ → κ → Ordering) (key : κ) (old : Option β) : Edit κ β → Option β
  | .insert key' value => if cmp key key' = .eq then some value else old
  | .remove key' => if cmp key key' = .eq then none else old

/-- One edit, by what it does to the values. -/
theorem exists_edit {self : FImmutableSortedDictionary β cmp} (shape : self.InShape)
    (e : Edit κ β) :
    ∃ self', self.edit e = some self' ∧ self'.InShape ∧
      ∀ key, self'.get key = e.valueAfter cmp key (self.get key) := by
  cases e with
  | insert key' value =>
      obtain ⟨self', inserted, entries⟩ := self.exists_insertKey key' value
      refine ⟨self', inserted, shape.insertKey key' value inserted, ?_⟩
      intro key
      rw [get_eq_find, get_eq_find, Edit.valueAfter]
      rcases entries with entries | entries
      · rw [entries, SortedAssoc.find_insert self.sorted]
      · rw [entries, SortedAssoc.find_put self.sorted]
  | remove key' =>
      refine ⟨_, rfl, shape.removeKey key', ?_⟩
      intro key
      rw [get_eq_find, get_eq_find, toList_removeKey, SortedAssoc.find_erase self.sorted,
        Edit.valueAfter]

/-- **After any edits each key has the value it was given last**, none of the edits throws, and
the dictionary is in shape. -/
theorem get_of_edits (edits : List (Edit κ β)) :
    ∃ self : FImmutableSortedDictionary β cmp,
      edits.foldlM edit dictionaryWithComparator = some self ∧ self.InShape ∧
        ∀ key, self.get key = edits.foldl (fun old e => e.valueAfter cmp key old) none := by
  have all : ∀ (edits : List (Edit κ β)) (start : FImmutableSortedDictionary β cmp),
    start.InShape →
      ∃ self, edits.foldlM edit start = some self ∧ self.InShape ∧
        ∀ key, self.get key =
          edits.foldl (fun old e => e.valueAfter cmp key old) (start.get key) := by
    intro edits
    induction edits with
    | nil =>
        intro start shape
        exact ⟨start, rfl, shape, fun _ => rfl⟩
    | cons e rest ih =>
        intro start shape
        obtain ⟨next, eq, shape', values⟩ := exists_edit shape e
        obtain ⟨self, eq', shape'', values'⟩ := ih next shape'
        refine ⟨self, ?_, shape'', ?_⟩
        · rw [List.foldlM_cons, eq]
          exact eq'
        · intro key
          rw [values', values, List.foldl_cons]
  exact all edits _ (Nat.zero_le _)

/-! ## Keys that are told apart

`FImmutableTree` and `FNode` have their children in a list that is searched, and not in a
dictionary.  Where the comparator tells keys apart it is the list the dictionary holds. -/

/-- An edit of a sorted list. -/
def Edit.onEntries (cmp : κ → κ → Ordering) (entries : List (κ × β)) : Edit κ β → List (κ × β)
  | .insert key value => SortedAssoc.insert cmp key value entries
  | .remove key => SortedAssoc.erase cmp key entries

/-- One edit, by what it does to the entries. -/
theorem exists_edit_onEntries [Std.LawfulEqCmp cmp] (self : FImmutableSortedDictionary β cmp)
    (e : Edit κ β) :
    ∃ self', self.edit e = some self' ∧ self'.toList = e.onEntries cmp self.toList := by
  cases e with
  | insert key value =>
      obtain ⟨self', inserted, entries⟩ := self.exists_insertKey key value
      rw [SortedAssoc.put_eq_insert, or_self] at entries
      exact ⟨self', inserted, entries⟩
  | remove key => exact ⟨_, rfl, self.toList_removeKey key⟩

/-- **A dictionary is a sorted association list**, through any edits. -/
theorem toList_of_edits [Std.LawfulEqCmp cmp] (edits : List (Edit κ β))
    (start : FImmutableSortedDictionary β cmp) :
    ∃ self, edits.foldlM edit start = some self ∧
      self.toList = edits.foldl (Edit.onEntries cmp) start.toList := by
  let R (self : FImmutableSortedDictionary β cmp) (entries : List (κ × β)) : Prop :=
    self.toList = entries
  have begun : R start start.toList := rfl
  refine IndexLoop.exists_foldlM ?_ edits begun
  rintro self _ e rfl
  exact exists_edit_onEntries self e

/-- Thirty children of a node are written; then one is removed, and one written again. -/
def childEdits (child : ℕ → β) : List (Edit UntiedKey β) :=
  have untied : ∀ i : Fin 30, Untied (toString i.val) := by decide +kernel
  (List.finRange 30).map (fun i => .insert ⟨toString i.val, untied i⟩ (child i)) ++
    [.remove (untiedKey "7"), .insert (untiedKey "10") (child 4)]

theorem get_of_childEdits :
    ∃ dictionary : FTreeSortedDictionary ℕ untiedKeys.keyComparator,
      (childEdits id).foldlM edit dictionaryWithComparator = some (.tree dictionary) ∧
        InShape (.tree dictionary) ∧ dictionary.get (untiedKey "10") = some 4 ∧
        dictionary.get (untiedKey "7") = none ∧ dictionary.get (untiedKey "29") = some 29 := by
  have edited : ∃ self : FImmutableSortedDictionary ℕ untiedKeys.keyComparator,
      (childEdits id).foldlM edit dictionaryWithComparator = some self ∧ self.InShape ∧
        ∀ key, self.get key =
          (childEdits id).foldl
            (fun old e => e.valueAfter untiedKeys.keyComparator key old) none :=
    get_of_edits (childEdits id)
  obtain ⟨self, eq, shape, values⟩ := edited
  obtain ⟨self', eq', entries⟩ := toList_of_edits (childEdits id)
    (dictionaryWithComparator : FImmutableSortedDictionary ℕ untiedKeys.keyComparator)
  obtain rfl := Option.some.inj (eq.symm.trans eq')
  have twentyNine : self.toList.length = 29 := by
    rw [entries]
    decide +kernel
  cases self with
  | array held sorted =>
      have short : held.length ≤ 25 := shape
      have long : held.length = 29 := twentyNine
      omega
  | tree dictionary =>
      refine ⟨dictionary, eq, shape, ?_, ?_, ?_⟩
      · exact (values (untiedKey "10")).trans (by decide +kernel)
      · exact (values (untiedKey "7")).trans (by decide +kernel)
      · exact (values (untiedKey "29")).trans (by decide +kernel)

/-! ## The children of a node -/

section Children

variable [DecidableEq κ] (keys : KeySet κ)

/-- Putting a child among the others of a node is inserting it in their order. -/
theorem insertEntry_dropKey {entries : List (κ × FNode κ)}
    (sorted : SortedAssoc.Sorted keys.keyComparator entries) (key : κ) (newChild : FNode κ) :
    KeyTree.insertEntry keys.before key newChild (KeyTree.dropKey key entries) =
      SortedAssoc.insert keys.keyComparator key newChild entries := by
  induction entries with
  | nil => rfl
  | cons e rest ih =>
      have dropped : KeyTree.dropKey key (e :: rest) =
          SortedAssoc.erase keys.keyComparator key (e :: rest) :=
        (SortedAssoc.erase_eq_filter sorted key).symm
      rw [SortedAssoc.erase] at dropped
      rw [SortedAssoc.insert]
      cases order : keys.keyComparator key e.1 with
      | lt =>
          simp only [order] at dropped
          rw [dropped, KeyTree.insertEntry, if_pos (keys.before_iff.mpr order)]
      | eq =>
          simp only [order] at dropped
          rw [dropped]
          cases rest with
          | nil => rfl
          | cons e' others =>
              -- The key takes the place of its own entry, which was before all that follow.
              have after := (List.pairwise_cons.mp sorted).1 e' List.mem_cons_self
              rw [← Std.LawfulEqCmp.eq_of_compare order] at after
              rw [KeyTree.insertEntry, if_pos (keys.before_iff.mpr after)]
      | gt =>
          have apart : e.1 ≠ key := SortedAssoc.ne_of_compare order (by decide)
          have later : ¬ keys.before key e.1 = true := by
            rw [keys.before_iff, order]
            decide
          rw [KeyTree.dropKey_cons_of_ne apart, KeyTree.insertEntry, if_neg later,
            ih sorted.tail]

variable {keys}

/-- `updateImmediateChild:withNewChild:`, on the children of an `FChildrenNode`: a child that is
empty is removed, and without children the node is the empty one. -/
def updateImmediateChild (childName : κ) (newChildNode : FNode κ)
    (children : FImmutableSortedDictionary (FNode κ) keys.keyComparator) :
    Option (FImmutableSortedDictionary (FNode κ) keys.keyComparator) :=
  let newChildren :=
    if newChildNode.isEmpty then some (children.removeKey childName)
    else children.insertKey childName newChildNode
  newChildren.map fun newChildren =>
    if newChildren.toList.isEmpty then dictionaryWithComparator else newChildren

/-- One update of a child. -/
theorem exists_updateImmediateChild (childName : κ) (newChildNode : FNode κ)
    (children : FImmutableSortedDictionary (FNode κ) keys.keyComparator) :
    ∃ children', children.updateImmediateChild childName newChildNode = some children' ∧
      KeyTree.node children'.toList =
        KeyTree.setChild keys.before childName (.node children.toList) newChildNode := by
  have edited : ∃ newChildren : FImmutableSortedDictionary (FNode κ) keys.keyComparator,
      (if newChildNode.isEmpty then some (children.removeKey childName)
        else children.insertKey childName newChildNode) = some newChildren ∧
      KeyTree.node newChildren.toList =
        KeyTree.setChild keys.before childName (.node children.toList) newChildNode := by
    cases nothing : newChildNode.isEmpty with
    | true =>
        refine ⟨_, rfl, ?_⟩
        rw [KeyTree.setChild, nothing, if_pos rfl, KeyTree.dropKey,
          ← SortedAssoc.erase_eq_filter children.sorted childName, toList_removeKey]
    | false =>
        obtain ⟨newChildren, inserted, entries⟩ :=
          exists_edit_onEntries children (.insert childName newChildNode)
        refine ⟨newChildren, inserted, ?_⟩
        rw [KeyTree.setChild, nothing, if_neg (by simp),
          insertEntry_dropKey keys children.sorted,
          entries, Edit.onEntries]
  obtain ⟨newChildren, eq, node⟩ := edited
  rw [updateImmediateChild, eq]
  refine ⟨_, rfl, ?_⟩
  rw [← node]
  by_cases none : newChildren.toList.isEmpty = true
  · simp only [List.isEmpty_iff.mp none]
    rfl
  · simp only [none, if_false, Bool.false_eq_true]

variable (keys)

end Children

end FImmutableSortedDictionary

end DocumentRelay
