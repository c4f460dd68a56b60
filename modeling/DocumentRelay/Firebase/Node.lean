import Mathlib.Algebra.Order.Ring.Rat
import Mathlib.Data.List.Basic
import DocumentRelay.Lib.KeyTree
import DocumentRelay.Firebase.Path

/-!
# Nodes and snapshots of the database client

`FNode` is the client's node (`FLeafNode`, `FChildrenNode`, `FEmptyNode`) as a
`KeyTree`: a leaf, or children kept in the order of `FUtilities compareKey:toKey:`.
Priorities are left out; the app never writes one.

A snapshot hands its node to Swift as a Foundation value, and the casts the app
makes on that value are what decides between data and default:

* `asDictionary` — `value as? NSDictionary`.  A node whose keys all look like
  small integers is exported as an *array* and fails the cast;
* `asString`, `asDouble` — `as? String` and `as? Double` on a leaf.
-/

namespace DocumentRelay

/-- The values a leaf may hold.  A number is one that some double equals: an integer that
none equals is exported as an `NSNumber` whose cast to `Double` is `nil`, and such integers
are left out. -/
inductive Leaf where
  | string (text : String)
  | number (value : ℚ)
  | bool (value : Bool)
  deriving DecidableEq, Repr

/-! ## Key order -/

/-- The UTF-16 units of a string, what `length` and a literal comparison of an
`NSString` go by. -/
def unichars (s : String) : List ℕ :=
  s.toList.flatMap fun c =>
    if c.toNat < 0x10000 then [c.toNat]
    else [0xD800 + (c.toNat - 0x10000) / 0x400, 0xDC00 + (c.toNat - 0x10000) % 0x400]

/-- The digits of a decimal number, most significant first, or `none` at the
first unit that is no digit. -/
def parseDigits : List ℕ → ℤ → Option ℤ
  | [], value => some value
  | c :: rest, value =>
      if c < 48 ∨ 57 < c then none else parseDigits rest (value * 10 + (c - 48))

/-- `tryParseStringToInt`: an optional minus and digits, at most eleven units,
in the range of a 32-bit integer. -/
def tryParseStringToInt (str : String) : Option ℤ :=
  let units := unichars str
  if units.length > 11 ∨ units.length = 0 then none
  else
    let parsed :=
      match units with
      -- The unit of the minus sign; alone it is no number.
      | 45 :: rest => if rest = [] then none else (parseDigits rest 0).map fun v => -v
      | _ => parseDigits units 0
    parsed.filter fun v => -2147483648 ≤ v ∧ v ≤ 2147483647

/-- `compare:options:NSLiteralSearch`, unit by unit. -/
def literalCompare : List ℕ → List ℕ → Ordering
  | [], [] => .eq
  | [], _ :: _ => .lt
  | _ :: _, [] => .gt
  | a :: as, b :: bs => (compare a b).then (literalCompare as bs)

/-- `FUtilities compareKey:toKey:`.  The two sentinel names it also orders hold
brackets, so no key is one of them. -/
def compareKey (a b : String) : Ordering :=
  match tryParseStringToInt a, tryParseStringToInt b with
  | some x, some y => (compare x y).then (compare (unichars a).length (unichars b).length)
  | some _, none => .lt
  | none, some _ => .gt
  | none, none => literalCompare (unichars a) (unichars b)

/-- `a` is enumerated before `b`. -/
def keyBefore (a b : String) : Bool := compareKey a b == .lt

/-! ## Nodes -/

abbrev FNode (κ : Type := String) := KeyTree κ Leaf

/-- `getChild:`. -/
def FNode.getChild {κ : Type} [DecidableEq κ] (node : FNode κ) (path : FPath κ) : FNode κ :=
  KeyTree.get path node

/-- `updateChild:withNewChild:`. -/
def FNode.updateChild (node : FNode) (path : FPath) (newChild : FNode) : FNode :=
  KeyTree.set keyBefore path node newChild

/-- `FSnapshotUtilities nodeFrom:` on a dictionary of leaves, the one shape of
dictionary the app writes; a `nil` value leaves its key out. -/
def nodeFrom (dictionary : List (String × Option Leaf)) : FNode :=
  dictionary.foldl (fun node entry =>
    match entry.2 with
    | none => node
    | some value => node.setChild keyBefore entry.1 (.leaf value)) KeyTree.empty

/-! ## Exported values -/

/-- `FUtilities intForString:`.  The digits of the source are those of
`decimalDigitCharacterSet`; the ones that are not ASCII are left out. -/
def intForString (key : String) : Option ℕ :=
  if key ≠ "" ∧
    key.toList.all Char.isDigit then some (Nat.ofDigitChars 10 key.toList 0) else none

/-- The integer a key counts as when a node is exported; leading zeroes make it
a string. -/
def integerKey (key : String) : Option ℕ :=
  if key.toList.head? = some '0' ∧ 1 < key.length then none else intForString key

/-- `valForExport:` turns the node into an array. -/
def exportsArray (entries : List (String × FNode)) : Bool :=
  -- At least half of the indices up to the largest key are taken.
  entries.all (fun e => (integerKey e.1).isSome) &&
    (entries.map fun e => (integerKey e.1).getD 0).foldl max 0 < 2 * entries.length

/-- `snapshot.value as? NSDictionary`, as the entries of the dictionary. -/
def FNode.asDictionary : FNode → Option (List (String × FNode))
  | .leaf _ => none
  | .node [] => none
  | .node entries => if exportsArray entries then none else some entries

/-- `as? String`. -/
def FNode.asString : FNode → Option String
  | .leaf (.string text) => some text
  | _ => none

/-- `as? Double`; a boolean is a number to Foundation.  It does not fail on a number, since
those of a `Leaf` are values of doubles. -/
def FNode.asDouble : FNode → Option ℚ
  | .leaf (.number value) => some value
  | .leaf (.bool value) => some (if value then 1 else 0)
  | _ => none

/-- `value?[key]`. -/
def subscriptValue (value : Option (List (String × FNode))) (key : String) : Option FNode :=
  value.bind fun entries => entries.lookup key

/-! ## What the casts give on the app's own data -/

/-- A node with a key that is no integer is exported as a dictionary. -/
theorem asDictionary_of_child_ne_empty {node : FNode} {key : String}
    (textKey : integerKey key = none) (present : node.child key ≠ KeyTree.empty) :
    node.asDictionary = some node.entries := by
  cases node with
  | leaf value => exact absurd rfl present
  | node entries =>
      have found : ∃ c, (key, c) ∈ entries := by
        cases look : entries.lookup key with
        | none => exact absurd (by simp [KeyTree.child, look]) present
        | some c =>
            obtain ⟨front, back, eq, -⟩ := List.lookup_eq_some_iff.mp look
            exact ⟨c, by simp [eq]⟩
      obtain ⟨c, mem⟩ := found
      have noArray : exportsArray entries = false := by
        have notAll : entries.all (fun e => (integerKey e.1).isSome) = false := by
          rw [List.all_eq_false]
          exact ⟨(key, c), mem, by simp [textKey]⟩
        simp [exportsArray, notAll]
      cases entries with
      | nil => simp at mem
      | cons e rest => simp [FNode.asDictionary, noArray, KeyTree.entries]

/-- Subscripting such a node reads its children. -/
theorem subscriptValue_asDictionary {node : FNode} {textName : String}
    (textKey : integerKey textName = none) (present : node.child textName ≠ KeyTree.empty)
    (key : String) : subscriptValue node.asDictionary key = node.entries.lookup key := by
  rw [asDictionary_of_child_ne_empty textKey present]
  rfl

/-- A cast that the absent node fails may be made on the child instead of the
subscript. -/
theorem bind_lookup_eq_child {β : Type} (cast : FNode → Option β)
    (absent : cast KeyTree.empty = none) (node : FNode) (key : String) :
    (node.entries.lookup key).bind cast = cast (node.child key) := by
  cases look : node.entries.lookup key with
  | none => simp [KeyTree.child, look, absent]
  | some c => simp [KeyTree.child, look]

end DocumentRelay
