import Mathlib.Data.List.Lex
import DocumentRelay.Sharing

/-!
# The order of shared fields

The loop of `shareDoucment` numbers the fields in unpadded decimals, and the loop of
`downloadDocument` meets them in the order of the client's key comparison.  A key
like `field7` is no integer, so keys are compared unit by unit, and a number of two
digits stands among those of one: `field10` comes before `field2`.

* `keyBefore_fieldKey` — generated keys are met in the lexicographic order of their
  digits.
* `sharedInOrder_iff` — so a download has the fields in the order in which they were
  shared exactly if there are at most ten.
-/

namespace DocumentRelay

/-! ## Comparing generated keys -/

/-- The literal comparison is the lexicographic order of the units. -/
theorem literalCompare_eq_lt_iff (a b : List ℕ) : literalCompare a b = .lt ↔ a < b := by
  induction a generalizing b with
  | nil => cases b <;> simp [literalCompare]
  | cons x a ih =>
      cases b with
      | nil => simp [literalCompare]
      | cons y b =>
          rw [literalCompare, List.cons_lt_cons_iff, ← ih, Ordering.then_eq_lt,
            Nat.compare_eq_lt, Nat.compare_eq_eq]

/-- Text in the first plane has one unit to a character. -/
theorem unichars_eq_map {s : String} (basic : ∀ c ∈ s.toList, c.toNat < 0x10000) :
    unichars s = s.toList.map Char.toNat := by
  rw [unichars, List.map_eq_flatMap]
  refine List.flatMap_congr ?_
  intro c mem
  rw [if_pos (basic c mem)]

/-- The units of a generated key: a constant beginning and digits. -/
theorem unichars_fieldKey (n : ℕ) :
    unichars (fieldKey n) = unichars "field" ++ (Nat.toDigits 10 n).map Char.toNat := by
  have digits : (toString n).toList = Nat.toDigits 10 n := Foundation.toList_toString_nat n
  have split : unichars (fieldKey n) = unichars "field" ++ unichars (toString n) := by
    rw [unichars, unichars, unichars, fieldKey, String.toList_append, List.flatMap_append]
  have basic : ∀ c ∈ (toString n).toList, c.toNat < 0x10000 := by
    intro c mem
    rw [digits] at mem
    have digit := Foundation.isDigit_of_mem_toDigits_ten mem
    simp only [Char.isDigit, Bool.and_eq_true, decide_eq_true_eq] at digit
    have small : c.toNat ≤ 57 := digit.2
    omega
  rw [split, unichars_eq_map basic, digits]

theorem tryParseStringToInt_fieldKey (n : ℕ) : tryParseStringToInt (fieldKey n) = none := by
  have first : ∃ rest, unichars (fieldKey n) = 102 :: rest := ⟨_, unichars_fieldKey n⟩
  obtain ⟨rest, units⟩ := first
  simp [tryParseStringToInt, units, parseDigits]

/-- **Generated keys are met in the lexicographic order of their digits.** -/
theorem keyBefore_fieldKey (n m : ℕ) :
    keyBefore (fieldKey n) (fieldKey m) = true ↔
      unichars (fieldKey n) < unichars (fieldKey m) := by
  rw [keyBefore, beq_iff_eq, compareKey, tryParseStringToInt_fieldKey,
    tryParseStringToInt_fieldKey]
  exact literalCompare_eq_lt_iff _ _

theorem unichars_fieldKey_injective : Function.Injective fun n => unichars (fieldKey n) := by
  intro n m same
  simp only [unichars_fieldKey, List.append_cancel_left_eq] at same
  have digits : Nat.toDigits 10 n = Nat.toDigits 10 m :=
    List.map_injective_iff.mpr (fun a b => Char.toNat_inj.mp) same
  rw [← Nat.ofDigitChars_ten_toDigits (n := n), digits, Nat.ofDigitChars_ten_toDigits]

/-- A key of the loop. -/
def Generated (key : String) : Prop := ∃ n, key = fieldKey n

theorem orders_generated : KeyTree.Orders keyBefore Generated where
  irrefl := by
    rintro _ ⟨n, rfl⟩
    exact Bool.eq_false_iff.mpr fun before => lt_irrefl _ ((keyBefore_fieldKey n n).mp before)
  trans := by
    rintro _ _ _ ⟨n, rfl⟩ ⟨m, rfl⟩ ⟨k, rfl⟩ first second
    exact (keyBefore_fieldKey n k).mpr
      (((keyBefore_fieldKey n m).mp first).trans ((keyBefore_fieldKey m k).mp second))
  total := by
    rintro _ _ ⟨n, rfl⟩ ⟨m, rfl⟩ differ
    have apart : unichars (fieldKey n) ≠ unichars (fieldKey m) :=
      fun same => differ (congrArg fieldKey (unichars_fieldKey_injective same))
    rcases lt_or_gt_of_ne apart with before | after
    · exact Or.inl ((keyBefore_fieldKey n m).mpr before)
    · exact Or.inr ((keyBefore_fieldKey m n).mpr after)

/-! ## The children of `fields` -/

/-- Every write of the loop is below a generated key. -/
theorem exists_path_fieldsWrites {cnt : ℕ} {fields : List DocumentField} {write : Write}
    (mem : write ∈ fieldsWrites cnt fields) :
    ∃ n rest, write.path = fieldKey n :: rest := by
  induction fields generalizing cnt with
  | nil => cases mem
  | cons field rest ih =>
      rcases List.mem_append.mp mem with own | later
      · obtain ⟨inner, -, rfl⟩ := List.mem_map.mp own
        exact ⟨cnt, inner.path, rfl⟩
      · exact ih later

/-- Writes below generated keys keep the children in order. -/
theorem sorted_applyWrites {writes : List Write} {node : FNode}
    (generated : ∀ write ∈ writes, ∃ n rest, write.path = fieldKey n :: rest)
    (sorted : KeyTree.Sorted keyBefore Generated node) :
    KeyTree.Sorted keyBefore Generated (applyWrites node writes) := by
  induction writes generalizing node with
  | nil => exact sorted
  | cons write rest ih =>
      obtain ⟨n, path, below⟩ := generated write List.mem_cons_self
      refine ih (fun other mem => generated other (List.mem_cons_of_mem _ mem)) ?_
      rw [applyWrite, FNode.updateChild, below]
      exact sorted.setChild orders_generated ⟨n, rfl⟩ _

theorem sorted_fieldsNode (document : DocumentModel) :
    KeyTree.Sorted keyBefore Generated (fieldsNode document) := by
  rw [fieldsNode_eq]
  exact sorted_applyWrites (fun _ => exists_path_fieldsWrites) KeyTree.sorted_empty

/-- The keys of the children, in the order in which a download meets them. -/
def fieldKeys (snapshot : FNode) : List String :=
  (snapshot.getChild (pathPieces "fields")).entries.map Prod.fst

/-- Where, among the fields a download builds, the field is that was shared as
number `i`. -/
def place (snapshot : FNode) (i : ℕ) : ℕ := (fieldKeys snapshot).idxOf (fieldKey i)

theorem mem_fieldKeys {document : DocumentModel} {i : ℕ}
    (inside : i < document.fieldsToFill.length) :
    fieldKey i ∈ fieldKeys (shareNode document) := by
  refine List.mem_map.mpr ⟨(fieldKey i, fieldNode document.fieldsToFill[i]), ?_, rfl⟩
  refine (entries_fieldsNode document).mem_iff.mpr (List.mem_map.mpr
    ⟨(document.fieldsToFill[i], i), ?_, rfl⟩)
  exact List.mk_mem_zipIdx_iff_getElem?.mpr (List.getElem?_eq_getElem inside)

theorem place_shareNode (document : DocumentModel) (i : ℕ) :
    place (shareNode document) i =
      ((fieldsNode document).entries.map Prod.fst).idxOf (fieldKey i) := rfl

/-- What stands at the place of a number is the node of its field. -/
theorem fieldSnapshots_place {document : DocumentModel} {i : ℕ} {field : DocumentField}
    (shared : document.fieldsToFill[i]? = some field) :
    (fieldSnapshots (shareNode document))[place (shareNode document) i]? =
      some (fieldNode field) := by
  obtain ⟨inside, -⟩ := List.getElem?_eq_some_iff.mp shared
  have known : fieldKey i ∈ (fieldsNode document).entries.map Prod.fst := mem_fieldKeys inside
  have snapshots : fieldSnapshots (shareNode document) =
      (fieldsNode document).entries.map Prod.snd := rfl
  rw [snapshots, place_shareNode]
  generalize index : ((fieldsNode document).entries.map Prod.fst).idxOf (fieldKey i) = k
  have key : ((fieldsNode document).entries.map Prod.fst)[k]? = some (fieldKey i) := by
    rw [← index]
    exact List.getElem?_idxOf known
  rw [List.getElem?_map] at key ⊢
  obtain ⟨e, there, name⟩ := Option.map_eq_some_iff.mp key
  -- The entry there is one of the loop's, and its key says which.
  obtain ⟨⟨field', j⟩, numbered, rfl⟩ := List.mem_map.mp
    ((entries_fieldsNode document).mem_iff.mp (List.mem_of_getElem? there))
  have number : j = i := fieldKey_injective name
  have found := List.mk_mem_zipIdx_iff_getElem?.mp numbered
  rw [number, shared] at found
  rw [there, Option.map_some, Option.some.inj found]

theorem place_lt_place_iff {document : DocumentModel} {i j : ℕ}
    (inside : i < document.fieldsToFill.length) (inside' : j < document.fieldsToFill.length) :
    place (shareNode document) i < place (shareNode document) j ↔
      keyBefore (fieldKey i) (fieldKey j) = true :=
  (sorted_fieldsNode document).idxOf_lt_iff orders_generated (mem_fieldKeys inside)
    (mem_fieldKeys inside')

/-! ## Ten fields -/

/-- Up to ten, the keys are in the order of the numbers. -/
theorem keyBefore_of_lt_ten :
    ∀ j < 10, ∀ i < j, keyBefore (fieldKey i) (fieldKey j) = true := by
  decide +kernel

/-- The eleventh key comes before the third. -/
theorem keyBefore_ten_two : keyBefore (fieldKey 10) (fieldKey 2) = true := by
  decide +kernel

/-- **A download has the fields in the order in which they were shared**: the field
shared as number `i` is there, and before all with larger numbers. -/
structure SharedInOrder (document : DocumentModel) (snapshot : FNode)
    (cdID : String) : Prop where
  found : ∀ i field, document.fieldsToFill[i]? = some field →
    (decodeDocument document.id snapshot cdID).fieldsToFill[place snapshot i]? =
      some (decodeField (fieldNode field))
  inOrder : ∀ i j, i < j → j < document.fieldsToFill.length →
    place snapshot i < place snapshot j

theorem sharedInOrder_of_le_ten {document : DocumentModel}
    (few : document.fieldsToFill.length ≤ 10) (cdID : String) :
    SharedInOrder document (shareNode document) cdID where
  found i field shared := by
    rw [decodeDocument, List.getElem?_map, fieldSnapshots_place shared]
    rfl
  inOrder i j lt inside :=
    (place_lt_place_iff (lt.trans inside) inside).mpr
      (keyBefore_of_lt_ten j (inside.trans_le few) i lt)

theorem SharedInOrder.le_ten {document : DocumentModel} {cdID : String}
    (ordered : SharedInOrder document (shareNode document) cdID) :
    document.fieldsToFill.length ≤ 10 := by
  by_contra many
  have inside : 10 < document.fieldsToFill.length := by omega
  have first := ordered.inOrder 2 10 (by omega) inside
  have second := (place_lt_place_iff inside (by omega)).mpr keyBefore_ten_two
  omega

/-- **After a share, a download has the fields in order if and only if there are at
most ten of them**, whatever was on the server before. -/
theorem sharedInOrder_iff {document : DocumentModel} {writes : List Write}
    (shared : shareDoucment document = .ok writes) (server : FNode) (cdID : String) :
    SharedInOrder document
      ((applyWrites server writes).getChild (sharedPath document.id)) cdID ↔
      document.fieldsToFill.length ≤ 10 := by
  rw [writes_of_shareDoucment shared, getChild_applyWrites_share]
  exact ⟨SharedInOrder.le_ten, fun few => sharedInOrder_of_le_ten few cdID⟩

/-- A document with `n` fields, one below the other. -/
def columnOf (n : ℕ) : DocumentModel where
  id := "doc1"
  name := "Заявление"
  url := some "a.pdf"
  cdID := "1"
  fieldsToFill := (List.range n).map fun i =>
    { rect := .make 0 i 10 1, description := toString i, type := .custom }

theorem shareDoucment_columnOf (n : ℕ) :
    shareDoucment (columnOf n) = .ok (shareWrites (columnOf n)) :=
  shareDoucment_eq (show PathChars "doc1" by decide)

theorem eleven_fields_not_inOrder :
    ¬ ∀ (document : DocumentModel) (writes : List Write) (server : FNode) (cdID : String),
      shareDoucment document = .ok writes →
        SharedInOrder document ((applyWrites server writes).getChild (sharedPath document.id))
          cdID := by
  intro all
  have ordered := all (columnOf 11) _ KeyTree.empty "2" (shareDoucment_columnOf 11)
  rw [getChild_applyWrites_share] at ordered
  exact absurd ordered.le_ten (by simp [columnOf])

theorem ten_fields_inOrder :
    SharedInOrder (columnOf 10)
      ((applyWrites KeyTree.empty (shareWrites (columnOf 10))).getChild (sharedPath "doc1"))
      "2" :=
  (sharedInOrder_iff (shareDoucment_columnOf 10) KeyTree.empty "2").mpr (by simp [columnOf])

end DocumentRelay
