import DocumentRelay.Firebase.Node

/-!
# The order of keys

`FUtilities compareKey:toKey:` puts keys that read as 32-bit integers first, by value and
then by length, and all others after them, unit by unit.

* `compareKey` orders all keys (the instance of `Std.TransCmp`): it is its own opposite when
  turned round, and transitive.
* `compareKey_eq_eq_iff` — two different keys are the same to it in one case only: both
  read as zero and are equally long, one with a minus sign (`-0` and `00`, `-00` and
  `000`, …).

A `KeySet` is a set of keys among which no two are tied, under this order or under that of
Foundation.  Trees and compound writes are over the keys of one.
-/

namespace DocumentRelay

/-! ## A total order -/

theorem literalCompare_eq (as bs : List ℕ) :
    literalCompare as bs = List.compareLex compare as bs := by
  induction as generalizing bs with
  | nil => cases bs <;> rfl
  | cons a as ih =>
      cases bs with
      | nil => rfl
      | cons b bs => rw [literalCompare, ih, List.compareLex_cons_cons]

/-- Integers come before words. -/
def isWord (key : String) : Bool := (tryParseStringToInt key).isNone

/-- What an integer is compared by: its value, then its length. -/
def integerRank (key : String) : ℤ × ℕ :=
  ((tryParseStringToInt key).getD 0, if isWord key then 0 else (unichars key).length)

/-- What a word is compared by. -/
def wordRank (key : String) : List ℕ := if isWord key then unichars key else []

/-- The comparison, part by part. -/
theorem compareKey_eq_compareLex :
    compareKey =
      compareLex (compareOn isWord) (compareLex (compareOn fun key => (integerRank key).1)
      (compareLex (compareOn fun key => (integerRank key).2) (compareOn wordRank))) := by
  funext a b
  rcases Option.eq_none_or_eq_some (tryParseStringToInt a) with left | ⟨x, left⟩
  · rcases Option.eq_none_or_eq_some (tryParseStringToInt b) with right | ⟨y, right⟩
    · simp [compareKey, compareLex, compareOn, integerRank, wordRank, isWord, left, right,
        literalCompare_eq, List.compare_eq_compareLex]
    · have words_last : compare true false = .gt := rfl
      simp [compareKey, compareLex, compareOn, isWord, left, right, words_last]
  · rcases Option.eq_none_or_eq_some (tryParseStringToInt b) with right | ⟨y, right⟩
    · have integers_first : compare false true = .lt := rfl
      simp [compareKey, compareLex, compareOn, isWord, left, right, integers_first]
    · simp [compareKey, compareLex, compareOn, integerRank, wordRank, isWord, left, right]

instance : Std.TransCmp compareKey := by
  rw [compareKey_eq_compareLex]
  infer_instance

/-! ## Units -/

/-- The units of one character. -/
def charUnits (c : Char) : List ℕ :=
  if c.toNat < 0x10000 then [c.toNat]
  else [0xD800 + (c.toNat - 0x10000) / 0x400, 0xDC00 + (c.toNat - 0x10000) % 0x400]

/-- The units of a character say where it ends. -/
theorem charUnits_append_inj {c c' : Char} {rest rest' : List ℕ}
    (same : charUnits c ++ rest = charUnits c' ++ rest') : c = c' ∧ rest = rest' := by
  have valid : ∀ c :
      Char, c.toNat < 0xD800 ∨ 0xDFFF < c.toNat ∧ c.toNat < 0x110000 := fun c => c.valid
  have vc := valid c
  have vc' := valid c'
  unfold charUnits at same
  split at same
  · split at same
    · simp only [List.cons_append, List.nil_append, List.cons.injEq] at same
      exact ⟨Char.toNat_inj.mp same.1, same.2⟩
    · simp only [List.cons_append, List.nil_append, List.cons.injEq] at same
      omega
  · split at same
    · simp only [List.cons_append, List.nil_append, List.cons.injEq] at same
      omega
    · simp only [List.cons_append, List.nil_append, List.cons.injEq] at same
      exact ⟨Char.toNat_inj.mp (by omega), same.2.2⟩

theorem flatMap_charUnits_inj {cs cs' : List Char}
    (same : cs.flatMap charUnits = cs'.flatMap charUnits) : cs = cs' := by
  have some_unit : ∀ c : Char, charUnits c ≠ [] := by
    intro c
    unfold charUnits
    split <;> simp
  induction cs generalizing cs' with
  | nil =>
      cases cs' with
      | nil => rfl
      | cons c' rest' =>
          rw [List.flatMap_nil, List.flatMap_cons] at same
          exact absurd (List.append_eq_nil_iff.mp same.symm).1 (some_unit c')
  | cons c rest ih =>
      cases cs' with
      | nil =>
          rw [List.flatMap_nil, List.flatMap_cons] at same
          exact absurd (List.append_eq_nil_iff.mp same).1 (some_unit c)
      | cons c' rest' =>
          rw [List.flatMap_cons, List.flatMap_cons] at same
          obtain ⟨rfl, later⟩ := charUnits_append_inj same
          rw [ih later]

/-- Strings with the same units are the same. -/
theorem unichars_injective {a b : String} (same : unichars a = unichars b) : a = b :=
  String.toList_inj.mp (flatMap_charUnits_inj same)

/-! ## Ties -/

/-- Equally many digits for the same number are the same digits. -/
theorem parseDigits_inj {ds ds' : List ℕ} {v v' r : ℤ} (length : ds.length = ds'.length)
    (left : parseDigits ds v = some r) (right : parseDigits ds' v' = some r) :
    v = v' ∧ ds = ds' := by
  induction ds generalizing ds' v v' with
  | nil =>
      obtain rfl : ds' = [] := List.length_eq_zero_iff.mp length.symm
      exact ⟨(Option.some.inj left).trans (Option.some.inj right).symm, rfl⟩
  | cons c rest ih =>
      cases ds' with
      | nil => cases length
      | cons c' rest' =>
          rw [parseDigits] at left right
          split at left
          · cases left
          · split at right
            · cases right
            · obtain ⟨same, rfl⟩ := ih (Nat.succ.inj length) left right
              have digits : v = v' ∧ c = c' := by omega
              exact ⟨digits.1, by rw [digits.2]⟩

/-- Digits make a number no smaller. -/
theorem le_of_parseDigits {ds : List ℕ} {v r : ℤ} (start : 0 ≤ v)
    (parsed : parseDigits ds v = some r) :
    v ≤ r ∧ (r = 0 → ds = List.replicate ds.length 48) := by
  induction ds generalizing v with
  | nil =>
      obtain rfl := Option.some.inj parsed
      exact ⟨le_rfl, fun _ => rfl⟩
  | cons c rest ih =>
      rw [parseDigits] at parsed
      split at parsed
      · cases parsed
      · obtain ⟨more, zeroes⟩ := ih (by omega) parsed
        refine ⟨by omega, ?_⟩
        intro zero
        have first : c = 48 := by omega
        rw [first, List.length_cons, List.replicate_succ, ← zeroes zero]

/-- What a key that is an integer looks like. -/
theorem units_of_tryParseStringToInt {key : String} {x : ℤ}
    (parsed : tryParseStringToInt key = some x) :
    (unichars key).length ≤ 11 ∧
      ((∃ ds v, unichars key = 45 :: ds ∧ ds ≠ [] ∧ parseDigits ds 0 = some v ∧ x = -v) ∨
        parseDigits (unichars key) 0 = some x) := by
  unfold tryParseStringToInt at parsed
  simp only at parsed
  split at parsed
  · cases parsed
  case isFalse short =>
    refine ⟨by omega, ?_⟩
    have found := (Option.filter_eq_some_iff.mp parsed).1
    split at found
    case h_1 ds eq =>
      split at found
      · cases found
      case isFalse digits =>
        obtain ⟨v, value, rfl⟩ := Option.map_eq_some_iff.mp found
        exact Or.inl ⟨ds, v, eq, digits, value, rfl⟩
    · exact Or.inr found

/-- `-0…0` and `00…0`, equally long and short enough to be integers. -/
def SignedZero (a b : String) : Prop :=
  ∃ n, 1 ≤ n ∧ n ≤ 10 ∧ a = String.ofList ('-' :: List.replicate n '0') ∧
    b = String.ofList (List.replicate (n + 1) '0')

theorem flatMap_charUnits_replicate (n : ℕ) :
    (List.replicate n '0').flatMap charUnits = List.replicate n 48 := by
  induction n with
  | zero => rfl
  | succ n ih => rw [List.replicate_succ, List.flatMap_cons, ih, List.replicate_succ]; rfl

theorem unichars_zeroes (n : ℕ) :
    unichars (String.ofList (List.replicate n '0')) = List.replicate n 48 := by
  rw [unichars, String.toList_ofList]
  exact flatMap_charUnits_replicate n

theorem unichars_signedZeroes (n : ℕ) :
    unichars (String.ofList ('-' :: List.replicate n '0')) = 45 :: List.replicate n 48 := by
  rw [unichars, String.toList_ofList, List.flatMap_cons]
  exact congrArg (45 :: ·) (flatMap_charUnits_replicate n)

theorem parseDigits_zeroes (n : ℕ) : parseDigits (List.replicate n 48) 0 = some 0 := by
  induction n with
  | zero => rfl
  | succ n ih => simpa [List.replicate_succ, parseDigits] using ih

theorem tryParseStringToInt_signedZeroes {n : ℕ} (lower : 1 ≤ n) (upper : n ≤ 10) :
    tryParseStringToInt (String.ofList ('-' :: List.replicate n '0')) = some 0 := by
  have digits : List.replicate n 48 ≠ [] := by
    refine List.ne_nil_of_length_pos ?_
    rw [List.length_replicate]
    omega
  have fits : ¬ ((45 :: List.replicate n 48).length > 11 ∨
      (45 :: List.replicate n 48).length = 0) := by
    rw [List.length_cons, List.length_replicate]
    omega
  rw [tryParseStringToInt, unichars_signedZeroes]
  simp only [if_neg fits, if_neg digits, parseDigits_zeroes]
  decide

theorem tryParseStringToInt_zeroes {n : ℕ} (upper : n ≤ 10) :
    tryParseStringToInt (String.ofList (List.replicate (n + 1) '0')) = some 0 := by
  have fits : ¬ ((List.replicate (n + 1) 48).length > 11 ∨
      (List.replicate (n + 1) 48).length = 0) := by
    rw [List.length_replicate]
    omega
  have value : parseDigits (48 :: List.replicate n 48) 0 = some 0 := parseDigits_zeroes (n + 1)
  rw [tryParseStringToInt, unichars_zeroes]
  simp only [if_neg fits]
  rw [List.replicate_succ]
  simp only [value]
  decide

/-- Such zeroes are the same integer, and equally long. -/
theorem compareKey_signedZero {a b : String} (zeroes : SignedZero a b) :
    compareKey a b = .eq := by
  obtain ⟨n, lower, upper, rfl, rfl⟩ := zeroes
  rw [compareKey, tryParseStringToInt_signedZeroes lower upper,
    tryParseStringToInt_zeroes upper]
  simp only [unichars_signedZeroes, unichars_zeroes, List.length_cons, List.length_replicate]
  exact Ordering.then_eq_eq.mpr ⟨compare_eq_iff_eq.mpr rfl, compare_eq_iff_eq.mpr rfl⟩

/-- A negative integer that is as large as another one with digits only, and as long. -/
theorem signedZero_of_tie {a b : String} {ds : List ℕ} {v : ℤ}
    (negative : unichars a = 45 :: ds)
    (some_digit : ds ≠ []) (left : parseDigits ds 0 = some v)
    (right : parseDigits (unichars b) 0 = some (-v))
    (length : (unichars a).length = (unichars b).length) (short : (unichars a).length ≤ 11) :
    SignedZero a b := by
  obtain ⟨up, zeroes⟩ := le_of_parseDigits le_rfl left
  obtain ⟨up', zeroes'⟩ := le_of_parseDigits le_rfl right
  have digits := zeroes (by omega)
  have digits' := zeroes' (by omega)
  have positive := List.length_pos_iff.mpr some_digit
  rw [negative, List.length_cons] at length short
  refine ⟨ds.length, positive, by omega, ?_, ?_⟩
  · apply unichars_injective
    rw [negative, unichars_signedZeroes, ← digits]
  · apply unichars_injective
    rw [unichars_zeroes, length, ← digits']

theorem eq_of_unsigned_tie {a b : String} {x : ℤ} (left : parseDigits (unichars a) 0 = some x)
    (right : parseDigits (unichars b) 0 = some x)
    (length : (unichars a).length = (unichars b).length) : a = b :=
  unichars_injective (parseDigits_inj length left right).2

/-- **Two keys are the same to `compareKey:toKey:` if they are the same, or zeroes that
differ in the sign.** -/
theorem compareKey_eq_eq_iff {a b : String} :
    compareKey a b = .eq ↔ a = b ∨ SignedZero a b ∨ SignedZero b a := by
  constructor
  · intro tie
    unfold compareKey at tie
    split at tie
    case h_1 x y left right =>
      rw [Ordering.then_eq_eq, compare_eq_iff_eq, compare_eq_iff_eq] at tie
      obtain ⟨rfl, length⟩ := tie
      obtain ⟨short, shape⟩ := units_of_tryParseStringToInt left
      obtain ⟨short', shape'⟩ := units_of_tryParseStringToInt right
      rcases shape with ⟨ds, v, negative, some_digit, value, rfl⟩ | value
      · rcases shape' with ⟨ds', v', negative', some_digit', value', same⟩ | value'
        · refine Or.inl (unichars_injective ?_)
          rw [negative, negative'] at length ⊢
          obtain rfl : v = v' := by omega
          rw [(parseDigits_inj (Nat.succ.inj length) value value').2]
        · exact Or.inr
            (Or.inl (signedZero_of_tie negative some_digit value value' length short))
      · rcases shape' with ⟨ds', v', negative', some_digit', value', rfl⟩ | value'
        · exact Or.inr (Or.inr
            (signedZero_of_tie negative' some_digit' value' value length.symm short'))
        · exact Or.inl (eq_of_unsigned_tie value value' length)
    · cases tie
    · cases tie
    · rw [literalCompare_eq] at tie
      exact Or.inl (unichars_injective (Std.LawfulEqCmp.eq_of_compare tie))
  · rintro (rfl | zeroes | zeroes)
    · exact Std.ReflCmp.compare_self
    · exact compareKey_signedZero zeroes
    · have turned : compareKey a b = (compareKey b a).swap := Std.OrientedCmp.eq_swap
      rw [turned, compareKey_signedZero zeroes]
      rfl

/-- **The order of keys**: it goes both ways, is transitive, and keys are tied only if they
are the same, or zero with and without a sign. -/
theorem compareKey_order (a b c : String) :
    compareKey b a = (compareKey a b).swap ∧
      ((compareKey a b).isLE = true → (compareKey b c).isLE = true →
        (compareKey a c).isLE = true) ∧
      (compareKey a b = .eq ↔ a = b ∨ SignedZero a b ∨ SignedZero b a) :=
  ⟨Std.OrientedCmp.eq_swap, Std.TransCmp.isLE_trans, compareKey_eq_eq_iff⟩

/-! ## Keys without ties -/

/-- A key that no other is the same as: if it reads as zero, it is `0`. -/
def Untied (key : String) : Prop := tryParseStringToInt key = some 0 → key = "0"

instance (key : String) : Decidable (Untied key) := inferInstanceAs (Decidable (_ → _))

theorem not_signedZero_of_untied {a b : String} (untied : Untied a) : ¬ SignedZero a b := by
  rintro ⟨n, lower, upper, rfl, -⟩
  have same := congrArg String.toList (untied (tryParseStringToInt_signedZeroes lower upper))
  rw [String.toList_ofList] at same
  cases same

/-- **A set of keys that the client tells apart.**  It keeps keys by two comparators:
`compareKey:toKey:` for the children of a node, and `[a compare:b]` of Foundation for those of
an `FImmutableTree`.  Neither tells all strings apart.  The first takes `-0` and `00` for the
same, the second two spellings of a letter with an accent; of keys that are the same to it, a
dictionary holds one.  What is said about trees is said about keys without such ties. -/
structure KeySet (κ : Type) where
  name : κ → String
  compare : String → String → Ordering
  transCmp : Std.TransCmp compare
  apart : ∀ a b, compare (name a) (name b) = .eq → a = b
  untied : ∀ a, Untied (name a)

namespace KeySet

variable {κ : Type} (keys : KeySet κ)

/-- `[FUtilities stringComparator]`. -/
def cmp (a b : κ) : Ordering := keys.compare (keys.name a) (keys.name b)

/-- `[FUtilities keyComparator]`. -/
def keyComparator (a b : κ) : Ordering := compareKey (keys.name a) (keys.name b)

/-- `a` is enumerated before `b` among the children of a node. -/
def before (a b : κ) : Bool := keyBefore (keys.name a) (keys.name b)

theorem before_iff {a b : κ} : keys.before a b = true ↔ keys.keyComparator a b = .lt := by
  rw [before, keyBefore, beq_iff_eq, keyComparator]

/-- `updateChild:withNewChild:`. -/
def updateChild [DecidableEq κ] (node : FNode κ) (path : FPath κ)
    (newChild : FNode κ) : FNode κ :=
  KeyTree.set keys.before path node newChild

instance : Std.TransCmp keys.compare := keys.transCmp

instance : Std.TransCmp keys.cmp where
  eq_swap := keys.transCmp.eq_swap
  isLE_trans := keys.transCmp.isLE_trans

instance : Std.LawfulEqCmp keys.cmp where
  compare_self := Std.ReflCmp.compare_self
  eq_of_compare tie := keys.apart _ _ tie

instance : Std.TransCmp keys.keyComparator where
  eq_swap := (inferInstance : Std.TransCmp compareKey).eq_swap
  isLE_trans := (inferInstance : Std.TransCmp compareKey).isLE_trans

theorem name_injective : Function.Injective keys.name := by
  intro a b same
  refine keys.apart a b ?_
  rw [same]
  exact Std.ReflCmp.compare_self

instance : Std.LawfulEqCmp keys.keyComparator where
  compare_self := (inferInstance : Std.ReflCmp compareKey).compare_self
  eq_of_compare tie := by
    rcases compareKey_eq_eq_iff.mp tie with same | zeroes | zeroes
    · exact keys.name_injective same
    · exact absurd zeroes (not_signedZero_of_untied (keys.untied _))
    · exact absurd zeroes (not_signedZero_of_untied (keys.untied _))

end KeySet

/-- An untied key. -/
structure UntiedKey where
  name : String
  untied : Untied name
  deriving DecidableEq

/-- The untied keys, with Foundation's comparison taken to be that of the characters. -/
def untiedKeys : KeySet UntiedKey where
  name := UntiedKey.name
  compare := Ord.compare
  transCmp := inferInstance
  apart a b tie := by
    cases a
    cases b
    obtain rfl := Std.LawfulEqCmp.eq_of_compare tie
    rfl
  untied := UntiedKey.untied

/-- A string as an untied key. -/
def untiedKey (name : String) (untied : Untied name := by decide) : UntiedKey := ⟨name, untied⟩

namespace UntiedKey

def doc1 : UntiedKey := untiedKey "doc1"

def x : UntiedKey := untiedKey "x"

def y : UntiedKey := untiedKey "y"

end UntiedKey

end DocumentRelay
