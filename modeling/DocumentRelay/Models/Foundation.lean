import Mathlib.Data.Rat.Lemmas
import Mathlib.Algebra.Order.Ring.Rat
import Mathlib.Data.String.Basic

/-!
# What the app takes from its platform

Three things the app relies on are not its own code and are not modelled further
than what it relies on.  `Foundation` bundles them with the promise:

* `uuidString n` is the value of the `n`-th `UUID().uuidString` call, and no
  value is ever returned twice;
* `"\(x)"` followed by `Double(_:)` gives the coordinate back;
* `==` on strings compares canonical decompositions, so that a letter and the
  same letter written with a combining mark are equal.

The app joins field rows to documents and picks the rows of a field by `==`, on
strings users type and peers send, so `Foundation.StringEqual` is the test there
and not equality of characters.  A literal without a decomposable letter is equal
to itself alone, and so are the strings of `fieldTypeFromString` and the two
values of `groupMode`; those are matched as they stand.

Every result about the app holds for every `Foundation`.  `Foundation.numbered`
is one: UUIDs with a serial number in their last group, coordinates printed as the
platform prints whole numbers, with a denominator where they are not, and the two
Cyrillic letters that have a decomposition decomposed.
-/

namespace DocumentRelay

/-- What the app relies on from the Foundation framework. -/
structure Foundation where
  /-- `UUID().uuidString`, by number of the call. -/
  uuidString : ℕ → String
  /-- The canonical decomposition of a string, by which `==` compares it. -/
  canonical : String → String
  /-- No two calls return equal values. -/
  canonical_uuidString_injective : Function.Injective fun n => canonical (uuidString n)
  /-- The interpolation `"\(x)"` of a coordinate. -/
  description : ℚ → String
  /-- `Double(text)`. -/
  double : String → Option ℚ
  /-- Printing and parsing a coordinate is lossless. -/
  double_description : ∀ x, double (description x) = some x

attribute [simp] Foundation.double_description

namespace Foundation

/-! ## Equality of strings -/

/-- `a == b` of two strings: their canonical decompositions are the same. -/
def StringEqual (F : Foundation) (a b : String) : Prop := F.canonical a = F.canonical b

instance (F : Foundation) (a b : String) : Decidable (F.StringEqual a b) :=
  inferInstanceAs (Decidable (F.canonical a = F.canonical b))

variable {F : Foundation}

@[simp] theorem StringEqual.refl (a : String) : F.StringEqual a a := rfl

theorem StringEqual.symm {a b : String} (same : F.StringEqual a b) : F.StringEqual b a :=
  Eq.symm same

theorem StringEqual.trans {a b c : String} (ab : F.StringEqual a b) (bc : F.StringEqual b c) :
    F.StringEqual a c :=
  Eq.trans ab bc

variable (F) in
theorem uuidString_injective : Function.Injective F.uuidString :=
  Function.Injective.of_comp F.canonical_uuidString_injective

/-- On UUIDs, `==` is equality. -/
theorem stringEqual_uuidString_iff {n m : ℕ} :
    F.StringEqual (F.uuidString n) (F.uuidString m) ↔ F.uuidString n = F.uuidString m := by
  constructor
  · intro same
    rw [F.canonical_uuidString_injective same]
  · intro eq
    rw [eq]
    exact StringEqual.refl _

/-! ## One such platform -/

/-- Digits after an optional sign, then `.0` or a denominator. -/
def printCoordinate (x : ℚ) : String :=
  (if x.num < 0 then "-" else "") ++ (toString x.num.natAbs ++
    (if x.den = 1 then ".0" else "/" ++ toString x.den))

/-- Numerator and denominator of an unsigned coordinate. -/
def parseMagnitude (text : List Char) : Option (ℕ × ℕ) :=
  let digits := Nat.ofDigitChars 10 (text.takeWhile Char.isDigit) 0
  match text.dropWhile Char.isDigit with
  | ['.', '0'] => some (digits, 1)
  | '/' :: den => some (digits, Nat.ofDigitChars 10 den 0)
  | _ => none

def parseCoordinate (text : String) : Option ℚ :=
  if text.toList.head? = some '-' then
    (parseMagnitude text.toList.tail).map fun (num, den) => ((-num : ℤ) : ℚ) / den
  else (parseMagnitude text.toList).map fun (num, den) => ((num : ℤ) : ℚ) / den

theorem toList_toString_nat (n : ℕ) : (toString n).toList = Nat.toDigits 10 n := Nat.toList_repr

theorem isDigit_of_mem_toDigits_ten {n : ℕ} {c : Char} (mem : c ∈ Nat.toDigits 10 n) :
    c.isDigit = true :=
  Nat.isDigit_of_mem_toDigits (b := 10) (by decide) (by decide) mem

theorem parseMagnitude_digits (n : ℕ) {c : Char} (rest : List Char) (stop : c.isDigit = false) :
    parseMagnitude (Nat.toDigits 10 n ++ c :: rest) =
      match c :: rest with
      | ['.', '0'] => some (n, 1)
      | '/' :: den => some (n, Nat.ofDigitChars 10 den 0)
      | _ => none := by
  have front : (Nat.toDigits 10 n ++ c :: rest).takeWhile Char.isDigit = Nat.toDigits 10 n := by
    rw [List.takeWhile_append_of_pos fun d => isDigit_of_mem_toDigits_ten]
    simp [stop]
  have back : (Nat.toDigits 10 n ++ c :: rest).dropWhile Char.isDigit = c :: rest := by
    rw [List.dropWhile_append_of_pos fun d => isDigit_of_mem_toDigits_ten]
    simp [stop]
  simp only [parseMagnitude, front, back, Nat.ofDigitChars_ten_toDigits]

theorem parseMagnitude_print (num den : ℕ) :
    parseMagnitude (toString num ++
      (if den = 1 then ".0" else "/" ++ toString den)).toList = some (num, den) := by
  rw [String.toList_append, toList_toString_nat]
  by_cases whole : den = 1
  · rw [if_pos whole, whole]
    exact parseMagnitude_digits num ['0'] (by decide)
  · rw [if_neg whole, String.toList_append, toList_toString_nat]
    refine (parseMagnitude_digits num (Nat.toDigits 10 den) (c := '/') (by decide)).trans ?_
    simp

theorem parseCoordinate_print (x : ℚ) : parseCoordinate (printCoordinate x) = some x := by
  have magnitude := parseMagnitude_print x.num.natAbs x.den
  by_cases negative : x.num < 0
  · have sign : (printCoordinate x).toList = '-' :: (toString x.num.natAbs ++
        (if x.den = 1 then ".0" else "/" ++ toString x.den)).toList := by
      rw [printCoordinate, if_pos negative, String.toList_append]
      rfl
    have value : -(x.num.natAbs : ℤ) = x.num := by omega
    rw [parseCoordinate, sign]
    simp only [List.head?_cons, if_true, List.tail_cons, magnitude, Option.map_some, value]
    rw [Rat.num_div_den]
  · have sign : printCoordinate x = toString x.num.natAbs ++
        (if x.den = 1 then ".0" else "/" ++ toString x.den) := by
      rw [printCoordinate, if_neg negative]
      exact String.empty_append
    have value : (x.num.natAbs : ℤ) = x.num := by omega
    have unsigned : (printCoordinate x).toList.head? ≠ some '-' := by
      rw [sign, String.toList_append, toList_toString_nat]
      have some_digit : Nat.toDigits 10 x.num.natAbs ≠ [] := Nat.toDigits_ne_nil
      rw [List.head?_append_of_ne_nil _ some_digit]
      intro minus
      have digit := isDigit_of_mem_toDigits_ten (List.mem_of_head? minus)
      exact absurd digit (by decide)
    rw [parseCoordinate, if_neg unsigned, sign, magnitude]
    simp only [Option.map_some, value]
    rw [Rat.num_div_den]

/-- The canonical decomposition of a Russian letter: `й` and `ё` are a base letter
and a combining mark. -/
def decomposeLetter (c : Char) : List Char :=
  if c = 'й' then ['и', '\u0306']
  else if c = 'ё' then ['е', '\u0308']
  else [c]

def decompose (text : String) : String := String.ofList (text.toList.flatMap decomposeLetter)

/-- Text without the two letters is its own decomposition. -/
theorem flatMap_decomposeLetter {text : List Char} (plain : ∀ c ∈ text, c ≠ 'й' ∧ c ≠ 'ё') :
    text.flatMap decomposeLetter = text := by
  induction text with
  | nil => rfl
  | cons c rest ih =>
      obtain ⟨short, yo⟩ := plain c List.mem_cons_self
      have tail := ih fun d mem => plain d (List.mem_cons_of_mem _ mem)
      simp [decomposeLetter, short, yo, tail]

/-- A UUID whose last group ends in the number of the call. -/
def numberedUuid (n : ℕ) : String := "00000000-0000-4000-8000-00000000000" ++ toString n

theorem toList_numberedUuid (n : ℕ) :
    (numberedUuid n).toList =
      "00000000-0000-4000-8000-00000000000".toList ++ Nat.toDigits 10 n := by
  rw [← toList_toString_nat]
  exact String.toList_append

theorem decompose_numberedUuid (n : ℕ) : decompose (numberedUuid n) = numberedUuid n := by
  have zeros : ∀ c ∈ "00000000-0000-4000-8000-00000000000".toList, c ≠ 'й' ∧ c ≠ 'ё' := by
    simp
  have plain : ∀ c ∈ (numberedUuid n).toList, c ≠ 'й' ∧ c ≠ 'ё' := by
    intro c mem
    rw [toList_numberedUuid] at mem
    rcases List.mem_append.mp mem with front | digits
    · exact zeros c front
    · have digit := isDigit_of_mem_toDigits_ten digits
      constructor <;>
      · rintro rfl
        exact absurd digit (by decide)
  rw [decompose, flatMap_decomposeLetter plain, String.ofList_toList]

theorem numberedUuid_injective : Function.Injective numberedUuid := by
  intro n m same
  have digits := congrArg String.toList same
  rw [toList_numberedUuid, toList_numberedUuid, List.append_cancel_left_eq] at digits
  rw [← Nat.ofDigitChars_ten_toDigits (n := n), digits, Nat.ofDigitChars_ten_toDigits]

/-- A platform that numbers its UUIDs. -/
def numbered : Foundation where
  uuidString := numberedUuid
  canonical := decompose
  canonical_uuidString_injective := by
    simpa only [decompose_numberedUuid] using numberedUuid_injective
  description := printCoordinate
  double := parseCoordinate
  double_description := parseCoordinate_print

end Foundation

end DocumentRelay
