import DocumentRelay.Lib.Components

/-!
# References of the database client

The part of the Firebase client that turns the strings the app splices together
into a place in the tree: the validator (`FValidation`), the path splitter
(`FPath`) and `FIRDatabaseReference child:`.

A path is split at every `/` and empty components are dropped, so a string names
one component exactly when it is not empty and has no `/` (`pathPieces_eq_self_iff`).
The validator rejects five characters, but not `/`; a *key* is a string the
stricter rule `isValidKey` accepts.
-/

namespace DocumentRelay

/-- What an Objective-C `@throw` carries. -/
structure NSException where
  name : String
  reason : String
  deriving DecidableEq, Repr

namespace FValidation

def kInvalidPathCharacters : List Char := ['[', ']', '.', '#', '$']

def kInvalidKeyCharacters : List Char := ['[', ']', '.', '#', '$', '/']

def isValidPathString (pathString : String) : Bool :=
  pathString ≠ "" && pathString.toList.all fun c => c ∉ kInvalidPathCharacters

def isValidKey (key : String) : Bool :=
  key ≠ "" && key.toList.all fun c => c ∉ kInvalidKeyCharacters

/-- `validateFrom:validPathString:`. -/
def validPathString (fn pathString : String) : Except NSException Unit :=
  if isValidPathString pathString then .ok ()
  else .error ⟨"InvalidPathValidation",
    "(" ++ fn ++ ") Must be a non-empty string and not contain '.' '#' '$' '[' or ']'"⟩

/-- Where `$` matches: at the end, or before a last line terminator. -/
def atLineEnd (rest : List Char) : Bool :=
  rest = [] || rest = ['\r', '\n'] ||
    [['\n'], ['\x0b'], ['\x0c'], ['\r'], ['\x85'], [Char.ofNat 0x2028],
      [Char.ofNat 0x2029]].contains rest

/-- Replacing the match of `^\/*\.info(\/|$)` by a single slash.  The plain
search for `.info` that comes before the regular expression only saves time. -/
def replaceDotInfo (path : List Char) : List Char :=
  let rest := path.dropWhile (· = '/')
  if ['.', 'i', 'n', 'f', 'o'].isPrefixOf rest then
    -- The terminating slash is part of the match, a line end is not.
    match rest.drop 5 with
    | '/' :: tail => '/' :: tail
    | tail => if atLineEnd tail then '/' :: tail else path
  else path

/-- `validateFrom:validRootPathString:`. -/
def validRootPathString (fn pathString : String) : Except NSException Unit :=
  validPathString fn (String.ofList (replaceDotInfo pathString.toList))

end FValidation

/-- An `FPath` by the pieces that are left of it.  Pieces are strings, or keys from a set of
strings where the order of keys matters. -/
abbrev FPath (κ : Type := String) := List κ

/-- `[path componentsSeparatedByString:@"/"]` without the empty components. -/
def pathPieces (path : String) : List String :=
  ((path.toList.splitOn '/').filter fun piece => piece ≠ []).map String.ofList

/-- `FPath childFromString:`. -/
def FPath.childFromString (path : FPath) (childPath : String) : FPath :=
  path ++ pathPieces childPath

/-- `FIRDatabaseReference child:`, on the path of the reference. -/
def FPath.child (path : FPath) (pathString : String) : Except NSException FPath :=
  match path.head? with
  -- Only the root may be asked for `.info`.
  | none => do
      FValidation.validRootPathString "child:" pathString
      return path.childFromString pathString
  | some _ => do
      FValidation.validPathString "child:" pathString
      return path.childFromString pathString

/-- `Database.database().reference()`: the root. -/
def dbReference : FPath := []

/-! ## Splitting -/

/-- A slash joins two paths. -/
theorem pathPieces_append_slash (front back : String) :
    pathPieces (front ++ "/" ++ back) = pathPieces front ++ pathPieces back := by
  have chars : (front ++ "/" ++ back).toList = front.toList ++ '/' :: back.toList := by simp
  rw [pathPieces, chars, List.splitOn_append_cons_self]
  simp [pathPieces]

/-- A non-empty string without a slash is one piece. -/
theorem pathPieces_of_noSlash {s : String} (nonempty : s ≠ "") (noSlash : '/' ∉ s.toList) :
    pathPieces s = [s] := by
  have inhabited : s.toList ≠ [] := by simpa using nonempty
  simp [pathPieces, List.splitOn_eq_singleton noSlash, inhabited]

/-- No piece of a path is empty or holds a slash. -/
theorem noSlash_of_mem_pathPieces {s piece : String} (mem : piece ∈ pathPieces s) :
    piece ≠ "" ∧ '/' ∉ piece.toList := by
  simp only [pathPieces, List.mem_map, List.mem_filter, decide_eq_true_eq] at mem
  obtain ⟨cs, ⟨inSplit, nonempty⟩, rfl⟩ := mem
  refine ⟨by simpa using nonempty, ?_⟩
  simpa using SlashPath.notMem_of_mem_splitOn inSplit

/-- **A string is its own single piece exactly when it is not empty and has no
slash.** -/
theorem pathPieces_eq_self_iff (s : String) :
    pathPieces s = [s] ↔ s ≠ "" ∧ '/' ∉ s.toList := by
  constructor
  · intro h
    exact noSlash_of_mem_pathPieces (s := s) (by simp [h])
  · rintro ⟨nonempty, noSlash⟩
    exact pathPieces_of_noSlash nonempty noSlash

/-! ## Under `/shared` -/

/-- The characters the path validator accepts. -/
def PathChars (s : String) : Prop := ∀ c ∈ s.toList, c ∉ FValidation.kInvalidPathCharacters

instance (s : String) : Decidable (PathChars s) :=
  List.decidableBAll (fun c => c ∉ FValidation.kInvalidPathCharacters) s.toList

theorem pathChars_append {s t : String} : PathChars (s ++ t) ↔ PathChars s ∧ PathChars t := by
  simp only [PathChars, String.toList_append, List.forall_mem_append]

theorem isValidKey_iff (key : String) :
    FValidation.isValidKey key = true ↔ PathChars key ∧ key ≠ "" ∧ '/' ∉ key.toList := by
  simp only [FValidation.isValidKey, FValidation.kInvalidKeyCharacters,
    FValidation.kInvalidPathCharacters, PathChars, Bool.and_eq_true, decide_eq_true_eq,
    List.all_eq_true, List.mem_cons, List.not_mem_nil, or_false, not_or]
  constructor
  · rintro ⟨nonempty, clean⟩
    refine ⟨?_, nonempty, fun slash => (clean '/' slash).2.2.2.2.2 rfl⟩
    intro c mem
    obtain ⟨h1, h2, h3, h4, h5, -⟩ := clean c mem
    exact ⟨h1, h2, h3, h4, h5⟩
  · rintro ⟨clean, nonempty, noSlash⟩
    refine ⟨nonempty, ?_⟩
    intro c mem
    obtain ⟨h1, h2, h3, h4, h5⟩ := clean c mem
    exact ⟨h1, h2, h3, h4, h5, fun same => noSlash (same ▸ mem)⟩

theorem isValidPathString_iff (s : String) :
    FValidation.isValidPathString s = true ↔ s ≠ "" ∧ PathChars s := by
  simp [FValidation.isValidPathString, PathChars]

/-- A path under `/shared` never starts with `.info`, so the root rule is the
plain one there. -/
theorem validRootPathString_shared (fn key : String) :
    FValidation.validRootPathString fn ("/shared/" ++ key) =
      FValidation.validPathString fn ("/shared/" ++ key) := by
  have unchanged : FValidation.replaceDotInfo ("/shared/" ++ key).toList =
      ("/shared/" ++ key).toList := by
    simp [FValidation.replaceDotInfo]
  rw [FValidation.validRootPathString, unchanged, String.ofList_toList]

theorem pathPieces_shared (key : String) :
    pathPieces ("/shared/" ++ key) = "shared" :: pathPieces key := by
  have regroup : "/shared/" ++ key = "/shared" ++ "/" ++ key := rfl
  have root : pathPieces "/shared" = ["shared"] := by decide
  rw [regroup, pathPieces_append_slash, root]
  rfl

/-- **What `child("/shared/\(key)")` does with any string**: it raises on a
forbidden character, and otherwise descends by the non-empty pieces of `key`. -/
theorem child_shared (key : String) :
    dbReference.child ("/shared/" ++ key) =
      if PathChars key then .ok ("shared" :: pathPieces key)
      else .error ⟨"InvalidPathValidation",
        "(child:) Must be a non-empty string and not contain '.' '#' '$' '[' or ']'"⟩ := by
  have unfolded : dbReference.child ("/shared/" ++ key) =
      (FValidation.validPathString "child:" ("/shared/" ++ key)).bind fun _ =>
        .ok ("shared" :: pathPieces key) := by
    rw [← validRootPathString_shared, ← pathPieces_shared]
    rfl
  have nonempty : "/shared/" ++ key ≠ "" := by simp [String.append_eq_empty_iff]
  have front : PathChars "/shared/" := by decide
  rw [unfolded, FValidation.validPathString]
  by_cases clean : PathChars key
  · have valid := (isValidPathString_iff ("/shared/" ++ key)).mpr
      ⟨nonempty, pathChars_append.mpr ⟨front, clean⟩⟩
    rw [if_pos valid, if_pos clean]
    rfl
  · have invalid : ¬ FValidation.isValidPathString ("/shared/" ++ key) = true := fun valid =>
      clean (pathChars_append.mp ((isValidPathString_iff _).mp valid).2).2
    rw [if_neg invalid, if_neg clean]
    rfl

end DocumentRelay
