import Mathlib.Data.List.Basic
import Mathlib.Data.String.Basic

/-!
# Components of a file path

A file path names a place by its components, the stretches between slashes.  Of
these, `"."` and the empty one stand still and `".."` goes up; `resolve` walks the
rest.

A name spliced into a path after a slash is one component exactly when it has no
slash of its own (`components_append_slash_eq_iff`), and a component that does not
stand still or go up is where the walk ends (`resolve_append_singleton`).
-/

namespace SlashPath

/-- What is split at `a` no longer holds `a`. -/
theorem notMem_of_mem_splitOn {a : Char} {cs piece : List Char} (mem : piece ∈ cs.splitOn a) :
    a ∉ piece := by
  induction cs generalizing piece with
  | nil => simp_all
  | cons c rest ih =>
      rw [List.splitOn_cons_eq_if_modifyHead] at mem
      split at mem
      · rcases List.mem_cons.mp mem with rfl | tail
        · simp
        · exact ih tail
      · rename_i differs
        obtain ⟨head, tail, eq⟩ := List.exists_cons_of_ne_nil (List.splitOn_ne_nil a rest)
        rw [eq] at mem ih
        rcases List.mem_cons.mp mem with rfl | inTail
        · rw [List.mem_cons, not_or]
          exact ⟨fun same => differs (by simp [same]), ih List.mem_cons_self⟩
        · exact ih (List.mem_cons_of_mem _ inTail)

/-- The components of a path. -/
def components (path : String) : List String :=
  (path.toList.splitOn '/').map String.ofList

/-- One component of a walk from the place `place`. -/
def walk (place : List String) (component : String) : List String :=
  if component = "" ∨ component = "." then place
  else if component = ".." then place.dropLast
  else place ++ [component]

/-- Where a path leads. -/
def resolve (path : List String) : List String := path.foldl walk []

/-- A slash joins two paths. -/
theorem components_append_slash (front back : String) :
    components (front ++ ("/" ++ back)) = components front ++ components back := by
  have chars : (front ++ ("/" ++ back)).toList = front.toList ++ '/' :: back.toList := by simp
  rw [components, chars, List.splitOn_append_cons_self]
  simp [components]

/-- **A string is its own single component exactly when it has no slash.** -/
theorem components_eq_singleton_iff (name : String) :
    components name = [name] ↔ '/' ∉ name.toList := by
  constructor
  · intro single
    have listed : name ∈ components name := by simp [single]
    obtain ⟨piece, inSplit, rfl⟩ := List.mem_map.mp listed
    simpa using notMem_of_mem_splitOn inSplit
  · intro noSlash
    simp [components, List.splitOn_eq_singleton noSlash]

/-- **A name spliced in after a slash is one component exactly when it has no slash
itself.** -/
theorem components_append_slash_eq_iff (directory name : String) :
    components (directory ++ ("/" ++ name)) = components directory ++ [name] ↔
      '/' ∉ name.toList := by
  rw [components_append_slash, List.append_right_inj, components_eq_singleton_iff]

/-- A component that is a name is where the walk ends. -/
theorem resolve_append_singleton (directory : List String) {name : String}
    (named : name ∉ ["", ".", ".."]) :
    resolve (directory ++ [name]) = resolve directory ++ [name] := by
  simp only [List.mem_cons, List.not_mem_nil, or_false, not_or] at named
  obtain ⟨nonempty, still, up⟩ := named
  simp [resolve, walk, nonempty, still, up]

end SlashPath
