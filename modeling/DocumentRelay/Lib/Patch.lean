import Mathlib.Data.List.Basic
import Mathlib.Data.Option.Basic

/-!
# Patches

A patch says what some places of a state are overwritten with, and leaves the
others alone.  Overwriting is the whole of it: what a patch writes does not depend
on what was there.

Of patches made one after the other the later ones have the last word: at a place that
one of them writes, what was there before does not matter (`applyAll_of_covered`), and
at a place that none of them writes, nothing changes (`applyAll_of_none`).
-/

universe u v w

/-- The places that are overwritten, with what. -/
def Patch (ι : Type u) (β : Type v) : Type max u v := ι → Option β

namespace Patch

variable {ι : Type u} {β : Type v}

/-- The state after a patch. -/
def apply (P : Patch ι β) (state : ι → β) : ι → β := fun i => (P i).getD (state i)

/-- The state after patches, the first one first. -/
def applyAll (Ps : List (Patch ι β)) (state : ι → β) : ι → β :=
  Ps.foldl (fun state P => P.apply state) state

@[simp] theorem applyAll_nil (state : ι → β) : applyAll [] state = state := rfl

@[simp] theorem applyAll_cons (P : Patch ι β) (Ps : List (Patch ι β)) (state : ι → β) :
    applyAll (P :: Ps) state = applyAll Ps (P.apply state) := rfl

theorem applyAll_append (Ps Qs : List (Patch ι β)) (state : ι → β) :
    applyAll (Ps ++ Qs) state = applyAll Qs (applyAll Ps state) := List.foldl_append

theorem apply_of_none {P : Patch ι β} {i : ι} (free : P i = none) (state : ι → β) :
    P.apply state i = state i := by
  simp [apply, free]

theorem apply_of_some {P : Patch ι β} {i : ι} {b : β} (covered : P i = some b) (state : ι → β) :
    P.apply state i = b := by
  simp [apply, covered]

/-- What patches leave at a place depends on what was at that place. -/
theorem applyAll_congr {Ps : List (Patch ι β)} {state state' : ι → β} {i : ι}
    (same : state i = state' i) : applyAll Ps state i = applyAll Ps state' i := by
  induction Ps generalizing state state' with
  | nil => exact same
  | cons P rest ih =>
      rw [applyAll_cons, applyAll_cons]
      refine ih ?_
      show (P i).getD (state i) = (P i).getD (state' i)
      rw [same]

/-- Where no patch writes, nothing changes. -/
theorem applyAll_of_none {Ps : List (Patch ι β)} {i : ι} (free : ∀ P ∈ Ps, P i = none)
    (state : ι → β) : applyAll Ps state i = state i := by
  induction Ps generalizing state with
  | nil => rfl
  | cons P rest ih =>
      rw [applyAll_cons, ih fun Q mem => free Q (List.mem_cons_of_mem _ mem),
        apply_of_none (free P List.mem_cons_self)]

/-- A patch seen from other places. -/
def restrict {κ : Type w} (P : Patch ι β) (f : κ → ι) : Patch κ β := fun k => P (f k)

theorem applyAll_restrict {κ : Type w} (Ps : List (Patch ι β)) (f : κ → ι) (state : ι → β) :
    applyAll (Ps.map fun P => P.restrict f) (fun k => state (f k)) =
      fun k => applyAll Ps state (f k) := by
  induction Ps generalizing state with
  | nil => rfl
  | cons P rest ih => exact ih (P.apply state)

/-- Where one of the patches writes, what was there before does not matter. -/
theorem applyAll_of_covered {Ps : List (Patch ι β)} {P : Patch ι β} (mem : P ∈ Ps) {i : ι}
    (covered : P i ≠ none) (state state' : ι → β) :
    applyAll Ps state i = applyAll Ps state' i := by
  induction Ps generalizing state state' with
  | nil => cases mem
  | cons first rest ih =>
      rcases List.mem_cons.mp mem with rfl | later
      · obtain ⟨b, known⟩ := Option.ne_none_iff_exists'.mp covered
        rw [applyAll_cons, applyAll_cons]
        refine applyAll_congr ?_
        rw [apply_of_some known, apply_of_some known]
      · exact ih later _ _

/-- Where all patches that write at all write the same, it is there afterwards. -/
theorem applyAll_of_agree {Ps : List (Patch ι β)} {i : ι} {b : β} {P : Patch ι β} (mem : P ∈ Ps)
    (covered : P i = some b) (agree : ∀ Q ∈ Ps, Q i = none ∨ Q i = some b) (state : ι → β) :
    applyAll Ps state i = b := by
  rw [applyAll_of_covered mem (by simp [covered]) state fun _ => b]
  clear mem
  induction Ps with
  | nil => rfl
  | cons Q rest ih =>
      have kept : Q.apply (fun _ => b) i = b := by
        rcases agree Q List.mem_cons_self with free | same
        · exact apply_of_none free _
        · exact apply_of_some same _
      calc applyAll (Q :: rest) (fun _ => b) i
          = applyAll rest (Q.apply fun _ => b) i := rfl
        _ = applyAll rest (fun _ => b) i := applyAll_congr kept
        _ = b := ih fun R mem => agree R (List.mem_cons_of_mem _ mem)

end Patch
