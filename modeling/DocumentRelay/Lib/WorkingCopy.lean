import Mathlib.Data.List.Basic

/-!
# A working copy over committed data

A store that is edited in memory and written out by explicit saves has two
contents at any time: the *working* copy the program reads and edits, and the
*committed* one that survives the process.  A program over such a store is a
list of actions, edits and saves; a save may fail, and then it leaves the edits
pending for the next one.

* `exec ok actions copy` — run `actions`; `ok n` is the outcome of the `n`-th
  save among them.
* `replay actions rows` — the edits of `actions` alone.
* `exec_working` — the working copy never depends on the outcomes.
* `SavePoint actions rows rows'` — at one of the saves of `actions`, run from
  `rows`, the working copy is `rows'`.
* `exec_committed` — the committed copy is the one the program started with, or
  a save point.

Cutting a program off after any number of its actions is `actions.take k`, so
the last fact is what a crash leaves behind.
-/

universe u v

/-- One action of a program over a store: an edit of the working copy, or a
save of it. -/
inductive StoreAction (ε : Type v) where
  | edit (e : ε)
  | save
  deriving DecidableEq, Repr

/-- The contents a program sees and the contents that survive it. -/
structure WorkingCopy (ρ : Type u) where
  working : ρ
  committed : ρ
  deriving DecidableEq, Repr

namespace WorkingCopy

variable {ρ : Type u} {ε : Type v}

/-- A store with nothing pending. -/
def clean (rows : ρ) : WorkingCopy ρ := ⟨rows, rows⟩

/-- What the next process finds: only the committed contents. -/
def reopen (copy : WorkingCopy ρ) : WorkingCopy ρ := clean copy.committed

/-- Save the working copy; a failed save changes nothing. -/
def save (ok : Bool) (copy : WorkingCopy ρ) : WorkingCopy ρ :=
  if ok then { copy with committed := copy.working } else copy

variable (apply : ε → ρ → ρ)

/-- Run a program.  `ok n` is the outcome of the `n`-th save it makes. -/
def exec (ok : ℕ → Bool) : List (StoreAction ε) → WorkingCopy ρ → WorkingCopy ρ
  | [], copy => copy
  | .edit e :: rest, copy => exec ok rest { copy with working := apply e copy.working }
  | .save :: rest, copy => exec (fun n => ok (n + 1)) rest (copy.save (ok 0))

/-- The edits of a program, without its saves. -/
def replay : List (StoreAction ε) → ρ → ρ
  | [], rows => rows
  | .edit e :: rest, rows => replay rest (apply e rows)
  | .save :: rest, rows => replay rest rows

@[simp] theorem replay_nil (rows : ρ) : replay apply [] rows = rows := rfl

@[simp] theorem replay_edit (e : ε) (rest : List (StoreAction ε)) (rows : ρ) :
    replay apply (.edit e :: rest) rows = replay apply rest (apply e rows) := rfl

@[simp] theorem replay_save (rest : List (StoreAction ε)) (rows : ρ) :
    replay apply (.save :: rest) rows = replay apply rest rows := rfl

theorem replay_append (first second : List (StoreAction ε)) (rows : ρ) :
    replay apply (first ++ second) rows = replay apply second (replay apply first rows) := by
  induction first generalizing rows with
  | nil => rfl
  | cons action rest ih =>
      cases action with
      | edit e => simpa using ih (apply e rows)
      | save => simpa using ih rows

@[simp] theorem save_working (ok : Bool) (copy : WorkingCopy ρ) :
    (copy.save ok).working = copy.working := by
  cases ok <;> rfl

/-- **The working copy is the edits applied in order**, whatever the saves did. -/
@[simp] theorem exec_working (ok : ℕ → Bool) (actions : List (StoreAction ε))
    (copy : WorkingCopy ρ) :
    (exec apply ok actions copy).working = replay apply actions copy.working := by
  induction actions generalizing ok copy with
  | nil => rfl
  | cons action rest ih =>
      cases action with
      | edit e => simp [exec, ih]
      | save => simp [exec, ih]

/-- Edits followed by one save: the working copy is edited, then saved. -/
theorem exec_edits_save (ok : ℕ → Bool) (edits : List ε) (copy : WorkingCopy ρ) :
    exec apply ok (edits.map .edit ++ [.save]) copy =
      save (ok 0) { copy with
        working := edits.foldl (fun rows e => apply e rows) copy.working } := by
  induction edits generalizing copy with
  | nil => rfl
  | cons e edits ih => exact ih { copy with working := apply e copy.working }

/-- `SavePoint actions rows rows'`: run from `rows`, `actions` makes a save while
the working copy is `rows'`. -/
def SavePoint : List (StoreAction ε) → ρ → ρ → Prop
  | [], _, _ => False
  | .edit e :: rest, rows, rows' => SavePoint rest (apply e rows) rows'
  | .save :: rest, rows, rows' => rows' = rows ∨ SavePoint rest rows rows'

@[simp] theorem savePoint_nil (rows rows' : ρ) : ¬ SavePoint apply [] rows rows' := id

@[simp] theorem savePoint_edit (e : ε) (rest : List (StoreAction ε)) (rows rows' : ρ) :
    SavePoint apply (.edit e :: rest) rows rows' ↔ SavePoint apply rest (apply e rows) rows' :=
  Iff.rfl

@[simp] theorem savePoint_save (rest : List (StoreAction ε)) (rows rows' : ρ) :
    SavePoint apply (.save :: rest) rows rows' ↔
      rows' = rows ∨ SavePoint apply rest rows rows' :=
  Iff.rfl

/-- The save points of two programs in sequence. -/
theorem savePoint_append (first second : List (StoreAction ε)) (rows rows' : ρ) :
    SavePoint apply (first ++ second) rows rows' ↔
      SavePoint apply first rows rows' ∨
        SavePoint apply second (replay apply first rows) rows' := by
  induction first generalizing rows with
  | nil => simp
  | cons action rest ih =>
      cases action with
      | edit e => simpa using ih (apply e rows)
      | save => simp [ih, or_assoc]

/-- A program that is cut short only has save points of the whole one. -/
theorem SavePoint.of_take {actions : List (StoreAction ε)} {k : ℕ} {rows rows' : ρ}
    (point : SavePoint apply (actions.take k) rows rows') :
    SavePoint apply actions rows rows' := by
  rw [← List.take_append_drop k actions, savePoint_append]
  exact Or.inl point

/-- **What is committed was the working copy at a save**, or was committed from
the start. -/
theorem exec_committed (ok : ℕ → Bool) (actions : List (StoreAction ε))
    (copy : WorkingCopy ρ) :
    (exec apply ok actions copy).committed = copy.committed ∨
      SavePoint apply actions copy.working (exec apply ok actions copy).committed := by
  induction actions generalizing ok copy with
  | nil => exact Or.inl rfl
  | cons action rest ih =>
      cases action with
      | edit e => exact ih ok { copy with working := apply e copy.working }
      | save =>
          -- The rest numbers its saves from zero again.
          rcases ih (fun n => ok (n + 1)) (copy.save (ok 0)) with same | point
          · cases saved : ok 0 with
            | false => exact Or.inl (by simpa [exec, save, saved] using same)
            | true => exact Or.inr (Or.inl (by simpa [exec, save, saved] using same))
          · rw [save_working] at point
            exact Or.inr (Or.inr point)

/-- Nothing to do, or a save at the end. -/
def EndsSaved (actions : List (StoreAction ε)) : Prop :=
  actions = [] ∨ ∃ front, actions = front ++ [.save]

theorem EndsSaved.append {first second : List (StoreAction ε)} (one : EndsSaved first)
    (two : EndsSaved second) : EndsSaved (first ++ second) := by
  rcases two with rfl | ⟨front, rfl⟩
  · simpa using one
  · exact Or.inr ⟨first ++ front, (List.append_assoc _ _ _).symm⟩

/-- Where the last action is a save, the final working copy is a save point. -/
theorem EndsSaved.replay {actions : List (StoreAction ε)} (saved : EndsSaved actions)
    (rows : ρ) :
    replay apply actions rows = rows ∨
      SavePoint apply actions rows (replay apply actions rows) := by
  rcases saved with rfl | ⟨front, rfl⟩
  · exact Or.inl rfl
  · refine Or.inr ?_
    rw [savePoint_append, replay_append]
    exact Or.inr (Or.inl rfl)

/-- A program that ends in a save, all of whose saves succeed, leaves nothing
pending. -/
theorem exec_clean {ok : ℕ → Bool} (allOk : ∀ n, ok n = true)
    (front : List (StoreAction ε)) (copy : WorkingCopy ρ) :
    exec apply ok (front ++ [.save]) copy = clean (replay apply front copy.working) := by
  induction front generalizing ok copy with
  | nil => simp [exec, save, allOk, clean]
  | cons action rest ih =>
      cases action with
      | edit e => simpa [exec] using ih allOk { copy with working := apply e copy.working }
      | save =>
          simpa [exec] using ih (fun n => allOk (n + 1)) (copy.save (ok 0))

end WorkingCopy
