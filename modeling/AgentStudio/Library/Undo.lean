import Mathlib.Logic.Function.Basic
import Mathlib.Data.List.Basic

/-!
# Edits of a store and their undoing

A store has a value under each key. An `Edit` changes the value under one key, and `runAll` makes
edits one after the other. `undoAll` is what takes edits back without a record of what was there
before: each entry changes the value under a key on its own, whatever has been there.

Where an entry blanks what it covers and leaves the rest, `undoAll_apply` says what is left under a
key.
-/

namespace Undo

variable {κ ι : Type*} {β : κ → Type*}

/-- A change of the value under one key. -/
structure Edit (β : κ → Type*) where
  key : κ
  change : β key → β key

section Edits

variable [DecidableEq κ] {s : (k : κ) → β k} {k : κ}

/-- The store after the edit. -/
def Edit.run (e : Edit β) (s : (k : κ) → β k) : (k : κ) → β k :=
  Function.update s e.key (e.change (s e.key))

/-- The store after some edits. -/
def runAll (es : List (Edit β)) (s : (k : κ) → β k) : (k : κ) → β k :=
  es.foldl (fun s e => e.run s) s

@[simp] theorem runAll_nil : runAll [] s = s := rfl

@[simp] theorem runAll_cons (e : Edit β) (es : List (Edit β)) :
    runAll (e :: es) s = runAll es (e.run s) := rfl

theorem runAll_append (es fs : List (Edit β)) : runAll (es ++ fs) s = runAll fs (runAll es s) :=
  List.foldl_append

theorem Edit.run_of_ne {e : Edit β} (h : k ≠ e.key) : e.run s k = s k := Function.update_of_ne h ..

/-- An edit that leaves its value as it is. -/
theorem Edit.run_eq_self {e : Edit β} (h : e.change (s e.key) = s e.key) : e.run s = s := by
  rw [Edit.run, h, Function.update_eq_self]

/-- Edits of other keys leave a value alone. -/
theorem runAll_of_ne {es : List (Edit β)} (h : ∀ e ∈ es, k ≠ e.key) : runAll es s k = s k := by
  induction es generalizing s with
  | nil => rfl
  | cons e es ih =>
    obtain ⟨he, hes⟩ := List.forall_mem_cons.mp h
    rw [runAll_cons, ih hes, Edit.run_of_ne he]

end Edits

/-! ### Undoing -/

section Undoing

variable (erase : ι → (k : κ) → β k → β k) {s : (k : κ) → β k} {k : κ} {rs : List ι}

/-- The store after the entries have been undone. -/
def undoAll (rs : List ι) (s : (k : κ) → β k) : (k : κ) → β k :=
  rs.foldl (fun s r k => erase r k (s k)) s

variable {erase} {covers : ι → Prop} [DecidablePred covers] {blank : β k}

/-- What is left under a key of which each entry blanks the value or leaves it. -/
theorem undoAll_apply (h : ∀ r v, erase r k v = if covers r then blank else v) :
    undoAll erase rs s k = if ∃ r ∈ rs, covers r then blank else s k := by
  induction rs generalizing s with
  | nil => simp [undoAll]
  | cons r rs ih =>
    have hcons : undoAll erase (r :: rs) s = undoAll erase rs fun k => erase r k (s k) := rfl
    rw [hcons, ih, h]
    by_cases hr : covers r <;> simp [hr]

end Undoing

end Undo
