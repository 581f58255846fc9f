import Mathlib.Data.List.Basic
import Mathlib.Data.Int.Order.Basic

/-!
# A numbered log with a cap

The entries of a log are numbered from one on. `push` gives a further entry the number after the
largest one that the log holds, and drops the entries that are `cap` or more behind it.

`push_window` says that such a log is always the window of the last `cap` entries of the list that
was pushed, whatever was dropped: so the numbers are the positions in that list
(`mem_window_iff`), and no number is given twice (`nextNumber_window`).
-/

namespace NumberedLog

variable {α : Type}

/-- The entries of a list with their numbers. -/
def numbered (xs : List α) : List (ℤ × α) := xs.mapIdx fun i x => ((i : ℤ) + 1, x)

/-- The number of the next entry of a log. -/
def nextNumber (log : List (ℤ × α)) : ℤ := (log.map Prod.fst).max?.getD 0 + 1

/-- A further entry, and the old ones are dropped. -/
def push (cap : ℤ) (x : α) (log : List (ℤ × α)) : List (ℤ × α) :=
  (log ++ [(nextNumber log, x)]).filter fun e => nextNumber log - cap < e.1

/-- The last entries of a list with their numbers. -/
def window (cap : ℤ) (xs : List α) : List (ℤ × α) :=
  (numbered xs).filter fun e => (xs.length : ℤ) - cap < e.1

variable {cap : ℤ} {xs : List α} {x : α} {v : ℤ}

/-- A number is the position of its entry. -/
theorem mem_numbered_iff : (v, x) ∈ numbered xs ↔ 1 ≤ v ∧ xs[(v - 1).toNat]? = some x := by
  rw [numbered, List.mem_mapIdx]
  constructor
  · rintro ⟨i, hi, heq⟩
    obtain ⟨rfl, rfl⟩ := Prod.mk.inj heq
    have hpos : ((i : ℤ) + 1 - 1).toNat = i := by omega
    rw [hpos]
    exact ⟨by omega, List.getElem?_eq_getElem hi⟩
  · rintro ⟨hv, hx⟩
    obtain ⟨hi, rfl⟩ := List.getElem?_eq_some_iff.mp hx
    exact ⟨(v - 1).toNat, hi, Prod.ext (by simp only; omega) rfl⟩

theorem mem_window_iff :
    (v, x) ∈ window cap xs ↔ (xs.length : ℤ) - cap < v ∧ 1 ≤ v ∧ xs[(v - 1).toNat]? = some x := by
  rw [window, List.mem_filter, decide_eq_true_eq, and_comm, mem_numbered_iff]

/-- The numbers that a window holds. -/
theorem exists_mem_window_iff :
    (∃ x, (v, x) ∈ window cap xs) ↔ max 1 (xs.length - cap + 1) ≤ v ∧ v ≤ xs.length := by
  have hsome : (∃ x, xs[(v - 1).toNat]? = some x) ↔ (v - 1).toNat < xs.length :=
    ⟨fun ⟨_, hx⟩ => (List.getElem?_eq_some_iff.mp hx).1, fun h => ⟨_, List.getElem?_eq_getElem h⟩⟩
  simp only [mem_window_iff, exists_and_left, hsome]
  omega

theorem numbered_append_singleton (xs : List α) (x : α) :
    numbered (xs ++ [x]) = numbered xs ++ [((xs.length : ℤ) + 1, x)] := by
  rw [numbered, List.mapIdx_append, numbered]
  simp

/-- **The next number** is one more than the number of entries that were pushed. -/
theorem nextNumber_window (hcap : 0 < cap) (xs : List α) :
    nextNumber (window cap xs) = xs.length + 1 := by
  rcases xs.eq_nil_or_concat with rfl | ⟨ys, y, rfl⟩
  · rfl
  rw [nextNumber, List.concat_eq_append]
  congr 1
  have hlen : ((ys ++ [y]).length : ℤ) = ys.length + 1 := by simp
  have hlast : (((ys ++ [y]).length : ℤ), y) ∈ window cap (ys ++ [y]) :=
    mem_window_iff.mpr ⟨by omega, by omega, by simp⟩
  have hmax : ((window cap (ys ++ [y])).map Prod.fst).max? = some ((ys ++ [y]).length : ℤ) := by
    refine List.max?_eq_some_iff.mpr ⟨List.mem_map_of_mem hlast, fun n hn => ?_⟩
    obtain ⟨⟨v, z⟩, hz, rfl⟩ := List.mem_map.mp hn
    exact (exists_mem_window_iff.mp ⟨z, hz⟩).2
  rw [hmax, Option.getD_some]

/-- **A further entry** gives the window of the list with it. -/
theorem push_window (hcap : 0 < cap) (x : α) (xs : List α) :
    push cap x (window cap xs) = window cap (xs ++ [x]) := by
  rw [push, nextNumber_window hcap, window, window, numbered_append_singleton,
    List.filter_append, List.filter_append, List.filter_filter]
  have hlen : ((xs ++ [x]).length : ℤ) = xs.length + 1 := by simp
  rw [hlen]
  refine congrArg (· ++ _) (List.filter_congr fun e _ => ?_)
  rw [Bool.eq_iff_iff, Bool.and_eq_true, decide_eq_true_eq, decide_eq_true_eq]
  omega

end NumberedLog
