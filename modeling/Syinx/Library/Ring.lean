import Mathlib.Data.List.Range
import Mathlib.Data.Int.ModEq
import Mathlib.Logic.Function.Basic
import Mathlib.Tactic.Ring

/-!
# Circular buffers

A circular buffer keeps a queue in an array `q` of `size` cells: the `n` entries
of the queue are the cells from index `head` on, wrapping at the end of the
array. The indices are integers, as a program's machine integers are, and an
index is moved by a comparison with the size (`next`), not by a remainder.

## What is proved

* `next_eq_emod` — moving an index is adding one modulo the size.
* `entries_push` — writing the cell behind the last entry appends to the queue.
* `entries_pop` — moving the head takes the first entry off.
-/

namespace Syinx.Library.Ring

universe u

variable {α : Type u}

/-- The index behind `i`, back to `0` at the end of the array. -/
def next (size i : ℤ) : ℤ := if i + 1 = size then 0 else i + 1

/-- The `n` entries from index `head` on. -/
def entries (q : ℤ → α) (size head : ℤ) (n : ℕ) : List α :=
  (List.range n).map fun i : ℕ => q ((head + (i : ℤ)) % size)

@[simp] theorem length_entries (q : ℤ → α) (size head : ℤ) (n : ℕ) :
    (entries q size head n).length = n := by simp [entries]

@[simp] theorem entries_zero (q : ℤ → α) (size head : ℤ) : entries q size head 0 = [] := rfl

theorem next_eq_emod {size i : ℤ} (h0 : 0 ≤ i) (h1 : i < size) : next size i = (i + 1) % size := by
  unfold next
  split_ifs with h
  · rw [h, Int.emod_self]
  · rw [Int.emod_eq_of_lt (by omega) (by omega)]

theorem next_nonneg {size i : ℤ} (h0 : 0 ≤ i) : 0 ≤ next size i := by
  unfold next; split_ifs <;> omega

theorem next_lt {size i : ℤ} (h0 : 0 ≤ i) (h1 : i < size) : next size i < size := by
  unfold next; split_ifs <;> omega

/-- Two offsets below the size meet the same cell only if they are the same. -/
theorem emod_ne_of_lt {size head : ℤ} {i n : ℕ} (hi : i < n) (hn : (n : ℤ) < size) :
    (head + i) % size ≠ (head + n) % size := by
  intro h
  have hd : size ∣ (head + n) - (head + i) := Int.ModEq.dvd h
  have hlt : (head + n) - (head + i) < size := by omega
  have hpos : 0 < (head + n) - (head + i) := by omega
  exact absurd (Int.le_of_dvd hpos hd) (by omega)

/-- Writing the cell behind the last entry appends to the queue. -/
theorem entries_push {q : ℤ → α} {size head : ℤ} {n : ℕ} (hn : (n : ℤ) < size) (x : α) :
    entries (Function.update q ((head + n) % size) x) size head (n + 1) =
      entries q size head n ++ [x] := by
  unfold entries
  rw [List.range_succ, List.map_append, List.map_singleton, Function.update_self]
  congr 1
  apply List.map_congr_left
  intro i hi
  rw [Function.update_of_ne (emod_ne_of_lt (List.mem_range.mp hi) hn)]

/-- Moving the head takes the first entry off. -/
theorem entries_pop {q : ℤ → α} {size head : ℤ} {n : ℕ} (h0 : 0 ≤ head) (h1 : head < size) :
    entries q size head (n + 1) = q head :: entries q size (next size head) n := by
  unfold entries
  rw [List.range_succ_eq_map, List.map_cons, List.map_map, Nat.cast_zero, add_zero,
    Int.emod_eq_of_lt h0 h1]
  congr 1
  apply List.map_congr_left
  intro i _
  rw [next_eq_emod h0 h1, Int.emod_add_emod]
  simp only [Function.comp, Nat.cast_succ]
  congr 2
  ring

end Syinx.Library.Ring
