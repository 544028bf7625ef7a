import Mathlib.Data.Nat.Count

/-!
# Counting what changes

How many numbers below a bound have a property (`Nat.count`), when the property
changes at one of them.
-/

namespace Syinx.Library

variable {p q : ℕ → Prop} [DecidablePred p] [DecidablePred q] {n b : ℕ}

/-- Only what is below the bound is counted. -/
theorem count_congr (h : ∀ e < n, p e ↔ q e) : Nat.count p n = Nat.count q n :=
  le_antisymm (Nat.count_mono_left fun e he => (h e he).mp)
    (Nat.count_mono_left fun e he => (h e he).mpr)

/-- One more has the property. -/
theorem count_insert (hb : b < n) (hp : ¬ p b) (hq : q b) (h : ∀ e, e ≠ b → (q e ↔ p e)) :
    Nat.count q n = Nat.count p n + 1 := by
  induction n with
  | zero => exact absurd hb b.not_lt_zero
  | succ n ih =>
    rw [Nat.count_succ, Nat.count_succ]
    by_cases hbn : b = n
    · subst hbn
      rw [if_pos hq, if_neg hp, count_congr fun e he => h e he.ne]
    · have hlt : b < n := lt_of_le_of_ne (Nat.lt_succ_iff.mp hb) hbn
      have hn : (if q n then 1 else 0) = if p n then 1 else 0 := by
        simp only [h n (Ne.symm hbn)]
      rw [ih hlt, hn]
      omega

/-- One may have lost the property. -/
theorem count_le_succ (h : ∀ e, e ≠ b → p e → q e) : Nat.count p n ≤ Nat.count q n + 1 := by
  induction n with
  | zero => exact Nat.zero_le _
  | succ n ih =>
    rw [Nat.count_succ, Nat.count_succ]
    by_cases hbn : b = n
    · subst hbn
      have hle : Nat.count p b ≤ Nat.count q b := Nat.count_mono_left fun e he => h e he.ne
      split_ifs <;> omega
    · have hn := h n (Ne.symm hbn)
      split_ifs with hp hq
      · omega
      · exact absurd (hn hp) hq
      · omega
      · omega

end Syinx.Library
