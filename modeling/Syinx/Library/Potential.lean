import Mathlib.Algebra.BigOperators.Group.Finset.Piecewise
import Mathlib.Algebra.Order.BigOperators.Group.Finset
import Mathlib.Algebra.Order.Group.Int
import Mathlib.Algebra.Order.Ring.Int
import Mathlib.Tactic.Linarith
import Mathlib.Tactic.Ring
import Syinx.Library.Runs

/-!
# How many steps a run can have

Some of the actions of a machine are its own steps, others come from outside. If
there is a number (a potential) that a step of the machine's own lowers and that
an action from outside raises by no more than a given amount, the number of own
steps in a run is bounded by what the run started with and what came from outside.

The potential of many threads is a sum of what each of them has in front of it
(`sum_update`): a step of one thread changes its own term.

## What is proved

* `countP_le_of_exec` — the bound.
* `along_of_last` — what can only be lost, and is there at the end of a run, was
  there all along.
-/

namespace Syinx.Library

universe u v

variable {σ : Type u} {α : Type v} {step : σ → α → Option σ}

/-- **The potential rule.** `own` picks the machine's own steps, each of which lowers
the potential `Φ`; an action raises it by `gain` at most. -/
theorem countP_le_of_exec {I : σ → Prop} {P : α → Prop} {Φ : σ → ℤ} {own : α → Bool} {gain : α → ℕ}
    (hI : ∀ s a t, P a → I s → step s a = some t → I t)
    (hΦ : ∀ s a t, P a → I s → step s a = some t →
      Φ t + (if own a then 1 else 0) ≤ Φ s + gain a)
    {s t : σ} {as : List α} (hs : I s) (hP : ∀ a ∈ as, P a) (h : exec step s as = some t) :
    Φ t + as.countP own ≤ Φ s + (as.map gain).sum := by
  induction as generalizing s with
  | nil =>
    cases h
    simp
  | cons a as ih =>
    obtain ⟨u, hu, h⟩ := exec_cons_eq_some.mp h
    have ha : P a := hP a List.mem_cons_self
    have hone := hΦ s a u ha hs hu
    have hrest := ih (hI s a u ha hs hu) (fun b hb => hP b (List.mem_cons_of_mem a hb)) h
    have hcount : ((a :: as).countP own : ℤ) = as.countP own + if own a then 1 else 0 := by
      rw [List.countP_cons]
      split_ifs <;> simp
    rw [hcount, List.map_cons, List.sum_cons, Nat.cast_add]
    linarith

/-- What no step brings about, and holds at the end of a run, holds along the run. -/
theorem along_of_last {I Q : σ → Prop} {P : α → Prop}
    (hI : ∀ s a t, P a → I s → step s a = some t → I t)
    (hQ : ∀ s a t, P a → I s → step s a = some t → Q t → Q s)
    {s t : σ} {as : List α} (hs : I s) (hP : ∀ a ∈ as, P a) (h : exec step s as = some t)
    (ht : Q t) : Along step Q s as := by
  induction as generalizing s with
  | nil =>
    cases h
    exact ht
  | cons a as ih =>
    obtain ⟨u, hu, h⟩ := exec_cons_eq_some.mp h
    have ha : P a := hP a List.mem_cons_self
    have hrest := ih (hI s a u ha hs hu) (fun b hb => hP b (List.mem_cons_of_mem a hb)) h
    refine ⟨hQ s a u ha hs hu hrest.first, fun v hv => ?_⟩
    rw [hu] at hv
    cases hv
    exact hrest

/-! ### A sum over threads -/

section Sum

variable {ι : Type u} {π : Type v} [DecidableEq ι] {S W : Finset ι} {k : ι}

/-- One thread moves: its term changes. -/
theorem sum_update {f : π → ℤ} {pc : ι → π} {x : π} (hk : k ∈ S) :
    ∑ m ∈ S, f (Function.update pc k x m) = ∑ m ∈ S, f (pc m) - f (pc k) + f x := by
  have hcomp : (fun m => f (Function.update pc k x m)) = Function.update (fun m => f (pc m)) k (f x) :=
    Function.comp_update f pc k x
  rw [hcomp, Finset.sum_update_of_mem hk, ← Finset.add_sum_erase S (fun m => f (pc m)) hk,
    Finset.sdiff_singleton_eq_erase]
  ring

variable {f g : ι → ℤ}

/-- The terms of `W` may have grown by `c`, the others not. -/
theorem sum_le_sum_add_card {c : ℕ} (h : ∀ m ∈ S, g m ≤ f m + if m ∈ W then (c : ℤ) else 0) :
    ∑ m ∈ S, g m ≤ ∑ m ∈ S, f m + W.card * c := by
  have hcard : (S ∩ W).card ≤ W.card := Finset.card_le_card Finset.inter_subset_right
  calc ∑ m ∈ S, g m
      ≤ ∑ m ∈ S, (f m + if m ∈ W then (c : ℤ) else 0) := Finset.sum_le_sum h
    _ = ∑ m ∈ S, f m + (S ∩ W).card * c := by
        rw [Finset.sum_add_distrib, Finset.sum_ite_mem, Finset.sum_const, nsmul_eq_mul]
    _ ≤ ∑ m ∈ S, f m + W.card * c := by
        have hmul : ((S ∩ W).card * c : ℤ) ≤ W.card * c := by
          exact_mod_cast Nat.mul_le_mul_right c hcard
        linarith

/-- A sum in which only one term may be negative is at least that term. -/
theorem le_sum_of_nonneg (hk : k ∈ S) (h : ∀ m ∈ S, m ≠ k → 0 ≤ f m) : f k ≤ ∑ m ∈ S, f m := by
  rw [← Finset.add_sum_erase S f hk]
  have hrest : 0 ≤ ∑ m ∈ S.erase k, f m := by
    refine Finset.sum_nonneg fun m hm => ?_
    obtain ⟨hmk, hmS⟩ := Finset.mem_erase.mp hm
    exact h m hmS hmk
  omega

end Sum

end Syinx.Library
