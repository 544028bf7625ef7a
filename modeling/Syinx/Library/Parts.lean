import Syinx.Library.Runs

/-!
# Functions that return early

A function that does one thing after the other and returns `false` as soon as one of them
fails. `Parts` is its text, a part being what nothing can interrupt. `eval` runs it at once,
`step` runs its next part.

## What is proved

* `eval_andThen` — one function after another.
* `eval_of_step` — what is left of a function does what the function does from its beginning,
  so that running it part by part ends where `eval` does, whatever happens between the parts
  that changes nothing.
* `length_of_step`, `ended_iff` — it does not get stuck, and comes to its end.
-/

namespace Syinx.Library

universe u

variable {σ : Type u}

/-- The text of a function. -/
inductive Parts (σ : Type u) where
  /-- It returns `true`. -/
  | done
  /-- It returns `false`. -/
  | fail
  /-- A part, which fails if it returns `false`. -/
  | part (f : σ → Bool × σ) (next : Parts σ)
  /-- `if`. -/
  | branch (c : σ → Bool) (p q : Parts σ)

namespace Parts

/-- What it returns, and the state it leaves. -/
def eval : Parts σ → σ → Bool × σ
  | done, s => (true, s)
  | fail, s => (false, s)
  | part f next, s => if (f s).1 then next.eval (f s).2 else (false, (f s).2)
  | branch c p q, s => if c s then p.eval s else q.eval s

/-- `if (!p()) return false;`, and `q` behind it. -/
def andThen : Parts σ → Parts σ → Parts σ
  | done, q => q
  | fail, _ => fail
  | part f next, q => part f (next.andThen q)
  | branch c p p', q => branch c (p.andThen q) (p'.andThen q)

/-- How many parts it has at most. -/
def length : Parts σ → ℕ
  | done => 0
  | fail => 0
  | part _ next => next.length + 1
  | branch _ p q => max p.length q.length + 1

/-- It has returned. -/
def ended : Parts σ → Bool
  | done | fail => true
  | _ => false

/-- The next part is run: what is left, and the state. -/
def step : Parts σ → σ → Option (Parts σ × σ)
  | done, _ => none
  | fail, _ => none
  | part f next, s => some (if (f s).1 then next else fail, (f s).2)
  | branch c p q, s => some (if c s then p else q, s)

variable {p q : Parts σ} {s t : σ}

theorem eval_andThen : (p.andThen q).eval s = if (p.eval s).1 then q.eval (p.eval s).2 else p.eval s := by
  induction p generalizing s with
  | done => rfl
  | fail => rfl
  | part f next ih =>
    by_cases hf : (f s).1 = true
    · simp [andThen, eval, hf, ih]
    · simp [andThen, eval, hf]
  | branch c p p' ihp ihp' =>
    by_cases hc : c s = true
    · simp [andThen, eval, hc, ihp]
    · simp [andThen, eval, hc, ihp']

/-- **What is left does the same** as the whole. -/
theorem eval_of_step (h : p.step s = some (q, t)) : q.eval t = p.eval s := by
  cases p with
  | done => cases h
  | fail => cases h
  | part f next =>
    cases h
    simp only [eval]
    split_ifs <;> rfl
  | branch c p p' =>
    cases h
    simp only [eval]
    split_ifs <;> rfl

theorem length_of_step (h : p.step s = some (q, t)) : q.length < p.length := by
  cases p with
  | done => cases h
  | fail => cases h
  | part f next =>
    cases h
    simp only [length]
    split_ifs
    · exact Nat.lt_succ_self _
    · exact Nat.succ_pos _
  | branch c p p' =>
    cases h
    simp only [length]
    split_ifs
    · exact Nat.lt_succ_of_le (le_max_left ..)
    · exact Nat.lt_succ_of_le (le_max_right ..)

/-- It stops nowhere but where it returns. -/
theorem ended_iff : p.ended = true ↔ p.step s = none := by
  cases p <;> simp [ended, step]

/-- What has returned says what the whole returns. -/
theorem eval_of_ended (h : p.ended = true) : (p = done ↔ (p.eval s).1 = true) ∧ (p.eval s).2 = s := by
  cases p with
  | done => simp [eval]
  | fail => simp [eval]
  | part f next => cases h
  | branch c p q => cases h

end Parts

end Syinx.Library
