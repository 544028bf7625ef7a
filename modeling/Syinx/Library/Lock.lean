import Mathlib.Logic.Function.Basic

/-!
# Data behind a lock

Threads `ι`, each at a program point of type `π`, share data `δ` that only the
owner of a lock may touch. `Disciplined` says that a thread standing at a point
that `holds` the lock owns it, and that what it has found out about the data
(`fact`) is still so. Whatever the owner of the lock does to the data, and
whoever takes the lock when it is free, no other thread has to be looked at.
-/

namespace Syinx.Library

universe u v w

variable {ι : Type u} {π : Type v} {δ : Type w}

/-- A thread at a point that `holds` the lock owns it, and its `fact` is true of
the data. -/
def Disciplined (holds : π → Prop) (fact : δ → π → Prop) (owner : Option ι) (d : δ)
    (pc : ι → π) : Prop :=
  ∀ k, holds (pc k) → owner = some k ∧ fact d (pc k)

namespace Disciplined

variable {holds : π → Prop} {fact : δ → π → Prop} {owner owner' : Option ι} {d d' : δ}
  {pc pc' : ι → π}

/-- At most one thread is at a point that holds the lock. -/
theorem unique (h : Disciplined holds fact owner d pc) {k m : ι} (hk : holds (pc k))
    (hm : holds (pc m)) : k = m := by
  have hk' := (h k hk).1
  have hm' := (h m hm).1
  rw [hk'] at hm'
  exact Option.some.inj hm'

/-- Thread `k` moves to `x`. It may change the lock and the data if it owns the
lock or finds it free. -/
theorem move [DecidableEq ι] (h : Disciplined holds fact owner d pc) {k : ι} {x : π}
    (hown : owner = some k ∨ owner = none ∨ (owner' = owner ∧ d' = d))
    (hx : holds x → owner' = some k ∧ fact d' x) :
    Disciplined holds fact owner' d' (Function.update pc k x) := by
  intro m hm
  by_cases hmk : m = k
  · subst hmk
    rw [Function.update_self] at hm ⊢
    exact hx hm
  · rw [Function.update_of_ne hmk] at hm ⊢
    obtain ⟨ho, hf⟩ := h m hm
    rcases hown with hown | hown | ⟨rfl, rfl⟩
    · rw [hown] at ho
      exact absurd (Option.some.inj ho).symm hmk
    · rw [hown] at ho
      cases ho
    · exact ⟨ho, hf⟩

/-- Threads move among points that do not hold the lock. -/
theorem shuffle (h : Disciplined holds fact owner d pc)
    (hpc : ∀ k, pc' k = pc k ∨ ¬ holds (pc' k)) : Disciplined holds fact owner d pc' := by
  intro k hk
  rcases hpc k with hk' | hk'
  · rw [hk'] at hk ⊢
    exact h k hk
  · exact absurd hk hk'

end Disciplined

end Syinx.Library
