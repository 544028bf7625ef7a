import Mathlib.Logic.Function.Basic
import Syinx.Library.Traces

/-!
# What is seen late

The threads of a machine share its state. What can be seen of a thread, such as a call that
returns or a function that it calls, comes behind the last thing that it does to that state, and
any number of steps of other threads may come in between. So `delayed` has a point behind each
step that leads to something to be seen: the thread is `late` there, and what it is to show
emerges with a step of its own.

## What is proved

* `delays_of_step`, `owes_of_step` — all that can happen, as a list of cases.
* `exists_trace_of_threads` — **the simulation rule**: if the steps of one machine are matched by
  steps of another one that lead to the same things to be seen, the same can be seen of both,
  however late it is seen.
-/

namespace Syinx.Library

universe u v w x

/-- A machine whose actions are taken by threads. -/
structure Threads (σ : Type u) (α : Type v) (κ : Type w) (γ : Type x) where
  /-- What an action does. -/
  step : σ → α → Option σ
  /-- The thread that takes the action. -/
  thread : α → κ
  /-- What can be seen of the action at once. -/
  calls : α → List γ
  /-- What can be seen of a thread that has come to where it stands. -/
  shows : σ → κ → List γ

/-- A state, and the threads that have not come to what they show. -/
structure Delayed (σ : Type u) (κ : Type w) where
  st : σ
  late : κ → Bool

/-- An action, or a thread shows what it is to show. -/
inductive DelayedAct (α : Type v) (κ : Type w) where
  | act (a : α)
  | emerge (k : κ)

namespace Threads

variable {σ : Type u} {α : Type v} {κ : Type w} {γ : Type x}

/-- A step; a thread that is late takes no other one. -/
def delayed [DecidableEq κ] (T : Threads σ α κ γ) (d : Delayed σ κ) :
    DelayedAct α κ → Option (Delayed σ κ)
  | .act a =>
    if d.late (T.thread a) then none
    else (T.step d.st a).map fun t =>
      ⟨t, Function.update d.late (T.thread a) (!(T.shows t (T.thread a)).isEmpty)⟩
  | .emerge k => if d.late k then some { d with late := Function.update d.late k false } else none

/-- What can be seen of an action that ends in `d`. -/
def seen (T : Threads σ α κ γ) : DelayedAct α κ → Delayed σ κ → List γ
  | .act a, _ => T.calls a
  | .emerge k, d => T.shows d.st k

/-- A run. -/
abbrev run [DecidableEq κ] (T : Threads σ α κ γ) (d : Delayed σ κ) (as : List (DelayedAct α κ)) :
    Option (Delayed σ κ) := exec T.delayed d as

/-- What can be seen of a run. -/
abbrev history [DecidableEq κ] (T : Threads σ α κ γ) (d : Delayed σ κ)
    (as : List (DelayedAct α κ)) : List γ := trace T.delayed T.seen d as

/-- Nobody is late. -/
def begin (s : σ) : Delayed σ κ := ⟨s, fun _ => false⟩

/-- What a thread is still to show. -/
def owes (T : Threads σ α κ γ) (d : Delayed σ κ) (k : κ) : List γ :=
  bif d.late k then T.shows d.st k else []

variable {T : Threads σ α κ γ} {d e : Delayed σ κ}

theorem owes_mk (s : σ) (late : κ → Bool) (k : κ) :
    T.owes ⟨s, late⟩ k = bif late k then T.shows s k else [] := rfl

/-- A thread that is not late owes nothing. -/
theorem owes_of_not_late {k : κ} (h : d.late k = false) : T.owes d k = [] := by
  rw [owes, h]
  rfl

/-- A thread that is late owes what it shows. -/
theorem owes_of_late {k : κ} (h : d.late k = true) : T.owes d k = T.shows d.st k := by
  rw [owes, h]
  rfl

@[simp] theorem owes_begin (s : σ) (k : κ) : T.owes (begin s) k = [] := rfl

variable [DecidableEq κ]

/-- What a thread owes behind an action of its own is what it shows there. -/
theorem owes_act (t : σ) (late : κ → Bool) (k : κ) :
    T.owes ⟨t, Function.update late k (!(T.shows t k).isEmpty)⟩ k = T.shows t k := by
  rw [owes_mk, Function.update_self]
  cases T.shows t k <;> rfl

/-- An action of another thread. -/
theorem owes_of_ne {t : σ} {b : Bool} {k l : κ} (h : l ≠ k) (hshows : T.shows t l = T.shows d.st l) :
    T.owes ⟨t, Function.update d.late k b⟩ l = T.owes d l := by
  rw [owes_mk, Function.update_of_ne h, hshows]
  rfl

/-- What has been shown is not owed any more. -/
theorem owes_emerge (k : κ) : T.owes { d with late := Function.update d.late k false } k = [] :=
  owes_of_not_late (Function.update_self ..)

/-- **All that can happen.** -/
inductive Delays (T : Threads σ α κ γ) (d : Delayed σ κ) :
    DelayedAct α κ → Delayed σ κ → Prop where
  | act {a : α} {t : σ} : d.late (T.thread a) = false → T.step d.st a = some t →
      Delays T d (.act a)
        ⟨t, Function.update d.late (T.thread a) (!(T.shows t (T.thread a)).isEmpty)⟩
  | emerge {k : κ} : d.late k = true →
      Delays T d (.emerge k) { d with late := Function.update d.late k false }

/-- A step is one of the cases. -/
theorem delays_of_step {a : DelayedAct α κ} (h : T.delayed d a = some e) : Delays T d a e := by
  cases a with
  | act a =>
    simp only [delayed] at h
    split_ifs at h with hlate
    obtain ⟨t, ht, rfl⟩ := Option.map_eq_some_iff.mp h
    exact .act (Bool.not_eq_true _ ▸ hlate) ht
  | emerge k =>
    simp only [delayed] at h
    split_ifs at h with hlate
    cases h
    exact .emerge hlate

/-- Nothing is seen of the threads that do not act. -/
def Local (T : Threads σ α κ γ) : Prop :=
  ∀ s a t, T.step s a = some t → ∀ l, l ≠ T.thread a → T.shows t l = T.shows s l

/-- **What is owed** before and after a step. -/
theorem owes_of_step (hlocal : T.Local) {a : DelayedAct α κ} (h : T.delayed d a = some e) :
    (∃ b, a = .act b ∧ T.step d.st b = some e.st ∧ T.owes d (T.thread b) = [] ∧
        T.owes e (T.thread b) = T.shows e.st (T.thread b) ∧
        ∀ l, l ≠ T.thread b → T.owes e l = T.owes d l) ∨
      ∃ k, a = .emerge k ∧ e.st = d.st ∧ T.owes d k = T.shows d.st k ∧ T.owes e k = [] ∧
        ∀ l, l ≠ k → T.owes e l = T.owes d l := by
  cases delays_of_step h with
  | @act b t hlate ht =>
    exact .inl ⟨b, rfl, ht, owes_of_not_late hlate, owes_act t d.late _, fun l hl =>
      owes_of_ne hl (hlocal _ _ _ ht l hl)⟩
  | @emerge k hlate =>
    exact .inr ⟨k, rfl, rfl, owes_of_late hlate, owes_emerge k, fun l hl => owes_of_ne hl rfl⟩

/-- **The simulation rule.** -/
theorem exists_trace_of_threads {τ β : Type*} {U : Threads τ β κ γ} {R : σ → τ → Prop}
    (hshows : ∀ s t k, R s t → U.shows t k = T.shows s k)
    (hstep : ∀ s t a s', R s t → T.step s a = some s' →
      (T.calls a = [] ∧ T.shows s' (T.thread a) = [] ∧ R s' t) ∨
        ∃ b t', U.step t b = some t' ∧ U.thread b = T.thread a ∧ U.calls b = T.calls a ∧ R s' t')
    {d d' : Delayed σ κ} {e : Delayed τ κ} {as : List (DelayedAct α κ)} (h : R d.st e.st)
    (hlate : e.late = d.late) (hd : T.run d as = some d') :
    ∃ bs e', U.run e bs = some e' ∧ U.history e bs = T.history d as ∧
      R d'.st e'.st ∧ e'.late = d'.late := by
  refine exists_trace_of_rel
    (R := fun (d : Delayed σ κ) (e : Delayed τ κ) => R d.st e.st ∧ e.late = d.late) ?_ ⟨h, hlate⟩ hd
  rintro d a d' e ⟨hr, hl⟩ hst
  cases delays_of_step hst with
  | @act a t hnot ht =>
    rcases hstep _ _ _ _ hr ht with ⟨hcalls, hnone, hr'⟩ | ⟨b, t', hb, hthread, hcalls, hr'⟩
    · refine ⟨[], e, rfl, hcalls.symm, hr', ?_⟩
      rw [hl, hnone]
      exact (Function.update_eq_self_iff.mpr hnot.symm).symm
    · have hgo : U.delayed e (.act b) = some ⟨t', Function.update d.late (T.thread a)
          (!(T.shows t (T.thread a)).isEmpty)⟩ := by
        simp [delayed, hthread, hl, hnot, hb, hshows _ _ _ hr']
      refine ⟨[.act b], _, exec_cons_eq_some.mpr ⟨_, hgo, rfl⟩, ?_, hr', rfl⟩
      rw [trace_cons [] hgo, trace_nil, List.append_nil, seen, hcalls, seen]
  | @emerge k hk =>
    have hgo : U.delayed e (.emerge k) =
        some ⟨e.st, Function.update d.late k false⟩ := by
      simp [delayed, hl, hk]
    refine ⟨[.emerge k], _, exec_cons_eq_some.mpr ⟨_, hgo, rfl⟩, ?_, hr, rfl⟩
    rw [trace_cons [] hgo, trace_nil, List.append_nil, seen, hshows _ _ _ hr, seen]

end Threads

end Syinx.Library
