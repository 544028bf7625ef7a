import Syinx.Library.Runs

/-!
# What can be seen of a run

A run shows what its steps show: `see a t` is what can be seen of the action `a`
that ends in the state `t`. A machine does what another is for when all that can be
seen of its runs can be seen of runs of the other.

## What is proved

* `trace_append` — what can be seen of a run in two parts.
* `inv_of_trace` — **the history rule**: an invariant of the state and of all that has been seen.
* `exists_exec_of_prefix` — what has been seen at some time is what a part of the run shows.
* `exists_trace_of_rel` — **the simulation rule**: a relation between the states of two
  machines that matches every step of the one by some steps of the other, of which the
  same can be seen, matches runs.
-/

namespace Syinx.Library

universe u v w

variable {σ : Type u} {α : Type v} {γ : Type w}

/-- What can be seen of a run, in order. -/
def trace (step : σ → α → Option σ) (see : α → σ → List γ) : σ → List α → List γ
  | _, [] => []
  | s, a :: as =>
    match step s a with
    | none => []
    | some t => see a t ++ trace step see t as

variable {step : σ → α → Option σ} {see : α → σ → List γ}

@[simp] theorem trace_nil (s : σ) : trace step see s [] = [] := rfl

theorem trace_cons {s t : σ} {a : α} (as : List α) (h : step s a = some t) :
    trace step see s (a :: as) = see a t ++ trace step see t as := by
  simp only [trace, h]

theorem trace_append {s t : σ} {as : List α} (bs : List α) (h : exec step s as = some t) :
    trace step see s (as ++ bs) = trace step see s as ++ trace step see t bs := by
  induction as generalizing s with
  | nil =>
    cases h
    rfl
  | cons a as ih =>
    obtain ⟨u, hu, h⟩ := exec_cons_eq_some.mp h
    rw [List.cons_append, trace_cons (as ++ bs) hu, trace_cons as hu, ih h, List.append_assoc]

/-- **The history rule.** What one step preserves of a state and all that has been seen, a run
preserves. -/
theorem inv_of_trace (see : α → σ → List γ) {I : σ → List γ → Prop}
    (hI : ∀ s zs a t, I s zs → step s a = some t → I t (zs ++ see a t))
    {s t : σ} (zs : List γ) {as : List α} (hs : I s zs) (h : exec step s as = some t) :
    I t (zs ++ trace step see s as) := by
  induction as generalizing s zs with
  | nil =>
    cases h
    rwa [trace_nil, List.append_nil]
  | cons a as ih =>
    obtain ⟨u, hu, h⟩ := exec_cons_eq_some.mp h
    rw [trace_cons as hu, ← List.append_assoc]
    exact ih (zs ++ see a u) (hI s zs a u hs hu) h

/-- If a step shows one thing at most, what has been seen at some time is what a part of the run
shows. -/
theorem exists_exec_of_prefix (hone : ∀ a t, (see a t).length ≤ 1) {s t : σ} {zs : List γ}
    {as : List α} (h : exec step s as = some t) (hz : zs <+: trace step see s as) :
    ∃ bs u, bs <+: as ∧ exec step s bs = some u ∧ trace step see s bs = zs := by
  induction as generalizing s zs with
  | nil => exact ⟨[], s, List.nil_prefix, rfl, (List.prefix_nil.mp hz).symm⟩
  | cons a as ih =>
    obtain ⟨v, hv, h⟩ := exec_cons_eq_some.mp h
    cases zs with
    | nil => exact ⟨[], s, List.nil_prefix, rfl, rfl⟩
    | cons z zs =>
      rw [trace_cons as hv] at hz
      have hlen := hone a v
      obtain ⟨ys, hys, hrest⟩ : ∃ ys, see a v ++ ys = z :: zs ∧ ys <+: trace step see v as := by
        cases hsee : see a v with
        | nil => exact ⟨z :: zs, rfl, by rwa [hsee] at hz⟩
        | cons y ys =>
          rw [hsee, List.length_cons] at hlen
          obtain rfl : ys = [] := List.eq_nil_of_length_eq_zero (by omega)
          rw [hsee] at hz
          obtain ⟨rfl, hrest⟩ := List.cons_prefix_cons.mp hz
          exact ⟨zs, rfl, hrest⟩
      obtain ⟨bs, u, hbs, hu, hseen⟩ := ih h hrest
      exact ⟨a :: bs, u, (List.prefix_cons_inj a).mpr hbs, exec_cons_eq_some.mpr ⟨v, hv, hu⟩,
        by rw [trace_cons bs hv, hseen, hys]⟩

/-- What can be seen with less attention. -/
theorem filterMap_trace {δ : Type*} (f : γ → Option δ) (s : σ) (as : List α) :
    (trace step see s as).filterMap f = trace step (fun a t => (see a t).filterMap f) s as := by
  induction as generalizing s with
  | nil => rfl
  | cons a as ih =>
    simp only [trace]
    cases step s a with
    | none => rfl
    | some u => rw [List.filterMap_append, ih]

/-- **The simulation rule.** -/
theorem exists_trace_of_rel {τ β : Type*} {other : τ → β → Option τ} {see' : β → τ → List γ}
    {R : σ → τ → Prop}
    (hstep : ∀ s a s' t, R s t → step s a = some s' →
      ∃ bs t', exec other t bs = some t' ∧ trace other see' t bs = see a s' ∧ R s' t')
    {s s' : σ} {t : τ} {as : List α} (h : R s t) (hs : exec step s as = some s') :
    ∃ bs t', exec other t bs = some t' ∧ trace other see' t bs = trace step see s as ∧ R s' t' := by
  induction as generalizing s t with
  | nil =>
    cases hs
    exact ⟨[], t, rfl, rfl, h⟩
  | cons a as ih =>
    obtain ⟨u, hu, hs⟩ := exec_cons_eq_some.mp hs
    obtain ⟨bs, v, hv, hseen, hr⟩ := hstep s a u t h hu
    obtain ⟨bs', t', ht', hseen', hr'⟩ := ih hr hs
    refine ⟨bs ++ bs', t', exec_append_eq_some.mpr ⟨v, hv, ht'⟩, ?_, hr'⟩
    rw [trace_append bs' hv, trace_cons as hu, hseen, hseen']

end Syinx.Library
