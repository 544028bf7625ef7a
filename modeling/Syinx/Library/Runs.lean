import Mathlib.Data.List.Infix

/-!
# Runs

A machine is a partial function `step : σ → α → Option σ`: what an action does
to a state, `none` when the action cannot be taken there. This module is about
its runs: lists of actions taken one after the other.

## What is proved

* `inv_of_exec` — what one step preserves, a run preserves.
* `Along.of_guarded` — the same along a run, when every step taken meets a condition.
* `along_iff_guarded` — **the exact condition rule**: when a step from a good
  state ends in a good state exactly if it meets `G`, a run passes through good
  states only exactly if all its steps meet `G`.
* `exec_append_eq_some` — a run splits at any of its actions.
* `exec_of_rel`, `Guarded.of_rel` — a relation that carries the steps of one state
  over to the other carries runs over.
* `exec_filterMap` — a map that carries the steps of one machine over to another, or
  to nothing, carries runs over.
* `log_of_exec` — a log that every step appends to.
-/

namespace Syinx.Library

universe u v

variable {σ : Type u} {α : Type v}

/-- The state after the actions, first action first; `none` when one of them
cannot be taken. -/
def exec (step : σ → α → Option σ) : σ → List α → Option σ
  | s, [] => some s
  | s, a :: as => (step s a).bind fun t => exec step t as

/-- `Q` holds of every state the run passes through, the first and the last
included. -/
def Along (step : σ → α → Option σ) (Q : σ → Prop) : σ → List α → Prop
  | s, [] => Q s
  | s, a :: as => Q s ∧ ∀ t, step s a = some t → Along step Q t as

/-- Every step the run takes meets `G`, a condition on the state before the
step and the action. -/
def Guarded (step : σ → α → Option σ) (G : σ → α → Prop) : σ → List α → Prop
  | _, [] => True
  | s, a :: as => ∀ t, step s a = some t → G s a ∧ Guarded step G t as

variable {step : σ → α → Option σ}

@[simp] theorem exec_nil (s : σ) : exec step s [] = some s := rfl

@[simp] theorem exec_cons (s : σ) (a : α) (as : List α) :
    exec step s (a :: as) = (step s a).bind fun t => exec step t as := rfl

theorem exec_cons_eq_some {s u : σ} {a : α} {as : List α} :
    exec step s (a :: as) = some u ↔ ∃ t, step s a = some t ∧ exec step t as = some u := by
  rw [exec_cons, Option.bind_eq_some_iff]

/-- A run splits at any of its actions. -/
theorem exec_append_eq_some {s u : σ} {as bs : List α} :
    exec step s (as ++ bs) = some u ↔ ∃ t, exec step s as = some t ∧ exec step t bs = some u := by
  induction as generalizing s with
  | nil => simp
  | cons a as ih =>
    rw [List.cons_append, exec_cons_eq_some]
    constructor
    · rintro ⟨t, ht, hu⟩
      obtain ⟨t', ht', hu'⟩ := ih.mp hu
      exact ⟨t', exec_cons_eq_some.mpr ⟨t, ht, ht'⟩, hu'⟩
    · rintro ⟨t', ht', hu⟩
      obtain ⟨t, ht, ht''⟩ := exec_cons_eq_some.mp ht'
      exact ⟨t, ht, ih.mpr ⟨t', ht'', hu⟩⟩

/-! ### Invariants -/

/-- What one step preserves, a run preserves. -/
theorem inv_of_exec {I : σ → Prop} (hI : ∀ s a t, I s → step s a = some t → I t)
    {s t : σ} {as : List α} (hs : I s) (h : exec step s as = some t) : I t := by
  induction as generalizing s with
  | nil => cases h; exact hs
  | cons a as ih =>
    obtain ⟨u, hu, h⟩ := exec_cons_eq_some.mp h
    exact ih (hI s a u hs hu) h

/-- What the steps with an action in `P` preserve, a run of such actions preserves. -/
theorem inv_of_exec_of_forall {I : σ → Prop} {P : α → Prop}
    (hI : ∀ s a t, P a → I s → step s a = some t → I t)
    {s t : σ} {as : List α} (hs : I s) (hP : ∀ a ∈ as, P a) (h : exec step s as = some t) : I t := by
  induction as generalizing s with
  | nil => cases h; exact hs
  | cons a as ih =>
    obtain ⟨u, hu, h⟩ := exec_cons_eq_some.mp h
    exact ih (hI s a u (hP a List.mem_cons_self) hs hu) (fun b hb => hP b (List.mem_cons_of_mem a hb)) h

/-- An invariant holds along every run, and so does what it implies. -/
theorem Along.of_inv {I Q : σ → Prop} (hI : ∀ s a t, I s → step s a = some t → I t)
    (hQ : ∀ s, I s → Q s) {s : σ} (hs : I s) (as : List α) : Along step Q s as := by
  induction as generalizing s with
  | nil => exact hQ s hs
  | cons a as ih => exact ⟨hQ s hs, fun t ht => ih (hI s a t hs ht)⟩

/-- What holds along a run holds where it ends. -/
theorem Along.last {Q : σ → Prop} {s t : σ} {as : List α} (ha : Along step Q s as)
    (h : exec step s as = some t) : Q t := by
  induction as generalizing s with
  | nil => cases h; exact ha
  | cons a as ih =>
    obtain ⟨u, hu, h⟩ := exec_cons_eq_some.mp h
    exact ih (ha.2 u hu) h

/-- What holds along a run holds where it starts. -/
theorem Along.first {Q : σ → Prop} {s : σ} {as : List α} (ha : Along step Q s as) : Q s := by
  cases as with
  | nil => exact ha
  | cons a as => exact ha.1

/-- What holds along a run holds along each of its beginnings. -/
theorem Along.left {Q : σ → Prop} {s : σ} {as bs : List α} (ha : Along step Q s (as ++ bs)) :
    Along step Q s as := by
  induction as generalizing s with
  | nil => exact ha.first
  | cons a as ih => exact ⟨ha.1, fun t ht => ih (ha.2 t ht)⟩

theorem Along.mono {Q R : σ → Prop} (hR : ∀ s, Q s → R s) {s : σ} {as : List α}
    (h : Along step Q s as) : Along step R s as := by
  induction as generalizing s with
  | nil => exact hR s h
  | cons a as ih => exact ⟨hR s h.1, fun t ht => ih (h.2 t ht)⟩

theorem Along.and {Q R : σ → Prop} {s : σ} {as : List α} (hq : Along step Q s as)
    (hr : Along step R s as) : Along step (fun t => Q t ∧ R t) s as := by
  induction as generalizing s with
  | nil => exact ⟨hq, hr⟩
  | cons a as ih => exact ⟨⟨hq.1, hr.1⟩, fun t ht => ih (hq.2 t ht) (hr.2 t ht)⟩

theorem Along.append {Q : σ → Prop} {s : σ} {as bs : List α} (ha : Along step Q s as)
    (hb : ∀ t, exec step s as = some t → Along step Q t bs) : Along step Q s (as ++ bs) := by
  induction as generalizing s with
  | nil => exact hb s rfl
  | cons a as ih =>
    refine ⟨ha.1, fun t ht => ih (ha.2 t ht) fun u hu => ?_⟩
    exact hb u (exec_cons_eq_some.mpr ⟨t, ht, hu⟩)

/-- What holds wherever a part of the run ends holds along the run. -/
theorem Along.of_append {Q : σ → Prop} {s : σ} {as : List α}
    (h : ∀ bs cs t, as = bs ++ cs → exec step s bs = some t → Q t) : Along step Q s as := by
  induction as generalizing s with
  | nil => exact h [] [] s rfl rfl
  | cons a as ih =>
    refine ⟨h [] (a :: as) s rfl rfl, fun t ht => ih fun bs cs u has hu => ?_⟩
    exact h (a :: bs) cs u (by rw [has, List.cons_append]) (exec_cons_eq_some.mpr ⟨t, ht, hu⟩)

/-- Whether `Q` holds along a run can be found out by running it. -/
instance Along.decidable (Q : σ → Prop) [DecidablePred Q] :
    (s : σ) → (as : List α) → Decidable (Along step Q s as)
  | s, [] => inferInstanceAs (Decidable (Q s))
  | s, a :: as =>
    match h : step s a with
    | none => decidable_of_iff (Q s)
        ⟨fun hq => ⟨hq, fun t ht => by rw [h] at ht; cases ht⟩, fun hq => hq.1⟩
    | some t =>
      have := Along.decidable Q t as
      decidable_of_iff (Q s ∧ Along step Q t as)
        ⟨fun hq => ⟨hq.1, fun u hu => by rw [h] at hu; cases hu; exact hq.2⟩,
          fun hq => ⟨hq.1, hq.2 t h⟩⟩

/-- A run along which `Q` holds, all of its actions meeting `P`, is also a run along
which `R` holds, if an invariant that `Q` and `P` keep going makes `R` of `Q`. -/
theorem Along.strengthen {I Q R : σ → Prop} {P : α → Prop}
    (hI : ∀ s a t, P a → I s → Q s → step s a = some t → I t) (hR : ∀ s, I s → Q s → R s)
    {s : σ} {as : List α} (hs : I s) (hP : ∀ a ∈ as, P a) (ha : Along step Q s as) :
    Along step R s as := by
  induction as generalizing s with
  | nil => exact hR s hs ha
  | cons a as ih =>
    obtain ⟨hq, has⟩ := ha
    refine ⟨hR s hs hq, fun t ht => ?_⟩
    exact ih (hI s a t (hP a List.mem_cons_self) hs hq ht)
      (fun b hb => hP b (List.mem_cons_of_mem a hb)) (has t ht)

/-- Whether all steps of a run meet `G` can be found out by running it. -/
instance Guarded.decidable (G : σ → α → Prop) [∀ s a, Decidable (G s a)] :
    (s : σ) → (as : List α) → Decidable (Guarded step G s as)
  | _, [] => inferInstanceAs (Decidable True)
  | s, a :: as =>
    match h : step s a with
    | none => .isTrue fun t ht => by rw [h] at ht; cases ht
    | some t =>
      have := Guarded.decidable G t as
      decidable_of_iff (G s a ∧ Guarded step G t as)
        ⟨fun hg u hu => by rw [h] at hu; cases hu; exact hg, fun hg => hg t h⟩

/-- What an invariant makes of the states of a guarded run. -/
theorem Along.of_guarded {I Q : σ → Prop} {G : σ → α → Prop}
    (hI : ∀ s a t, I s → G s a → step s a = some t → I t) (hQ : ∀ s, I s → Q s)
    {s : σ} {as : List α} (hs : I s) (hg : Guarded step G s as) : Along step Q s as := by
  induction as generalizing s with
  | nil => exact hQ s hs
  | cons a as ih =>
    refine ⟨hQ s hs, fun t ht => ?_⟩
    obtain ⟨ha, has⟩ := hg t ht
    exact ih (hI s a t hs ha ht) has

/-- **The exact condition rule.** Let `I` be an invariant of all steps. If from a
good state (`Q`) a step ends in a good state exactly when it meets `G`, then a
run from a good state passes through good states only exactly when each of its
steps meets `G`. -/
theorem along_iff_guarded {I Q : σ → Prop} {G : σ → α → Prop}
    (hI : ∀ s a t, I s → step s a = some t → I t)
    (hQ : ∀ s a t, I s → Q s → step s a = some t → (Q t ↔ G s a))
    {s : σ} {as : List α} (hs : I s) (hq : Q s) :
    Along step Q s as ↔ Guarded step G s as := by
  induction as generalizing s with
  | nil => exact ⟨fun _ => trivial, fun _ => hq⟩
  | cons a as ih =>
    constructor
    · intro h t ht
      have hqt : Q t := (h.2 t ht).first
      exact ⟨(hQ s a t hs hq ht).mp hqt, (ih (hI s a t hs ht) hqt).mp (h.2 t ht)⟩
    · intro h
      refine ⟨hq, fun t ht => ?_⟩
      obtain ⟨hg, hgs⟩ := h t ht
      have hqt : Q t := (hQ s a t hs hq ht).mpr hg
      exact (ih (hI s a t hs ht) hqt).mpr hgs

/-! ### Related states -/

section Related

variable {R : σ → σ → Prop}

/-- A relation that carries steps over carries runs over. -/
theorem exec_of_rel
    (hR : ∀ s t a t', R s t → step t a = some t' → ∃ s', step s a = some s' ∧ R s' t')
    {s t t' : σ} {as : List α} (h : R s t) (ht : exec step t as = some t') :
    ∃ s', exec step s as = some s' ∧ R s' t' := by
  induction as generalizing s t with
  | nil => cases ht; exact ⟨s, rfl, h⟩
  | cons a as ih =>
    obtain ⟨u, hu, ht⟩ := exec_cons_eq_some.mp ht
    obtain ⟨v, hv, hvu⟩ := hR s t a u h hu
    obtain ⟨s', hs', hr⟩ := ih hvu ht
    exact ⟨s', exec_cons_eq_some.mpr ⟨v, hv, hs'⟩, hr⟩

theorem Guarded.of_rel {G : σ → α → Prop}
    (hR : ∀ s t a t', R s t → step t a = some t' → ∃ s', step s a = some s' ∧ R s' t')
    (hG : ∀ s t a, R s t → G s a → G t a)
    {s t : σ} {as : List α} (h : R s t) (hs : Guarded step G s as) : Guarded step G t as := by
  induction as generalizing s t with
  | nil => trivial
  | cons a as ih =>
    intro t' ht'
    obtain ⟨s', hs', hr⟩ := hR s t a t' h ht'
    obtain ⟨ha, has⟩ := hs s' hs'
    exact ⟨hG s t a h ha, ih hr has⟩

end Related

/-! ### Guarded runs -/

theorem Guarded.mono {G H : σ → α → Prop} (hG : ∀ s a, G s a → H s a) {s : σ} {as : List α}
    (h : Guarded step G s as) : Guarded step H s as := by
  induction as generalizing s with
  | nil => trivial
  | cons a as ih =>
    intro t ht
    obtain ⟨ha, has⟩ := h t ht
    exact ⟨hG s a ha, ih has⟩

/-- A run of actions meeting `P` is guarded, if an invariant of such actions makes it so. -/
theorem Guarded.of_inv {I : σ → Prop} {P : α → Prop} {G : σ → α → Prop}
    (hI : ∀ s a t, P a → I s → step s a = some t → I t) (hG : ∀ s a, P a → I s → G s a)
    {s : σ} {as : List α} (hs : I s) (hP : ∀ a ∈ as, P a) : Guarded step G s as := by
  induction as generalizing s with
  | nil => trivial
  | cons a as ih =>
    intro t ht
    have ha : P a := hP a List.mem_cons_self
    exact ⟨hG s a ha hs, ih (hI s a t ha hs ht) fun b hb => hP b (List.mem_cons_of_mem a hb)⟩

theorem Guarded.append {G : σ → α → Prop} {s : σ} {as bs : List α} (ha : Guarded step G s as)
    (hb : ∀ t, exec step s as = some t → Guarded step G t bs) : Guarded step G s (as ++ bs) := by
  induction as generalizing s with
  | nil => exact hb s rfl
  | cons a as ih =>
    intro t ht
    obtain ⟨hg, has⟩ := ha t ht
    exact ⟨hg, ih has fun u hu => hb u (exec_cons_eq_some.mpr ⟨t, ht, hu⟩)⟩

/-- What holds along a run may be added to what its steps meet. -/
theorem Guarded.and_along {Q : σ → Prop} {G : σ → α → Prop} {s : σ} {as : List α}
    (hg : Guarded step G s as) (hq : Along step Q s as) :
    Guarded step (fun s a => Q s ∧ G s a) s as := by
  induction as generalizing s with
  | nil => trivial
  | cons a as ih =>
    intro t ht
    obtain ⟨ha, has⟩ := hg t ht
    exact ⟨⟨hq.1, ha⟩, ih has (hq.2 t ht)⟩

/-- What the steps meeting `G` with an action in `P` preserve, a run of such steps preserves. -/
theorem inv_of_guarded {I : σ → Prop} {P : α → Prop} {G : σ → α → Prop}
    (hI : ∀ s a t, P a → G s a → I s → step s a = some t → I t)
    {s t : σ} {as : List α} (hs : I s) (hP : ∀ a ∈ as, P a) (hg : Guarded step G s as)
    (h : exec step s as = some t) : I t := by
  induction as generalizing s with
  | nil => cases h; exact hs
  | cons a as ih =>
    obtain ⟨u, hu, h⟩ := exec_cons_eq_some.mp h
    obtain ⟨ha, has⟩ := hg u hu
    exact ih (hI s a u (hP a List.mem_cons_self) ha hs hu)
      (fun b hb => hP b (List.mem_cons_of_mem a hb)) has h

/-! ### Simulation -/

/-- **The simulation rule.** `f` maps the states of a machine to those of another, which
sees some of the actions (`g`). If it carries every step over, to a step or to nothing,
it carries runs over. -/
theorem exec_filterMap {τ β : Type*} {other : τ → β → Option τ} {I : σ → Prop} {f : σ → τ}
    {g : α → Option β}
    (hstep : ∀ s a t, I s → step s a = some t → I t ∧ exec other (f s) (g a).toList = some (f t))
    {s t : σ} {as : List α} (hs : I s) (h : exec step s as = some t) :
    I t ∧ exec other (f s) (as.filterMap g) = some (f t) := by
  induction as generalizing s with
  | nil =>
    cases h
    exact ⟨hs, rfl⟩
  | cons a as ih =>
    obtain ⟨u, hu, h⟩ := exec_cons_eq_some.mp h
    obtain ⟨hiu, hfu⟩ := hstep s a u hs hu
    obtain ⟨hit, hft⟩ := ih hiu h
    have happ : (a :: as).filterMap g = (g a).toList ++ as.filterMap g := by
      cases hg : g a <;> simp [hg]
    rw [happ]
    exact ⟨hit, exec_append_eq_some.mpr ⟨f u, hfu, hft⟩⟩

/-- **The log rule.** If a step appends to a log what it is told of the action, a run appends
what it is told of its actions. -/
theorem log_of_exec {β : Type*} (log : σ → List β) {g : α → Option β}
    (hstep : ∀ s a t, step s a = some t → log t = log s ++ (g a).toList)
    {s t : σ} {as : List α} (h : exec step s as = some t) : log t = log s ++ as.filterMap g := by
  induction as generalizing s with
  | nil =>
    cases h
    exact (List.append_nil _).symm
  | cons a as ih =>
    obtain ⟨u, hu, h⟩ := exec_cons_eq_some.mp h
    rw [ih h, hstep s a u hu, List.append_assoc]
    cases hg : g a <;> simp [hg]

end Syinx.Library
