import Mathlib.Algebra.Order.Monoid.Defs
import Mathlib.Data.List.Chain
import Mathlib.Data.List.Pairwise

/-!
# Pacing

A loop passes again and again; on each pass it looks at the time, and then it beats or it
does not. A record holds the passes, the latest first: the time of the pass and whether it
was a beat. What is asked of a loop that is to beat once every `p` is that a pass is a beat
exactly when there has been no beat yet or the last one is at least `p` back.

## What is proved

* `Each.congr` — two conditions on passes hold of the same records, if a third one that holds
  of the record makes them the same.
* `Paced.apart` — the beats of a paced record are at least `p` apart.
* `Paced.beat_near` — the beats never stop coming: at every pass the last beat is less than
  `p` back.
* `length_mul_le`, `Paced.lt_of_gap` — how many beats there are in a span of time, at most and
  at least.
-/

namespace Syinx.Library.Pacing

universe u

/-- The time of a pass, and whether it was a beat; the latest pass first. -/
abbrev Record (T : Type u) := List (T × Bool)

variable {T : Type u}

/-- The time of the last beat. -/
def lastBeat : Record T → Option T
  | [] => none
  | (t, true) :: _ => some t
  | (_, false) :: l => lastBeat l

/-- The times of the beats, the latest first. -/
def beats : Record T → List T
  | [] => []
  | (t, true) :: l => t :: beats l
  | (_, false) :: l => beats l

/-- The times of the passes, the latest first. -/
def times (l : Record T) : List T := l.map Prod.fst

/-- `C` holds of every pass: of the last beat before it, its time and whether it is a beat. -/
def Each (C : Option T → T → Bool → Prop) : Record T → Prop
  | [] => True
  | (t, b) :: l => C (lastBeat l) t b ∧ Each C l

/-- Whether `C` holds of every pass can be found out from the record. -/
instance Each.decidable (C : Option T → T → Bool → Prop) [∀ o t b, Decidable (C o t b)] :
    (l : Record T) → Decidable (Each C l)
  | [] => inferInstanceAs (Decidable True)
  | (t, b) :: l =>
    have := Each.decidable C l
    inferInstanceAs (Decidable (C (lastBeat l) t b ∧ Each C l))

section Lists

variable {l : Record T} {s t : T} {b : Bool}

@[simp] theorem times_nil : times ([] : Record T) = [] := rfl

@[simp] theorem times_cons : times ((t, b) :: l) = t :: times l := rfl

theorem beats_of_lastBeat (h : lastBeat l = some s) : ∃ ss, beats l = s :: ss := by
  induction l with
  | nil => cases h
  | cons q l ih =>
    obtain ⟨t, b⟩ := q
    cases b with
    | true => cases h; exact ⟨beats l, rfl⟩
    | false => exact ih h

theorem lastBeat_of_mem_beats (h : s ∈ beats l) : ∃ s', lastBeat l = some s' := by
  induction l with
  | nil => cases h
  | cons q l ih =>
    obtain ⟨t, b⟩ := q
    cases b with
    | true => exact ⟨t, rfl⟩
    | false => exact ih h

theorem mem_times_of_mem_beats (h : s ∈ beats l) : s ∈ times l := by
  induction l with
  | nil => cases h
  | cons q l ih =>
    obtain ⟨t, b⟩ := q
    cases b with
    | true =>
      obtain rfl | h := List.mem_cons.mp h
      · exact List.mem_cons_self
      · exact List.mem_cons_of_mem t (ih h)
    | false => exact List.mem_cons_of_mem t (ih h)

theorem mem_times_of_lastBeat (h : lastBeat l = some s) : s ∈ times l := by
  obtain ⟨ss, hss⟩ := beats_of_lastBeat h
  exact mem_times_of_mem_beats (hss ▸ List.mem_cons_self)

end Lists

/-! ### Conditions on passes -/

section Conditions

variable {A C D : Option T → T → Bool → Prop} {l : Record T}

theorem Each.and (hC : Each C l) (hD : Each D l) : Each (fun o t b => C o t b ∧ D o t b) l := by
  induction l with
  | nil => trivial
  | cons q l ih => exact ⟨⟨hC.1, hD.1⟩, ih hC.2 hD.2⟩

theorem Each.mono (h : ∀ o t b, C o t b → D o t b) (hC : Each C l) : Each D l := by
  induction l with
  | nil => trivial
  | cons q l ih => exact ⟨h _ _ _ hC.1, ih hC.2⟩

/-- A third condition that holds of the record makes two conditions the same. -/
theorem Each.congr (h : ∀ o t b, A o t b → (C o t b ↔ D o t b)) (hA : Each A l) :
    Each C l ↔ Each D l := by
  constructor
  · intro hC
    exact (hA.and hC).mono fun o t b hAC => (h o t b hAC.1).mp hAC.2
  · intro hD
    exact (hA.and hD).mono fun o t b hAD => (h o t b hAD.1).mpr hAD.2

/-- What holds of the times of all passes. -/
theorem Each.of_times {P : T → Prop} (h : ∀ t ∈ times l, P t) :
    Each (fun o t _ => (∀ s ∈ o, P s) ∧ P t) l := by
  induction l with
  | nil => trivial
  | cons q l ih =>
    obtain ⟨t, b⟩ := q
    have hl : ∀ u ∈ times l, P u := fun u hu => h u (List.mem_cons_of_mem t hu)
    exact ⟨⟨fun s hs => hl s (mem_times_of_lastBeat hs), h t List.mem_cons_self⟩, ih hl⟩

/-- Where time does not go back, the last beat is not later than the pass. -/
theorem Each.of_pairwise [LE T] (h : (times l).Pairwise fun t s => s ≤ t) :
    Each (fun o t _ => ∀ s ∈ o, s ≤ t) l := by
  induction l with
  | nil => trivial
  | cons q l ih =>
    obtain ⟨t, b⟩ := q
    obtain ⟨ht, hl⟩ := List.pairwise_cons.mp h
    exact ⟨fun s hs => ht s (mem_times_of_lastBeat hs), ih hl⟩

end Conditions

/-! ### Paced records -/

/-- A pass is a beat exactly when there has been no beat yet or the last one is at least `p`
back. -/
def Paced [LE T] [Add T] (p : T) : Record T → Prop :=
  Each fun o t b => b = true ↔ ∀ s ∈ o, s + p ≤ t

section Paced

variable [AddCommMonoid T] [LinearOrder T] [IsOrderedCancelAddMonoid T] {p : T} {l : Record T}

/-- The last beat is at least `p` before a beat, and so are all the others. -/
theorem Paced.apart (hp : 0 ≤ p) (h : Paced p l) :
    (beats l).Pairwise fun t s => s + p ≤ t := by
  induction l with
  | nil => exact .nil
  | cons q l ih =>
    obtain ⟨t, b⟩ := q
    obtain ⟨hb, hl⟩ := h
    cases b with
    | false => exact ih hl
    | true =>
      refine List.pairwise_cons.mpr ⟨fun s hs => ?_, ih hl⟩
      obtain ⟨s', hlast⟩ := lastBeat_of_mem_beats hs
      have hdue : s' + p ≤ t := hb.mp rfl s' hlast
      obtain ⟨ss, hss⟩ := beats_of_lastBeat hlast
      have hrest := ih hl
      rw [hss] at hs hrest
      obtain rfl | hs := List.mem_cons.mp hs
      · exact hdue
      · calc s + p ≤ s' := (List.pairwise_cons.mp hrest).1 s hs
          _ ≤ s' + p := le_add_of_nonneg_right hp
          _ ≤ t := hdue

/-- At every pass there is a beat not later than it and less than `p` back. -/
theorem Paced.beat_near (hp : 0 < p) (ht : (times l).Pairwise fun t s => s ≤ t) (h : Paced p l) :
    ∀ t ∈ times l, ∃ s ∈ beats l, s ≤ t ∧ t < s + p := by
  induction l with
  | nil => intro t hmem; cases hmem
  | cons q l ih =>
    obtain ⟨u, b⟩ := q
    obtain ⟨hb, hl⟩ := h
    obtain ⟨hu, htl⟩ := List.pairwise_cons.mp ht
    intro t hmem
    cases b with
    | true =>
      obtain rfl | hmem := List.mem_cons.mp hmem
      · exact ⟨t, List.mem_cons_self, le_rfl, lt_add_of_pos_right t hp⟩
      · obtain ⟨s, hs, hst⟩ := ih htl hl t hmem
        exact ⟨s, List.mem_cons_of_mem u hs, hst⟩
    | false =>
      obtain rfl | hmem := List.mem_cons.mp hmem
      · -- not a beat, so there is a last beat, and it is near
        have hnot : ¬ ∀ s ∈ lastBeat l, s + p ≤ t := fun hall => Bool.noConfusion (hb.mpr hall)
        push Not at hnot
        obtain ⟨s, hs, hlt⟩ := hnot
        obtain ⟨ss, hss⟩ := beats_of_lastBeat hs
        have hsl : s ∈ beats l := hss ▸ List.mem_cons_self
        exact ⟨s, hsl, hu s (mem_times_of_mem_beats hsl), hlt⟩
      · exact ih htl hl t hmem

end Paced

/-! ### Counting beats -/

@[simp] theorem times_append (w l : Record T) : times (w ++ l) = times w ++ times l :=
  List.map_append

@[simp] theorem beats_append (w l : Record T) : beats (w ++ l) = beats w ++ beats l := by
  induction w with
  | nil => rfl
  | cons q w ih =>
    obtain ⟨t, b⟩ := q
    cases b with
    | true => exact congrArg (t :: ·) ih
    | false => exact ih

section Counting

variable {p first last : ℕ}

/-- What is `p` apart does not fit more often into a span of time. -/
theorem length_mul_le {ts : List ℕ} (h : ts.Pairwise fun t s => s + p ≤ t)
    (hfirst : ∀ t ∈ ts, first ≤ t) (hlast : ∀ t ∈ ts, t ≤ last) :
    ts.length * p ≤ last - first + p := by
  induction ts generalizing last with
  | nil => simp
  | cons t ts ih =>
    obtain ⟨ht, hts⟩ := List.pairwise_cons.mp h
    have hrest : ∀ s ∈ ts, first ≤ s := fun s hs => hfirst s (List.mem_cons_of_mem t hs)
    have hle : t ≤ last := hlast t List.mem_cons_self
    rw [List.length_cons, Nat.succ_mul]
    cases ts with
    | nil => simp
    | cons s ts =>
      have hs : s + p ≤ t := ht s List.mem_cons_self
      have hfs : first ≤ s := hrest s List.mem_cons_self
      have hcount : (s :: ts).length * p ≤ t - p - first + p := by
        refine ih hts hrest fun r hr => ?_
        have := ht r hr
        omega
      omega

/-- If passes are at most `d` apart, a beat comes after less than `p + d`: since the pass at `u`
with which `w` begins, no more time has gone by than its beats stand for. -/
theorem Paced.lt_of_gap {l w : Record ℕ} {u d : ℕ} {b : Bool} (hp : 0 < p)
    (h : Paced p (w ++ (u, b) :: l)) (ht : (times (w ++ (u, b) :: l)).Pairwise fun t s => s ≤ t)
    (hgap : (times (w ++ [(u, b)])).IsChain fun t s => t ≤ s + d) :
    ∃ s, lastBeat (w ++ (u, b) :: l) = some s ∧
      (∀ t ∈ (times (w ++ [(u, b)])).head?, t < s + p) ∧
      s ≤ u + (beats (w ++ [(u, b)])).length * (p + d) := by
  induction w with
  | nil =>
    obtain ⟨hb, -⟩ := h
    cases b with
    | true => exact ⟨u, rfl, by simp [times, hp], Nat.le_add_right _ _⟩
    | false =>
      have hnot : ¬ ∀ s ∈ lastBeat l, s + p ≤ u := fun hall => Bool.noConfusion (hb.mpr hall)
      push Not at hnot
      obtain ⟨s, hs, hlt⟩ := hnot
      have hsu : s ≤ u := (List.pairwise_cons.mp ht).1 s (mem_times_of_lastBeat hs)
      exact ⟨s, hs, by simp [times, hlt], hsu.trans (Nat.le_add_right _ _)⟩
  | cons q w ih =>
    obtain ⟨t, a⟩ := q
    obtain ⟨ha, hw⟩ := h
    obtain ⟨hnext, hchain⟩ := List.isChain_cons.mp hgap
    obtain ⟨s, hs, hnear, hsum⟩ := ih hw (List.pairwise_cons.mp ht).2 hchain
    have hne : times (w ++ [(u, b)]) ≠ [] := by simp
    obtain ⟨v, hv⟩ := Option.ne_none_iff_exists'.mp fun hnone => hne (List.head?_eq_none_iff.mp hnone)
    have hvs : v < s + p := hnear v hv
    have htv : t ≤ v + d := hnext v hv
    cases a with
    | true =>
      refine ⟨t, rfl, by simp [times, hp], ?_⟩
      have hlen : (beats ((t, true) :: w ++ [(u, b)])).length =
          (beats (w ++ [(u, b)])).length + 1 := rfl
      rw [hlen, Nat.succ_mul]
      omega
    | false =>
      have hnot : ¬ ∀ s ∈ lastBeat (w ++ (u, b) :: l), s + p ≤ t := fun hall =>
        Bool.noConfusion (ha.mpr hall)
      have hlt : t < s + p := by
        rw [hs] at hnot
        simpa using hnot
      exact ⟨s, hs, by simp [times, hlt], hsum⟩

end Counting

end Syinx.Library.Pacing
