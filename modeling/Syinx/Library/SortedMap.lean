import Mathlib.Data.List.Lex
import Mathlib.Order.Lattice

/-!
# Sorted maps

A map as the list of its keys and values, in the order of the keys. `update` changes the value of
one key, or gives it one; `lowerBound` looks for the first key from a given one on.

## What is proved

* `find_update` — an update changes one key only.
* `lowerBound_eq_some` — the first key from a given one on.
* `exists_lowerBound_iff` — where the keys are lists, in the lexicographic order, the first key
  from `p` on begins with `p` if any key does.
-/

namespace Syinx.Library

/-- A map, in the order of its keys. -/
structure SortedMap (κ ν : Type*) [LinearOrder κ] where
  /-- The keys and their values. -/
  entries : List (κ × ν)
  /-- The keys ascend. -/
  sorted : entries.Pairwise fun a b => a.1 < b.1

namespace SortedMap

variable {κ ν : Type*} [LinearOrder κ]

/-- The map without keys. -/
def empty : SortedMap κ ν := ⟨[], .nil⟩

/-- The value beside a key, in a list of entries. -/
def findIn (es : List (κ × ν)) (k : κ) : Option ν := (es.find? fun e => e.1 = k).map Prod.snd

/-- The value of a key, if it has one. -/
def find (m : SortedMap κ ν) (k : κ) : Option ν := findIn m.entries k

/-- `update`, for the entries. -/
def alter (k : κ) (f : Option ν → ν) : List (κ × ν) → List (κ × ν)
  | [] => [(k, f none)]
  | e :: es =>
    if k < e.1 then (k, f none) :: e :: es
    else if e.1 = k then (k, f (some e.2)) :: es
    else e :: alter k f es

theorem mem_alter {k : κ} {f : Option ν → ν} {es : List (κ × ν)} {a : κ × ν}
    (h : a ∈ alter k f es) : a.1 = k ∨ a ∈ es := by
  induction es with
  | nil =>
    rw [List.mem_singleton.mp h]
    exact .inl rfl
  | cons e es ih =>
    unfold alter at h
    split_ifs at h with h1 h2
    · rcases List.mem_cons.mp h with rfl | h
      · exact .inl rfl
      · exact .inr h
    · rcases List.mem_cons.mp h with rfl | h
      · exact .inl rfl
      · exact .inr (List.mem_cons_of_mem e h)
    · rcases List.mem_cons.mp h with rfl | h
      · exact .inr List.mem_cons_self
      · exact (ih h).imp_right (List.mem_cons_of_mem e)

theorem sorted_alter {k : κ} {f : Option ν → ν} {es : List (κ × ν)}
    (h : es.Pairwise fun a b => a.1 < b.1) : (alter k f es).Pairwise fun a b => a.1 < b.1 := by
  induction es with
  | nil => exact List.pairwise_singleton _ _
  | cons e es ih =>
    obtain ⟨he, hes⟩ := List.pairwise_cons.mp h
    unfold alter
    split_ifs with h1 h2
    · refine List.pairwise_cons.mpr ⟨fun a ha => ?_, h⟩
      rcases List.mem_cons.mp ha with rfl | ha
      · exact h1
      · exact h1.trans (he a ha)
    · subst h2
      exact List.pairwise_cons.mpr ⟨he, hes⟩
    · refine List.pairwise_cons.mpr ⟨fun a ha => ?_, ih hes⟩
      rcases mem_alter ha with hk | ha
      · rw [hk]
        exact lt_of_le_of_ne (not_lt.mp h1) h2
      · exact he a ha

/-- The value of a key is changed by `f`. -/
def update (m : SortedMap κ ν) (k : κ) (f : Option ν → ν) : SortedMap κ ν :=
  ⟨alter k f m.entries, sorted_alter m.sorted⟩

/-- The first entry from a key on. -/
def lowerBound (m : SortedMap κ ν) (k : κ) : Option (κ × ν) := m.entries.find? fun e => k ≤ e.1

@[simp] theorem find_empty (k : κ) : (empty : SortedMap κ ν).find k = none := rfl

theorem findIn_cons (e : κ × ν) (es : List (κ × ν)) (k : κ) :
    findIn (e :: es) k = if e.1 = k then some e.2 else findIn es k := by
  unfold findIn
  rw [List.find?_cons]
  by_cases hk : e.1 = k
  · rw [decide_eq_true hk, if_pos hk, Option.map_some]
  · rw [decide_eq_false hk, if_neg hk]

theorem findIn_eq_none {es : List (κ × ν)} {k : κ} (h : ∀ e ∈ es, k < e.1) : findIn es k = none := by
  induction es with
  | nil => rfl
  | cons e es ih =>
    rw [findIn_cons, if_neg (ne_of_gt (h e List.mem_cons_self)),
      ih fun e' h' => h e' (List.mem_cons_of_mem e h')]

theorem findIn_alter {es : List (κ × ν)} (hs : es.Pairwise fun a b => a.1 < b.1) (k k' : κ)
    (f : Option ν → ν) :
    findIn (alter k f es) k' = if k' = k then some (f (findIn es k)) else findIn es k' := by
  induction es with
  | nil =>
    rw [alter, findIn_cons]
    exact if_congr eq_comm rfl rfl
  | cons e es ih =>
    obtain ⟨he, hes⟩ := List.pairwise_cons.mp hs
    rcases lt_trichotomy k e.1 with hlt | heq | hgt
    · have hnone : findIn (e :: es) k = none := by
        apply findIn_eq_none
        intro a ha
        rcases List.mem_cons.mp ha with rfl | ha
        · exact hlt
        · exact hlt.trans (he a ha)
      rw [alter, if_pos hlt, hnone, findIn_cons]
      exact if_congr eq_comm rfl rfl
    · subst heq
      rw [alter, if_neg (lt_irrefl _), if_pos rfl, findIn_cons, findIn_cons, findIn_cons, if_pos rfl]
      by_cases hk : k' = e.1
      · rw [if_pos hk, if_pos hk.symm]
      · rw [if_neg hk, if_neg (Ne.symm hk), if_neg (Ne.symm hk)]
    · rw [alter, if_neg (not_lt_of_gt hgt), if_neg (ne_of_lt hgt), findIn_cons, findIn_cons, findIn_cons,
        if_neg (ne_of_lt hgt), ih hes]
      by_cases hk : e.1 = k'
      · rw [if_pos hk, if_pos hk, if_neg]
        rintro rfl
        exact ne_of_lt hgt hk
      · rw [if_neg hk, if_neg hk]

/-- **An update.** -/
theorem find_update (m : SortedMap κ ν) (k k' : κ) (f : Option ν → ν) :
    (m.update k f).find k' = if k' = k then some (f (m.find k)) else m.find k' :=
  findIn_alter m.sorted k k' f

/-- A key has the value it stands beside. -/
theorem find_eq_some {m : SortedMap κ ν} {k : κ} {v : ν} :
    m.find k = some v ↔ (k, v) ∈ m.entries := by
  obtain ⟨es, hs⟩ := m
  unfold find
  dsimp only
  induction es with
  | nil => exact iff_of_false (by simp [findIn]) List.not_mem_nil
  | cons e es ih =>
    obtain ⟨he, hes⟩ := List.pairwise_cons.mp hs
    rw [findIn_cons, List.mem_cons]
    by_cases hk : e.1 = k
    · subst hk
      rw [if_pos rfl, Option.some_inj]
      constructor
      · rintro rfl
        exact .inl rfl
      · rintro (h | h)
        · exact congrArg Prod.snd h.symm
        · exact absurd (he _ h) (lt_irrefl _)
    · rw [if_neg hk]
      exact (ih hes).trans ⟨.inr, fun h => h.resolve_left fun h' => hk (congrArg Prod.fst h').symm⟩

/-- The first entry from a key on. -/
theorem lowerBound_eq_some {m : SortedMap κ ν} {k : κ} {e : κ × ν} (h : m.lowerBound k = some e) :
    e ∈ m.entries ∧ k ≤ e.1 ∧ ∀ e' ∈ m.entries, k ≤ e'.1 → e.1 ≤ e'.1 := by
  refine ⟨List.mem_of_find?_eq_some h, by simpa using List.find?_some h, fun e' he' hk => ?_⟩
  obtain ⟨-, before, after, hes, hbefore⟩ := List.find?_eq_some_iff_append.mp h
  have hs := m.sorted
  rw [hes] at he' hs
  rcases List.mem_append.mp he' with hb | ha
  · have hb' := hbefore e' hb
    rw [Bool.not_eq_true', decide_eq_false_iff_not] at hb'
    exact absurd hk hb'
  · rcases List.mem_cons.mp ha with rfl | ha
    · exact le_refl _
    · exact le_of_lt ((List.pairwise_cons.mp (List.pairwise_append.mp hs).2.1).1 e' ha)

end SortedMap

/-- Between a list and one that it begins, all begin with it. -/
theorem prefix_of_between {α : Type*} [LinearOrder α] {p q k : List α} (hpq : p ≤ q) (hqk : q ≤ k)
    (hpk : p <+: k) : p <+: q := by
  induction p generalizing q k with
  | nil => exact List.nil_prefix
  | cons a p ih =>
    obtain ⟨t, rfl⟩ := hpk
    cases q with
    | nil => exact absurd hpq (not_le_of_gt List.Lex.nil)
    | cons b q =>
      have hab : a ≤ b := by
        by_contra h
        exact absurd hpq (not_le_of_gt (List.Lex.rel (not_le.mp h)))
      have hba : b ≤ a := by
        by_contra h
        exact absurd hqk (not_le_of_gt (List.Lex.rel (not_le.mp h)))
      obtain rfl := le_antisymm hab hba
      have hcons : ∀ {x y : List α}, a :: x ≤ a :: y → x ≤ y := by
        intro x y h
        by_contra hxy
        exact absurd h (not_le_of_gt (List.Lex.cons (not_le.mp hxy)))
      exact (List.prefix_cons_inj a).mpr (ih (hcons hpq) (hcons hqk) (List.prefix_append p t))

theorem le_of_begins {α : Type*} [LinearOrder α] {p k : List α} (h : p <+: k) : p ≤ k := by
  induction p generalizing k with
  | nil =>
    cases k with
    | nil => exact le_refl _
    | cons b k => exact le_of_lt List.Lex.nil
  | cons a p ih =>
    obtain ⟨t, rfl⟩ := h
    exact List.cons_le_cons a (ih (List.prefix_append p t))

/-- **Keys with a beginning.** The first key from `p` on begins with `p`, if any key does. -/
theorem SortedMap.exists_lowerBound_iff {α ν : Type*} [LinearOrder α] (m : SortedMap (List α) ν)
    (p : List α) :
    (∃ e, m.lowerBound p = some e ∧ p <+: e.1) ↔ ∃ k v, m.find k = some v ∧ p <+: k := by
  constructor
  · rintro ⟨e, he, hp⟩
    exact ⟨e.1, e.2, find_eq_some.mpr (lowerBound_eq_some he).1, hp⟩
  · rintro ⟨k, v, hk, hp⟩
    have hmem := find_eq_some.mp hk
    cases hl : m.lowerBound p with
    | none =>
      have hnone := List.find?_eq_none.mp hl (k, v) hmem
      rw [decide_eq_true_eq] at hnone
      exact absurd (le_of_begins hp) hnone
    | some e =>
      obtain ⟨-, hpe, hfirst⟩ := lowerBound_eq_some hl
      exact ⟨e, rfl, prefix_of_between hpe (hfirst (k, v) hmem (le_of_begins hp)) hp⟩

end Syinx.Library
