import Mathlib.Data.List.Basic

/-!
# Lines

A reader takes lines off the front of a stream. A line ends behind the first `nl`, or, as the
reader has room for `n` symbols only, in the middle of what is written as one line; the last
line need not end with `nl`.

## What is proved

* `lines_eq` — the lines are what is taken off, again and again.
* `lines_append`, `lines_terminated`, `lines_last` — where a line ends: behind its `nl`, where the
  room ends, or with the stream.
* `mem_lines` — what a line looks like.
-/

namespace Syinx.Library

variable {α : Type*} [DecidableEq α] {nl : α} {n : ℕ} {l p : List α}

/-- The next line, of `n` symbols at most. -/
def nextLine (nl : α) : ℕ → List α → List α
  | 0, _ => []
  | _, [] => []
  | n + 1, a :: l => if a = nl then [a] else a :: nextLine nl n l

/-- The lines, if there is room for `k` symbols more in the first one. -/
def linesFrom (nl : α) (n : ℕ) : ℕ → List α → List (List α)
  | _, [] => []
  | k, a :: l =>
    if a = nl ∨ k ≤ 1 then [a] :: linesFrom nl n n l
    else
      match linesFrom nl n (k - 1) l with
      | [] => [[a]]
      | p :: ps => (a :: p) :: ps

/-- The lines of a stream, of `n` symbols at most. -/
def lines (nl : α) (n : ℕ) (l : List α) : List (List α) := linesFrom nl n n l

/-- A line that is over: nothing can be added to it. -/
def Complete (nl : α) (n : ℕ) (p : List α) : Prop :=
  (p.length = n ∧ nl ∉ p) ∨ ∃ q, p = q ++ [nl] ∧ nl ∉ q ∧ p.length ≤ n

/-! ### The next line -/

theorem nextLine_prefix : nextLine nl n l <+: l := by
  induction n generalizing l with
  | zero => exact List.nil_prefix
  | succ n ih =>
    cases l with
    | nil => exact List.nil_prefix
    | cons a l =>
      unfold nextLine
      split_ifs
      · exact (List.prefix_cons_inj a).mpr List.nil_prefix
      · exact (List.prefix_cons_inj a).mpr ih

theorem length_nextLine_le : (nextLine nl n l).length ≤ n := by
  induction n generalizing l with
  | zero => exact Nat.le_refl 0
  | succ n ih =>
    cases l with
    | nil => exact Nat.zero_le _
    | cons a l =>
      unfold nextLine
      split_ifs
      · exact Nat.succ_le_succ n.zero_le
      · exact Nat.succ_le_succ ih

theorem nextLine_ne_nil (hn : n ≠ 0) (hl : l ≠ []) : nextLine nl n l ≠ [] := by
  obtain ⟨m, rfl⟩ := Nat.exists_eq_succ_of_ne_zero hn
  obtain ⟨a, l, rfl⟩ := List.exists_cons_of_ne_nil hl
  unfold nextLine
  split_ifs <;> exact List.cons_ne_nil _ _

/-- A line of which everything is there. -/
theorem nextLine_of_notMem (h : nl ∉ p) (hp : p.length ≤ n) : nextLine nl n p = p := by
  induction p generalizing n with
  | nil => cases n <;> rfl
  | cons a p ih =>
    obtain ⟨m, rfl⟩ := Nat.exists_eq_succ_of_ne_zero (Nat.ne_of_gt (Nat.lt_of_lt_of_le p.length.succ_pos hp))
    have ha : ¬ a = nl := fun h' => h (h' ▸ List.mem_cons_self)
    rw [nextLine, if_neg ha, ih (fun h' => h (List.mem_cons_of_mem _ h')) (Nat.le_of_succ_le_succ hp)]

/-- A line that is over comes off as it is. -/
theorem nextLine_append (h : Complete nl n p) : nextLine nl n (p ++ l) = p := by
  induction p generalizing n with
  | nil =>
    obtain ⟨h, -⟩ | ⟨q, h, -⟩ := h
    · rw [List.length_nil] at h
      subst h
      rfl
    · exact absurd h.symm (by simp)
  | cons a p ih =>
    obtain ⟨hn, hmem⟩ | ⟨q, hq, hmem, hn⟩ := h
    · subst hn
      have ha : ¬ a = nl := fun h' => hmem (h' ▸ List.mem_cons_self)
      rw [List.cons_append, List.length_cons, nextLine, if_neg ha,
        ih (.inl ⟨rfl, fun h' => hmem (List.mem_cons_of_mem _ h')⟩)]
    · obtain ⟨m, rfl⟩ := Nat.exists_eq_succ_of_ne_zero (Nat.ne_of_gt (Nat.lt_of_lt_of_le p.length.succ_pos hn))
      cases q with
      | nil =>
        obtain ⟨rfl, rfl⟩ := List.cons.inj hq
        rw [List.cons_append, nextLine, if_pos rfl]
      | cons b q =>
        obtain ⟨rfl, rfl⟩ := List.cons.inj hq
        have ha : ¬ a = nl := fun h' => hmem (h' ▸ List.mem_cons_self)
        rw [List.cons_append, nextLine, if_neg ha,
          ih (.inr ⟨q, rfl, fun h' => hmem (List.mem_cons_of_mem _ h'), Nat.le_of_succ_le_succ hn⟩)]

/-! ### All lines -/

theorem linesFrom_eq {k : ℕ} (hk : k ≠ 0) (hl : l ≠ []) :
    linesFrom nl n k l = nextLine nl k l :: lines nl n (l.drop (nextLine nl k l).length) := by
  induction l generalizing k with
  | nil => exact absurd rfl hl
  | cons a l ih =>
    obtain ⟨m, rfl⟩ := Nat.exists_eq_succ_of_ne_zero hk
    unfold linesFrom nextLine
    by_cases ha : a = nl
    · rw [if_pos (.inl ha), if_pos ha]
      rfl
    rw [if_neg ha]
    cases m with
    | zero =>
      rw [if_pos (.inr (Nat.le_refl 1))]
      rfl
    | succ m =>
      rw [if_neg (not_or_intro ha (by omega))]
      cases l with
      | nil => rfl
      | cons b l =>
        have h := ih (k := m + 1) m.succ_ne_zero (List.cons_ne_nil b l)
        rw [Nat.succ_sub_one, h, List.length_cons, List.drop_succ_cons]

@[simp] theorem lines_nil : lines nl n [] = [] := rfl

/-- **The lines.** They are what is taken off, again and again. -/
theorem lines_eq (hn : n ≠ 0) (hl : l ≠ []) :
    lines nl n l = nextLine nl n l :: lines nl n (l.drop (nextLine nl n l).length) :=
  linesFrom_eq hn hl

/-- A line that is over, and what follows it. -/
theorem lines_append (hn : n ≠ 0) (h : Complete nl n p) (l : List α) :
    lines nl n (p ++ l) = p :: lines nl n l := by
  have hp : p ≠ [] := by
    rintro rfl
    obtain ⟨h, -⟩ | ⟨q, h, -⟩ := h
    · exact hn h.symm
    · exact absurd h.symm (by simp)
  rw [lines_eq hn fun h => hp (List.append_eq_nil_iff.mp h).1, nextLine_append h, List.drop_left]

/-- A line that ends with `nl`. -/
theorem lines_terminated (hp : nl ∉ p) (hlen : p.length < n) (l : List α) :
    lines nl n (p ++ nl :: l) = (p ++ [nl]) :: lines nl n l := by
  rw [List.append_cons]
  apply lines_append (Nat.ne_of_gt (Nat.lt_of_le_of_lt p.length.zero_le hlen))
  exact .inr ⟨p, rfl, hp, by rw [List.length_append]; exact hlen⟩

/-- The last line. -/
theorem lines_last (hp : nl ∉ p) (h0 : p ≠ []) (hlen : p.length ≤ n) : lines nl n p = [p] := by
  have hn : n ≠ 0 := fun hn => h0 (List.length_eq_zero_iff.mp (Nat.le_zero.mp (hn ▸ hlen)))
  rw [lines_eq hn h0, nextLine_of_notMem hp hlen, List.drop_length, lines_nil]

/-- **What a line looks like.** -/
theorem mem_lines (hn : n ≠ 0) (h : p ∈ lines nl n l) :
    p ≠ [] ∧ p.length ≤ n ∧ ∃ q, nl ∉ q ∧ (p = q ∨ p = q ++ [nl]) := by
  induction hm : l.length using Nat.strongRecOn generalizing l with
  | _ m ih =>
    by_cases hl : l = []
    · subst hl
      cases h
    have hpos : (nextLine nl n l).length ≠ 0 := fun h0 =>
      nextLine_ne_nil hn hl (List.length_eq_zero_iff.mp h0)
    have hlen : l.length ≠ 0 := fun h0 => hl (List.length_eq_zero_iff.mp h0)
    rw [lines_eq hn hl, List.mem_cons] at h
    rcases h with rfl | h
    · exact ⟨nextLine_ne_nil hn hl, length_nextLine_le, exists_body n l⟩
    · exact ih (l.drop (nextLine nl n l).length).length (by rw [List.length_drop]; omega) h rfl
where
  exists_body (n : ℕ) (l : List α) :
      ∃ q, nl ∉ q ∧ (nextLine nl n l = q ∨ nextLine nl n l = q ++ [nl]) := by
    induction n generalizing l with
    | zero => exact ⟨[], List.not_mem_nil, .inl rfl⟩
    | succ n ih =>
      cases l with
      | nil => exact ⟨[], List.not_mem_nil, .inl rfl⟩
      | cons a l =>
        unfold nextLine
        split_ifs with ha
        · exact ⟨[], List.not_mem_nil, .inr (by rw [ha]; rfl)⟩
        · obtain ⟨q, hq, h⟩ := ih l
          refine ⟨a :: q, fun h' => ?_, h.imp (congrArg _) (congrArg _)⟩
          rcases List.mem_cons.mp h' with rfl | h'
          · exact ha rfl
          · exact hq h'

end Syinx.Library
