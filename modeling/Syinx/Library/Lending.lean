import Mathlib.Data.List.Perm.Subperm
import Syinx.Library.Recycle

/-!
# Lending

Items in stock are lent to borrowers, the first one first; what is given back goes behind the
others, and from time to time the stock is retired. Whoever gives an item back is believed to
have it. The loans are known here, so that it can be said when that does no harm.

## What is proved

* `Sound.add`, `Sound.lend`, `Sound.giveBack`, `Sound.retire` — every item is in stock, on loan
  or retired, and in one place only, as long as borrowers give back what they have.
* `Sound.exclusive` — then no item is in use twice.
* `Exclusive.giveBack_iff`, `Exclusive.retire_iff` — **when a step does harm**, exactly.
-/

namespace Syinx.Library

universe u v

/-- Items and where they are. -/
structure Lending (α : Type u) (β : Type v) where
  /-- What can be borrowed, the next one first. -/
  stock : List α
  /-- Who has borrowed what and not given it back. -/
  loans : List (β × α)
  /-- What has been retired; it is not used again. -/
  retired : List α
  /-- All items there have been. -/
  all : List α

namespace Lending

variable {α : Type u} {β : Type v} {s : Lending α β} {b : β} {x : α} {xs : List α}

/-- The items on loan. -/
def out (s : Lending α β) : List α := s.loans.map Prod.snd

/-- New items are put into stock. -/
def add (s : Lending α β) (xs : List α) : Lending α β :=
  { s with stock := s.stock ++ xs, all := s.all ++ xs }

/-- The first item is lent, if there is one. -/
def lend (s : Lending α β) (b : β) : Lending α β :=
  match s.stock with
  | [] => s
  | x :: xs => { s with stock := xs, loans := s.loans ++ [(b, x)] }

/-- An item is given back. -/
def giveBack [DecidableEq α] [DecidableEq β] (s : Lending α β) (b : β) (x : α) : Lending α β :=
  { s with stock := s.stock ++ [x], loans := s.loans.erase (b, x) }

/-- The stock is retired. -/
def retire (s : Lending α β) : Lending α β :=
  { s with stock := [], retired := s.retired ++ s.stock }

/-- No item is in use twice, and none is retired twice. -/
structure Exclusive (s : Lending α β) : Prop where
  stock : s.stock.Nodup
  /-- No item in stock is on loan. -/
  apart : ∀ x ∈ s.out, x ∉ s.stock
  /-- No item is on loan to two borrowers. -/
  single : s.out.Nodup
  few : s.stock.length ≤ s.all.length
  once : s.retired.Nodup

/-! ### Borrowers that give back what they have -/

/-- Every item is in stock, or else on loan or retired. -/
def Sound (s : Lending α β) : Prop := Recycled s.all s.stock (s.retired ++ s.out)

theorem Sound.exclusive (h : s.Sound) : s.Exclusive where
  stock := (List.nodup_append.mp h.nodup_append).1
  apart _ hx := h.not_mem_free (List.mem_append_right _ hx)
  single := (List.nodup_append.mp h.nodup_used).2.1
  few := h.length_add ▸ Nat.le_add_right _ _
  once := (List.nodup_append.mp h.nodup_used).1

theorem Sound.add (h : s.Sound) (hxs : xs.Nodup) (hnew : ∀ x ∈ xs, x ∉ s.all) :
    (s.add xs).Sound :=
  h.extend hxs hnew

theorem Sound.lend (h : s.Sound) (b : β) : (s.lend b).Sound := by
  unfold Lending.lend
  split
  · exact h
  · next x xs hs =>
    unfold Sound at h ⊢
    rw [hs] at h
    have hout : s.retired ++ ((s.loans ++ [(b, x)]).map Prod.snd) = s.retired ++ s.out ++ [x] := by
      rw [List.map_append, List.append_assoc]
      rfl
    rw [out, hout]
    exact h.allocate

theorem Sound.retire (h : s.Sound) : s.retire.Sound where
  nodup := h.nodup
  perm := by
    refine List.Perm.trans ?_ h.perm
    rw [Lending.retire, List.nil_append, ← List.append_assoc]
    exact List.perm_append_comm.append_right _

section GiveBack

variable [DecidableEq α] [DecidableEq β]

/-- The loan that ends, and the others. -/
theorem out_perm (h : (b, x) ∈ s.loans) : s.out.Perm (x :: (s.giveBack b x).out) :=
  (List.perm_cons_erase h).map Prod.snd

theorem Sound.giveBack (h : s.Sound) (hb : (b, x) ∈ s.loans) : (s.giveBack b x).Sound := by
  apply Recycled.giveBack h
  exact ((out_perm hb).append_left s.retired).trans List.perm_middle

end GiveBack

/-! ### Borrowers that give back what they like -/

/-- All that is in stock or on loan is known, and each item once. -/
structure Known (s : Lending α β) : Prop where
  all : s.all.Nodup
  stock : s.stock ⊆ s.all
  out : s.out ⊆ s.all

theorem Known.add (h : s.Known) (hxs : xs.Nodup) (hnew : ∀ x ∈ xs, x ∉ s.all) :
    (s.add xs).Known where
  all := List.nodup_append.mpr ⟨h.all, hxs, fun _ ha c hc hac => hnew c hc (hac ▸ ha)⟩
  stock := List.append_subset.mpr
    ⟨List.subset_append_of_subset_left xs h.stock, List.subset_append_right _ _⟩
  out := List.subset_append_of_subset_left xs h.out

theorem Known.lend (h : s.Known) (b : β) : (s.lend b).Known := by
  unfold Lending.lend
  split
  · exact h
  · next x xs hs =>
    have hstock := h.stock
    rw [hs, List.cons_subset] at hstock
    refine ⟨h.all, hstock.2, ?_⟩
    rw [Lending.out, List.map_append]
    exact List.append_subset.mpr ⟨h.out, List.cons_subset.mpr ⟨hstock.1, List.nil_subset _⟩⟩

theorem Known.retire (h : s.Known) : s.retire.Known := ⟨h.all, List.nil_subset _, h.out⟩

/-- New items do no harm. -/
theorem Exclusive.add (h : s.Exclusive) (hk : s.Known) (hxs : xs.Nodup)
    (hnew : ∀ x ∈ xs, x ∉ s.all) : (s.add xs).Exclusive where
  stock := List.nodup_append.mpr
    ⟨h.stock, hxs, fun a ha b hb hab => hnew b hb (hab ▸ hk.stock ha)⟩
  apart x hx := by
    rw [Lending.add, List.mem_append, not_or]
    exact ⟨h.apart x hx, fun hmem => hnew x hmem (hk.out hx)⟩
  single := h.single
  few := by
    have := h.few
    simp only [Lending.add, List.length_append]
    omega
  once := h.once

/-- Nor does a loan. -/
theorem Exclusive.lend (h : s.Exclusive) (b : β) : (s.lend b).Exclusive := by
  unfold Lending.lend
  split
  · exact h
  · next x xs hs =>
    have hstock := h.stock
    have hapart := h.apart
    have hfew := h.few
    rw [hs] at hstock hapart hfew
    obtain ⟨hx, hxs⟩ := List.nodup_cons.mp hstock
    have hout : x ∉ s.out := fun hmem => hapart x hmem List.mem_cons_self
    have heq : Lending.out { s with stock := xs, loans := s.loans ++ [(b, x)] } = s.out ++ [x] := by
      rw [Lending.out, List.map_append]
      rfl
    refine ⟨hxs, fun y hy => ?_, ?_, Nat.le_of_succ_le hfew, h.once⟩
    · rw [heq, List.mem_append, List.mem_singleton] at hy
      obtain hy | rfl := hy
      · exact fun hmem => hapart y hy (List.mem_cons_of_mem x hmem)
      · exact hx
    · rw [heq]
      exact List.nodup_append.mpr ⟨h.single, List.nodup_singleton x, fun a ha b hb hab =>
        hout (List.mem_singleton.mp hb ▸ hab ▸ ha)⟩

/-- **When retiring does harm**: exactly if something in stock has been retired before. -/
theorem Exclusive.retire_iff (h : s.Exclusive) :
    s.retire.Exclusive ↔ ∀ x ∈ s.stock, x ∉ s.retired := by
  constructor
  · intro h' x hx hmem
    exact (List.nodup_append.mp h'.once).2.2 x hmem x hx rfl
  · intro hnew
    refine ⟨.nil, fun x _ => List.not_mem_nil, h.single, Nat.zero_le _, ?_⟩
    exact List.nodup_append.mpr ⟨h.once, h.stock, fun a ha b hb hab => hnew b hb (hab ▸ ha)⟩

section GiveBack

variable [DecidableEq α] [DecidableEq β]

theorem Known.giveBack (h : s.Known) (b : β) (hx : x ∈ s.all) : (s.giveBack b x).Known where
  all := h.all
  stock := List.append_subset.mpr ⟨h.stock, List.cons_subset.mpr ⟨hx, List.nil_subset _⟩⟩
  out _ hy := h.out (List.map_subset Prod.snd List.erase_subset hy)

/-- **When giving back does harm**: exactly if the item is not on loan to who gives it back, and
is in stock or on loan to someone else. -/
theorem Exclusive.giveBack_iff (h : s.Exclusive) (hk : s.Known) (hx : x ∈ s.all) :
    (s.giveBack b x).Exclusive ↔ (b, x) ∈ s.loans ∨ (x ∉ s.stock ∧ x ∉ s.out) := by
  constructor
  · intro h'
    by_cases hb : (b, x) ∈ s.loans
    · exact .inl hb
    · have hout : (s.giveBack b x).out = s.out := by
        rw [Lending.out, Lending.giveBack, List.erase_of_not_mem hb]
        rfl
      refine .inr ⟨fun hmem => ?_, fun hmem => ?_⟩
      · exact (List.nodup_append.mp h'.stock).2.2 x hmem x List.mem_cons_self rfl
      · exact h'.apart x (hout ▸ hmem) (List.mem_append_right _ List.mem_cons_self)
  · intro hfair
    have hfree : x ∉ s.stock ∧ x ∉ (s.giveBack b x).out := by
      obtain hb | ⟨hstock, hout⟩ := hfair
      · have hperm := out_perm hb
        have hnodup := hperm.nodup_iff.mp h.single
        exact ⟨h.apart x (hperm.mem_iff.mpr List.mem_cons_self), (List.nodup_cons.mp hnodup).1⟩
      · exact ⟨hstock, fun hmem => hout (List.map_subset Prod.snd List.erase_subset hmem)⟩
    have hstock : (s.giveBack b x).stock.Nodup := List.nodup_append.mpr
      ⟨h.stock, List.nodup_singleton x, fun a ha c hc hac =>
        hfree.1 (List.mem_singleton.mp hc ▸ hac ▸ ha)⟩
    refine ⟨hstock, fun y hy hmem => ?_, ?_, ?_, h.once⟩
    · obtain hmem | hmem := List.mem_append.mp hmem
      · exact h.apart y (List.map_subset Prod.snd List.erase_subset hy) hmem
      · exact hfree.2 (List.mem_singleton.mp hmem ▸ hy)
    · exact (List.erase_sublist.map Prod.snd).nodup h.single
    · exact (List.subperm_of_subset hstock (hk.giveBack b hx).stock).length_le

end GiveBack

end Lending

end Syinx.Library
