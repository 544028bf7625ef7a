import Mathlib.Data.List.Perm.Basic
import Mathlib.Data.List.Nodup

/-!
# Resources in two containers

A fixed list of resources, each either free or in use: `Recycled all free used`.
A resource is taken from the front of the free ones and put behind the used ones
(`allocate`), and one in use is removed and put behind the free ones (`giveBack`, `release`);
new resources can be added (`extend`). None is lost and none is ever in two places.
-/

namespace Syinx.Library

universe u

variable {α : Type u} {all free used : List α} {c : α}

/-- The free and the used resources are all resources, each exactly once. -/
structure Recycled (all free used : List α) : Prop where
  nodup : all.Nodup
  perm : (free ++ used).Perm all

namespace Recycled

theorem nodup_append (h : Recycled all free used) : (free ++ used).Nodup :=
  h.perm.nodup_iff.mpr h.nodup

/-- No resource is in both containers. -/
theorem not_mem_free (h : Recycled all free used) (hc : c ∈ used) : c ∉ free := fun hf =>
  (List.nodup_append.mp h.nodup_append).2.2 c hf c hc rfl

theorem nodup_used (h : Recycled all free used) : used.Nodup :=
  (List.nodup_append.mp h.nodup_append).2.1

theorem mem_iff (h : Recycled all free used) : c ∈ all ↔ c ∈ free ∨ c ∈ used := by
  rw [← h.perm.mem_iff, List.mem_append]

theorem length_add (h : Recycled all free used) : free.length + used.length = all.length := by
  rw [← List.length_append, h.perm.length_eq]

/-- There is a free resource exactly if not all are in use. -/
theorem free_ne_nil_iff (h : Recycled all free used) : free ≠ [] ↔ used.length < all.length := by
  have := h.length_add
  rw [← List.length_pos_iff_ne_nil]
  omega

/-- The first free resource is put to use. -/
theorem allocate (h : Recycled all (c :: free) used) : Recycled all free (used ++ [c]) where
  nodup := h.nodup
  perm := by
    refine List.Perm.trans ?_ h.perm
    rw [← List.append_assoc, List.cons_append]
    exact List.perm_append_singleton c (free ++ used)

/-- A resource in use is given back; the others stay in use. -/
theorem giveBack {used' : List α} (h : Recycled all free used) (hp : used.Perm (c :: used')) :
    Recycled all (free ++ [c]) used' where
  nodup := h.nodup
  perm := by
    rw [List.append_assoc, List.singleton_append]
    exact (hp.symm.append_left free).trans h.perm

/-- A resource in use is given back. -/
theorem release [DecidableEq α] (h : Recycled all free used) (hc : c ∈ used) :
    Recycled all (free ++ [c]) (used.filter (· ≠ c)) := by
  have he := List.Nodup.erase_eq_filter h.nodup_used c
  have hf : used.filter (· ≠ c) = used.erase c := by
    rw [he]
    exact List.filter_congr fun x _ => by by_cases hx : x = c <;> simp [hx]
  rw [hf]
  exact h.giveBack (List.perm_cons_erase hc)

/-- New resources are free. -/
theorem extend {xs : List α} (h : Recycled all free used) (hxs : xs.Nodup)
    (hnew : ∀ x ∈ xs, x ∉ all) : Recycled (all ++ xs) (free ++ xs) used where
  nodup := List.nodup_append.mpr ⟨h.nodup, hxs, fun a ha b hb hab => hnew b hb (hab ▸ ha)⟩
  perm := by
    rw [List.append_assoc]
    exact ((List.perm_append_comm.append_left free).trans
      (List.append_assoc free used xs ▸ List.Perm.refl _)).trans (h.perm.append_right xs)

end Recycled

end Syinx.Library
