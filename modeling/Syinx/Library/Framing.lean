import Mathlib.Data.List.Basic
import Mathlib.Data.List.Infix

/-!
# Packets in a stream

A `Format` says with which packet a stream begins, if it begins with a complete
one, and how many symbols of the stream a packet takes. A stream is decoded by
taking packets off its front until what remains is not a complete packet any
more (`packets`, `rest`).

A receiver may get a stream in chunks, and may decode each chunk by itself. This
module says when that makes no difference.

## What is proved

* `packets_append` — decoding a stream that is continued.
* `packets_flatten` — chunks that end with a packet decode like the stream.
* `decode_flatMap_iff` — **which streams are read back**: those of which each part is read as
  the packet it stands for.
* `agree_iff_cutFree` — **which streams decode the same however they are cut** into
  chunks of at most `B` symbols: those in which a packet that counts is one symbol,
  and whatever precedes such a symbol decodes without a remainder.
-/

namespace Syinx.Library

universe u v

/-- A format of packets `π` in streams of symbols `α`. -/
structure Format (α : Type u) (π : Type v) where
  /-- The packet a stream begins with. -/
  next : List α → Option π
  /-- How many symbols a packet takes. -/
  width : π → ℕ
  pos : ∀ {xs : List α} {p : π}, next xs = some p → 0 < width p
  le : ∀ {xs : List α} {p : π}, next xs = some p → width p ≤ xs.length
  /-- A complete packet stays what it is when the stream goes on. -/
  ext : ∀ {xs : List α} {p : π} (ys : List α), next xs = some p → next (xs ++ ys) = some p
  /-- Its own symbols are all it needs. -/
  cut : ∀ {xs : List α} {p : π}, next xs = some p → next (xs.take (width p)) = some p

namespace Format

variable {α : Type u} {π : Type v} (F : Format α π)

/-- The packets of a stream, and what remains. -/
def decode (xs : List α) : List π × List α :=
  match _h : F.next xs with
  | none => ([], xs)
  | some p =>
    let r := decode (xs.drop (F.width p))
    (p :: r.1, r.2)
  termination_by xs.length
  decreasing_by
    have hpos := F.pos _h
    have hle := F.le _h
    rw [List.length_drop]
    omega

/-- The packets of a stream. -/
def packets (xs : List α) : List π := (F.decode xs).1

/-- What remains of a stream when its packets are taken off. -/
def rest (xs : List α) : List α := (F.decode xs).2

variable {F} {xs ys : List α} {p : π} {b : α}

theorem packets_of_none (h : F.next xs = none) : F.packets xs = [] := by
  unfold packets decode
  split <;> simp_all

theorem rest_of_none (h : F.next xs = none) : F.rest xs = xs := by
  unfold rest decode
  split <;> simp_all

theorem packets_of_some (h : F.next xs = some p) :
    F.packets xs = p :: F.packets (xs.drop (F.width p)) := by
  unfold packets
  conv_lhs => unfold decode
  split <;> simp_all

theorem rest_of_some (h : F.next xs = some p) : F.rest xs = F.rest (xs.drop (F.width p)) := by
  unfold rest
  conv_lhs => unfold decode
  split <;> simp_all

theorem next_nil : F.next [] = none := by
  cases h : F.next [] with
  | none => rfl
  | some p =>
    have hpos := F.pos h
    have hle := F.le h
    rw [List.length_nil] at hle
    omega

@[simp] theorem packets_nil : F.packets [] = [] := packets_of_none next_nil

@[simp] theorem rest_nil : F.rest [] = [] := rest_of_none next_nil

variable (F) in
/-- Induction along the packets of a stream. -/
theorem decode_induction {motive : List α → Prop}
    (none : ∀ xs, F.next xs = none → motive xs)
    (some : ∀ xs p, F.next xs = some p → motive (xs.drop (F.width p)) → motive xs)
    (xs : List α) : motive xs := by
  induction hn : xs.length using Nat.strong_induction_on generalizing xs with
  | _ n ih =>
    cases h : F.next xs with
    | none => exact none xs h
    | some p =>
      refine some xs p h (ih (xs.drop (F.width p)).length ?_ _ rfl)
      have hpos := F.pos h
      have hle := F.le h
      rw [List.length_drop]
      omega

/-- What remains does not begin with a packet. -/
theorem next_rest (xs : List α) : F.next (F.rest xs) = none := by
  induction xs using F.decode_induction with
  | none xs h => rw [rest_of_none h]; exact h
  | some xs p h ih => rw [rest_of_some h]; exact ih

theorem rest_suffix (xs : List α) : F.rest xs <:+ xs := by
  induction xs using F.decode_induction with
  | none xs h => rw [rest_of_none h]
  | some xs p h ih => rw [rest_of_some h]; exact ih.trans (List.drop_suffix _ _)

/-- A stream that goes on: its packets stay, and what remained is decoded with what
follows. -/
theorem packets_append (xs ys : List α) :
    F.packets (xs ++ ys) = F.packets xs ++ F.packets (F.rest xs ++ ys) := by
  induction xs using F.decode_induction with
  | none xs h => rw [packets_of_none h, rest_of_none h, List.nil_append]
  | some xs p h ih =>
    rw [packets_of_some (F.ext ys h), packets_of_some h, rest_of_some h,
      List.drop_append_of_le_length (F.le h), ih, List.cons_append]

theorem packets_append_of_rest (h : F.rest xs = []) (ys : List α) :
    F.packets (xs ++ ys) = F.packets xs ++ F.packets ys := by
  rw [packets_append, h, List.nil_append]

/-- Chunks that end with a packet decode like the stream they are cut from. -/
theorem packets_flatten {cs : List (List α)} (h : ∀ w ∈ cs, F.rest w = []) :
    F.packets cs.flatten = cs.flatMap F.packets := by
  induction cs with
  | nil => simp
  | cons w cs ih =>
    rw [List.flatten_cons, packets_append_of_rest (h w List.mem_cons_self), List.flatMap_cons,
      ih fun w' hw' => h w' (List.mem_cons_of_mem w hw')]

/-- A packet that is written, followed by more. -/
theorem decode_packet_append (h : F.next xs = some p) (hw : F.width p = xs.length) (ys : List α) :
    F.packets (xs ++ ys) = p :: F.packets ys ∧ F.rest (xs ++ ys) = F.rest ys := by
  have hnext := F.ext ys h
  have hdrop : (xs ++ ys).drop (F.width p) = ys := by rw [hw, List.drop_left]
  constructor
  · rw [packets_of_some hnext, hdrop]
  · rw [rest_of_some hnext, hdrop]

/-- **Which streams are read back.** Packets `g b` are written as `f b`, of the right width:
they are what is read, with nothing left over, exactly if each `f b` is read as `g b`. -/
theorem decode_flatMap_iff {β : Type*} {f : β → List α} {g : β → π}
    (hw : ∀ b, F.width (g b) = (f b).length) (bs : List β) :
    (F.packets (bs.flatMap f) = bs.map g ∧ F.rest (bs.flatMap f) = []) ↔
      ∀ b ∈ bs, F.next (f b) = some (g b) := by
  induction bs with
  | nil => simp
  | cons b bs ih =>
    rw [List.flatMap_cons, List.map_cons, List.forall_mem_cons]
    constructor
    · rintro ⟨hp, hr⟩
      have hfirst : F.next (f b ++ bs.flatMap f) = some (g b) := by
        cases hn : F.next (f b ++ bs.flatMap f) with
        | none =>
          rw [packets_of_none hn] at hp
          cases hp
        | some q =>
          rw [packets_of_some hn] at hp
          rw [(List.cons.inj hp).1]
      have hb : F.next (f b) = some (g b) := by
        have hcut := F.cut hfirst
        rwa [hw b, List.take_left] at hcut
      obtain ⟨hps, hrs⟩ := decode_packet_append hb (hw b) (bs.flatMap f)
      rw [hps] at hp
      rw [hrs] at hr
      exact ⟨hb, ih.mp ⟨(List.cons.inj hp).2, hr⟩⟩
    · rintro ⟨hb, hbs⟩
      obtain ⟨hps, hrs⟩ := decode_packet_append hb (hw b) (bs.flatMap f)
      obtain ⟨hp, hr⟩ := ih.mpr hbs
      rw [hps, hrs, hp]
      exact ⟨rfl, hr⟩

/-- The symbol that completes a packet is its last one. -/
theorem width_of_next_append (h : F.next xs = none) (hp : F.next (xs ++ [b]) = some p) :
    F.width p = xs.length + 1 := by
  have hle := F.le hp
  rw [List.length_append, List.length_singleton] at hle
  by_contra hne
  have hlt : F.width p ≤ xs.length := by omega
  have hcut := F.cut hp
  rw [List.take_append_of_le_length hlt] at hcut
  have hext := F.ext (xs.drop (F.width p)) hcut
  rw [List.take_append_drop, h] at hext
  cases hext

/-- What one more symbol completes. -/
theorem packets_append_singleton (xs : List α) (b : α) :
    F.packets (xs ++ [b]) = F.packets xs ++ (F.next (F.rest xs ++ [b])).toList := by
  rw [packets_append]
  cases h : F.next (F.rest xs ++ [b]) with
  | none => rw [packets_of_none h, Option.toList_none]
  | some p =>
    have hw := width_of_next_append (next_rest xs) h
    rw [packets_of_some h, List.drop_of_length_le (by simp [hw]), packets_nil, Option.toList_some]

/-! ### Cutting a stream -/

section Cut

variable {keep : π → Bool} {B : ℕ} {S w : List α}

variable (F keep) in
/-- The packets that count. -/
def kept (xs : List α) : List π := (F.packets xs).filter keep

variable (F keep B S) in
/-- However the stream is cut into chunks of at most `B` symbols, the packets that count
are the same. -/
def Agree : Prop :=
  ∀ cs ds : List (List α), cs.flatten = S → ds.flatten = S → (∀ w ∈ cs, w.length ≤ B) →
    (∀ w ∈ ds, w.length ≤ B) → cs.flatMap (F.kept keep) = ds.flatMap (F.kept keep)

variable (F keep B S) in
/-- No packet that counts can be cut or missed. -/
structure CutFree : Prop where
  /-- A packet that counts, with which a stretch of at most `B` symbols begins, is one
  symbol. -/
  short : ∀ w p, w <:+: S → w.length ≤ B → F.next w = some p → keep p = true → F.width p = 1
  /-- A stretch before a symbol that is a packet that counts, together of at most `B`
  symbols, decodes without a remainder. -/
  reached : ∀ v b, v ++ [b] <:+: S → (v ++ [b]).length ≤ B → F.kept keep [b] ≠ [] → F.rest v = []

theorem kept_append_singleton (xs : List α) (b : α) :
    F.kept keep (xs ++ [b]) = F.kept keep xs ++ (F.next (F.rest xs ++ [b])).toList.filter keep := by
  rw [kept, packets_append_singleton, List.filter_append]
  rfl

theorem kept_singleton (b : α) : F.kept keep [b] = (F.next [b]).toList.filter keep := by
  have h := packets_append_singleton (F := F) [] b
  rw [List.nil_append, rest_nil, packets_nil, List.nil_append, List.nil_append] at h
  rw [kept, h]

theorem mem_kept_singleton : p ∈ F.kept keep [b] ↔ F.next [b] = some p ∧ keep p = true := by
  rw [kept_singleton, List.mem_filter, Option.mem_toList]

/-- A packet of one symbol that counts is one symbol wide. -/
theorem width_of_mem_kept_singleton (h : p ∈ F.kept keep [b]) : F.width p = 1 := by
  have hp := (mem_kept_singleton.mp h).1
  have hpos := F.pos hp
  have hle := F.le hp
  rw [List.length_singleton] at hle
  omega

/-- In a stream that can be cut anywhere, a stretch decodes like its symbols. -/
theorem CutFree.kept_eq (h : CutFree F keep B S) (hw : w <:+: S) (hB : w.length ≤ B) :
    F.kept keep w = w.flatMap fun b => F.kept keep [b] := by
  induction w using List.reverseRecOn with
  | nil => simp [kept]
  | append_singleton v b ih =>
    have hv : v <:+: S := (List.prefix_append v [b]).isInfix.trans hw
    have hvB : v.length ≤ B := by
      rw [List.length_append] at hB
      omega
    have hlast : (F.next (F.rest v ++ [b])).toList.filter keep = F.kept keep [b] := by
      by_cases hb : F.kept keep [b] = []
      · -- a symbol that is no packet that counts completes none
        rw [hb, List.filter_eq_nil_iff]
        intro p hp hk
        have hp' : F.next (F.rest v ++ [b]) = some p := by simpa using hp
        have hsuf : F.rest v ++ [b] <:+ v ++ [b] := by
          obtain ⟨u, hu⟩ := F.rest_suffix v
          exact ⟨u, by rw [← List.append_assoc, hu]⟩
        have hone := h.short _ p (hsuf.isInfix.trans hw) (hsuf.length_le.trans hB) hp' hk
        rw [width_of_next_append (next_rest v) hp'] at hone
        have hnil : F.rest v = [] := List.eq_nil_of_length_eq_zero (by omega)
        rw [hnil, List.nil_append] at hp'
        have := mem_kept_singleton.mpr ⟨hp', hk⟩
        rw [hb] at this
        cases this
      · rw [h.reached v b hw hB hb, List.nil_append, kept_singleton]
    rw [kept_append_singleton, ih hv hvB, hlast, List.flatMap_append, List.flatMap_singleton]

/-- Where all cuttings agree, a stretch decodes like its symbols. -/
theorem Agree.kept_eq (h : Agree F keep B S) (hw : w <:+: S) (hB : w.length ≤ B) (h1 : 1 ≤ B) :
    F.kept keep w = w.flatMap fun b => F.kept keep [b] := by
  obtain ⟨x, y, rfl⟩ := hw
  have hsingle : ∀ z : List α, (z.map fun b => [b]).flatten = z := fun z => by
    rw [← List.flatMap_def, List.flatMap_singleton']
  have hlen : ∀ z : List α, ∀ v ∈ z.map (fun b => [b]), v.length ≤ B := by
    intro z v hv
    obtain ⟨b, -, rfl⟩ := List.mem_map.mp hv
    exact h1
  have hcut := h ((x.map fun b => [b]) ++ [w] ++ y.map fun b => [b])
    ((x ++ w ++ y).map fun b => [b]) (by simp [hsingle]) (hsingle _) ?_ (hlen _)
  · simpa [List.flatMap_map, List.append_cancel_left_eq] using hcut
  · intro v hv
    rw [List.mem_append, List.mem_append, List.mem_singleton] at hv
    rcases hv with (hv | rfl) | hv
    · exact hlen x v hv
    · exact hB
    · exact hlen y v hv

/-- **Which streams decode the same however they are cut.** -/
theorem agree_iff_cutFree (h1 : 1 ≤ B) : Agree F keep B S ↔ CutFree F keep B S := by
  constructor
  · intro h
    refine ⟨fun w p hw hB hp hk => ?_, fun v b hw hB hb => ?_⟩
    · -- the packet alone, and its symbols one by one
      have hpre : w.take (F.width p) <+: w := List.take_prefix _ _
      have hlen : (w.take (F.width p)).length = F.width p := by
        rw [List.length_take]
        exact min_eq_left (F.le hp)
      have heq := h.kept_eq (hpre.isInfix.trans hw) (hpre.length_le.trans hB) h1
      have hmem : p ∈ F.kept keep (w.take (F.width p)) := by
        rw [kept, packets_of_some (F.cut hp)]
        exact List.mem_filter.mpr ⟨List.mem_cons_self, hk⟩
      rw [heq] at hmem
      obtain ⟨b, -, hb⟩ := List.mem_flatMap.mp hmem
      exact width_of_mem_kept_singleton hb
    · have hv : v <:+: S := (List.prefix_append v [b]).isInfix.trans hw
      have hvB : v.length ≤ B := by
        rw [List.length_append] at hB
        omega
      have heq := h.kept_eq hw hB h1
      rw [kept_append_singleton, h.kept_eq hv hvB h1, List.flatMap_append, List.flatMap_singleton,
        List.append_cancel_left_eq] at heq
      -- what completes the remainder of `v` is the packet of the symbol itself
      obtain ⟨p, hp⟩ := List.exists_mem_of_ne_nil _ hb
      have hone := width_of_mem_kept_singleton hp
      rw [← heq, List.mem_filter, Option.mem_toList] at hp
      rw [width_of_next_append (next_rest v) hp.1] at hone
      exact List.eq_nil_of_length_eq_zero (by omega)
  · intro h cs ds hcs hds hcB hdB
    have hall : ∀ cs : List (List α), cs.flatten = S → (∀ w ∈ cs, w.length ≤ B) →
        cs.flatMap (F.kept keep) = S.flatMap fun b => F.kept keep [b] := by
      rintro cs rfl hB
      rw [List.flatten_eq_flatMap, List.flatMap_assoc]
      apply List.flatMap_congr
      intro w hw
      exact h.kept_eq (List.infix_of_mem_flatten hw) (hB w hw)
    rw [hall cs hcs hcB, hall ds hds hdB]

end Cut

end Format

end Syinx.Library
