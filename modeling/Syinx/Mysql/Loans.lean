import Syinx.Library.Lending
import Syinx.Library.Runs
import Syinx.Mysql.Handles

/-!
# Lending database handles

The connection pool with its borrowers. Who has obtained a handle and not returned it is in
`loans`, and every handle that has ever been handed out is in `handedOut`; the pool itself
has neither. A handle that has been handed out can be put back by anyone at any time.

## What is proved

* `Borrowing.step_cases` — the calls are the operations of `Syinx.Library.Lending`.
* `exclusive_along_iff` — which runs never have a handle in use twice.
* `exclusive_of_owned` — those in which a handle is put back by who has it are among them.
-/

namespace Syinx.Mysql

open Syinx.Library

/-- The pool and its borrowers. -/
structure Borrowing where
  /-- `g_pMysqlPool`. -/
  pool : SyMysqlConPool
  /-- Who has obtained which handle and not returned it. -/
  loans : List (ℕ × ℕ)
  /-- The handles `GetMysqlHandle` has returned. -/
  handedOut : List ℕ

/-- A call. -/
inductive PoolCall where
  /-- `Initialize`. -/
  | init (connum : Int32) (o : InitResults)
  /-- `GetMysqlHandle`, called by `b`. -/
  | get (b : ℕ)
  /-- `PutMysqlHandle` of `h`, called by `b`. -/
  | put (b h : ℕ)
  /-- `close`. -/
  | close

namespace Borrowing

/-- The program starts. -/
def new : Borrowing := ⟨.new, [], []⟩

/-- `b` calls `GetMysqlHandle`. -/
def get (s : Borrowing) (b : ℕ) : Borrowing :=
  match s.pool.getMysqlHandle with
  | (none, p) => { s with pool := p }
  | (some h, p) => ⟨p, s.loans ++ [(b, h)], s.handedOut ++ [h]⟩

/-- A call; the handles that are put back have been handed out. -/
def step (s : Borrowing) : PoolCall → Option Borrowing
  | .init connum o => some { s with pool := (s.pool.init connum o).2 }
  | .get b => some (s.get b)
  | .put b h =>
    if h ∈ s.handedOut then
      some { s with pool := (s.pool.putMysqlHandle (some h)).2, loans := s.loans.erase (b, h) }
    else none
  | .close => some { s with pool := s.pool.close }

/-- The handles as items that are lent. -/
def lending (s : Borrowing) : Lending ℕ ℕ where
  stock := s.pool.queueMysql
  loans := s.loans
  retired := s.pool.closed
  all := s.pool.connected

end Borrowing

/-- Handles are used by one borrower at a time. -/
structure ExclusiveUse (s : Borrowing) : Prop where
  /-- `m_queueMysql` contains no handle twice. -/
  queue : s.pool.queueMysql.Nodup
  /-- No handle in the queue is with a borrower. -/
  apart : ∀ b h, (b, h) ∈ s.loans → h ∉ s.pool.queueMysql
  /-- No handle is with two borrowers. -/
  single : (s.loans.map Prod.snd).Nodup
  /-- There are no more handles in the queue than were connected. -/
  few : s.pool.queueMysql.length ≤ s.pool.connected.length
  /-- No handle is closed twice. -/
  closed : ∀ h, s.pool.closed.count h ≤ 1

/-- A handle is put back by a borrower that has obtained it and not returned it. -/
def PoolCall.Owned (s : Borrowing) : PoolCall → Prop
  | .put b h => (b, h) ∈ s.loans
  | _ => True

/-- A handle that is put back is with the caller, or neither in the queue nor with anyone, and
`close` finds no handle that it has closed before. -/
def PoolCall.Fair (s : Borrowing) : PoolCall → Prop
  | .put b h => (b, h) ∈ s.loans ∨ (h ∉ s.pool.queueMysql ∧ h ∉ s.loans.map Prod.snd)
  | .close => ∀ h ∈ s.pool.queueMysql, h ∉ s.pool.closed
  | _ => True

instance (s : Borrowing) : (a : PoolCall) → Decidable (a.Owned s)
  | .put b h => inferInstanceAs (Decidable ((b, h) ∈ s.loans))
  | .init _ _ | .get _ | .close => inferInstanceAs (Decidable True)

section Steps

variable {s t : Borrowing} {a : PoolCall}

theorem exclusiveUse_iff : ExclusiveUse s ↔ s.lending.Exclusive := by
  constructor
  · intro h
    refine ⟨h.queue, fun x hx => ?_, h.single, h.few, List.nodup_iff_count_le_one.mpr h.closed⟩
    obtain ⟨⟨b, y⟩, hy, rfl⟩ := List.mem_map.mp hx
    exact h.apart b y hy
  · intro h
    refine ⟨h.stock, fun b x hx => ?_, h.single, h.few, List.nodup_iff_count_le_one.mp h.once⟩
    exact h.apart x (List.mem_map_of_mem hx)

/-- The handles that are connected have been made, and those handed out were connected. -/
structure Numbered (s : Borrowing) : Prop where
  connected : ∀ h ∈ s.pool.connected, h < s.pool.made
  handedOut : s.handedOut ⊆ s.pool.connected
  queueMysql : s.pool.queueMysql ⊆ s.pool.connected

theorem made_of_init (p : SyMysqlConPool) (connum : Int32) (o : InitResults) :
    ∃ k hs, Made p (p.init connum o).2 k hs := by
  unfold SyMysqlConPool.init
  dsimp only
  split_ifs
  · exact ⟨0, [], Made.refl p⟩
  all_goals
    obtain ⟨k, hs, hmade, -⟩ := Made.of_initLoop o p 0 connum.toInt.toNat
    exact ⟨k, hs, hmade⟩

theorem Borrowing.get_lending (s : Borrowing) (b : ℕ) :
    (s.get b).lending = s.lending.lend b := by
  unfold Borrowing.get SyMysqlConPool.getMysqlHandle
  cases hq : s.pool.queueMysql with
  | nil => simp [Borrowing.lending, Lending.lend, hq]
  | cons h hs => simp [Borrowing.lending, Lending.lend, hq]

theorem Numbered.get (hn : Numbered s) (b : ℕ) : Numbered (s.get b) := by
  unfold Borrowing.get SyMysqlConPool.getMysqlHandle
  cases hq : s.pool.queueMysql with
  | nil => exact ⟨hn.connected, hn.handedOut, hn.queueMysql⟩
  | cons h hs =>
    have hqueue := hn.queueMysql
    rw [hq, List.cons_subset] at hqueue
    refine ⟨hn.connected, ?_, hqueue.2⟩
    exact List.append_subset.mpr
      ⟨hn.handedOut, List.cons_subset.mpr ⟨hqueue.1, List.nil_subset _⟩⟩

/-- What a call can do: the handles are lent and given back, new ones come and all of the queue
is closed. -/
theorem Borrowing.step_cases (hn : Numbered s) (hst : s.step a = some t) :
    Numbered t ∧
      ((∃ connum o hs, a = .init connum o ∧ hs.Nodup ∧ (∀ h ∈ hs, h ∉ s.pool.connected) ∧
          t.lending = s.lending.add hs) ∨
        (∃ b, a = .get b ∧ t.lending = s.lending.lend b) ∨
        (∃ b h, a = .put b h ∧ h ∈ s.pool.connected ∧ t.lending = s.lending.giveBack b h) ∨
        (a = .close ∧ t.lending = s.lending.retire)) := by
  cases a with
  | init connum o =>
    cases hst
    obtain ⟨k, hs, hmade⟩ := made_of_init s.pool connum o
    refine ⟨⟨fun h hh => ?_, ?_, ?_⟩, .inl ⟨connum, o, hs, rfl, hmade.nodup, fun h hh hmem => ?_, ?_⟩⟩
    · rw [hmade.connected, List.mem_append] at hh
      rw [hmade.made]
      obtain hh | hh := hh
      · exact Nat.lt_add_right k (hn.connected h hh)
      · exact (hmade.mem h hh).2
    · rw [hmade.connected]
      exact List.subset_append_of_subset_left hs hn.handedOut
    · rw [hmade.connected, hmade.queueMysql]
      exact List.append_subset.mpr ⟨List.subset_append_of_subset_left hs hn.queueMysql,
        List.subset_append_right _ _⟩
    · have h1 := (hmade.mem h hh).1
      have h2 := hn.connected h hmem
      omega
    · rw [Borrowing.lending, hmade.queueMysql, hmade.connected, hmade.closed]
      rfl
  | get b =>
    cases hst
    exact ⟨hn.get b, .inr (.inl ⟨b, rfl, s.get_lending b⟩)⟩
  | put b h =>
    simp only [Borrowing.step] at hst
    split_ifs at hst with hh
    cases hst
    have hmem := hn.handedOut hh
    refine ⟨⟨hn.connected, hn.handedOut, ?_⟩, .inr (.inr (.inl ⟨b, h, rfl, hmem, rfl⟩))⟩
    exact List.append_subset.mpr ⟨hn.queueMysql, List.cons_subset.mpr ⟨hmem, List.nil_subset _⟩⟩
  | close =>
    cases hst
    exact ⟨⟨hn.connected, hn.handedOut, List.nil_subset _⟩, .inr (.inr (.inr ⟨rfl, rfl⟩))⟩

/-! ### Runs -/

theorem Numbered.new : Numbered .new :=
  ⟨List.forall_mem_nil _, List.nil_subset _, List.nil_subset _⟩

/-- Every handle is in the queue, or else with a borrower or closed, as long as handles are put
back by who has them. -/
theorem sound_step (hn : Numbered s) (h : s.lending.Sound) (ha : a.Owned s)
    (hst : s.step a = some t) : t.lending.Sound := by
  obtain ⟨-, hcase⟩ := Borrowing.step_cases hn hst
  obtain ⟨connum, o, hs, rfl, hnodup, hnew, hl⟩ | ⟨b, rfl, hl⟩ | ⟨b, x, rfl, -, hl⟩ | ⟨rfl, hl⟩ :=
    hcase
  · rw [hl]
    exact h.add hnodup hnew
  · rw [hl]
    exact h.lend b
  · rw [hl]
    exact h.giveBack ha
  · rw [hl]
    exact h.retire

/-- Whatever is put back, the pool knows its handles. -/
theorem known_step (hn : Numbered s) (h : s.lending.Known) (hst : s.step a = some t) :
    t.lending.Known := by
  obtain ⟨-, hcase⟩ := Borrowing.step_cases hn hst
  obtain ⟨connum, o, hs, rfl, hnodup, hnew, hl⟩ | ⟨b, rfl, hl⟩ | ⟨b, x, rfl, hx, hl⟩ | ⟨rfl, hl⟩ :=
    hcase
  · rw [hl]
    exact h.add hnodup hnew
  · rw [hl]
    exact h.lend b
  · rw [hl]
    exact h.giveBack b hx
  · rw [hl]
    exact h.retire

/-- When a call ends the exclusive use. -/
theorem exclusiveUse_step_iff (hn : Numbered s) (hk : s.lending.Known) (h : ExclusiveUse s)
    (hst : s.step a = some t) : ExclusiveUse t ↔ a.Fair s := by
  obtain ⟨-, hcase⟩ := Borrowing.step_cases hn hst
  rw [exclusiveUse_iff] at h ⊢
  obtain ⟨connum, o, hs, rfl, hnodup, hnew, hl⟩ | ⟨b, rfl, hl⟩ | ⟨b, x, rfl, hx, hl⟩ | ⟨rfl, hl⟩ :=
    hcase
  · rw [hl]
    exact iff_of_true (h.add hk hnodup hnew) trivial
  · rw [hl]
    exact iff_of_true (h.lend b) trivial
  · rw [hl]
    exact h.giveBack_iff hk hx
  · rw [hl]
    exact h.retire_iff

/-- **Which runs keep the exclusive use**: those in which every handle that is put back is with
the caller or with nobody, and `close` does not find a handle for the second time. -/
theorem exclusive_along_iff (as : List PoolCall) :
    Along Borrowing.step ExclusiveUse .new as ↔ Guarded Borrowing.step PoolCall.Fair .new as := by
  have hknown : Borrowing.new.lending.Known := ⟨.nil, List.nil_subset _, List.nil_subset _⟩
  have hsound : Borrowing.new.lending.Sound := ⟨.nil, List.Perm.refl _⟩
  refine along_iff_guarded (I := fun s => Numbered s ∧ s.lending.Known) (fun s a t h hst => ?_)
    (fun s a t h hq hst => exclusiveUse_step_iff h.1 h.2 hq hst) ⟨.new, hknown⟩
    (exclusiveUse_iff.mpr hsound.exclusive)
  exact ⟨(Borrowing.step_cases h.1 hst).1, known_step h.1 h.2 hst⟩

/-- **Exclusive use** of the handles, whenever handles are put back by who has them. -/
theorem exclusive_of_owned {as : List PoolCall}
    (h : Guarded Borrowing.step PoolCall.Owned .new as) :
    Along Borrowing.step ExclusiveUse .new as := by
  have hsound : Borrowing.new.lending.Sound := ⟨.nil, List.Perm.refl _⟩
  refine Along.of_guarded (I := fun s => Numbered s ∧ s.lending.Sound) (fun s a t hs ha hst => ?_)
    (fun s hs => exclusiveUse_iff.mpr hs.2.exclusive) ⟨.new, hsound⟩ h
  exact ⟨(Borrowing.step_cases hs.1 hst).1, sound_step hs.1 hs.2 ha hst⟩

end Steps

/-- All calls of `Initialize` succeed. -/
def initOk : InitResults := ⟨true, fun _ => true, fun _ => true⟩

/-- Two borrowers, one of which returns its handle after `close`. -/
def returnAfterClose : List PoolCall :=
  [.init 2 initOk, .get 5, .get 6, .put 5 0, .close, .put 6 1, .get 5, .put 5 1, .close]

theorem exclusive_returnAfterClose :
    Along Borrowing.step ExclusiveUse .new returnAfterClose :=
  exclusive_of_owned (by decide)

/-- A handle that is put back twice is there twice. -/
theorem not_exclusiveUse_putTwice :
    (SyMysqlConPool.new.init 1 initOk).1 = true ∧
      ∃ t, exec Borrowing.step .new [.init 1 initOk, .get 5, .put 5 0, .put 5 0] = some t ∧
        t.pool.queueMysql = [0, 0] ∧ ¬ ExclusiveUse t :=
  ⟨by decide, _, rfl, rfl, fun h => absurd h.queue (by decide)⟩

end Syinx.Mysql
