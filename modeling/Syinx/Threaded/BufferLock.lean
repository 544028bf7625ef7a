import Syinx.Threaded.Echo

/-!
# The lock of the input buffer

With a lock installed, `OnStatusDoAcionInPthread` holds the lock of the input buffer
from `evbuffer_lock` to `evbuffer_unlock`. There is a way out in between, the `return`
for an empty buffer, and it does not unlock. A channel is queued by every frame that
finds bytes in its buffer, so it may be queued again before a worker gets to it; the
first task then takes the bytes and the second one finds none.

## What is proved

* `lock_of_step`, `unlock_of_step`, `empty_of_step` — what the three calls do to the lock.
* `lockKept_iff` — in every state of a run a buffer's lock is held only by a worker
  that is past `evbuffer_lock` for that channel, exactly if no worker of the run finds
  the buffer empty.
-/

namespace Syinx.Threaded

open Syinx.Library Syinx.Tcp

variable {α : Type}

/-- The channel whose input buffer a worker there has locked and will unlock. -/
def Pc.locked : Pc α → Option Ptr
  | remove c | send c _ | load c _ _ | write c _ _ _ => some c
  | top | stuck | exited | lock _ => none

namespace Kernel

/-- Whoever holds the lock of an input buffer is in `OnStatusDoAcionInPthread` of that
channel: every call that has taken the lock and returned has released it. -/
def LockKept (s : Kernel α) : Prop := ∀ c i, s.evOwner c = some i → (s.pc i).locked = some c

/-- `evbuffer_remove` finds bytes, when a worker there comes to it. -/
def Filled (srv : Server α) : Pc α → Prop
  | .remove c => srv.deleted c = 0 → srv.evFreed c = 0 → (srv.chan c).inputEvbuffer.length ≠ 0
  | _ => True

instance (srv : Server α) : (x : Pc α) → Decidable (Filled srv x)
  | .remove _ => inferInstanceAs (Decidable (_ → _ → _))
  | .top | .stuck | .exited | .lock _ | .send .. | .load .. | .write .. =>
    inferInstanceAs (Decidable True)

/-- **The condition on a step**: no worker finds the input buffer empty. -/
def FindsBytes (s : Kernel α) (a : Act α) : Prop :=
  match a with
  | .worker i => Filled s.srv (s.pc i)
  | _ => True

instance (s : Kernel α) : (a : Act α) → Decidable (s.FindsBytes a)
  | .worker i => inferInstanceAs (Decidable (Filled s.srv (s.pc i)))
  | .main _ | .event _ | .close => inferInstanceAs (Decidable True)

/-! ### What a step does to the locks -/

/-- The locks are as they were, and so is who is to unlock them. -/
structure SameLocks (s t : Kernel α) : Prop where
  hasLock : t.hasLock = s.hasLock
  evOwner : t.evOwner = s.evOwner
  evDepth : t.evDepth = s.evDepth
  locked : ∀ i, (t.pc i).locked = (s.pc i).locked

/-- What a step does to the locks. -/
inductive Locks (s : Kernel α) : Act α → Kernel α → Prop
  /-- Nothing. -/
  | same {a t} : s.FindsBytes a → SameLocks s t → Locks s a t
  /-- `evbuffer_lock`. -/
  | lock {i c} : s.pc i = .lock c → (s.evOwner c = none ∨ s.evOwner c = some i) →
      Locks s (.worker i) { s.goto i (.remove c) with
        evOwner := Function.update s.evOwner c (some i)
        evDepth := Function.update s.evDepth c (s.evDepth c + 1) }
  /-- `evbuffer_unlock`. -/
  | unlock {i c t} : s.pc i = .send c [] → t.pc = Function.update s.pc i .top →
      t.evOwner = (if s.evDepth c ≤ 1 then Function.update s.evOwner c none else s.evOwner) →
      t.evDepth = Function.update s.evDepth c (s.evDepth c - 1) → t.hasLock = s.hasLock →
      Locks s (.worker i) t
  /-- The `return` for an empty buffer. -/
  | empty {i c} : s.pc i = .remove c → ¬ s.FindsBytes (.worker i) →
      Locks s (.worker i) (s.goto i .top)

section Run

variable [Inhabited α] {P : ParseFunc α} {s t : Kernel α} {i : ℕ} {c : Ptr}

theorem stepWorker_of_step (h : s.step P (.worker i) = some t) : s.stepWorker P i = some t := by
  have hf := fault_of_step h
  unfold step at h
  rwa [if_neg (not_not.mpr hf)] at h

omit [Inhabited α] in
theorem pc_goto_self (s : Kernel α) (i : ℕ) (x : Pc α) : (s.goto i x).pc i = x :=
  Function.update_self ..

omit [Inhabited α] in
theorem pc_goto_of_ne (s : Kernel α) {i j : ℕ} (hj : j ≠ i) (x : Pc α) :
    (s.goto i x).pc j = s.pc j := Function.update_of_ne hj ..

omit [Inhabited α] in
/-- A worker that does not meet freed memory gets to what it is about to do. -/
theorem onEvbuffer_of_fault {k : Option (Kernel α)} (h : s.onEvbuffer i c k = some t)
    (ht : t.fault = none) : s.srv.deleted c = 0 ∧ s.srv.evFreed c = 0 ∧ k = some t := by
  unfold onEvbuffer onChannel at h
  split_ifs at h with hd he
  · cases h; cases ht
  · cases h; cases ht
  · exact ⟨not_not.mp hd, not_not.mp he, h⟩

/-- `evbuffer_lock`. -/
theorem lock_of_step (hl : s.hasLock = true) (hpc : s.pc i = .lock c)
    (h : s.step P (.worker i) = some t) (ht : t.fault = none) :
    (s.evOwner c = none ∨ s.evOwner c = some i) ∧
      t = { s.goto i (.remove c) with
        evOwner := Function.update s.evOwner c (some i)
        evDepth := Function.update s.evDepth c (s.evDepth c + 1) } := by
  have hst := stepWorker_of_step h
  unfold stepWorker at hst
  rw [hpc] at hst
  obtain ⟨-, -, hk⟩ := onEvbuffer_of_fault hst ht
  obtain ⟨u, hu, rfl⟩ := Option.map_eq_some_iff.mp hk
  unfold evbufferLock at hu
  rw [if_pos hl] at hu
  split_ifs at hu with ho
  cases hu
  exact ⟨ho, rfl⟩

/-- `evbuffer_unlock`. -/
theorem unlock_of_step (hl : s.hasLock = true) (hpc : s.pc i = .send c [])
    (h : s.step P (.worker i) = some t) (ht : t.fault = none) :
    t.pc = Function.update s.pc i .top ∧
      t.evOwner = (if s.evDepth c ≤ 1 then Function.update s.evOwner c none else s.evOwner) ∧
      t.evDepth = Function.update s.evDepth c (s.evDepth c - 1) ∧ t.hasLock = s.hasLock := by
  have hst := stepWorker_of_step h
  unfold stepWorker at hst
  rw [hpc] at hst
  obtain ⟨-, -, hk⟩ := onEvbuffer_of_fault hst ht
  cases hk
  unfold evbufferUnlock
  rw [if_pos hl]
  exact ⟨rfl, rfl, rfl, rfl⟩

/-- `evbuffer_remove`, and the `return` for an empty buffer. -/
theorem remove_of_step (hpc : s.pc i = .remove c) (h : s.step P (.worker i) = some t)
    (ht : t.fault = none) :
    s.srv.deleted c = 0 ∧ s.srv.evFreed c = 0 ∧
      (((s.srv.chan c).inputEvbuffer.length = 0 ∧ t = s.goto i .top) ∨
        ((s.srv.chan c).inputEvbuffer.length ≠ 0 ∧ (t.pc i).locked = some c)) := by
  have hst := stepWorker_of_step h
  unfold stepWorker at hst
  rw [hpc] at hst
  obtain ⟨hd, he, hk⟩ := onEvbuffer_of_fault hst ht
  refine ⟨hd, he, ?_⟩
  split_ifs at hk with hlen
  · exact .inl ⟨hlen, (Option.some.inj hk).symm⟩
  · obtain ⟨r, -, rfl⟩ := Option.map_eq_some_iff.mp hk
    refine .inr ⟨hlen, ?_⟩
    show ((Function.update s.pc i (.send c r.2)) i).locked = some c
    rw [Function.update_self]
    rfl

omit [Inhabited α] in
/-- A worker moves, and has locked what it had locked. -/
theorem SameLocks.goto {x y : Pc α} (hp : t.pc = Function.update s.pc i x) (hpc : s.pc i = y)
    (hxy : x.locked = y.locked) (hl : t.hasLock = s.hasLock)
    (ho : t.evOwner = s.evOwner) (hd : t.evDepth = s.evDepth) : SameLocks s t := by
  refine ⟨hl, ho, hd, fun j => ?_⟩
  rw [hp]
  by_cases hj : j = i
  · subst hj; rw [Function.update_self, hxy, hpc]
  · rw [Function.update_of_ne hj]

omit [Inhabited α] in
theorem filled_of_locked {x : Pc α} (hx : ∀ c, x ≠ .remove c) (srv : Server α) : Filled srv x := by
  cases x with
  | remove c => exact absurd rfl (hx c)
  | _ => trivial

/-- Each step is one of the cases. -/
theorem locks_of_step {a : Act α} (hl : s.hasLock = true) (h : s.step P a = some t) :
    Locks s a t := by
  have hf := fault_of_step h
  have hfinds : ∀ {i x}, s.pc i = x → (∀ c, x ≠ .remove c) → s.FindsBytes (.worker i) := by
    rintro i x rfl hx
    exact filled_of_locked hx s.srv
  have hfault : ∀ {i f}, s.step P (.worker i) = some { s with fault := some f } →
      Locks s (.worker i) { s with fault := some f } := by
    intro i f hst
    refine .same ?_ ⟨rfl, rfl, rfl, fun _ => rfl⟩
    -- a worker that has met freed memory has not looked into the buffer
    by_contra hn
    cases hpc : s.pc i with
    | remove c =>
      simp only [FindsBytes, hpc, Filled, ne_eq, Classical.not_imp, not_not] at hn
      obtain ⟨hd, he, hlen⟩ := hn
      have hst' := stepWorker_of_step hst
      simp only [stepWorker, hpc, onEvbuffer, onChannel, hd, he, hlen, ne_eq, not_true_eq_false,
        if_false, if_true] at hst'
      have hsf := congrArg Kernel.fault (Option.some.inj hst')
      rw [show (s.goto i .top).fault = s.fault from rfl, hf] at hsf
      cases hsf
    | _ => exact hn (hfinds hpc (by simp))
  cases happens_of_step h with
  | event | close | post | serve | op | closePool | freePool =>
    exact .same trivial ⟨rfl, rfl, rfl, fun _ => rfl⟩
  | stuck _ hpc | exited _ hpc | take _ hpc =>
    exact .same (hfinds hpc (by simp)) (.goto rfl hpc rfl rfl rfl rfl)
  | test hpc | drop hpc | load hpc | write hpc =>
    exact .same (hfinds hpc (by simp)) (.goto rfl hpc rfl rfl rfl rfl)
  | @remove i c ch packs hpc hne =>
    refine .same ?_ (.goto rfl hpc rfl rfl rfl rfl)
    show Filled s.srv (s.pc i)
    rw [hpc]
    exact fun _ _ hlen => hne (List.eq_nil_of_length_eq_zero hlen)
  | lock hpc =>
    obtain ⟨ho, ht⟩ := lock_of_step hl hpc h hf
    rw [ht]
    exact .lock hpc ho
  | unlock hpc =>
    obtain ⟨h1, h2, h3, h4⟩ := unlock_of_step hl hpc h hf
    exact .unlock hpc h1 h2 h3 h4
  | @empty i c hpc =>
    refine .empty hpc fun hfill => ?_
    obtain ⟨hd, he, ⟨hlen, -⟩ | ⟨-, hlocked⟩⟩ := remove_of_step hpc h hf
    · change Filled s.srv (s.pc i) at hfill
      rw [hpc] at hfill
      exact hfill hd he hlen
    · rw [pc_goto_self] at hlocked
      cases hlocked
  | deletedChannel | freedEvbuffer | freedBuffer | nullBuffer => exact hfault h

end Run

/-! ### Who holds the locks -/

variable {s t : Kernel α} {a : Act α}

/-- A worker past `evbuffer_lock` holds the lock. -/
structure Owned (s : Kernel α) : Prop where
  hasLock : s.hasLock = true
  owner : ∀ i c, (s.pc i).locked = some c → s.evOwner c = some i

/-- A lock that is held is held once. -/
def Single (s : Kernel α) : Prop := ∀ c, s.evDepth c = if s.evOwner c = none then 0 else 1

/-- Every step keeps it. -/
theorem Owned.step (h : Owned s) (hst : Locks s a t) : Owned t := by
  cases hst with
  | same _ ht =>
    refine ⟨ht.hasLock.trans h.hasLock, fun i c hi => ?_⟩
    rw [ht.evOwner]
    exact h.owner i c ((ht.locked i).symm.trans hi)
  | @lock i c hpc ho =>
    refine ⟨h.hasLock, fun j d hj => ?_⟩
    show Function.update s.evOwner c (some i) d = some j
    by_cases hji : j = i
    · subst hji
      change ((s.goto j (.remove c)).pc j).locked = some d at hj
      rw [pc_goto_self] at hj
      rw [← Option.some.inj hj, Function.update_self]
    · have hj' : (s.pc j).locked = some d := by
        change ((s.goto i (.remove c)).pc j).locked = some d at hj
        rwa [pc_goto_of_ne s hji] at hj
      have hown := h.owner j d hj'
      have hdc : d ≠ c := by
        rintro rfl
        rw [hown] at ho
        rcases ho with ho | ho
        · cases ho
        · exact hji (Option.some.inj ho)
      rw [Function.update_of_ne hdc, hown]
  | @unlock i c _ hpc hp ho _ hl =>
    refine ⟨hl.trans h.hasLock, fun j d hj => ?_⟩
    have hji : j ≠ i := by
      rintro rfl
      rw [hp, Function.update_self] at hj
      cases hj
    have hj' : (s.pc j).locked = some d := by rwa [hp, Function.update_of_ne hji] at hj
    have hdc : d ≠ c := by
      rintro rfl
      have hi := h.owner i d (by rw [hpc]; rfl)
      rw [h.owner j d hj'] at hi
      exact hji (Option.some.inj hi)
    rw [ho]
    split_ifs
    · rw [Function.update_of_ne hdc]; exact h.owner j d hj'
    · exact h.owner j d hj'
  | @empty i c hpc =>
    refine ⟨h.hasLock, fun j d hj => ?_⟩
    have hji : j ≠ i := by
      rintro rfl
      rw [pc_goto_self] at hj
      cases hj
    rw [pc_goto_of_ne s hji] at hj
    exact h.owner j d hj

theorem Single.depth_eq_one (h : Single s) (hs : Owned s) {i : ℕ} {c : Ptr}
    (hi : (s.pc i).locked = some c) : s.evDepth c = 1 := by
  rw [h c, hs.owner i c hi]
  exact if_neg (by simp)

/-- Who is in a good state, holds a lock once after the next step as well. -/
theorem Single.step (h : Single s) (hs : Owned s) (hk : LockKept s) (hst : Locks s a t) :
    Single t := by
  cases hst with
  | same _ ht =>
    intro c
    rw [ht.evDepth, ht.evOwner]
    exact h c
  | @lock i c hpc ho =>
    intro d
    show Function.update s.evDepth c (s.evDepth c + 1) d =
      if Function.update s.evOwner c (some i) d = none then 0 else 1
    by_cases hd : d = c
    · subst hd
      have hnone : s.evOwner d = none := by
        apply ho.resolve_right
        intro hi
        have hlocked := hk d i hi
        rw [hpc] at hlocked
        cases hlocked
      rw [Function.update_self, Function.update_self, h d, if_pos hnone]
      rfl
    · rw [Function.update_of_ne hd, Function.update_of_ne hd]
      exact h d
  | @unlock i c _ hpc _ ho hdepth _ =>
    have hone : s.evDepth c = 1 := h.depth_eq_one hs (by rw [hpc]; rfl)
    intro d
    rw [hdepth, ho, if_pos hone.le]
    by_cases hd : d = c
    · subst hd
      rw [Function.update_self, Function.update_self, hone]
      rfl
    · rw [Function.update_of_ne hd, Function.update_of_ne hd]
      exact h d
  | empty => exact h

/-- **A step from a good state** ends in a good state exactly if no worker has found the
input buffer empty. -/
theorem lockKept_step_iff (hs : Owned s) (h : Single s) (hk : LockKept s) (hst : Locks s a t) :
    LockKept t ↔ s.FindsBytes a := by
  cases hst with
  | same hf ht =>
    refine iff_of_true (fun c i hi => ?_) hf
    rw [ht.locked]
    rw [ht.evOwner] at hi
    exact hk c i hi
  | @lock i c hpc ho =>
    refine iff_of_true (fun d j hj => ?_) ?_
    · show ((Function.update s.pc i (.remove c)) j).locked = some d
      change Function.update s.evOwner c (some i) d = some j at hj
      by_cases hd : d = c
      · subst hd
        rw [Function.update_self] at hj
        rw [← Option.some.inj hj, Function.update_self]
        rfl
      · rw [Function.update_of_ne hd] at hj
        have hlocked := hk d j hj
        have hji : j ≠ i := by
          rintro rfl
          rw [hpc] at hlocked
          cases hlocked
        rwa [Function.update_of_ne hji]
    · show Filled s.srv (s.pc i)
      rw [hpc]
      trivial
  | @unlock i c _ hpc hp ho _ _ =>
    have hone : s.evDepth c = 1 := h.depth_eq_one hs (by rw [hpc]; rfl)
    refine iff_of_true (fun d j hj => ?_) ?_
    · rw [ho, if_pos hone.le] at hj
      have hd : d ≠ c := by
        rintro rfl
        rw [Function.update_self] at hj
        cases hj
      rw [Function.update_of_ne hd] at hj
      have hlocked := hk d j hj
      have hji : j ≠ i := by
        rintro rfl
        rw [hpc] at hlocked
        exact hd (Option.some.inj hlocked).symm
      rwa [hp, Function.update_of_ne hji]
    · show Filled s.srv (s.pc i)
      rw [hpc]
      trivial
  | @empty i c hpc hf =>
    refine iff_of_false (fun ht => ?_) hf
    have hi : s.evOwner c = some i := hs.owner i c (by rw [hpc]; rfl)
    have hlocked := ht c i hi
    rw [pc_goto_self] at hlocked
    cases hlocked

/-! ### Every run -/

theorem Owned.start (N : ℕ) (cells : ℤ → Task) (n q : UInt32) :
    Owned (start N true cells n q : Kernel α) where
  hasLock := rfl
  owner i c hi := by cases hi

variable [Inhabited α]

/-- **The lock of the input buffer.** With the locks installed, in every state of a run
the lock of a buffer is held only by a worker that is past `evbuffer_lock` in
`OnStatusDoAcionInPthread` of that channel, exactly if in no step of the run a worker
finds the buffer it has locked empty. -/
theorem lockKept_iff (P : ParseFunc α) (N : ℕ) (cells : ℤ → Task) (thread_count queue_size : UInt32)
    (as : List (Act α)) :
    Along (step P) LockKept (start N true cells thread_count queue_size) as ↔
      Guarded (step P) FindsBytes (start N true cells thread_count queue_size) as := by
  have hstart : Owned (start N true cells thread_count queue_size : Kernel α) := .start N cells _ _
  have hsingle : Single (start N true cells thread_count queue_size : Kernel α) := fun _ => rfl
  have hkept : LockKept (start N true cells thread_count queue_size : Kernel α) :=
    fun c i hi => by cases hi
  have hexact : Along (step P) (fun s => LockKept s ∧ Single s)
        (start N true cells thread_count queue_size) as ↔
      Guarded (step P) FindsBytes (start N true cells thread_count queue_size) as := by
    refine along_iff_guarded (I := Owned) (fun s a t hs hst => hs.step (locks_of_step hs.hasLock hst))
      (fun s a t hs hq hst => ?_) hstart ⟨hkept, hsingle⟩
    have hl := locks_of_step hs.hasLock hst
    rw [← lockKept_step_iff hs hq.2 hq.1 hl]
    exact and_iff_left (hq.2.step hs hq.1 hl)
  rw [← hexact]
  constructor
  · intro h
    refine Along.strengthen (I := fun s => Owned s ∧ Single s) (P := fun _ => True) ?_
      (fun s hs hk => ⟨hk, hs.2⟩) ⟨hstart, hsingle⟩ (fun _ _ => trivial) h
    intro s a t _ hs hk hst
    have hl := locks_of_step hs.1.hasLock hst
    exact ⟨hs.1.step hl, hs.2.step hs.1 hk hl⟩
  · exact fun h => h.mono fun s hs => hs.1

/-- One channel and two workers, with locks. -/
def locked : Kernel UInt8 := start 1 true noTask 2 8

/-- A byte is queued and served. -/
def servedOnce : List (Act UInt8) := firstByte ++ works 0 7

theorem lockKept_servedOnce :
    (exec (step recvValuesFromString) locked servedOnce).any
        (fun s => decide (s.evOwner 0 = none)) = true ∧
      Along (step recvValuesFromString) LockKept locked servedOnce :=
  ⟨by decide +kernel, (lockKept_iff recvValuesFromString 1 noTask 2 8 servedOnce).mpr
    (by decide +kernel)⟩

/-- A second frame queues the channel again before a worker serves it. -/
def queuedTwice : List (Act UInt8) :=
  firstByte ++ .event .frame :: mains 2 ++ works 0 7 ++ works 0 3

/-- The second task leaves the lock behind: no worker serves a channel any more, and the next
read for the client cannot go on. -/
theorem not_lockKept_queuedTwice :
    ¬ Along (step recvValuesFromString) LockKept locked queuedTwice ∧
      ∃ s, exec (step recvValuesFromString) locked queuedTwice = some s ∧
        s.evOwner 0 = some 0 ∧ (s.pc 0).channel = none ∧ (s.pc 1).channel = none ∧
        exec (step recvValuesFromString) s (.event (.recv 0 [2]) :: mains 1) = none := by
  have hrun : (exec (step recvValuesFromString) locked queuedTwice).any (fun s =>
      decide (s.evOwner 0 = some 0) && (s.pc 0).channel.isNone && (s.pc 1).channel.isNone &&
        (exec (step recvValuesFromString) s (.event (.recv 0 [2]) :: mains 1)).isNone) = true := by
    decide +kernel
  obtain ⟨s, hs, h⟩ := (Option.any_eq_true _ _).mp hrun
  simp only [Bool.and_eq_true, decide_eq_true_eq, Option.isNone_iff_eq_none] at h
  obtain ⟨⟨⟨howner, hzero⟩, hone⟩, hnext⟩ := h
  refine ⟨fun hkept => ?_, s, hs, howner, hzero, hone, hnext⟩
  have hlocked := hkept.last hs 0 0 howner
  cases hpc : s.pc 0 <;> rw [hpc] at hlocked hzero <;> cases hlocked <;> cases hzero

end Kernel

end Syinx.Threaded
