import Syinx.Pthread.FullQueue

/-!
# Shutting the pool down

`SyinxPthreadPool::Close` wakes every sleeping worker with a broadcast, gives the
mutex back and lets `SyPthreadPool_free` release the pool. It does not set
`PthpoolClose`, which nobody else sets either, and it does not wait for the
workers: `started` is read nowhere.

## What is proved

* `Kept.step` — a thread that owns the mutex is at a point between its lock and
  its unlock, or has left such a stretch without the unlock.
* `Closing.exists_release` — a thread that owns the mutex and is not bound to
  keep it can run on until it releases it.
* `shut_iff` — closing is safe in every continuation exactly if the pool has no
  workers or the mutex is lost when `Close` is called, so that `Close` never
  gets it.
-/

namespace Syinx.Pthread

open Syinx.Library

variable {F A : Type}

/-- A worker there, once woken, is on its way to the tests or out of its loop. -/
def Pc.leaving : Pc F A → Bool
  | .wake | .check | .full | .closing | .leave | .leaveUnlock | .exited => true
  | _ => false

/-- The pool is being shut down safely. -/
structure Shut (s : Machine F A) : Prop where
  /-- No worker has used the pool after it was released. -/
  noFault : ∀ i, s.fault ≠ some (.worker i)
  /-- A worker the broadcast has woken leaves its loop and does not wait again. -/
  leaves : ∀ i, s.roused i = true → (s.pc (.worker i)).leaving = true
  /-- The pool is released only when no worker is left. -/
  empty : s.freed = true → s.pool.started = 0

/-- A thread there may own the mutex without holding it: it has left its section
without the unlock, or asks for the mutex again since. -/
def Pc.astray : Pc F A → Bool
  | .lock | .idle _ | .addLock _ | .closeLock => true
  | _ => false

/-- A thread there that owns the mutex of the pool `p` never releases it. -/
def Pc.keeps (p : ThreadPool F A) : Pc F A → Prop
  | .lock | .idle _ | .addLock _ | .closeLock => True
  | .check => p.count = p.queueSize ∧ p.count ≠ 0
  | .full => p.count = p.queueSize
  | .addFull _ => p.queueSize = p.count
  | _ => False

/-- The mutex is lost: its owner never releases it. -/
def Lost (s : Machine F A) : Prop := ∃ k, s.owner = some k ∧ (s.pc k).keeps s.pool

theorem Pc.keeps_of_astray {p : ThreadPool F A} {x : Pc F A} (h : x.astray = true) : x.keeps p := by
  cases x <;> first | exact trivial | cases h

/-! ### Who owns the mutex -/

/-- The owner of the mutex holds it or has gone astray with it. -/
def Kept (s : Machine F A) : Prop :=
  ∀ k, s.owner = some k → (s.pc k).holds = true ∨ (s.pc k).astray = true

namespace Kept

variable {s t : Machine F A} {k : Tid}

theorem move (h : Kept s) (hs : Safe s) (hm : Moves s k t) : Kept t := by
  intro m ho
  by_cases hmk : m = k
  · -- the thread that moves
    subst hmk
    cases hm with
    | lock | wake | addLock | closeLock => rw [Machine.acquire_self]; exact .inl rfl
    | sleep | unlock | leaveUnlock | addUnlock | closeUnlock => cases ho
    | awake | notFull | leaves | stays | addRoom | addStays | addSignal | addSignalNone =>
      rw [Machine.goto_self]; exact .inl rfl
    | retry | run | addLockErr | addMax | addCloses | addSignalErr | closeLockErr
    | closeBroadcastErr => rw [Machine.goto_self]; exact .inr rfl
    | take | leave | addStore => simp [Pc.holds]
    | closeBroadcast => simp [Machine.broadcast, Pc.holds]
    | closeFree => simp [Pc.astray]
  · -- another thread owns the mutex, before the step as after it
    have hown : s.owner = some m := by
      cases hm with
      | lock | wake | addLock | closeLock => exact absurd (Option.some.inj ho).symm hmk
      | sleep | unlock | leaveUnlock | addUnlock | closeUnlock => cases ho
      | _ => exact ho
    obtain ⟨-, -, hpc⟩ := hm.frame hs hown (Ne.symm hmk)
    rw [hpc]
    exact h m hown

theorem step {a : Act F A} (h : Kept s) (hs : Safe s) (hst : s.step a = some t) : Kept t := by
  cases happens_of_step hst with
  | fault => exact h
  | move _ hm => exact h.move hs hm
  | @spurious i hi =>
    intro m ho
    by_cases hmi : m = .worker i
    · subst hmi
      cases hpc : s.pc (.worker i) <;> rw [hpc] at hi <;> try cases hi
      have := h _ ho
      rw [hpc] at this
      rcases this with h' | h' <;> cases h'
    · rw [Machine.goto_of_ne hmi]; exact h m ho
  | @addNull j | @add j | @close j =>
    intro m ho
    by_cases hmj : m = .caller j
    · subst hmj; rw [Machine.goto_self]; exact .inr rfl
    · rw [Machine.goto_of_ne hmj]; exact h m ho

end Kept

/-! ### Before `Close` is called -/

section Moves

variable {s t : Machine F A} {k : Tid}

/-- No worker ever gets past the loop. -/
theorem Moves.started_eq (hs : Safe s) (hm : Moves s k t) : t.pool.started = s.pool.started := by
  cases hm with
  | leave hpc => exact (hs.fact hpc rfl).elim
  | _ => rfl

/-- Only the broadcast rouses workers. -/
theorem Moves.roused_eq (hk : (s.pc k).inClose = false) (hm : Moves s k t) : t.roused = s.roused := by
  cases hm with
  | closeBroadcast hpc => rw [hpc] at hk; cases hk
  | _ => rfl

/-- A thread that has ended takes no step. -/
theorem Moves.not_exited (hm : Moves s k t) : s.pc k ≠ .exited := by
  cases hm <;> simp_all

end Moves

/-- The invariant of the runs in which `Close` has not been called. -/
structure Unclosed (n : UInt32) (q : ℤ) (s : Machine F A) : Prop where
  serving : Serving q s
  kept : Kept s
  /-- No worker has left. -/
  started : s.pool.started = n.toNat
  /-- There was no broadcast. -/
  roused : ∀ i, s.roused i = false

namespace Unclosed

variable {n : UInt32} {q : ℤ} {s t : Machine F A} {k : Tid}

theorem start (cells : ℤ → SyPthreadPoolTask F A) (n q : UInt32) :
    Unclosed n (intOfUint32 q) (Machine.start cells n q) where
  serving := Serving.start cells n q
  kept := fun _ h => nomatch h
  started := rfl
  roused := fun _ => rfl

theorem step {a : Act F A} (h : Unclosed n q s) (ha : a.isClose = false) (hst : s.step a = some t) :
    Unclosed n q t := by
  have hserving := h.serving.step ha hst
  have hkept := h.kept.step h.serving.safe hst
  cases happens_of_step hst with
  | fault hf => rw [h.serving.freed] at hf; cases hf
  | @move k _ _ _ _ hm =>
    refine ⟨hserving, hkept, (hm.started_eq h.serving.safe).trans h.started, fun i => ?_⟩
    rw [hm.roused_eq (h.serving.noClose k)]
    exact h.roused i
  | spurious | addNull | add => exact ⟨hserving, hkept, h.started, h.roused⟩
  | close => cases ha

end Unclosed

/-! ### A pool without workers -/

/-- Nobody runs `SyPthreadPool_thread`. -/
structure Deserted (s : Machine F A) : Prop where
  safe : Safe s
  exited : ∀ i, s.pc (.worker i) = .exited
  started : s.pool.started = 0
  roused : ∀ i, s.roused i = false
  noFault : ∀ i, s.fault ≠ some (.worker i)

namespace Deserted

variable {s t : Machine F A} {k : Tid}

theorem start (cells : ℤ → SyPthreadPoolTask F A) (q : UInt32) :
    Deserted (Machine.start cells 0 q) :=
  ⟨Safe.start cells 0 q, fun _ => rfl, rfl, fun _ => rfl, fun _ => nofun⟩

theorem shut (h : Deserted s) : Shut s where
  noFault := h.noFault
  leaves i hi := by rw [h.roused i] at hi; cases hi
  empty _ := h.started

theorem move (h : Deserted s) (hm : Moves s k t) : Deserted t := by
  have hk : ∀ i, Tid.worker i ≠ k := by
    rintro i rfl
    exact hm.not_exited (h.exited i)
  have hpc : ∀ x i, (Function.update s.pc k x) (.worker i) = .exited := fun x i =>
    (Function.update_of_ne (hk i) _ _).trans (h.exited i)
  have hsafe := h.safe.move hm
  have hstarted := (hm.started_eq h.safe).trans h.started
  cases hm with
  | @addSignal i _ ha => rw [h.exited i] at ha; cases ha
  | closeBroadcast =>
    refine ⟨hsafe, fun i => ?_, hstarted, fun i => ?_, h.noFault⟩
    · apply (Function.update_of_ne (hk i) _ _).trans
      simp [Machine.rousedPc, h.exited i, Pc.asleep]
    · simp [Machine.broadcast, h.roused i, h.exited i, Pc.asleep]
  | _ => exact ⟨hsafe, hpc _, hstarted, h.roused, h.noFault⟩

theorem step {a : Act F A} (h : Deserted s) (hst : s.step a = some t) : Deserted t := by
  have hsafe := h.safe.step hst
  cases happens_of_step hst with
  | @fault k _ _ _ hu =>
    refine ⟨hsafe, h.exited, h.started, h.roused, ?_⟩
    rintro i ⟨⟩
    rw [h.exited i] at hu
    cases hu
  | move _ hm => exact h.move hm
  | @spurious i ha => rw [h.exited i] at ha; cases ha
  | addNull | add | close =>
    exact ⟨hsafe, fun i => (Machine.goto_of_ne Tid.noConfusion).trans (h.exited i), h.started,
      h.roused, h.noFault⟩

end Deserted

/-! ### A lost mutex -/

/-- The mutex is lost, and nothing has been released so far. -/
structure Locked (s : Machine F A) : Prop where
  safe : Safe s
  lost : Lost s
  freed : s.freed = false
  fault : s.fault = none
  noFree : ∀ k, s.pc k ≠ .closeFree
  roused : ∀ i, s.roused i = false

namespace Locked

variable {s t : Machine F A} {k : Tid}

theorem shut (h : Locked s) : Shut s where
  noFault i := by rw [h.fault]; nofun
  leaves i hi := by rw [h.roused i] at hi; cases hi
  empty hf := by rw [h.freed] at hf; cases hf

/-- A thread moves about while the mutex stays with its owner. -/
theorem goto (h : Locked s) {x : Pc F A} (hsafe : Safe (s.goto k x)) (hx : x ≠ .closeFree)
    (hk : s.owner = some k → x.keeps s.pool) : Locked (s.goto k x) where
  safe := hsafe
  lost := by
    obtain ⟨m, hm, hkeeps⟩ := h.lost
    refine ⟨m, hm, ?_⟩
    by_cases hmk : m = k
    · subst hmk; rw [Machine.goto_self]; exact hk hm
    · rw [Machine.goto_of_ne hmk]; exact hkeeps
  freed := h.freed
  fault := h.fault
  noFree m := by
    by_cases hmk : m = k
    · subst hmk; rw [Machine.goto_self]; exact hx
    · rw [Machine.goto_of_ne hmk]; exact h.noFree m
  roused := h.roused

theorem move (h : Locked s) (hm : Moves s k t) : Locked t := by
  have hsafe := h.safe.move hm
  obtain ⟨m, ho, hkeeps⟩ := h.lost
  by_cases hkm : k = m
  · -- the owner itself
    subst hkm
    cases hm with
    | lock _ hn | wake _ hn | addLock _ hn | closeLock _ hn => rw [ho] at hn; cases hn
    | sleep hpc hc => rw [hpc] at hkeeps; exact absurd hc hkeeps.2
    | awake hpc => rw [hpc] at hkeeps; exact h.goto hsafe nofun fun _ => hkeeps.1
    | retry | addLockErr | addMax | closeLockErr => exact h.goto hsafe nofun fun _ => trivial
    | notFull hpc hc => rw [hpc] at hkeeps; exact absurd hkeeps hc
    | addRoom hpc hc => rw [hpc] at hkeeps; exact absurd hkeeps hc
    | leaves hpc | stays hpc | take hpc | unlock hpc | run hpc | leave hpc | leaveUnlock hpc
    | addCloses hpc | addStays hpc | addStore hpc | addSignalErr hpc | addSignal hpc
    | addSignalNone hpc | addUnlock hpc | closeBroadcastErr hpc | closeBroadcast hpc
    | closeUnlock hpc | closeFree hpc => rw [hpc] at hkeeps; exact hkeeps.elim
  · rcases hm.outside h.safe ho hkm with ⟨x, rfl, hx⟩ | ⟨hpc, -⟩
    · apply h.goto hsafe (by rintro rfl; cases hx)
      intro hk
      rw [ho] at hk
      exact absurd (Option.some.inj hk).symm hkm
    · exact absurd hpc (h.noFree k)

theorem step {a : Act F A} (h : Locked s) (hst : s.step a = some t) : Locked t := by
  have hsafe := h.safe.step hst
  cases happens_of_step hst with
  | fault hf => rw [h.freed] at hf; cases hf
  | move _ hm => exact h.move hm
  | @spurious i ha =>
    apply h.goto hsafe nofun
    intro hi
    obtain ⟨m, ho, hkeeps⟩ := h.lost
    rw [hi] at ho
    cases ho
    cases hpc : s.pc (.worker i) <;> rw [hpc] at ha hkeeps <;>
      first | exact False.elim hkeeps | cases ha
  | addNull | add | close => exact h.goto hsafe nofun fun _ => trivial

end Locked

/-! ### Close gets the mutex -/

/-- Caller `j` is at the lock of `Close`, and nothing has been released so far. -/
structure Closing (c : ℤ) (j : ℕ) (s : Machine F A) : Prop where
  safe : Safe s
  freed : s.freed = false
  fault : s.fault = none
  atLock : s.pc (.caller j) = .closeLock
  started : s.pool.started = c

/-- Thread `k` has the mutex and will release it. -/
structure Releasing (k : Tid) (s : Machine F A) : Prop where
  holds : (s.pc k).holds = true
  noClose : (s.pc k).inClose = false
  notKept : ¬ (s.pc k).keeps s.pool

/-- How many steps a thread at a point that holds the mutex is away from the unlock. -/
def Pc.rank : Pc F A → ℕ
  | .check | .addFull _ => 5
  | .full | .addClosing _ => 4
  | .closing | .addStore _ => 3
  | .take | .addSignal => 2
  | .unlock _ | .addUnlock => 1
  | _ => 0

namespace Closing

variable {c : ℤ} {j : ℕ} {s t : Machine F A} {k : Tid}

theorem step_run (h : Closing c j s) (k : Tid) (ok : Bool) (woken : Option ℕ) :
    s.step (.run k ok woken) = s.advance k ok woken := by
  simp [Machine.step, h.fault, h.freed]

theorem move (h : Closing c j s) (hk : Releasing k s) (hm : Moves s k t) : Closing c j t := by
  have hj : Tid.caller j ≠ k := by
    rintro rfl
    have := hk.noClose
    rw [h.atLock] at this
    cases this
  have hno : ∀ {x : Pc F A}, s.pc k = x → x.inClose = false := fun hx => hx ▸ hk.noClose
  have hsafe := h.safe.move hm
  have hstarted := (hm.started_eq h.safe).trans h.started
  have hpc : ∀ x, (Function.update s.pc k x) (.caller j) = .closeLock := fun x =>
    (Function.update_of_ne hj _ _).trans h.atLock
  cases hm with
  | addSignal =>
    refine ⟨hsafe, h.freed, h.fault, ?_, hstarted⟩
    rw [Machine.goto_of_ne hj, Machine.goto_of_ne Tid.noConfusion, h.atLock]
  | closeBroadcast hx | closeFree hx => cases hno hx
  | _ => exact ⟨hsafe, h.freed, h.fault, hpc _, hstarted⟩

/-- Thread `k` stays inside its section, nearer to the unlock. -/
theorem nearer {y : Pc F A} {r : ℕ} (ht : t.pc k = y)
    (hy : y.holds = true ∧ y.inClose = false ∧ y.rank < r) (hkeeps : ¬ y.keeps t.pool) :
    Releasing k t ∧ (t.pc k).rank < r := by
  subst ht
  exact ⟨⟨hy.1, hy.2.1, hkeeps⟩, hy.2.2⟩

/-- The thread that has the mutex takes a step: it releases the mutex or comes nearer
to the unlock. -/
theorem release_step (h : Closing c j s) (hk : Releasing k s) :
    ∃ woken t, s.advance k true woken = some t ∧
      (t.owner = none ∨ (Releasing k t ∧ (t.pc k).rank < (s.pc k).rank)) := by
  obtain ⟨hholds, hclose, hkeeps⟩ := hk
  have hopen := h.safe.opened
  cases hpc : s.pc k with
  | check =>
    rw [hpc] at hkeeps
    by_cases h0 : s.pool.count = 0
    · exact ⟨none, s.release k .wait, by simp [Machine.advance, hpc, h0, hopen], .inl rfl⟩
    · refine ⟨none, s.goto k .full, Machine.advance_check hpc h0, .inr ?_⟩
      exact nearer Machine.goto_self ⟨rfl, rfl, by simp [Pc.rank]⟩ fun hq => hkeeps ⟨hq, h0⟩
  | full =>
    rw [hpc] at hkeeps
    refine ⟨none, s.goto k .closing, ?_, .inr ?_⟩
    · rw [Machine.advance_full hpc]
      simp [show s.pool.count ≠ s.pool.queueSize from hkeeps]
    · exact nearer Machine.goto_self ⟨rfl, rfl, by simp [Pc.rank]⟩ id
  | closing =>
    refine ⟨none, s.goto k .take, Machine.advance_closing hpc hopen, .inr ?_⟩
    exact nearer Machine.goto_self ⟨rfl, rfl, by simp [Pc.rank]⟩ id
  | take =>
    refine ⟨none, _, Machine.advance_take hpc, .inr ?_⟩
    exact nearer (y := .unlock s.pool.front) (Function.update_self ..)
      ⟨rfl, rfl, by simp [Pc.rank]⟩ id
  | unlock x => exact ⟨none, _, Machine.advance_unlock hpc, .inl rfl⟩
  | leave | leaveUnlock => exact (h.safe.fact hpc rfl).elim
  | addFull x =>
    rw [hpc] at hkeeps
    refine ⟨none, s.goto k (.addClosing x), ?_, .inr ?_⟩
    · simp [Machine.advance, hpc, show s.pool.queueSize ≠ s.pool.count from hkeeps]
    · exact nearer Machine.goto_self ⟨rfl, rfl, by simp [Pc.rank]⟩ id
  | addClosing x =>
    refine ⟨none, s.goto k (.addStore x), by simp [Machine.advance, hpc, hopen], .inr ?_⟩
    exact nearer Machine.goto_self ⟨rfl, rfl, by simp [Pc.rank]⟩ id
  | addStore x =>
    refine ⟨none, { s with
      pool := s.pool.enqueue x
      stored := s.stored ++ [x]
      pc := Function.update s.pc k .addSignal }, by simp [Machine.advance, hpc], .inr ?_⟩
    exact nearer (y := .addSignal) (Function.update_self ..) ⟨rfl, rfl, by simp [Pc.rank]⟩ id
  | addSignal =>
    by_cases hw : ∃ i < s.workers, (s.pc (.worker i)).asleep
    · obtain ⟨i, hi, ha⟩ := hw
      refine ⟨some i, (s.goto (.worker i) .wake).goto k .addUnlock, ?_, .inr ?_⟩
      · simp [Machine.advance, hpc, Machine.signal, hi, ha]
      · exact nearer Machine.goto_self ⟨rfl, rfl, by simp [Pc.rank]⟩ id
    · refine ⟨none, s.goto k .addUnlock, ?_, .inr ?_⟩
      · simp only [Machine.advance, hpc, Machine.signal]
        rw [if_neg (by simp), if_neg hw]
      · exact nearer Machine.goto_self ⟨rfl, rfl, by simp [Pc.rank]⟩ id
  | addUnlock =>
    exact ⟨none, s.release k (.idle (some .success)), by simp [Machine.advance, hpc], .inl rfl⟩
  | closeBroadcast | closeUnlock => rw [hpc] at hclose; cases hclose
  | _ => rw [hpc] at hholds; cases hholds

/-- The thread that has the mutex can run on until it releases it. -/
theorem exists_release (h : Closing c j s) (hk : Releasing k s) :
    ∃ as t, exec Machine.step s as = some t ∧ Closing c j t ∧ t.owner = none := by
  induction hr : (s.pc k).rank using Nat.strong_induction_on generalizing s with
  | _ r ih =>
    obtain ⟨woken, t, ht, hnext⟩ := h.release_step hk
    have hst : s.step (.run k true woken) = some t := (h.step_run k true woken).trans ht
    have hct := h.move hk (moves_of_advance ht)
    rcases hnext with hnone | ⟨hkt, hlt⟩
    · exact ⟨[.run k true woken], t, exec_cons_eq_some.mpr ⟨t, hst, rfl⟩, hct, hnone⟩
    · obtain ⟨as, u, hu, hcu, hnone⟩ := ih _ (hr ▸ hlt) hct hkt rfl
      exact ⟨.run k true woken :: as, u, exec_cons_eq_some.mpr ⟨t, hst, hu⟩, hcu, hnone⟩

/-- With the mutex free, `Close` takes it, gives it back and releases the pool. -/
theorem exists_free (h : Closing c j s) (hown : s.owner = none) :
    ∃ as t, exec Machine.step s as = some t ∧ t.freed = true ∧ t.pool.started = c := by
  let k : Tid := .caller j
  let s₁ := s.acquire k .closeBroadcast
  let s₂ := s₁.broadcast k .closeUnlock
  let s₃ := s₂.release k .closeFree
  let s₄ := { s₃ with freed := true, pc := Function.update s₃.pc k (.idle (some .success)) }
  have h₁ : s.step (.caller j none) = some s₁ := by
    simp [Machine.step, Machine.advance, h.fault, h.freed, h.atLock, hown, s₁, k]
  have h₂ : s₁.step (.caller j none) = some s₂ := by
    simp [Machine.step, Machine.advance, s₂, s₁, k, Machine.acquire, h.fault, h.freed]
  have h₃ : s₂.step (.caller j none) = some s₃ := by
    simp [Machine.step, Machine.advance, s₃, s₂, s₁, k, Machine.broadcast, Machine.acquire, h.fault,
      h.freed]
  have h₄ : s₃.step (.caller j none) = some s₄ := by
    simp [Machine.step, Machine.advance, s₄, s₃, s₂, s₁, k, Machine.release, Machine.broadcast,
      Machine.acquire, h.fault, h.freed]
  refine ⟨[.caller j none, .caller j none, .caller j none, .caller j none], s₄, ?_, rfl, h.started⟩
  rw [exec_cons, h₁, Option.bind_some, exec_cons, h₂, Option.bind_some, exec_cons, h₃,
    Option.bind_some, exec_cons, h₄]
  rfl

end Closing

/-! ### The condition -/

/-- **Closing the pool.** When `Close` is called, the pool is shut down safely in
every continuation of the run exactly if it has no workers or the mutex is lost,
so that `Close` waits for it forever. -/
theorem shut_iff (cells : ℤ → SyPthreadPoolTask F A) (n q : UInt32) (as : List (Act F A))
    (has : ∀ a ∈ as, a.isClose = false) (s : Machine F A)
    (h : exec Machine.step (Machine.start cells n q) as = some s) (j : ℕ)
    (r : Option SyPthreadPoolErr) (hj : s.pc (.caller j) = .idle r) :
    (∀ bs, Along Machine.step Shut s (.close j :: bs)) ↔ n = 0 ∨ Lost s := by
  have hu : Unclosed n (intOfUint32 q) s :=
    inv_of_exec_of_forall (fun s a t ha hs hst => hs.step ha hst) (.start cells n q) has h
  have hclose : s.step (.close j) = some (s.goto (.caller j) .closeLock) := by
    simp [Machine.step, hu.serving.fault, hj]
  have hsafe : Safe (s.goto (.caller j) .closeLock) := hu.serving.safe.goto_outside rfl
  constructor
  · intro hall
    by_contra hnot
    obtain ⟨hn, hlost⟩ := not_or.mp hnot
    have hc : Closing n.toNat j (s.goto (.caller j) .closeLock) :=
      ⟨hsafe, hu.serving.freed, hu.serving.fault, Machine.goto_self, hu.started⟩
    -- the mutex becomes free, if it is not free already
    obtain ⟨bs, t, ht, hct, hnone⟩ : ∃ bs t,
        exec Machine.step (s.goto (.caller j) .closeLock) bs = some t ∧ Closing n.toNat j t ∧
          t.owner = none := by
      cases ho : s.owner with
      | none => exact ⟨[], _, rfl, hc, ho⟩
      | some k =>
        have hkeeps : ¬ (s.pc k).keeps s.pool := fun hk => hlost ⟨k, ho, hk⟩
        have hkj : k ≠ .caller j := by
          rintro rfl
          rw [hj] at hkeeps
          exact hkeeps trivial
        have hk : Releasing k s := by
          refine ⟨?_, hu.serving.noClose k, hkeeps⟩
          exact (hu.kept k ho).resolve_right fun ha => hkeeps (Pc.keeps_of_astray ha)
        refine hc.exists_release (k := k) ⟨?_, ?_, ?_⟩ <;> rw [Machine.goto_of_ne hkj]
        exacts [hk.holds, hk.noClose, hk.notKept]
    obtain ⟨cs, u, hcs, hfreed, hstarted⟩ := hct.exists_free hnone
    have hrun : exec Machine.step s (.close j :: (bs ++ cs)) = some u :=
      exec_cons_eq_some.mpr ⟨_, hclose, exec_append_eq_some.mpr ⟨t, ht, hcs⟩⟩
    have h0 := ((hall (bs ++ cs)).last hrun).empty hfreed
    rw [hstarted] at h0
    exact hn (UInt32.toNat_inj.mp (by simpa using h0))
  · rintro (rfl | ⟨k, ho, hk⟩) bs
    · have hd : Deserted s := inv_of_exec (fun _ _ _ hs hst => hs.step hst) (.start cells q) h
      exact Along.of_inv (fun _ _ _ hs hst => hs.step hst) (fun _ hs => hs.shut) hd _
    · have hl : Locked s := by
        refine ⟨hu.serving.safe, ⟨k, ho, hk⟩, hu.serving.freed, hu.serving.fault, ?_, hu.roused⟩
        intro m hm
        have := hu.serving.noClose m
        rw [hm] at this
        cases this
      exact Along.of_inv (fun _ _ _ hs hst => hs.step hst) (fun _ hs => hs.shut) hl _

/-- With a full queue of one place worker `0` has locked itself out: a `Close` called
then waits forever, and releases nothing. -/
theorem shut_storeAndRetry :
    ∃ s, exec Machine.step (Machine.start (fun _ => ⟨0, 0⟩) 1 1) storeAndRetry = some s ∧
      ∀ bs, Along Machine.step Shut s (.close 1 :: bs) := by
  refine ⟨_, rfl, ?_⟩
  exact (shut_iff (fun _ => ⟨0, 0⟩) 1 1 storeAndRetry (by decide) _ rfl 1 none rfl).mpr
    (.inr ⟨.worker 0, rfl, trivial⟩)

/-- Worker `0` goes to sleep in an empty pool. -/
def sleep : List (Act ℕ ℕ) := [.worker 0, .worker 0]

/-- `Close` wakes worker `0`, which goes to sleep again, and releases the pool; then
the worker wakes up and asks for the mutex. -/
def closeTooEarly : List (Act ℕ ℕ) :=
  [.close 0, .caller 0 none, .caller 0 none, .caller 0 none, .worker 0, .worker 0, .caller 0 none,
    .spurious 0, .worker 0]

theorem not_shut_closeTooEarly :
    ∃ s, exec Machine.step (Machine.start (fun _ => ⟨0, 0⟩) 1 1) sleep = some s ∧
      (s.pc (.caller 0) matches .idle _) ∧
      (∃ t, exec Machine.step s closeTooEarly = some t ∧ t.fault = some (.worker 0) ∧
        t.freed = true ∧ t.pool.started = 1) ∧
      ¬ Along Machine.step Shut s closeTooEarly := by
  refine ⟨_, rfl, rfl, ⟨_, rfl, rfl, rfl, rfl⟩, fun h => ?_⟩
  exact (h.last rfl).noFault 0 rfl

end Syinx.Pthread
