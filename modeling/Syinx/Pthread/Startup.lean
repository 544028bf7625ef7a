import Syinx.Pthread.Delivery
import Syinx.Pthread.Quiescence
import Syinx.Pthread.Shutdown

/-!
# The workers start one by one

`Initialize` creates a worker, counts it up in `started` and creates the next one; the
workers that have been created run meanwhile, and nothing keeps other threads from calling
the pool. If `pthread_create` fails, `Initialize` returns with the workers it has created,
and `PthPool` stays set.

`Machine.start` begins with all workers at once. Here a run of the pool while it is being
started, and afterwards, is carried over to a run of that machine: the workers that have not
been created stand at the lock at the top of their loop, and take no step.

The mutex and the condition variable are there before the first worker is created.

## What is proved

* `advance_whole` — a step of a thread is the same with the missing workers added.
* `whole_of_exec` — the carrying over of runs, so that what holds of every run of the machine
  holds while the pool is being started, and of a pool whose start has failed. A start that
  succeeds ends in a state of that machine.
* `delivered_of_startup` — such a thing: tasks are delivered once, in order.
-/

namespace Syinx.Pthread

open Syinx.Library

variable {F A : Type}

/-- Where `Initialize` stands. -/
inductive Stage where
  /-- At the test of the loop. -/
  | looping
  /-- At `started += 1`. -/
  | counting
  /-- It has returned; the pool, or `NULL`. -/
  | returned (ok : Bool)
  /-- It has used the pool after the pool was released. -/
  | fault
  deriving DecidableEq

/-- The pool, and the thread that is starting it. -/
structure Startup (F A : Type) where
  /-- The pool with the workers that have been created. -/
  machine : Machine F A
  /-- `thread_count`. -/
  threadCount : ℕ
  stage : Stage

/-- What can happen. -/
inductive StartupAct (F A : Type) where
  /-- `Initialize` goes on. `create`: the `pthread_create` it calls succeeds. -/
  | init (create : Bool)
  /-- Another thread does something. -/
  | pool (a : Act F A)

/-- What the machine sees of it. -/
def StartupAct.act : StartupAct F A → Option (Act F A)
  | .init _ => none
  | .pool a => some a

namespace Machine

/-- A worker is created. -/
def spawn (m : Machine F A) : Machine F A :=
  { m with workers := m.workers + 1, pc := Function.update m.pc (.worker m.workers) .lock }

/-- `PthPool->started += 1`. -/
def countStarted (m : Machine F A) : Machine F A :=
  { m with pool := { m.pool with started := m.pool.started + 1 } }

/-- The threads, of which `w` workers have been created, those up to `n` added at the lock. -/
def wholePc (w n : ℕ) (pc : Tid → Pc F A) : Tid → Pc F A
  | .worker i => if w ≤ i ∧ i < n then .lock else pc (.worker i)
  | .caller j => pc (.caller j)

/-- The machine with all of its `n` workers, those that have not been created at the lock. -/
def whole (n : ℕ) (m : Machine F A) : Machine F A :=
  { m with
    workers := n
    pool := { m.pool with started := n }
    pc := wholePc m.workers n m.pc }

end Machine

namespace Startup

/-- The loop of `Initialize` begins. -/
def start (cells : ℤ → SyPthreadPoolTask F A) (thread_count queue_size : UInt32) : Startup F A where
  machine :=
    { Machine.start cells thread_count queue_size with
      workers := 0
      pool := ThreadPool.new cells thread_count queue_size
      pc := fun
        | .worker _ => .exited
        | .caller _ => .idle none }
  threadCount := thread_count.toNat
  stage := .looping

/-- A step. The loop reads `PthPool->thread_count` at its test, and `started` behind it. -/
def step (s : Startup F A) : StartupAct F A → Option (Startup F A)
  | .init create =>
    if s.machine.fault.isSome then none else
    match s.stage with
    | .looping =>
      if s.machine.freed then some { s with stage := .fault }
      else if s.machine.workers < s.threadCount then
        if create then some { s with machine := s.machine.spawn, stage := .counting }
        else some { s with stage := .returned false }
      else some { s with stage := .returned true }
    | .counting =>
      if s.machine.freed then some { s with stage := .fault }
      else some { s with machine := s.machine.countStarted, stage := .looping }
    | .returned _ => none
    | .fault => none
  | .pool a =>
    if s.stage = .fault then none
    else (s.machine.step a).map fun m => { s with machine := m }

end Startup

/-! ### The missing workers -/

section Whole

variable {m t : Machine F A} {w n : ℕ} {pc : Tid → Pc F A} {k : Tid} {x : Pc F A}

/-- The thread is no worker that has still to be created. -/
def Tid.Here (w n : ℕ) : Tid → Prop
  | .worker i => ¬ (w ≤ i ∧ i < n)
  | .caller _ => True

open Machine (wholePc)

theorem wholePc_of_here (hk : k.Here w n) : wholePc w n pc k = pc k := by
  cases k with
  | worker i => exact if_neg hk
  | caller j => rfl

theorem whole_pc (hk : k.Here m.workers n) : (m.whole n).pc k = m.pc k := wholePc_of_here hk

/-- A thread that is here moves in both machines alike. -/
theorem wholePc_update (hk : k.Here w n) :
    wholePc w n (Function.update pc k x) = Function.update (wholePc w n pc) k x := by
  funext e
  by_cases hek : e = k
  · subst hek
    rw [wholePc_of_here hk, Function.update_self, Function.update_self]
  · rw [Function.update_of_ne hek]
    cases e with
    | worker i => simp only [wholePc, Function.update_of_ne hek]
    | caller j => simp only [wholePc, Function.update_of_ne hek]

/-- The missing workers do not sleep. -/
theorem asleep_wholePc (hout : ∀ i, w ≤ i → (pc (.worker i)).asleep = false) (i : ℕ) :
    (wholePc w n pc (.worker i)).asleep = (pc (.worker i)).asleep := by
  simp only [wholePc]
  split_ifs with hi
  · exact (hout i hi.1).symm
  · rfl

theorem whole_goto (hk : k.Here m.workers n) : (m.goto k x).whole n = (m.whole n).goto k x := by
  simp only [Machine.whole, Machine.goto, wholePc_update hk]

theorem whole_acquire (hk : k.Here m.workers n) :
    (m.acquire k x).whole n = (m.whole n).acquire k x := by
  simp only [Machine.whole, Machine.acquire, wholePc_update hk]

theorem whole_release (hk : k.Here m.workers n) :
    (m.release k x).whole n = (m.whole n).release k x := by
  simp only [Machine.whole, Machine.release, wholePc_update hk]

/-- No worker exists that has not been created. -/
def Absent (m : Machine F A) : Prop := ∀ i, m.workers ≤ i → m.pc (.worker i) = .exited

theorem Absent.here (h : Absent m) (hk : m.pc k ≠ .exited) : k.Here m.workers n := by
  cases k with
  | worker i => exact fun hi => hk (h i hi.1)
  | caller j => trivial

theorem Absent.asleep (h : Absent m) (i : ℕ) (hi : m.workers ≤ i) :
    (m.pc (.worker i)).asleep = false := by
  rw [h i hi]
  rfl

/-- A broadcast wakes the same workers. -/
theorem whole_broadcast (h : Absent m) (hk : k.Here m.workers n) :
    (m.broadcast k x).whole n = (m.whole n).broadcast k x := by
  have hbits : ∀ i, (wholePc m.workers n m.pc (.worker i)).asleep = (m.pc (.worker i)).asleep :=
    asleep_wholePc h.asleep
  have hroused : (m.whole n).rousedPc = wholePc m.workers n m.rousedPc := by
    funext e
    cases e with
    | worker i =>
      simp only [Machine.rousedPc, Machine.whole, hbits]
      by_cases hi : m.workers ≤ i ∧ i < n
      · simp [wholePc, hi, h.asleep i hi.1]
      · simp [wholePc, Machine.rousedPc, hi]
    | caller j => rfl
  have hpc : wholePc m.workers n (Function.update m.rousedPc k x) =
      Function.update (m.whole n).rousedPc k x := by
    rw [wholePc_update hk, hroused]
  simp only [Machine.broadcast, Machine.whole, hbits] at hpc ⊢
  rw [hpc]

/-- A signal finds the same workers asleep. -/
theorem whole_signal (h : Absent m) (hn : m.workers ≤ n) (hk : k.Here m.workers n)
    {woken : Option ℕ} (hst : m.signal k x woken = some t) :
    (m.whole n).signal k x woken = some (t.whole n) := by
  have hbits : ∀ i, ((m.whole n).pc (.worker i)).asleep = (m.pc (.worker i)).asleep :=
    asleep_wholePc h.asleep
  cases woken with
  | some i =>
    simp only [Machine.signal] at hst ⊢
    split_ifs at hst with hi
    cases hst
    have hhere : (Tid.worker i).Here m.workers n := fun hout => Nat.not_lt.mpr hout.1 hi.1
    rw [if_pos ⟨Nat.lt_of_lt_of_le hi.1 hn, (hbits i).trans hi.2⟩, ← whole_goto hhere]
    exact congrArg some (whole_goto (m := m.goto (.worker i) .wake) hk).symm
  | none =>
    simp only [Machine.signal] at hst ⊢
    split_ifs at hst with hno
    cases hst
    have hnone : ¬ ∃ i < (m.whole n).workers, ((m.whole n).pc (.worker i)).asleep = true := by
      rintro ⟨i, -, ha⟩
      rw [hbits] at ha
      rcases Nat.lt_or_ge i m.workers with hi | hi
      · exact hno ⟨i, hi, ha⟩
      · rw [h.asleep i hi] at ha
        cases ha
    rw [if_neg hnone, whole_goto hk]

/-- **A step of a thread** is the same with the missing workers added. -/
theorem advance_whole (h : Absent m) (hs : Safe m) (hn : m.workers ≤ n) {ok : Bool}
    {woken : Option ℕ} (hst : m.advance k ok woken = some t) :
    (m.whole n).advance k ok woken = some (t.whole n) := by
  have hk : k.Here m.workers n := h.here (moves_of_advance hst).not_exited
  unfold Machine.advance at hst ⊢
  rw [whole_pc hk]
  cases hx : m.pc k with
  | wait | exited | idle => rw [hx] at hst; cases hst
  | leave => exact (hs.fact hx rfl).elim
  | lock | wake =>
    rw [hx] at hst
    dsimp only at hst ⊢
    split_ifs at hst with ho
    cases hst
    exact (if_pos ho).trans (congrArg some (whole_acquire hk).symm)
  | check =>
    rw [hx] at hst
    dsimp only at hst ⊢
    split_ifs at hst with hc
    · cases hst
      exact (if_pos hc).trans (congrArg some (whole_release hk).symm)
    · cases hst
      exact (if_neg hc).trans (congrArg some (whole_goto hk).symm)
  | full | addFull =>
    rw [hx] at hst
    dsimp only at hst ⊢
    split_ifs at hst with hc
    · cases hst
      exact (if_pos hc).trans (congrArg some (whole_goto hk).symm)
    · cases hst
      exact (if_neg hc).trans (congrArg some (whole_goto hk).symm)
  | closing | run | addClosing =>
    rw [hx] at hst
    cases hst
    exact congrArg some (whole_goto hk).symm
  | unlock | leaveUnlock | addUnlock | closeUnlock =>
    rw [hx] at hst
    cases hst
    exact congrArg some (whole_release hk).symm
  | take | addStore =>
    rw [hx] at hst
    cases hst
    simp only [Machine.whole, wholePc_update hk]
    rfl
  | closeFree =>
    rw [hx] at hst
    cases hst
    simp only [Machine.whole, wholePc_update hk]
  | addLock | closeLock =>
    rw [hx] at hst
    dsimp only at hst ⊢
    split_ifs at hst with hok ho
    · cases hst
      exact (if_pos hok).trans (congrArg some (whole_goto hk).symm)
    · cases hst
      exact ((if_neg hok).trans (if_pos ho)).trans (congrArg some (whole_acquire hk).symm)
  | addSignal =>
    rw [hx] at hst
    dsimp only at hst ⊢
    split_ifs at hst with hok
    · cases hst
      exact (if_pos hok).trans (congrArg some (whole_goto hk).symm)
    · exact (if_neg hok).trans (whole_signal h hn hk hst)
  | closeBroadcast =>
    rw [hx] at hst
    dsimp only at hst ⊢
    split_ifs at hst with hok
    · cases hst
      exact (if_pos hok).trans (congrArg some (whole_goto hk).symm)
    · cases hst
      exact (if_neg hok).trans (congrArg some (whole_broadcast h hk).symm)

/-- **A step of the pool** is the same with the missing workers added. -/
theorem step_whole (h : Absent m) (hs : Safe m) (hn : m.workers ≤ n) {a : Act F A}
    (hst : m.step a = some t) : (m.whole n).step a = some (t.whole n) := by
  have hf : ¬ m.fault.isSome = true := by
    intro hf
    unfold Machine.step at hst
    rw [if_pos hf] at hst
    cases hst
  have hf' : ¬ (m.whole n).fault.isSome = true := hf
  cases a with
  | run k ok woken =>
    unfold Machine.step at hst ⊢
    rw [if_neg hf] at hst
    rw [if_neg hf']
    dsimp only at hst ⊢
    split_ifs at hst with hu
    · cases hst
      have hk : k.Here m.workers n := h.here fun hx => by
        rw [hx, Bool.and_eq_true] at hu
        exact Bool.false_ne_true hu.2
      rw [← whole_pc hk] at hu
      exact if_pos hu
    · have hk : k.Here m.workers n := h.here (moves_of_advance hst).not_exited
      rw [← whole_pc hk] at hu
      exact (if_neg hu).trans (advance_whole h hs hn hst)
  | spurious i =>
    unfold Machine.step at hst ⊢
    rw [if_neg hf] at hst
    rw [if_neg hf']
    dsimp only at hst ⊢
    split_ifs at hst with ha
    cases hst
    have hk : (Tid.worker i).Here m.workers n := h.here fun hx => by rw [hx] at ha; cases ha
    rw [← whole_pc hk] at ha
    exact (if_pos ha).trans (congrArg some (whole_goto hk).symm)
  | addTaskFunc j callback arg =>
    have hk : (Tid.caller j).Here m.workers n := trivial
    cases happens_of_step hst with
    | addNull hpc | add hpc =>
      have hpc' : (m.whole n).pc (.caller j) = .idle _ := hpc
      unfold Machine.step
      rw [if_neg hf']
      dsimp only
      rw [hpc', whole_goto hk]
  | close j =>
    have hk : (Tid.caller j).Here m.workers n := trivial
    cases happens_of_step hst with
    | close hpc =>
      have hpc' : (m.whole n).pc (.caller j) = .idle _ := hpc
      unfold Machine.step
      rw [if_neg hf']
      dsimp only
      rw [hpc', whole_goto hk]

/-- The thread that moves is none of those that have not been created. -/
theorem Absent.update (h : Absent m) {pc : Tid → Pc F A} (hk : m.pc k ≠ .exited)
    (hpc : ∀ i, m.workers ≤ i → pc (.worker i) = .exited) :
    ∀ i, m.workers ≤ i → (Function.update pc k x) (.worker i) = .exited := by
  intro i hi
  have hne : Tid.worker i ≠ k := by
    rintro rfl
    exact hk (h i hi)
  rw [Function.update_of_ne hne]
  exact hpc i hi

theorem Absent.move (h : Absent m) (hm : Moves m k t) : Absent t := by
  have hk := hm.not_exited
  cases hm with
  | @addSignal i _ ha =>
    have hi : m.pc (.worker i) ≠ .exited := fun hx => by rw [hx] at ha; cases ha
    exact h.update hk (h.update hi h)
  | closeBroadcast _ =>
    refine h.update hk fun i hi => ?_
    exact (if_neg (by rw [h.asleep i hi]; exact Bool.false_ne_true)).trans (h i hi)
  | _ => exact h.update hk h

theorem Absent.step (h : Absent m) {a : Act F A} (hst : m.step a = some t) : Absent t := by
  cases happens_of_step hst with
  | fault => exact h
  | move _ hm => exact h.move hm
  | spurious ha => exact h.update (fun hx => by rw [hx] at ha; cases ha) h
  | addNull hpc =>
    exact h.update (x := .idle (some .varIsNULL)) (fun hx => by rw [hx] at hpc; cases hpc) h
  | @add _ f arg _ hpc =>
    exact h.update (x := .addLock ⟨f, arg⟩) (fun hx => by rw [hx] at hpc; cases hpc) h
  | close hpc => exact h.update (x := .closeLock) (fun hx => by rw [hx] at hpc; cases hpc) h

/-- The worker that is created next is one of the missing ones. -/
theorem whole_spawn (hn : m.workers < n) : m.spawn.whole n = m.whole n := by
  have hpc : wholePc (m.workers + 1) n (Function.update m.pc (.worker m.workers) .lock) =
      wholePc m.workers n m.pc := by
    funext e
    cases e with
    | worker i =>
      by_cases hi : i = m.workers
      · subst hi
        simp [wholePc, hn]
      · have hle : m.workers + 1 ≤ i ↔ m.workers ≤ i := by omega
        simp [wholePc, hi, hle]
    | caller j => simp [wholePc]
  simp only [Machine.whole, Machine.spawn, hpc]

theorem Absent.spawn (h : Absent m) : Absent m.spawn := by
  intro i hi
  have hne : Tid.worker i ≠ .worker m.workers := fun he => by
    cases he
    exact Nat.not_succ_le_self _ hi
  exact (Function.update_of_ne hne _ _).trans (h i (Nat.le_of_succ_le hi))

/-- A worker begins without the mutex. -/
theorem Safe.spawn (h : Safe m) : Safe m.spawn where
  disciplined := h.disciplined.move (.inr (.inr ⟨rfl, rfl⟩)) fun hx => by cases hx
  opened := h.opened
  count := h.count

/-- The count of the workers is nothing a thread finds out. -/
theorem Pc.fact_countStarted : x.fact m.countStarted.pool = x.fact m.pool := by cases x <;> rfl

theorem Safe.countStarted (h : Safe m) : Safe m.countStarted where
  disciplined k hk := by
    rw [Pc.fact_countStarted]
    exact h.disciplined k hk
  opened := h.opened
  count := h.count

end Whole

/-! ### The start of the pool -/

section Runs

variable {cells : ℤ → SyPthreadPoolTask F A} {n q : UInt32} {s t : Startup F A}
  {a : StartupAct F A}

/-- How many workers have been counted. -/
def Stage.Counted (m : Machine F A) (n : ℕ) : Stage → Prop
  | .looping => m.pool.started = m.workers
  | .counting => m.pool.started + 1 = m.workers
  | .returned true => m.pool.started = m.workers ∧ m.workers = n
  | .returned false => m.pool.started = m.workers
  | .fault => True

/-- The invariant of the start. -/
structure Starts (n : ℕ) (s : Startup F A) : Prop where
  absent : Absent s.machine
  safe : Safe s.machine
  threadCount : s.threadCount = n
  /-- No more workers than are wanted are created. -/
  workers : s.machine.workers ≤ n
  counted : s.stage.Counted s.machine n

theorem Starts.start (cells : ℤ → SyPthreadPoolTask F A) (n q : UInt32) :
    Starts n.toNat (Startup.start cells n q) where
  absent _ _ := rfl
  safe := by
    refine ⟨?_, rfl, le_rfl⟩
    rintro (i | j) hk
    · cases hk
    · cases hk
  threadCount := rfl
  workers := Nat.zero_le _
  counted := rfl

/-- Workers are counted by `Initialize` only. -/
theorem started_of_step {m u : Machine F A} (h : Safe m) {a : Act F A} (hst : m.step a = some u) :
    u.pool.started = m.pool.started := by
  cases happens_of_step hst with
  | move _ hm =>
    cases hm with
    | leave hpc => exact (h.fact hpc rfl).elim
    | _ => rfl
  | _ => rfl

theorem Stage.Counted.congr {m u : Machine F A} {n : ℕ} {stage : Stage} (h : stage.Counted m n)
    (hs : u.pool.started = m.pool.started) (hw : u.workers = m.workers) : stage.Counted u n := by
  unfold Stage.Counted at h ⊢
  rw [hs, hw]
  exact h

/-- **A step while the pool is being started** keeps the invariant, and is a step of the whole
machine or is not seen there. -/
theorem Starts.step {n : ℕ} (h : Starts n s) (hst : s.step a = some t) :
    Starts n t ∧ exec Machine.step (s.machine.whole n) a.act.toList = some (t.machine.whole n) := by
  have hcounted := h.counted
  cases a with
  | init create =>
    simp only [Startup.step] at hst
    cases hs : s.stage with
    | looping =>
      rw [hs] at hst hcounted
      dsimp only at hst
      split_ifs at hst with hf hfr hlt hc <;> cases hst
      · exact ⟨⟨h.absent, h.safe, h.threadCount, h.workers, trivial⟩, rfl⟩
      · have hlt' : s.machine.workers < n := h.threadCount ▸ hlt
        refine ⟨⟨h.absent.spawn, h.safe.spawn, h.threadCount, hlt', ?_⟩,
          congrArg some (whole_spawn hlt').symm⟩
        exact congrArg (· + 1) hcounted
      · exact ⟨⟨h.absent, h.safe, h.threadCount, h.workers, hcounted⟩, rfl⟩
      · have hn : s.machine.workers = n := by
          have := h.threadCount
          have := h.workers
          omega
        exact ⟨⟨h.absent, h.safe, h.threadCount, h.workers, hcounted, hn⟩, rfl⟩
    | counting =>
      rw [hs] at hst hcounted
      dsimp only at hst
      split_ifs at hst with hf hfr <;> cases hst
      · exact ⟨⟨h.absent, h.safe, h.threadCount, h.workers, trivial⟩, rfl⟩
      · exact ⟨⟨h.absent, h.safe.countStarted, h.threadCount, h.workers, hcounted⟩, rfl⟩
    | returned | fault =>
      rw [hs] at hst
      split_ifs at hst
  | pool a =>
    simp only [Startup.step] at hst
    split_ifs at hst with hf
    rw [Option.map_eq_some_iff] at hst
    obtain ⟨m, hm, rfl⟩ := hst
    refine ⟨⟨h.absent.step hm, h.safe.step hm, h.threadCount, ?_, ?_⟩, ?_⟩
    · exact (workers_of_step hm).le.trans h.workers
    · exact hcounted.congr (started_of_step h.safe hm) (workers_of_step hm)
    · exact exec_cons_eq_some.mpr ⟨_, step_whole h.absent h.safe h.workers hm, rfl⟩

theorem whole_start (cells : ℤ → SyPthreadPoolTask F A) (n q : UInt32) :
    (Startup.start cells n q).machine.whole n.toNat = Machine.start cells n q := by
  simp only [Startup.start, Machine.start, Machine.whole, Machine.mk.injEq, true_and, and_true]
  funext e
  cases e with
  | worker i => simp [Machine.wholePc]
  | caller j => rfl

/-- A run while the pool is being started keeps the invariant, and is carried over. -/
theorem Starts.of_exec {as : List (StartupAct F A)}
    (h : exec Startup.step (Startup.start cells n q) as = some s) :
    Starts n.toNat s ∧ exec Machine.step (Machine.start cells n q) (as.filterMap StartupAct.act) =
      some (s.machine.whole n.toNat) := by
  rw [← whole_start]
  exact exec_filterMap (I := Starts n.toNat) (f := fun u => u.machine.whole n.toNat)
    (fun _ _ _ hu ht => hu.step ht) (.start cells n q) h

/-- Nobody is missing once the pool has been returned. -/
theorem Starts.whole_eq {n : ℕ} (h : Starts n s) (hs : s.stage = .returned true) :
    s.machine.whole n = s.machine := by
  obtain ⟨hstarted, hn⟩ : s.machine.pool.started = s.machine.workers ∧ s.machine.workers = n := by
    have hcounted := h.counted
    rwa [hs] at hcounted
  have hpc : Machine.wholePc s.machine.workers n s.machine.pc = s.machine.pc := by
    funext e
    cases e with
    | worker i => exact if_neg fun hi => Nat.not_le.mpr (hi.2.trans_eq hn.symm) hi.1
    | caller j => rfl
  subst hn
  simp only [Machine.whole, hpc, ← hstarted]

end Runs

/-- **The workers may start late.** Take any run in which `Initialize` creates the workers one
by one, each creation succeeding or failing, while those there are run and other threads call
the pool. What the others do is a run of the machine that begins with all its workers, and
leads to the same state with the missing workers at the lock. Once `Initialize` has returned
the pool nobody is missing. -/
theorem whole_of_exec (cells : ℤ → SyPthreadPoolTask F A) (n q : UInt32)
    (as : List (StartupAct F A)) (s : Startup F A)
    (h : exec Startup.step (Startup.start cells n q) as = some s) :
    exec Machine.step (Machine.start cells n q) (as.filterMap StartupAct.act) =
        some (s.machine.whole n.toNat) ∧
      (s.stage = .returned true → s.machine.whole n.toNat = s.machine) :=
  ⟨(Starts.of_exec h).2, (Starts.of_exec h).1.whole_eq⟩

/-- Nobody waits for the start: a task is stored before the first worker is created, the
worker takes it, and then `pthread_create` fails. -/
def lateStart : List (StartupAct ℕ ℕ) :=
  ([.addTaskFunc 0 (some 7) 5, .caller 0 none, .caller 0 none, .caller 0 none, .caller 0 none,
      .caller 0 none, .caller 0 none].map .pool) ++
    [.init true] ++ ([.worker 0, .worker 0, .worker 0, .worker 0, .worker 0].map .pool) ++
    [.init true, .init false]

/-- The start fails, and the task has been taken: as in the machine with two workers. -/
theorem whole_lateStart :
    ∃ s, exec Startup.step (Startup.start (fun _ => ⟨0, 0⟩) 2 2) lateStart = some s ∧
      s.stage = .returned false ∧ s.machine.taken = [⟨7, 5⟩] ∧
      exec Machine.step (Machine.start (fun _ => ⟨0, 0⟩) 2 2) (lateStart.filterMap StartupAct.act) =
        some (s.machine.whole 2) :=
  ⟨_, rfl, rfl, rfl, (whole_of_exec (fun _ => ⟨0, 0⟩) 2 2 lateStart _ rfl).1⟩

/-- **Delivery while the pool is being started**, and in a pool whose start has failed: what
the workers have taken followed by what is pending is what was stored. -/
theorem delivered_of_startup (cells : ℤ → SyPthreadPoolTask F A) (n q : UInt32) (h1 : 1 ≤ q)
    (h2 : q.toNat < 2 ^ 31) (as : List (StartupAct F A)) (s : Startup F A)
    (h : exec Startup.step (Startup.start cells n q) as = some s) :
    s.machine.taken ++ s.machine.pool.pending = s.machine.stored := by
  have hrun := (Starts.of_exec h).2
  have hdelivered : Delivered q.toNat (s.machine.whole n.toNat) :=
    (inv_of_exec (I := fun u => Safe u ∧ Delivered q.toNat u)
      (fun _ _ _ hu ht => ⟨hu.1.step ht, hu.2.step hu.1 ht⟩)
      ⟨Safe.start cells n q, .start cells h1 h2⟩ hrun).2
  exact hdelivered.fifo

end Syinx.Pthread
