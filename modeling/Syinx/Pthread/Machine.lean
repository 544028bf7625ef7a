import Syinx.Library.Runs
import Syinx.Library.Lock
import Syinx.Pthread.AddTask

/-!
# The thread pool as a machine

Any number of workers run `SyPthreadPool_thread`, and any number of other
threads call `AddTaskFunc` and `Close`, on one `threadpool_t`. A step of the
machine is one `pthread` call or one access to the pool by one thread; the
threads take steps in any order.

`Pthlock` is a plain mutex: `pthread_mutex_lock` takes it when nobody holds it
and waits otherwise, also when the caller itself is the holder. A worker in
`pthread_cond_wait` has released the mutex and is asleep (`wait`) until a
signal, a broadcast or a spurious wake-up makes it compete for the mutex again
(`wake`). A successful `pthread_cond_signal` wakes one of the sleeping workers
if there is one; more than one is a signal and spurious wake-ups.

A thread that is through with the pool, at its unlock or where it gives up,
comes to a point of its own: behind the unlock of `AddTaskFunc` the call has yet
to return (`idle`), and behind that of `SyPthreadPool_thread` the task has yet
to be run (`run`). Other threads may take any steps meanwhile; when it is seen
is told in `Syinx.Pthread.Atomic`.

A thread that touches the pool after `SyPthreadPool_free` has released it is
recorded in `fault`, and the run ends there: what such a thread does is not
defined.

## What is proved

* `moves_of_advance` — all a thread can do in one step, as a list of cases.
* `Safe.step`, `Safe.of_exec` — in every state of every run, a thread past a
  lock owns the mutex, what it has found out about the count is still so, and
  `PthpoolClose` is not set.
-/

namespace Syinx.Pthread

open Syinx.Library

variable {F A : Type}

/-- A thread: a worker of the pool, or a thread that calls the pool. -/
inductive Tid where
  | worker (i : ℕ)
  | caller (j : ℕ)
  deriving DecidableEq

/-- The thread is a worker. -/
def Tid.isWorker : Tid → Bool
  | .worker _ => true
  | .caller _ => false

/-- Where a thread stands. -/
inductive Pc (F A : Type) where
  /-- `SyPthreadPool_thread`: at the lock at the top of the loop. -/
  | lock
  /-- At the test of the wait loop. -/
  | check
  /-- Asleep in `pthread_cond_wait`. -/
  | wait
  /-- Woken in `pthread_cond_wait`, waiting for the mutex. -/
  | wake
  /-- At the test `count == queue_size`. -/
  | full
  /-- At the test of `PthpoolClose`. -/
  | closing
  /-- At `get task queue`. -/
  | take
  /-- At the unlock, with the task it took. -/
  | unlock (t : SyPthreadPoolTask F A)
  /-- Behind the unlock, with the task: about to call `func`, or in it. -/
  | run (t : SyPthreadPoolTask F A)
  /-- Behind the loop, at `started--`. -/
  | leave
  /-- At the last unlock. -/
  | leaveUnlock
  /-- The thread has ended. -/
  | exited
  /-- A caller that is through with the pool, with what its last call returns or has returned. -/
  | idle (ret : Option SyPthreadPoolErr)
  /-- `AddTaskFunc`: at the lock. -/
  | addLock (t : SyPthreadPoolTask F A)
  /-- At the test `queue_size == count`. -/
  | addFull (t : SyPthreadPoolTask F A)
  /-- At the test of `PthpoolClose`. -/
  | addClosing (t : SyPthreadPoolTask F A)
  /-- Storing the task. -/
  | addStore (t : SyPthreadPoolTask F A)
  /-- At the signal. -/
  | addSignal
  /-- At the unlock. -/
  | addUnlock
  /-- `Close`: at the lock. -/
  | closeLock
  /-- At the broadcast. -/
  | closeBroadcast
  /-- At the unlock. -/
  | closeUnlock
  /-- At `SyPthreadPool_free`. -/
  | closeFree

namespace Pc

/-- A thread there has taken the mutex and not released it. -/
def holds : Pc F A → Bool
  | check | full | closing | take | unlock _ | leave | leaveUnlock => true
  | addFull _ | addClosing _ | addStore _ | addSignal | addUnlock => true
  | closeBroadcast | closeUnlock => true
  | _ => false

/-- The next step of a thread there reads or writes the `threadpool_t`, its
mutex or its condition variable. -/
def uses : Pc F A → Bool
  | wait | run _ | exited | idle _ => false
  | _ => true

/-- The point is one of `SyPthreadPool_thread`. -/
def ofWorker : Pc F A → Bool
  | lock | check | wait | wake | full | closing | take | unlock _ | run _ => true
  | leave | leaveUnlock | exited => true
  | _ => false

/-- A worker there is asleep in `pthread_cond_wait`. -/
def asleep : Pc F A → Bool
  | wait => true
  | _ => false

theorem eq_wait_of_asleep {x : Pc F A} (h : x.asleep = true) : x = wait := by
  cases x <;> first | rfl | cases h

theorem asleep_eq_false_of_holds {x : Pc F A} (h : x.holds = true) : x.asleep = false := by
  cases x <;> first | rfl | cases h

end Pc

/-- A state of the machine. -/
structure Machine (F A : Type) where
  /-- How many workers `Initialize` has started. -/
  workers : ℕ
  /-- The pool's data. -/
  pool : ThreadPool F A
  /-- `SyPthreadPool_free` has released the pool. -/
  freed : Bool
  /-- Who holds `Pthlock`. -/
  owner : Option Tid
  /-- Where the threads stand. -/
  pc : Tid → Pc F A
  /-- The workers a broadcast of `Close` has woken. -/
  roused : ℕ → Bool
  /-- The tasks `AddTaskFunc` has stored, in order. -/
  stored : List (SyPthreadPoolTask F A)
  /-- The tasks the workers have taken, in order. -/
  taken : List (SyPthreadPoolTask F A)
  /-- The thread that has used the pool after it was released. -/
  fault : Option Tid

/-- What can happen. -/
inductive Act (F A : Type) where
  /-- Thread `k` takes its next step. `ok`: the `pthread` call it makes succeeds;
  `woken`: the worker that a signal wakes. -/
  | run (k : Tid) (ok : Bool) (woken : Option ℕ)
  /-- Worker `i` wakes up though nobody woke it. -/
  | spurious (i : ℕ)
  /-- Caller `j` calls `AddTaskFunc`. -/
  | addTaskFunc (j : ℕ) (callback : Option F) (arg : A)
  /-- Caller `j` calls `Close`. -/
  | close (j : ℕ)

/-- Worker `i` takes its next step. -/
abbrev Act.worker (i : ℕ) : Act F A := .run (.worker i) true none

/-- Caller `j` takes its next step, its `pthread` call succeeding. -/
abbrev Act.caller (j : ℕ) (woken : Option ℕ) : Act F A := .run (.caller j) true woken

/-- The action is a call of `Close`. -/
def Act.isClose : Act F A → Bool
  | .close _ => true
  | _ => false

namespace Machine

/-- After `Initialize` has filled in the pool and started the workers, `started`
being counted up once for each. -/
def start (cells : ℤ → SyPthreadPoolTask F A) (thread_count queue_size : UInt32) :
    Machine F A where
  workers := thread_count.toNat
  pool := { ThreadPool.new cells thread_count queue_size with started := thread_count.toNat }
  freed := false
  owner := none
  pc
    | .worker i => if i < thread_count.toNat then .lock else .exited
    | .caller _ => .idle none
  roused := fun _ => false
  stored := []
  taken := []
  fault := none

/-- Thread `k` moves on to `x`. -/
def goto (s : Machine F A) (k : Tid) (x : Pc F A) : Machine F A :=
  { s with pc := Function.update s.pc k x }

/-- Thread `k` takes the mutex and moves on to `x`. -/
def acquire (s : Machine F A) (k : Tid) (x : Pc F A) : Machine F A :=
  { s with owner := some k, pc := Function.update s.pc k x }

/-- Thread `k` releases the mutex and moves on to `x`. -/
def release (s : Machine F A) (k : Tid) (x : Pc F A) : Machine F A :=
  { s with owner := none, pc := Function.update s.pc k x }

/-- `pthread_cond_signal` by thread `k`, which moves on to `x`: one sleeping worker
is woken, unless there is none. -/
def signal (s : Machine F A) (k : Tid) (x : Pc F A) : Option ℕ → Option (Machine F A)
  | some i =>
    if i < s.workers ∧ (s.pc (.worker i)).asleep then some ((s.goto (.worker i) .wake).goto k x)
    else none
  | none => if ∃ i < s.workers, (s.pc (.worker i)).asleep then none else some (s.goto k x)

/-- The threads after a broadcast: every sleeping worker is woken. -/
def rousedPc (s : Machine F A) : Tid → Pc F A
  | .worker i => if (s.pc (.worker i)).asleep then .wake else s.pc (.worker i)
  | .caller j => s.pc (.caller j)

/-- `pthread_cond_broadcast` by thread `k`, which moves on to `x`. -/
def broadcast (s : Machine F A) (k : Tid) (x : Pc F A) : Machine F A :=
  { s with
    pc := Function.update s.rousedPc k x
    roused := fun i => s.roused i || (s.pc (.worker i)).asleep }

/-- The next step of thread `k`, from where it stands. -/
def advance (s : Machine F A) (k : Tid) (ok : Bool) (woken : Option ℕ) : Option (Machine F A) :=
  match s.pc k with
  -- `SyPthreadPool_thread`; it does not look at what its `pthread` calls return
  | .lock => if s.owner = none then some (s.acquire k .check) else none
  | .check =>
    if s.pool.count = 0 ∧ s.pool.pthpoolClose = false then some (s.release k .wait)
    else some (s.goto k .full)
  | .wait => none
  | .wake => if s.owner = none then some (s.acquire k .check) else none
  | .full =>
    -- `continue`, with the mutex held
    if s.pool.count = s.pool.queueSize then some (s.goto k .lock) else some (s.goto k .closing)
  | .closing => some (s.goto k (if s.pool.pthpoolClose then .leave else .take))
  | .take =>
    some { s with
      pool := s.pool.dequeue
      taken := s.taken ++ [s.pool.front]
      pc := Function.update s.pc k (.unlock s.pool.front) }
  | .unlock t => some (s.release k (.run t))
  | .run _ => some (s.goto k .lock)
  | .leave =>
    some { s with
      pool := { s.pool with started := s.pool.started - 1 }
      pc := Function.update s.pc k .leaveUnlock }
  | .leaveUnlock => some (s.release k .exited)
  | .exited => none
  | .idle _ => none
  -- `AddTaskFunc`
  | .addLock t =>
    if ok = false then some (s.goto k (.idle (some .lockErr)))
    else if s.owner = none then some (s.acquire k (.addFull t)) else none
  | .addFull t =>
    if s.pool.queueSize = s.pool.count then some (s.goto k (.idle (some .queueIsMax)))
    else some (s.goto k (.addClosing t))
  | .addClosing t => some (s.goto k (if s.pool.pthpoolClose then .closeLock else .addStore t))
  | .addStore t =>
    some { s with
      pool := s.pool.enqueue t
      stored := s.stored ++ [t]
      pc := Function.update s.pc k .addSignal }
  | .addSignal =>
    if ok = false then some (s.goto k (.idle (some .condSignalErr)))
    else s.signal k .addUnlock woken
  | .addUnlock => some (s.release k (.idle (some .success)))
  -- `Close`
  | .closeLock =>
    if ok = false then some (s.goto k (.idle (some .lockErr)))
    else if s.owner = none then some (s.acquire k .closeBroadcast) else none
  | .closeBroadcast =>
    if ok = false then some (s.goto k (.idle (some .condSignalErr)))
    else some (s.broadcast k .closeUnlock)
  | .closeUnlock => some (s.release k .closeFree)
  | .closeFree => some { s with freed := true, pc := Function.update s.pc k (.idle (some .success)) }

/-- A step of the machine. -/
def step (s : Machine F A) (a : Act F A) : Option (Machine F A) :=
  if s.fault.isSome then none else
  match a with
  | .run k ok woken =>
    if s.freed && (s.pc k).uses then some { s with fault := some k } else s.advance k ok woken
  | .spurious i =>
    if (s.pc (.worker i)).asleep then some (s.goto (.worker i) .wake) else none
  | .addTaskFunc j callback arg =>
    match s.pc (.caller j), callback with
    | .idle _, none => some (s.goto (.caller j) (.idle (some .varIsNULL)))
    | .idle _, some f => some (s.goto (.caller j) (.addLock ⟨f, arg⟩))
    | _, _ => none
  | .close j =>
    match s.pc (.caller j) with
    | .idle _ => some (s.goto (.caller j) .closeLock)
    | _ => none

/-! ### The steps of a worker -/

section Worker

variable {s : Machine F A} {k m : Tid} {x : Pc F A} {ok : Bool} {woken : Option ℕ}

@[simp] theorem goto_self : (s.goto k x).pc k = x := Function.update_self ..

@[simp] theorem acquire_self : (s.acquire k x).pc k = x := Function.update_self ..

@[simp] theorem release_self : (s.release k x).pc k = x := Function.update_self ..

theorem goto_of_ne (h : m ≠ k) : (s.goto k x).pc m = s.pc m := Function.update_of_ne h ..

theorem advance_lock (hpc : s.pc k = .lock) :
    s.advance k ok woken = if s.owner = none then some (s.acquire k .check) else none := by
  unfold advance; rw [hpc]

theorem advance_check (hpc : s.pc k = .check) (hc : s.pool.count ≠ 0) :
    s.advance k ok woken = some (s.goto k .full) := by
  unfold advance; rw [hpc]; simp [hc]

theorem advance_full (hpc : s.pc k = .full) :
    s.advance k ok woken =
      some (s.goto k (if s.pool.count = s.pool.queueSize then .lock else .closing)) := by
  unfold advance; rw [hpc]; dsimp only; split_ifs <;> rfl

theorem advance_closing (hpc : s.pc k = .closing) (hc : s.pool.pthpoolClose = false) :
    s.advance k ok woken = some (s.goto k .take) := by
  unfold advance; rw [hpc]; simp [hc]

theorem advance_take (hpc : s.pc k = .take) :
    s.advance k ok woken = some { s with
      pool := s.pool.dequeue
      taken := s.taken ++ [s.pool.front]
      pc := Function.update s.pc k (.unlock s.pool.front) } := by
  unfold advance; rw [hpc]

theorem advance_unlock {t : SyPthreadPoolTask F A} (hpc : s.pc k = .unlock t) :
    s.advance k ok woken = some (s.release k (.run t)) := by
  unfold advance; rw [hpc]

end Worker

end Machine

/-! ### What a step does -/

/-- **All that thread `k` can do** in a state `s`: from where it stands, under the
conditions it tests, to the state on the right. -/
inductive Moves (s : Machine F A) (k : Tid) : Machine F A → Prop
  | lock : s.pc k = .lock → s.owner = none → Moves s k (s.acquire k .check)
  | sleep : s.pc k = .check → s.pool.count = 0 → Moves s k (s.release k .wait)
  | awake : s.pc k = .check → (s.pool.count ≠ 0 ∨ s.pool.pthpoolClose = true) →
      Moves s k (s.goto k .full)
  | wake : s.pc k = .wake → s.owner = none → Moves s k (s.acquire k .check)
  | retry : s.pc k = .full → s.pool.count = s.pool.queueSize → Moves s k (s.goto k .lock)
  | notFull : s.pc k = .full → s.pool.count ≠ s.pool.queueSize → Moves s k (s.goto k .closing)
  | leaves : s.pc k = .closing → s.pool.pthpoolClose = true → Moves s k (s.goto k .leave)
  | stays : s.pc k = .closing → s.pool.pthpoolClose = false → Moves s k (s.goto k .take)
  | take : s.pc k = .take →
      Moves s k { s with
        pool := s.pool.dequeue
        taken := s.taken ++ [s.pool.front]
        pc := Function.update s.pc k (.unlock s.pool.front) }
  | unlock {t} : s.pc k = .unlock t → Moves s k (s.release k (.run t))
  | run {t} : s.pc k = .run t → Moves s k (s.goto k .lock)
  | leave : s.pc k = .leave →
      Moves s k { s with
        pool := { s.pool with started := s.pool.started - 1 }
        pc := Function.update s.pc k .leaveUnlock }
  | leaveUnlock : s.pc k = .leaveUnlock → Moves s k (s.release k .exited)
  | addLockErr {t} : s.pc k = .addLock t → Moves s k (s.goto k (.idle (some .lockErr)))
  | addLock {t} : s.pc k = .addLock t → s.owner = none → Moves s k (s.acquire k (.addFull t))
  | addMax {t} : s.pc k = .addFull t → s.pool.queueSize = s.pool.count →
      Moves s k (s.goto k (.idle (some .queueIsMax)))
  | addRoom {t} : s.pc k = .addFull t → s.pool.queueSize ≠ s.pool.count →
      Moves s k (s.goto k (.addClosing t))
  | addCloses {t} : s.pc k = .addClosing t → s.pool.pthpoolClose = true →
      Moves s k (s.goto k .closeLock)
  | addStays {t} : s.pc k = .addClosing t → s.pool.pthpoolClose = false →
      Moves s k (s.goto k (.addStore t))
  | addStore {t} : s.pc k = .addStore t →
      Moves s k { s with
        pool := s.pool.enqueue t
        stored := s.stored ++ [t]
        pc := Function.update s.pc k .addSignal }
  | addSignalErr : s.pc k = .addSignal → Moves s k (s.goto k (.idle (some .condSignalErr)))
  | addSignal {i} : s.pc k = .addSignal → (s.pc (.worker i)).asleep →
      Moves s k ((s.goto (.worker i) .wake).goto k .addUnlock)
  | addSignalNone : s.pc k = .addSignal → (∀ i < s.workers, ¬ (s.pc (.worker i)).asleep) →
      Moves s k (s.goto k .addUnlock)
  | addUnlock : s.pc k = .addUnlock → Moves s k (s.release k (.idle (some .success)))
  | closeLockErr : s.pc k = .closeLock → Moves s k (s.goto k (.idle (some .lockErr)))
  | closeLock : s.pc k = .closeLock → s.owner = none → Moves s k (s.acquire k .closeBroadcast)
  | closeBroadcastErr : s.pc k = .closeBroadcast →
      Moves s k (s.goto k (.idle (some .condSignalErr)))
  | closeBroadcast : s.pc k = .closeBroadcast → Moves s k (s.broadcast k .closeUnlock)
  | closeUnlock : s.pc k = .closeUnlock → Moves s k (s.release k .closeFree)
  | closeFree : s.pc k = .closeFree →
      Moves s k { s with freed := true, pc := Function.update s.pc k (.idle (some .success)) }

/-- A step a thread takes is one of the cases. -/
theorem moves_of_advance {s t : Machine F A} {k : Tid} {ok : Bool} {woken : Option ℕ}
    (h : s.advance k ok woken = some t) : Moves s k t := by
  unfold Machine.advance at h
  split at h <;> rename_i hpc
  · split_ifs at h with ho; cases h; exact .lock hpc ho
  · split_ifs at h with hc
    · cases h; exact .sleep hpc hc.1
    · cases h
      refine .awake hpc ?_
      by_cases h0 : s.pool.count = 0
      · exact .inr (by simpa [h0] using hc)
      · exact .inl h0
  · cases h
  · split_ifs at h with ho; cases h; exact .wake hpc ho
  · split_ifs at h with hc
    · cases h; exact .retry hpc hc
    · cases h; exact .notFull hpc hc
  · cases h
    cases hc : s.pool.pthpoolClose
    · exact .stays hpc hc
    · exact .leaves hpc hc
  · cases h; exact .take hpc
  · cases h; exact .unlock hpc
  · cases h; exact .run hpc
  · cases h; exact .leave hpc
  · cases h; exact .leaveUnlock hpc
  · cases h
  · cases h
  · split_ifs at h with hok ho
    · cases h; exact .addLockErr hpc
    · cases h; exact .addLock hpc ho
  · split_ifs at h with hc
    · cases h; exact .addMax hpc hc
    · cases h; exact .addRoom hpc hc
  · cases h
    cases hc : s.pool.pthpoolClose
    · exact .addStays hpc hc
    · exact .addCloses hpc hc
  · cases h; exact .addStore hpc
  · split_ifs at h with hok
    · cases h; exact .addSignalErr hpc
    · cases woken with
      | none =>
        simp only [Machine.signal] at h
        split_ifs at h with hw
        cases h
        exact .addSignalNone hpc fun i hi ha => hw ⟨i, hi, ha⟩
      | some i =>
        simp only [Machine.signal] at h
        split_ifs at h with hw
        cases h
        exact .addSignal hpc hw.2
  · cases h; exact .addUnlock hpc
  · split_ifs at h with hok ho
    · cases h; exact .closeLockErr hpc
    · cases h; exact .closeLock hpc ho
  · split_ifs at h with hok
    · cases h; exact .closeBroadcastErr hpc
    · cases h; exact .closeBroadcast hpc
  · cases h; exact .closeUnlock hpc
  · cases h; exact .closeFree hpc

/-- **All that can happen** in a state `s`. -/
inductive Happens (s : Machine F A) : Act F A → Machine F A → Prop
  /-- A thread uses the pool after it was released. -/
  | fault {k ok woken} : s.freed = true → (s.pc k).uses = true →
      Happens s (.run k ok woken) { s with fault := some k }
  /-- A thread takes its next step. -/
  | move {k ok woken t} : (s.freed = true → (s.pc k).uses = false) → Moves s k t →
      Happens s (.run k ok woken) t
  /-- A worker wakes up. -/
  | spurious {i} : (s.pc (.worker i)).asleep → Happens s (.spurious i) (s.goto (.worker i) .wake)
  /-- `AddTaskFunc` is called with a null function. -/
  | addNull {j arg r} : s.pc (.caller j) = .idle r →
      Happens s (.addTaskFunc j none arg) (s.goto (.caller j) (.idle (some .varIsNULL)))
  /-- `AddTaskFunc` is called. -/
  | add {j f arg r} : s.pc (.caller j) = .idle r →
      Happens s (.addTaskFunc j (some f) arg) (s.goto (.caller j) (.addLock ⟨f, arg⟩))
  /-- `Close` is called. -/
  | close {j r} : s.pc (.caller j) = .idle r →
      Happens s (.close j) (s.goto (.caller j) .closeLock)

/-- A step of the machine is one of the cases. -/
theorem happens_of_step {s t : Machine F A} {a : Act F A} (h : s.step a = some t) :
    Happens s a t := by
  unfold Machine.step at h
  split_ifs at h with hf
  split at h
  · split_ifs at h with hu
    · cases h
      rw [Bool.and_eq_true] at hu
      exact .fault hu.1 hu.2
    · refine .move (fun hfr => ?_) (moves_of_advance h)
      simpa [hfr] using hu
  · split_ifs at h with ha; cases h; exact .spurious ha
  · split at h
    · rename_i hpc; cases h; exact .addNull hpc
    · rename_i hpc; cases h; exact .add hpc
    · cases h
  · split at h
    · rename_i hpc; cases h; exact .close hpc
    · cases h

/-! ### The invariant -/

/-- What a thread that holds the mutex knows of the pool. -/
def Pc.fact (p : ThreadPool F A) : Pc F A → Prop
  | .full => p.count ≠ 0
  | .closing | .take => p.count ≠ 0 ∧ p.count ≠ p.queueSize
  | .addClosing _ | .addStore _ => p.count ≠ p.queueSize
  | .leave | .leaveUnlock => False
  | _ => True

/-- The invariant of every run. -/
structure Safe (s : Machine F A) : Prop where
  /-- The mutex protects what its holder has found out. -/
  disciplined : Disciplined (fun x : Pc F A => x.holds = true) Pc.fact s.owner s.pool s.pc
  /-- Nobody sets `PthpoolClose`. -/
  opened : s.pool.pthpoolClose = false
  /-- The count is not negative. -/
  count : 0 ≤ s.pool.count

/-- Workers stand in `SyPthreadPool_thread`, and nobody else does. -/
def Kinds (s : Machine F A) : Prop := ∀ k, (s.pc k).ofWorker = k.isWorker

namespace Safe

theorem start (cells : ℤ → SyPthreadPoolTask F A) (n q : UInt32) :
    Safe (Machine.start cells n q) where
  disciplined := by
    rintro (i | j) hk
    · simp only [Machine.start] at hk
      split_ifs at hk <;> cases hk
    · cases hk
  opened := rfl
  count := le_rfl

variable {s t : Machine F A} {k : Tid}

/-- A thread that holds the mutex owns it. -/
theorem owner (h : Safe s) (hk : (s.pc k).holds = true) : s.owner = some k :=
  (h.disciplined k hk).1

/-- What a thread that holds the mutex knows of the pool is so. -/
theorem fact (h : Safe s) {x : Pc F A} (hx : s.pc k = x) (hk : x.holds = true) :
    x.fact s.pool := by
  subst hx
  exact (h.disciplined k hk).2

/-- A thread moves on without touching the pool or the mutex. -/
theorem goto (h : Safe s) {x : Pc F A}
    (hx : x.holds = true → s.owner = some k ∧ x.fact s.pool) : Safe (s.goto k x) where
  disciplined := h.disciplined.move (.inr (.inr ⟨rfl, rfl⟩)) hx
  opened := h.opened
  count := h.count

/-- A thread moves to a point that does not hold the mutex. -/
theorem goto_outside (h : Safe s) {x : Pc F A} (hx : x.holds = false) : Safe (s.goto k x) :=
  h.goto fun hx' => by rw [hx] at hx'; cases hx'

/-- A thread takes the free mutex. -/
theorem acquire (h : Safe s) {x : Pc F A} (ho : s.owner = none) (hx : x.fact s.pool) :
    Safe (s.acquire k x) where
  disciplined := h.disciplined.move (.inr (.inl ho)) fun _ => ⟨rfl, hx⟩
  opened := h.opened
  count := h.count

/-- The holder of the mutex releases it. -/
theorem release (h : Safe s) {x : Pc F A} (hk : (s.pc k).holds = true) (hx : x.holds = false) :
    Safe (s.release k x) where
  disciplined := h.disciplined.move (.inl (h.owner hk)) fun hx' => by rw [hx] at hx'; cases hx'
  opened := h.opened
  count := h.count

/-- The broadcast leaves the threads that hold the mutex where they are. -/
theorem broadcast (h : Safe s) (hk : s.pc k = .closeBroadcast) :
    Safe (s.broadcast k .closeUnlock) where
  disciplined := by
    have hr : Disciplined (fun x : Pc F A => x.holds = true) Pc.fact s.owner s.pool s.rousedPc := by
      apply h.disciplined.shuffle
      intro m
      cases m with
      | worker i =>
        simp only [Machine.rousedPc]
        split_ifs
        · exact .inr fun hx => nomatch hx
        · exact .inl rfl
      | caller j => exact .inl rfl
    exact hr.move (.inr (.inr ⟨rfl, rfl⟩)) fun _ => ⟨h.owner (by rw [hk]; rfl), trivial⟩
  opened := h.opened
  count := h.count

/-- A thread's step keeps the invariant. -/
theorem move (h : Safe s) (hm : Moves s k t) : Safe t := by
  have own : ∀ {x : Pc F A}, s.pc k = x → x.holds = true → s.owner = some k :=
    fun hx hk => h.owner (by rw [hx]; exact hk)
  cases hm with
  | lock _ ho | wake _ ho | addLock _ ho | closeLock _ ho => exact h.acquire ho trivial
  | sleep hpc _ | unlock hpc | leaveUnlock hpc | addUnlock hpc | closeUnlock hpc =>
    exact h.release (by rw [hpc]; rfl) rfl
  | awake hpc hc =>
    refine h.goto fun _ => ⟨own hpc rfl, ?_⟩
    rcases hc with hc | hc
    · exact hc
    · rw [h.opened] at hc; cases hc
  | retry | run | addLockErr | addMax | addCloses | addSignalErr | closeLockErr
  | closeBroadcastErr => exact h.goto_outside rfl
  | notFull hpc hc => exact h.goto fun _ => ⟨own hpc rfl, h.fact hpc rfl, hc⟩
  | leaves _ hc => rw [h.opened] at hc; cases hc
  | stays hpc _ => exact h.goto fun _ => ⟨own hpc rfl, h.fact (x := .closing) hpc rfl⟩
  | take hpc =>
    obtain ⟨hc, -⟩ := h.fact hpc rfl
    have hn := h.count
    refine ⟨h.disciplined.move (.inl (own hpc rfl)) fun _ => ⟨own hpc rfl, trivial⟩, h.opened, ?_⟩
    show 0 ≤ s.pool.count - 1
    omega
  | leave hpc => exact (h.fact hpc rfl).elim
  | addRoom hpc hc => exact h.goto fun _ => ⟨own hpc rfl, fun he => hc he.symm⟩
  | addStays hpc _ => exact h.goto fun _ => ⟨own hpc rfl, h.fact (x := .addClosing _) hpc rfl⟩
  | addStore hpc =>
    have hn := h.count
    refine ⟨h.disciplined.move (.inl (own hpc rfl)) fun _ => ⟨own hpc rfl, trivial⟩, h.opened, ?_⟩
    show 0 ≤ s.pool.count + 1
    omega
  | @addSignal i hpc _ =>
    have hw : Safe (s.goto (.worker i) .wake) := h.goto_outside rfl
    exact hw.goto fun _ => ⟨own hpc rfl, trivial⟩
  | addSignalNone hpc _ => exact h.goto fun _ => ⟨own hpc rfl, trivial⟩
  | closeBroadcast hpc => exact h.broadcast hpc
  | closeFree =>
    exact ⟨h.disciplined.move (.inr (.inr ⟨rfl, rfl⟩)) (fun hx => nomatch hx), h.opened, h.count⟩

/-- A step of the machine keeps the invariant. -/
theorem step {a : Act F A} (h : Safe s) (hs : s.step a = some t) : Safe t := by
  cases happens_of_step hs with
  | fault => exact ⟨h.disciplined, h.opened, h.count⟩
  | move _ hm => exact h.move hm
  | spurious | addNull | add | close => exact h.goto_outside rfl

/-- The invariant holds in every state a run reaches. -/
theorem of_exec {cells : ℤ → SyPthreadPoolTask F A} {n q : UInt32} {as : List (Act F A)}
    (h : exec Machine.step (Machine.start cells n q) as = some s) : Safe s :=
  inv_of_exec (fun _ _ _ hs ht => hs.step ht) (start cells n q) h

end Safe

namespace Kinds

theorem start (cells : ℤ → SyPthreadPoolTask F A) (n q : UInt32) :
    Kinds (Machine.start cells n q)
  | .worker i => by simp only [Machine.start]; split_ifs <;> rfl
  | .caller _ => rfl

variable {s t : Machine F A} {k : Tid}

/-- A thread stays in its own code. -/
theorem update (h : Kinds s) {x y : Pc F A} (hx : s.pc k = x) (hy : y.ofWorker = x.ofWorker)
    (m : Tid) : ((Function.update s.pc k y) m).ofWorker = m.isWorker := by
  by_cases hmk : m = k
  · subst hmk; rw [Function.update_self, hy, ← hx]; exact h m
  · rw [Function.update_of_ne hmk]; exact h m

/-- Only workers sleep. -/
theorem wake (h : Kinds s) {i : ℕ} : Kinds (s.goto (.worker i) .wake) := by
  intro m
  show ((Function.update s.pc (.worker i) .wake) m).ofWorker = m.isWorker
  by_cases hm : m = .worker i
  · subst hm; rw [Function.update_self]; rfl
  · rw [Function.update_of_ne hm]; exact h m

theorem broadcast (h : Kinds s) (hpc : s.pc k = .closeBroadcast) :
    Kinds (s.broadcast k .closeUnlock) := by
  have hk : k.isWorker = false := by rw [← h k, hpc]; rfl
  intro m
  show ((Function.update s.rousedPc k .closeUnlock) m).ofWorker = m.isWorker
  by_cases hm : m = k
  · subst hm; rw [Function.update_self]; exact hk.symm
  · rw [Function.update_of_ne hm]
    cases m with
    | worker i => simp only [Machine.rousedPc]; split_ifs; exacts [rfl, h (.worker i)]
    | caller j => exact h (.caller j)

theorem move (h : Kinds s) (hm : Moves s k t) : Kinds t := by
  cases hm with
  | addSignal hpc ha =>
    refine h.wake.update (x := .addSignal) ?_ rfl
    refine (Function.update_of_ne ?_ _ _).trans hpc
    rintro rfl
    rw [hpc] at ha
    cases ha
  | closeBroadcast hpc => exact h.broadcast hpc
  | lock hpc | sleep hpc | awake hpc | wake hpc | retry hpc | notFull hpc | leaves hpc | stays hpc
  | take hpc | unlock hpc | run hpc | leave hpc | leaveUnlock hpc | addLockErr hpc | addLock hpc
  | addMax hpc | addRoom hpc | addCloses hpc | addStays hpc | addStore hpc | addSignalErr hpc
  | addSignalNone hpc | addUnlock hpc | closeLockErr hpc | closeLock hpc | closeBroadcastErr hpc
  | closeUnlock hpc | closeFree hpc => exact h.update hpc rfl

theorem step {a : Act F A} (h : Kinds s) (hs : s.step a = some t) : Kinds t := by
  cases happens_of_step hs with
  | fault => exact h
  | move _ hm => exact h.move hm
  | spurious => exact h.wake
  | addNull hpc | add hpc | close hpc => exact h.update hpc rfl

end Kinds

end Syinx.Pthread
