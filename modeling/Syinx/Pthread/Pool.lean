import Syinx.Library.Ring

/-!
# The thread pool's data

`threadpool_t` of `SyPthreadPool.h`: a circular array of tasks behind a mutex,
with the number of pending tasks, the two indices and the closing flag. This
module has the data and the two things that are done to the array:
`AddTaskFunc` stores a task at `TailIndex`, a worker takes the one at
`HeadIndex`.

The C `int` fields are integers. The indices and the count stay below
`queue_size`, which fits an `int` (`intOfUint32_eq`), so no arithmetic on them
wraps. The mutex and the condition variable are not data here: who holds the
mutex and who waits is the machine's business (`Syinx.Pthread.Machine`).

## What is proved

* `RingInv` — the representation invariant of the task queue, kept by storing a
  task in a queue that is not full (`RingInv.enqueue`) and by taking one from a
  queue that is not empty (`RingInv.dequeue`).
* `pending_enqueue`, `pending_dequeue` — the two operations are the two ends of
  a FIFO queue.
* `ahead_enqueue`, `ahead_dequeue` — the same, cell by cell, for any `queue_size`.
-/

namespace Syinx.Pthread

open Syinx.Library

/-- `SyPthreadPool_task_t`: a function and its argument. -/
structure SyPthreadPoolTask (F A : Type) where
  /-- `startfunc`. -/
  startfunc : F
  /-- `arg`. -/
  arg : A
  deriving DecidableEq

/-- `SyPthreadPoolErr`. -/
inductive SyPthreadPoolErr where
  | poolErr
  | success
  | mutexInitErr
  | condInitErr
  | lockErr
  | unLockErr
  | condWaitErr
  | condSignalErr
  | deleteErr
  | distoryErr
  | varIsNULL
  | queueIsMax
  | pthShutdown
  deriving DecidableEq

/-- `threadpool_t`, without its mutex, its condition variable and its thread
handles. -/
structure ThreadPool (F A : Type) where
  /-- `Taskqueue`. -/
  taskqueue : ℤ → SyPthreadPoolTask F A
  /-- `queue_size`. -/
  queueSize : ℤ
  /-- `count`. -/
  count : ℤ
  /-- `HeadIndex`. -/
  headIndex : ℤ
  /-- `TailIndex`. -/
  tailIndex : ℤ
  /-- `thread_count`. -/
  threadCount : ℤ
  /-- `PthpoolClose`. -/
  pthpoolClose : Bool
  /-- `started`. -/
  started : ℤ

/-- The conversion of a `uint32_t` to an `int`. -/
def intOfUint32 (n : UInt32) : ℤ := n.toBitVec.toInt

theorem intOfUint32_eq {n : UInt32} (h : n.toNat < 2 ^ 31) : intOfUint32 n = n.toNat := by
  unfold intOfUint32
  rw [BitVec.toInt_eq_toNat_cond]
  have : n.toBitVec.toNat = n.toNat := rfl
  split_ifs <;> omega

theorem intOfUint32_ne_zero {n : UInt32} (h : 1 ≤ n) : intOfUint32 n ≠ 0 := by
  unfold intOfUint32
  have h1 : 1 ≤ n.toNat := UInt32.le_iff_toNat_le.mp h
  have h2 : n.toBitVec.toNat = n.toNat := rfl
  have h3 := n.toBitVec.isLt
  rw [BitVec.toInt_eq_toNat_cond]
  split_ifs <;> omega

namespace ThreadPool

variable {F A : Type}

/-- The pool as `Initialize` fills it in; `new` leaves the cells of `Taskqueue`
as they happen to be. -/
def new (cells : ℤ → SyPthreadPoolTask F A) (thread_count queue_size : UInt32) : ThreadPool F A where
  taskqueue := cells
  queueSize := intOfUint32 queue_size
  count := 0
  headIndex := 0
  tailIndex := 0
  threadCount := intOfUint32 thread_count
  pthpoolClose := false
  started := 0

/-- `AddTaskFunc` stores a task: the cell at `TailIndex`, then `_Index`, then
`++count`. -/
def enqueue (p : ThreadPool F A) (t : SyPthreadPoolTask F A) : ThreadPool F A :=
  { p with
    taskqueue := Function.update p.taskqueue p.tailIndex t
    tailIndex := Ring.next p.queueSize p.tailIndex
    count := p.count + 1 }

/-- The task a worker takes. -/
def front (p : ThreadPool F A) : SyPthreadPoolTask F A := p.taskqueue p.headIndex

/-- A worker has taken a task: `++HeadIndex`, back to `0` at `queue_size`, and
`--count`. -/
def dequeue (p : ThreadPool F A) : ThreadPool F A :=
  { p with
    headIndex := Ring.next p.queueSize p.headIndex
    count := p.count - 1 }

/-- The pending tasks: the `count` entries of `Taskqueue` from `HeadIndex` on,
modulo `queue_size`. -/
def pending (p : ThreadPool F A) : List (SyPthreadPoolTask F A) :=
  Ring.entries p.taskqueue p.queueSize p.headIndex p.count.toNat

/-- The representation invariant of the task queue. -/
structure RingInv (p : ThreadPool F A) : Prop where
  /-- `HeadIndex` is an index of the array. -/
  head : 0 ≤ p.headIndex ∧ p.headIndex < p.queueSize
  /-- So is `TailIndex`. -/
  tail : 0 ≤ p.tailIndex ∧ p.tailIndex < p.queueSize
  /-- No more tasks are pending than fit. -/
  count : 0 ≤ p.count ∧ p.count ≤ p.queueSize
  /-- `TailIndex` is `count` cells behind `HeadIndex`. -/
  tail_eq : p.tailIndex = (p.headIndex + p.count) % p.queueSize

theorem RingInv.new {cells : ℤ → SyPthreadPoolTask F A} {n q : UInt32} (h1 : 1 ≤ q)
    (h2 : q.toNat < 2 ^ 31) : RingInv (ThreadPool.new cells n q) := by
  have hq : (1 : ℤ) ≤ q.toNat := by exact_mod_cast UInt32.le_iff_toNat_le.mp h1
  have hs : (ThreadPool.new cells n q).queueSize = q.toNat := intOfUint32_eq h2
  refine ⟨⟨le_rfl, ?_⟩, ⟨le_rfl, ?_⟩, ⟨le_rfl, ?_⟩, ?_⟩
  · rw [hs]; exact hq
  · rw [hs]; exact hq
  · rw [hs]; exact zero_le_one.trans hq
  · simp [ThreadPool.new]

/-- Storing a task in a queue that is not full keeps the invariant. -/
theorem RingInv.enqueue {p : ThreadPool F A} (h : RingInv p) (hc : p.count ≠ p.queueSize)
    (t : SyPthreadPoolTask F A) : RingInv (p.enqueue t) := by
  have hcount := h.count
  refine ⟨h.head, ⟨Ring.next_nonneg h.tail.1, Ring.next_lt h.tail.1 h.tail.2⟩, ?_, ?_⟩
  · simp only [ThreadPool.enqueue]; omega
  · simp only [ThreadPool.enqueue]
    rw [Ring.next_eq_emod h.tail.1 h.tail.2, h.tail_eq, Int.emod_add_emod, add_assoc]

/-- Taking a task from a queue that is not empty keeps the invariant. -/
theorem RingInv.dequeue {p : ThreadPool F A} (h : RingInv p) (hc : p.count ≠ 0) :
    RingInv p.dequeue := by
  have hcount := h.count
  refine ⟨⟨Ring.next_nonneg h.head.1, Ring.next_lt h.head.1 h.head.2⟩, h.tail, ?_, ?_⟩
  · simp only [ThreadPool.dequeue]; omega
  · simp only [ThreadPool.dequeue]
    rw [Ring.next_eq_emod h.head.1 h.head.2, Int.emod_add_emod, h.tail_eq]
    congr 1
    ring

/-- Storing a task appends it to the pending ones. -/
theorem pending_enqueue {p : ThreadPool F A} (h : RingInv p) (hc : p.count ≠ p.queueSize)
    (t : SyPthreadPoolTask F A) : (p.enqueue t).pending = p.pending ++ [t] := by
  have hcount := h.count
  have hn : ((p.count.toNat : ℕ) : ℤ) = p.count := Int.toNat_of_nonneg hcount.1
  have hs : (p.count + 1).toNat = p.count.toNat + 1 := by omega
  unfold pending
  simp only [ThreadPool.enqueue]
  rw [hs, h.tail_eq]
  conv_lhs => rw [← hn]
  exact Ring.entries_push (by omega) t

/-- A worker takes the first of the pending tasks. -/
theorem pending_dequeue {p : ThreadPool F A} (h : RingInv p) (hc : p.count ≠ 0) :
    p.pending = p.front :: p.dequeue.pending := by
  have hcount := h.count
  have hs : p.count.toNat = (p.count - 1).toNat + 1 := by omega
  unfold pending
  rw [hs]
  exact Ring.entries_pop h.head.1 h.head.2

@[simp] theorem pending_new (cells : ℤ → SyPthreadPoolTask F A) (n q : UInt32) :
    (ThreadPool.new cells n q).pending = [] := rfl

@[simp] theorem length_pending (p : ThreadPool F A) : p.pending.length = p.count.toNat :=
  Ring.length_entries ..

/-! ### A queue of any size -/

/-- The task `j` places behind the head. -/
def ahead (p : ThreadPool F A) (j : ℕ) : SyPthreadPoolTask F A :=
  p.taskqueue ((Ring.next p.queueSize)^[j] p.headIndex)

/-- `TailIndex` is `count` places behind the head, whatever `queue_size` is. -/
structure Chained (p : ThreadPool F A) : Prop where
  count : 0 ≤ p.count
  tail : p.tailIndex = (Ring.next p.queueSize)^[p.count.toNat] p.headIndex

theorem Chained.enqueue {p : ThreadPool F A} (h : Chained p) (t : SyPthreadPoolTask F A) :
    Chained (p.enqueue t) := by
  have hcount := h.count
  have hs : (p.count + 1).toNat = p.count.toNat + 1 := by omega
  refine ⟨by simp only [ThreadPool.enqueue]; omega, ?_⟩
  simp only [ThreadPool.enqueue]
  rw [hs, Function.iterate_succ_apply', ← h.tail]

theorem Chained.dequeue {p : ThreadPool F A} (h : Chained p) (hc : p.count ≠ 0) :
    Chained p.dequeue := by
  have hcount := h.count
  have hs : p.count.toNat = (p.count - 1).toNat + 1 := by omega
  refine ⟨by simp only [ThreadPool.dequeue]; omega, ?_⟩
  simp only [ThreadPool.dequeue]
  rw [h.tail, hs, Function.iterate_succ_apply]

@[simp] theorem ahead_dequeue (p : ThreadPool F A) (j : ℕ) : p.dequeue.ahead j = p.ahead (j + 1) := rfl

/-- A place in the queue holds the new task, or what it held before. -/
theorem ahead_enqueue (p : ThreadPool F A) (t : SyPthreadPoolTask F A) (j : ℕ) :
    (p.enqueue t).ahead j = t ∨
      ((Ring.next p.queueSize)^[j] p.headIndex ≠ p.tailIndex ∧ (p.enqueue t).ahead j = p.ahead j) := by
  by_cases hj : (Ring.next p.queueSize)^[j] p.headIndex = p.tailIndex
  · refine .inl ?_
    simp only [ahead, ThreadPool.enqueue]
    rw [hj, Function.update_self]
  · refine .inr ⟨hj, ?_⟩
    simp only [ahead, ThreadPool.enqueue]
    rw [Function.update_of_ne hj]

end ThreadPool

end Syinx.Pthread
