import Syinx.Pthread.Machine

/-!
# Every task is delivered once, in order

The workers take the tasks in the order in which `AddTaskFunc` stored them: in
every state of every run of the pool, the tasks taken so far followed by the
pending ones are the tasks stored so far.

The two pieces of code that touch the array run behind the mutex, each at a point
where the count has been tested (`Safe.fact`): a worker takes a task only from a
queue that is not empty, `AddTaskFunc` stores one only in a queue that is not
full. So each is a step of the circular buffer, and nothing else is.
-/

namespace Syinx.Pthread

open Syinx.Library

variable {F A : Type}

/-- What has been taken and what is pending is what was stored, in order, and the
array and its indices represent what is pending. -/
structure Delivered (q : ℤ) (s : Machine F A) : Prop where
  /-- The size of the array never changes. -/
  size : s.pool.queueSize = q
  /-- The array is a circular buffer. -/
  ring : s.pool.RingInv
  /-- Nothing is lost, doubled, overwritten or reordered. -/
  fifo : s.taken ++ s.pool.pending = s.stored

namespace Delivered

variable {q : ℤ} {s t : Machine F A} {k : Tid}

theorem congr (h : Delivered q s) (hp : t.pool = s.pool) (ht : t.taken = s.taken)
    (hs : t.stored = s.stored) : Delivered q t := by
  refine ⟨?_, ?_, ?_⟩
  · rw [hp]; exact h.size
  · rw [hp]; exact h.ring
  · rw [hp, ht, hs]; exact h.fifo

/-- The pool just started is an empty circular buffer. -/
theorem start (cells : ℤ → SyPthreadPoolTask F A) {n q : UInt32} (h1 : 1 ≤ q)
    (h2 : q.toNat < 2 ^ 31) : Delivered q.toNat (Machine.start cells n q) := by
  have r : (ThreadPool.new cells n q).RingInv := .new h1 h2
  exact ⟨intOfUint32_eq h2, ⟨r.head, r.tail, r.count, r.tail_eq⟩, rfl⟩

/-- A thread's step keeps the invariant. -/
theorem move (h : Delivered q s) (hs : Safe s) (hm : Moves s k t) : Delivered q t := by
  cases hm with
  | take hpc =>
    obtain ⟨hc, -⟩ := hs.fact hpc rfl
    refine ⟨h.size, h.ring.dequeue hc, ?_⟩
    rw [← h.fifo, ThreadPool.pending_dequeue h.ring hc, List.append_assoc]
    rfl
  | @addStore x hpc =>
    have hc : s.pool.count ≠ s.pool.queueSize := hs.fact hpc rfl
    refine ⟨h.size, h.ring.enqueue hc x, ?_⟩
    show s.taken ++ (s.pool.enqueue x).pending = s.stored ++ [x]
    rw [ThreadPool.pending_enqueue h.ring hc, ← List.append_assoc, h.fifo]
  | leave hpc => exact (hs.fact hpc rfl).elim
  | _ => exact h.congr rfl rfl rfl

/-- A step of the machine keeps the invariant. -/
theorem step {a : Act F A} (h : Delivered q s) (hs : Safe s) (hst : s.step a = some t) :
    Delivered q t := by
  cases happens_of_step hst with
  | move _ hm => exact h.move hs hm
  | _ => exact h.congr rfl rfl rfl

end Delivered

/-- **Exactly once, in order.** In every state that any run of the pool reaches,
what the workers have taken followed by the pending entries of `Taskqueue` is
what `AddTaskFunc` has stored, and the indices and the count are in range and
agree. -/
theorem delivered_of_exec (cells : ℤ → SyPthreadPoolTask F A) (n q : UInt32) (h1 : 1 ≤ q)
    (h2 : q.toNat < 2 ^ 31) (as : List (Act F A)) (s : Machine F A)
    (h : exec Machine.step (Machine.start cells n q) as = some s) :
    Delivered q.toNat s := by
  refine (inv_of_exec (I := fun s => Safe s ∧ Delivered q.toNat s) ?_
    ⟨Safe.start cells n q, .start cells h1 h2⟩ h).2
  rintro s a t ⟨hs, hd⟩ hst
  exact ⟨hs.step hst, hd.step hs hst⟩

/-- A run: a task is stored, and worker `0` takes it. -/
def storeAndTake : List (Act ℕ ℕ) :=
  [.addTaskFunc 0 (some 7) 5, .caller 0 none, .caller 0 none, .caller 0 none, .caller 0 none,
    .caller 0 none, .caller 0 none, .worker 0, .worker 0, .worker 0, .worker 0, .worker 0]

/-- The run goes through, and what it delivered is what was stored. -/
theorem delivered_storeAndTake :
    ∃ s, exec Machine.step (Machine.start (fun _ => ⟨0, 0⟩) 1 2) storeAndTake = some s ∧
      s.taken = [⟨7, 5⟩] ∧ Delivered 2 s :=
  ⟨_, rfl, rfl, delivered_of_exec (fun _ => ⟨0, 0⟩) 1 2 (by decide) (by decide) storeAndTake _ rfl⟩

end Syinx.Pthread
