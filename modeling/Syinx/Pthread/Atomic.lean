import Syinx.Library.Delay
import Syinx.Pthread.Machine

/-!
# The pool without its lock

What the pool is for, as its callers see it: a bounded queue of tasks. A worker takes the first
task at one stroke, and so does `AddTaskFunc` append one; what happens to the mutex, the
condition variable and the array is not seen. Four ways out leave the mutex locked; the queue
is `lost` then, and nobody gets at it any more.

A call takes effect at some time before it returns, and a task is run at some time after it was
taken: other threads may come in between. So both the queue and `Syinx.Pthread.Machine`, which has
a step for each `pthread` call and each access to the pool, are `Threads`, and what can be seen of
them is what emerges from their `delayed` runs. `Syinx.Pthread.Refinement` carries the runs of
the machine over to runs of the queue.

## What is proved

* `Atomic.moves_of_step` — all that can happen to the queue, as a list of cases.
* `Atomic.books` — **what the callers know**: between what is seen there are moments at which the
  tasks are stored and taken, in one order and with a bounded number of them left. A thread is
  told of what it has stored, and runs what it has taken, in this order, and is behind by one
  task at most.
* `Atomic.lost_of_jams`, `Atomic.ran_of_lost` — **after a failure**: when an `AddTaskFunc` has
  returned `QueueIsMax`, or a call `CondSignalErr`, a worker runs the task that it has in hand,
  and no other one.
-/

namespace Syinx.Pthread

open Syinx.Library

variable {F A : Type}

/-! ### The queue -/

/-- Where a thread stands, for the queue. -/
inductive Stop (F A : Type) where
  /-- A worker before it takes a task. -/
  | top
  /-- Behind the `continue` that kept the mutex. -/
  | stuck
  /-- With a task that it has taken. -/
  | run (t : SyPthreadPoolTask F A)
  /-- The thread has ended, or was never started. -/
  | exited
  /-- A caller that is through with the pool, with what its last call returns. -/
  | idle (ret : Option SyPthreadPoolErr)
  /-- In `AddTaskFunc`. -/
  | adding (t : SyPthreadPoolTask F A)
  /-- In `Close`. -/
  | closing
  /-- At `SyPthreadPool_free`. -/
  | freeing

/-- A bounded queue of tasks, with the threads that use it. -/
structure Atomic (F A : Type) where
  /-- `queue_size`. -/
  size : ℕ
  /-- The pending tasks. -/
  queue : List (SyPthreadPoolTask F A)
  /-- `SyPthreadPool_free` has released it. -/
  freed : Bool
  /-- Who has left the mutex locked. -/
  lost : Option Tid
  /-- Where the threads stand. -/
  stop : Tid → Stop F A

/-- What can happen. -/
inductive AtomicAct (F A : Type) where
  /-- Worker `i` takes a task, or keeps the mutex. -/
  | take (i : ℕ)
  /-- The task of worker `i` returns. -/
  | finish (i : ℕ)
  /-- Caller `j` calls `AddTaskFunc`. -/
  | addTaskFunc (j : ℕ) (callback : Option F) (arg : A)
  /-- The `AddTaskFunc` of caller `j`; what its `pthread` calls report. -/
  | add (j : ℕ) (lock signal : Bool)
  /-- Caller `j` calls `Close`. -/
  | close (j : ℕ)
  /-- The `Close` of caller `j`; what its `pthread` calls report. -/
  | rouse (j : ℕ) (lock broadcast : Bool)
  /-- `SyPthreadPool_free`, by caller `j`. -/
  | free (j : ℕ)

/-- What can be seen of the pool from outside. -/
inductive Seen (F A : Type) where
  /-- Caller `j` calls `AddTaskFunc`. -/
  | addTaskFunc (j : ℕ) (callback : Option F) (arg : A)
  /-- Caller `j` calls `Close`. -/
  | close (j : ℕ)
  /-- The call of thread `k` returns. -/
  | returns (k : Tid) (ret : Option SyPthreadPoolErr)
  /-- Thread `k` runs a task. -/
  | runs (k : Tid) (t : SyPthreadPoolTask F A)

/-- The thread that it is seen of. -/
def Seen.thread : Seen F A → Tid
  | .addTaskFunc j _ _ | .close j => .caller j
  | .returns k _ | .runs k _ => k

/-- What is to be seen of thread `k` when it has got there. -/
def Stop.shows (k : Tid) : Stop F A → List (Seen F A)
  | .run t => [.runs k t]
  | .idle r => [.returns k r]
  | _ => []

/-- What is to be seen of thread `k` when it has got there. -/
def Pc.shows (k : Tid) : Pc F A → List (Seen F A)
  | .run t => [.runs k t]
  | .idle r => [.returns k r]
  | _ => []

/-- The thread that acts. -/
def Act.thread : Act F A → Tid
  | .run k _ _ => k
  | .spurious i => .worker i
  | .addTaskFunc j _ _ | .close j => .caller j

/-- The thread that acts. -/
def AtomicAct.thread : AtomicAct F A → Tid
  | .take i | .finish i => .worker i
  | .addTaskFunc j _ _ | .add j _ _ | .close j | .rouse j _ _ | .free j => .caller j

/-- The call that the action is. -/
def Act.uses : Act F A → List (Seen F A)
  | .addTaskFunc j callback arg => [.addTaskFunc j callback arg]
  | .close j => [.close j]
  | _ => []

/-- The call that the action is. -/
def AtomicAct.uses : AtomicAct F A → List (Seen F A)
  | .addTaskFunc j callback arg => [.addTaskFunc j callback arg]
  | .close j => [.close j]
  | _ => []

namespace Atomic

/-- The empty queue with `n` workers. -/
def start (n size : ℕ) : Atomic F A where
  size := size
  queue := []
  freed := false
  lost := none
  stop
    | .worker i => if i < n then .top else .exited
    | .caller _ => .idle none

/-- Thread `k` moves on to `x`. -/
def goto (s : Atomic F A) (k : Tid) (x : Stop F A) : Atomic F A :=
  { s with stop := Function.update s.stop k x }

/-- Thread `k` moves on to `x` and leaves the mutex locked. -/
def lose (s : Atomic F A) (k : Tid) (x : Stop F A) : Atomic F A :=
  { s with lost := some k, stop := Function.update s.stop k x }

/-- A task is appended. -/
def push (s : Atomic F A) (t : SyPthreadPoolTask F A) : Atomic F A :=
  { s with queue := s.queue ++ [t] }

/-- `AddTaskFunc` with the task `t`, by thread `k`. -/
def add (s : Atomic F A) (k : Tid) (t : SyPthreadPoolTask F A) (lock signal : Bool) :
    Option (Atomic F A) :=
  if lock = false then some (s.goto k (.idle (some .lockErr)))
  else if s.lost ≠ none then none
  else if s.queue.length = s.size then some (s.lose k (.idle (some .queueIsMax)))
  else if signal = false then some ((s.push t).lose k (.idle (some .condSignalErr)))
  else some ((s.push t).goto k (.idle (some .success)))

/-- A step of the queue. -/
def step (s : Atomic F A) : AtomicAct F A → Option (Atomic F A)
  | .take i =>
    match s.stop (.worker i), s.queue with
    | .top, t :: rest =>
      if s.freed ∨ s.lost ≠ none then none
      else if s.queue.length = s.size then some (s.lose (.worker i) .stuck)
      else some ({ s with queue := rest }.goto (.worker i) (.run t))
    | _, _ => none
  | .finish i =>
    match s.stop (.worker i) with
    | .run _ => some (s.goto (.worker i) .top)
    | _ => none
  | .addTaskFunc j callback arg =>
    match s.stop (.caller j), callback with
    | .idle _, none => some (s.goto (.caller j) (.idle (some .varIsNULL)))
    | .idle _, some f => some (s.goto (.caller j) (.adding ⟨f, arg⟩))
    | _, _ => none
  | .add j lock signal =>
    match s.stop (.caller j) with
    | .adding t => if s.freed then none else s.add (.caller j) t lock signal
    | _ => none
  | .close j =>
    match s.stop (.caller j) with
    | .idle _ => some (s.goto (.caller j) .closing)
    | _ => none
  | .rouse j lock broadcast =>
    match s.stop (.caller j) with
    | .closing =>
      if s.freed then none
      else if lock = false then some (s.goto (.caller j) (.idle (some .lockErr)))
      else if s.lost ≠ none then none
      else if broadcast = false then some (s.lose (.caller j) (.idle (some .condSignalErr)))
      else some (s.goto (.caller j) .freeing)
    | _ => none
  | .free j =>
    match s.stop (.caller j) with
    | .freeing =>
      if s.freed then none
      else some ({ s with freed := true }.goto (.caller j) (.idle (some .success)))
    | _ => none

end Atomic

/-- The threads of the pool. -/
def Machine.threads : Threads (Machine F A) (Act F A) Tid (Seen F A) where
  step := Machine.step
  thread := Act.thread
  calls := Act.uses
  shows m k := (m.pc k).shows k

/-- The threads of the queue. -/
def Atomic.threads : Threads (Atomic F A) (AtomicAct F A) Tid (Seen F A) where
  step := Atomic.step
  thread := AtomicAct.thread
  calls := AtomicAct.uses
  shows a k := (a.stop k).shows k

/-! ### What a step does -/

/-- **All that can happen** to the queue `a`. -/
inductive Atomic.Moves (a : Atomic F A) : AtomicAct F A → Atomic F A → Prop
  | take {i t rest} : a.stop (.worker i) = .top → a.lost = none → a.queue = t :: rest →
      Moves a (.take i) ({ a with queue := rest }.goto (.worker i) (.run t))
  | retry {i} : a.stop (.worker i) = .top → a.lost = none → a.queue.length = a.size →
      Moves a (.take i) (a.lose (.worker i) .stuck)
  | finish {i t} : a.stop (.worker i) = .run t → Moves a (.finish i) (a.goto (.worker i) .top)
  | addNull {j arg r} : a.stop (.caller j) = .idle r →
      Moves a (.addTaskFunc j none arg) (a.goto (.caller j) (.idle (some .varIsNULL)))
  | call {j f arg r} : a.stop (.caller j) = .idle r →
      Moves a (.addTaskFunc j (some f) arg) (a.goto (.caller j) (.adding ⟨f, arg⟩))
  | addLockErr {j t signal} : a.stop (.caller j) = .adding t →
      Moves a (.add j false signal) (a.goto (.caller j) (.idle (some .lockErr)))
  | addMax {j t signal} : a.stop (.caller j) = .adding t → a.lost = none →
      a.queue.length = a.size →
      Moves a (.add j true signal) (a.lose (.caller j) (.idle (some .queueIsMax)))
  | addSignalErr {j t} : a.stop (.caller j) = .adding t → a.lost = none →
      a.queue.length ≠ a.size →
      Moves a (.add j true false) ((a.push t).lose (.caller j) (.idle (some .condSignalErr)))
  | add {j t} : a.stop (.caller j) = .adding t → a.lost = none → a.queue.length ≠ a.size →
      Moves a (.add j true true) ((a.push t).goto (.caller j) (.idle (some .success)))
  | close {j r} : a.stop (.caller j) = .idle r → Moves a (.close j) (a.goto (.caller j) .closing)
  | rouseLockErr {j broadcast} : a.stop (.caller j) = .closing →
      Moves a (.rouse j false broadcast) (a.goto (.caller j) (.idle (some .lockErr)))
  | rouseErr {j} : a.stop (.caller j) = .closing → a.lost = none →
      Moves a (.rouse j true false) (a.lose (.caller j) (.idle (some .condSignalErr)))
  | rouse {j} : a.stop (.caller j) = .closing → a.lost = none →
      Moves a (.rouse j true true) (a.goto (.caller j) .freeing)
  | free {j} : a.stop (.caller j) = .freeing →
      Moves a (.free j) ({ a with freed := true }.goto (.caller j) (.idle (some .success)))

namespace Atomic

variable {a a' : Atomic F A} {b : AtomicAct F A} {k : Tid} {x : Stop F A}

@[simp] theorem stop_goto : (a.goto k x).stop k = x := Function.update_self ..

@[simp] theorem stop_lose : (a.lose k x).stop k = x := Function.update_self ..

@[simp] theorem lost_goto : (a.goto k x).lost = a.lost := rfl

@[simp] theorem lost_lose : (a.lose k x).lost = some k := rfl

@[simp] theorem queue_goto : (a.goto k x).queue = a.queue := rfl

@[simp] theorem queue_lose : (a.lose k x).queue = a.queue := rfl

@[simp] theorem queue_push (t : SyPthreadPoolTask F A) : (a.push t).queue = a.queue ++ [t] := rfl

@[simp] theorem lost_push (t : SyPthreadPoolTask F A) : (a.push t).lost = a.lost := rfl

/-- A step of the queue is one of the cases. -/
theorem moves_of_step (h : a.step b = some a') : a.Moves b a' := by
  unfold step at h
  split at h <;> split at h
  · rename_i hstop hqueue
    split_ifs at h with hl hfull
    · cases h; exact .retry hstop (by simpa using fun hf => hl (.inr hf)) hfull
    · cases h; exact .take hstop (by simpa using fun hf => hl (.inr hf)) hqueue
  · cases h
  · rename_i hstop; cases h; exact .finish hstop
  · cases h
  · rename_i hstop; cases h; exact .addNull hstop
  · rename_i hstop; cases h; exact .call hstop
  · cases h
  · rename_i hstop
    split_ifs at h with hfreed
    unfold add at h
    split_ifs at h with hlock hl hfull hs
    · cases h; subst hlock; exact .addLockErr hstop
    · cases h
      rw [Bool.not_eq_false] at hlock
      subst hlock
      exact .addMax hstop (not_not.mp hl) hfull
    · cases h
      rw [Bool.not_eq_false] at hlock
      subst hlock hs
      exact .addSignalErr hstop (not_not.mp hl) hfull
    · cases h
      rw [Bool.not_eq_false] at hlock hs
      subst hlock hs
      exact .add hstop (not_not.mp hl) hfull
  · cases h
  · rename_i hstop; cases h; exact .close hstop
  · cases h
  · rename_i hstop
    split_ifs at h with hfreed hlock hl hb
    · cases h; subst hlock; exact .rouseLockErr hstop
    · cases h
      rw [Bool.not_eq_false] at hlock
      subst hlock hb
      exact .rouseErr hstop (not_not.mp hl)
    · cases h
      rw [Bool.not_eq_false] at hlock hb
      subst hlock hb
      exact .rouse hstop (not_not.mp hl)
  · cases h
  · rename_i hstop
    split_ifs at h
    cases h
    exact .free hstop
  · cases h

end Atomic

/-! ### What is seen of one thread -/

/-- What has been seen of thread `k`. -/
def ofThread (k : Tid) (ys : List (Seen F A)) : List (Seen F A) := ys.filter fun y => y.thread = k

/-- The task that the thread is about to add, when it was `p` before. -/
def Seen.asks (p : Option (SyPthreadPoolTask F A)) : Seen F A → Option (SyPthreadPoolTask F A)
  | .addTaskFunc _ callback arg => callback.map fun f => ⟨f, arg⟩
  | .close _ | .returns _ _ => none
  | .runs _ _ => p

/-- The task that the thread is about to add, when all that has been seen. -/
def asked (p : Option (SyPthreadPoolTask F A)) (ys : List (Seen F A)) :
    Option (SyPthreadPoolTask F A) := ys.foldl Seen.asks p

/-- The task that has been accepted: the call that asked for it returns `Success`, or
`CondSignalErr`, which it does with the task in the queue. -/
def Seen.accepts (p : Option (SyPthreadPoolTask F A)) : Seen F A → List (SyPthreadPoolTask F A)
  | .returns _ (some .success) | .returns _ (some .condSignalErr) => p.toList
  | _ => []

/-- The tasks of the thread that have been accepted, in order. -/
def accepted : Option (SyPthreadPoolTask F A) → List (Seen F A) → List (SyPthreadPoolTask F A)
  | _, [] => []
  | p, y :: ys => y.accepts p ++ accepted (y.asks p) ys

/-- The task that is run. -/
def Seen.task : Seen F A → Option (SyPthreadPoolTask F A)
  | .runs _ t => some t
  | _ => none

/-- The tasks that have been run, in order. -/
def ran (ys : List (Seen F A)) : List (SyPthreadPoolTask F A) := ys.filterMap Seen.task

section OneThread

variable {k l : Tid} {p : Option (SyPthreadPoolTask F A)} {xs ys : List (Seen F A)}

theorem ofThread_append : ofThread k (xs ++ ys) = ofThread k xs ++ ofThread k ys :=
  List.filter_append ..

theorem ofThread_self (h : ∀ y ∈ ys, y.thread = k) : ofThread k ys = ys :=
  List.filter_eq_self.mpr fun y hy => decide_eq_true (h y hy)

theorem ofThread_of_ne (hne : l ≠ k) (h : ∀ y ∈ ys, y.thread = k) : ofThread l ys = [] :=
  List.filter_eq_nil_iff.mpr fun y hy => by rw [h y hy, decide_eq_true_eq]; exact hne.symm

theorem asked_append : asked p (xs ++ ys) = asked (asked p xs) ys := List.foldl_append

theorem accepted_append : accepted p (xs ++ ys) = accepted p xs ++ accepted (asked p xs) ys := by
  induction xs generalizing p with
  | nil => rfl
  | cons x xs ih =>
    rw [List.cons_append, accepted, ih, accepted, List.append_assoc]
    rfl

theorem ran_append : ran (xs ++ ys) = ran xs ++ ran ys := List.filterMap_append

theorem Seen.accepts_prefix (y : Seen F A) : y.accepts p <+: p.toList := by
  unfold Seen.accepts
  split
  · exact List.prefix_rfl
  · exact List.prefix_rfl
  · exact List.nil_prefix

/-- One thing that is seen accepts one task, the one that was asked for. -/
theorem accepted_isPrefix (h : ys.length ≤ 1) : accepted p ys <+: p.toList := by
  match ys, h with
  | [], _ => exact List.nil_prefix
  | [y], _ => simpa [accepted] using y.accepts_prefix

end OneThread

theorem Stop.thread_of_shows {x : Stop F A} {k : Tid} : ∀ y ∈ x.shows k, y.thread = k := by
  cases x <;> simp [Stop.shows, Seen.thread]

theorem Stop.length_shows_le (x : Stop F A) (k : Tid) : (x.shows k).length ≤ 1 := by
  cases x <;> simp [Stop.shows]

theorem AtomicAct.thread_of_uses {b : AtomicAct F A} : ∀ y ∈ b.uses, y.thread = b.thread := by
  cases b <;> simp [AtomicAct.uses, AtomicAct.thread, Seen.thread]

/-! ### What the callers know -/

/-- What happens to the queue: what can be seen, and what cannot. -/
inductive Deed (F A : Type) where
  /-- Something is seen. -/
  | seen (y : Seen F A)
  /-- A task is stored, by thread `k`. -/
  | stored (k : Tid) (t : SyPthreadPoolTask F A)
  /-- A task is taken, by thread `k`. -/
  | taken (k : Tid) (t : SyPthreadPoolTask F A)

/-- What can be seen of it. -/
def Deed.seen? : Deed F A → Option (Seen F A)
  | .seen y => some y
  | _ => none

/-- The task that is stored, with the thread. -/
def Deed.stored? : Deed F A → Option (Tid × SyPthreadPoolTask F A)
  | .stored k t => some (k, t)
  | _ => none

/-- The task that is taken, with the thread. -/
def Deed.taken? : Deed F A → Option (Tid × SyPthreadPoolTask F A)
  | .taken k t => some (k, t)
  | _ => none

/-- What has been seen. -/
def seenIn (ws : List (Deed F A)) : List (Seen F A) := ws.filterMap Deed.seen?

/-- What has been stored, in order. -/
def storedIn (ws : List (Deed F A)) : List (Tid × SyPthreadPoolTask F A) :=
  ws.filterMap Deed.stored?

/-- What has been taken, in order. -/
def takenIn (ws : List (Deed F A)) : List (Tid × SyPthreadPoolTask F A) := ws.filterMap Deed.taken?

/-- The tasks of thread `k`. -/
def tasksOf (k : Tid) (ps : List (Tid × SyPthreadPoolTask F A)) : List (SyPthreadPoolTask F A) :=
  (ps.filter fun p => p.1 = k).map Prod.snd

/-- The tasks of a list, without the threads. -/
def tasks (ps : List (Tid × SyPthreadPoolTask F A)) : List (SyPthreadPoolTask F A) :=
  ps.map Prod.snd

/-- **How the books stand.** -/
structure Books (size : ℕ) (ws : List (Deed F A)) : Prop where
  /-- Tasks are taken in the order in which they have been stored; so many at most are left. -/
  fifo : ∃ rest, rest.length ≤ size ∧ tasks (storedIn ws) = tasks (takenIn ws) ++ rest
  /-- What a thread has been told of has been stored; what it has stored besides it has asked for,
  and has not been told of yet. -/
  accepted (k : Tid) :
    accepted none (ofThread k (seenIn ws)) <+: tasksOf k (storedIn ws) ∧
      tasksOf k (storedIn ws) <+: accepted none (ofThread k (seenIn ws)) ++
        (asked none (ofThread k (seenIn ws))).toList
  /-- What a thread has run it has taken, and at most one task besides. -/
  ran (k : Tid) :
    ran (ofThread k (seenIn ws)) <+: tasksOf k (takenIn ws) ∧
      (tasksOf k (takenIn ws)).length ≤ (ran (ofThread k (seenIn ws))).length + 1

/-- The task that a thread there is about to add. -/
def Stop.asking : Stop F A → Option (SyPthreadPoolTask F A)
  | .adding t => some t
  | _ => none

/-- What an action that ends in `a` does to the queue. -/
def AtomicAct.deeds (b : AtomicAct F A) (a : Atomic F A) : List (Deed F A) :=
  match b, a.stop b.thread with
  | .take _, .run t => [.taken b.thread t]
  | .add _ _ _, .idle (some .success) | .add _ _ _, .idle (some .condSignalErr) =>
    a.queue.getLast?.toList.map (.stored b.thread)
  | _, _ => []

/-- All that happens with an action that ends in `e`. -/
def Atomic.deeds (d : DelayedAct (AtomicAct F A) Tid) (e : Delayed (Atomic F A) Tid) :
    List (Deed F A) :=
  (Atomic.threads.seen d e).map .seen ++
    match d with
    | .act b => b.deeds e.st
    | .emerge _ => []

section Lists

variable {k l : Tid} {ys : List (Seen F A)} {ts : List (SyPthreadPoolTask F A)}
  {ps qs : List (Tid × SyPthreadPoolTask F A)} {vs ws : List (Deed F A)}

theorem seenIn_append : seenIn (vs ++ ws) = seenIn vs ++ seenIn ws := List.filterMap_append

theorem storedIn_append : storedIn (vs ++ ws) = storedIn vs ++ storedIn ws := List.filterMap_append

theorem takenIn_append : takenIn (vs ++ ws) = takenIn vs ++ takenIn ws := List.filterMap_append

@[simp] theorem seenIn_map : seenIn (ys.map .seen) = ys :=
  (List.filterMap_map ..).trans List.filterMap_some

@[simp] theorem storedIn_map : storedIn (ys.map .seen) = [] :=
  (List.filterMap_map ..).trans (List.filterMap_eq_nil_iff.mpr fun _ _ => rfl)

@[simp] theorem takenIn_map : takenIn (ys.map .seen) = [] :=
  (List.filterMap_map ..).trans (List.filterMap_eq_nil_iff.mpr fun _ _ => rfl)

theorem tasksOf_append : tasksOf k (ps ++ qs) = tasksOf k ps ++ tasksOf k qs := by
  rw [tasksOf, List.filter_append, List.map_append]
  rfl

theorem tasks_append : tasks (ps ++ qs) = tasks ps ++ tasks qs := List.map_append

theorem tasksOf_self : tasksOf k (ts.map (k, ·)) = ts := by
  simp [tasksOf, List.filter_map, Function.comp_def]

theorem tasksOf_of_ne (h : l ≠ k) : tasksOf l (ts.map (k, ·)) = [] := by
  simp [tasksOf, List.filter_map, Function.comp_def, h.symm]

end Lists

namespace Atomic

variable {a a' : Atomic F A} {b : AtomicAct F A} {k : Tid}

/-- **What an action does** to the queue. -/
theorem Moves.queue_eq (h : a.Moves b a') :
    a.queue ++ tasks (storedIn (b.deeds a')) = tasks (takenIn (b.deeds a')) ++ a'.queue := by
  cases h with
  | take _ _ hqueue =>
    simp [AtomicAct.deeds, AtomicAct.thread, storedIn, takenIn, tasks, Deed.stored?, Deed.taken?,
      hqueue]
  | _ => simp [AtomicAct.deeds, AtomicAct.thread, storedIn, takenIn, tasks, Deed.stored?, Deed.taken?]

/-- It stores what the thread will be told of. -/
theorem Moves.storedIn_eq (h : a.Moves b a') :
    storedIn (b.deeds a') = (accepted (a.stop b.thread).asking
      (b.uses ++ (a'.stop b.thread).shows b.thread)).map (b.thread, ·) := by
  cases h with
  | take hstop | retry hstop | finish hstop | addNull hstop | call hstop | addLockErr hstop
  | addMax hstop | addSignalErr hstop | add hstop | close hstop | rouseLockErr hstop
  | rouseErr hstop | rouse hstop | free hstop =>
    simp [AtomicAct.deeds, AtomicAct.uses, AtomicAct.thread, storedIn, Deed.stored?, Stop.shows,
      Stop.asking, accepted, Seen.accepts, hstop]

/-- It takes what the thread will run. -/
theorem Moves.takenIn_eq (h : a.Moves b a') :
    takenIn (b.deeds a') =
      (ran (b.uses ++ (a'.stop b.thread).shows b.thread)).map (b.thread, ·) := by
  cases h <;>
    simp [AtomicAct.deeds, AtomicAct.uses, AtomicAct.thread, takenIn, Deed.taken?, Stop.shows, ran,
      Seen.task, List.filterMap_cons]

/-- The thread asks for what it has been seen to ask for. -/
theorem Moves.asking_eq (h : a.Moves b a') :
    asked (a.stop b.thread).asking (b.uses ++ (a'.stop b.thread).shows b.thread) =
      (a'.stop b.thread).asking := by
  cases h with
  | take hstop | retry hstop | finish hstop | addNull hstop | call hstop | addLockErr hstop
  | addMax hstop | addSignalErr hstop | add hstop | close hstop | rouseLockErr hstop
  | rouseErr hstop | rouse hstop | free hstop =>
    simp [AtomicAct.uses, AtomicAct.thread, Stop.shows, Stop.asking, asked, Seen.asks, hstop]

/-- The other threads stay where they are. -/
theorem Moves.stop_of_ne (h : a.Moves b a') (hk : k ≠ b.thread) : a'.stop k = a.stop k := by
  cases h <;> exact Function.update_of_ne hk ..

/-- A step keeps the queue bounded. -/
theorem Moves.length_queue_le (h : a.Moves b a') (hq : a.queue.length ≤ a.size) :
    a'.size = a.size ∧ a'.queue.length ≤ a.size := by
  cases h with
  | take _ _ hqueue =>
    rw [hqueue, List.length_cons] at hq
    exact ⟨rfl, Nat.le_of_succ_le hq⟩
  | addSignalErr _ _ hne | add _ _ hne =>
    refine ⟨rfl, ?_⟩
    show (a.queue ++ [_]).length ≤ a.size
    rw [List.length_append]
    exact Nat.lt_of_le_of_ne hq hne
  | _ => exact ⟨rfl, hq⟩

/-- The books while some threads are late: they stand as if these had shown what they owe. -/
structure Kept (size : ℕ) (e : Delayed (Atomic F A) Tid) (ws : List (Deed F A)) : Prop where
  size_eq : e.st.size = size
  length_le : e.st.queue.length ≤ size
  queue : tasks (storedIn ws) = tasks (takenIn ws) ++ e.st.queue
  asking : ∀ k, asked none (ofThread k (seenIn ws) ++ threads.owes e k) = (e.st.stop k).asking
  stored : ∀ k, tasksOf k (storedIn ws) =
    accepted none (ofThread k (seenIn ws) ++ threads.owes e k)
  taken : ∀ k, tasksOf k (takenIn ws) = ran (ofThread k (seenIn ws) ++ threads.owes e k)

variable {size n : ℕ} {e e' : Delayed (Atomic F A) Tid} {d : DelayedAct (AtomicAct F A) Tid}
  {ws : List (Deed F A)}

theorem length_owes_le (e : Delayed (Atomic F A) Tid) (k : Tid) : (threads.owes e k).length ≤ 1 := by
  unfold Threads.owes
  cases e.late k
  · exact Nat.zero_le 1
  · exact (e.st.stop k).length_shows_le k

/-- What an action does to the queue cannot be seen. -/
theorem seenIn_deeds (b : AtomicAct F A) (a : Atomic F A) : seenIn (b.deeds a) = [] := by
  unfold AtomicAct.deeds
  split <;> simp [seenIn, Deed.seen?, List.filterMap_map]

theorem Kept.books (h : Kept size e ws) : Books size ws where
  fifo := ⟨e.st.queue, h.length_le, h.queue⟩
  accepted k := by
    rw [h.stored k, accepted_append]
    exact ⟨List.prefix_append ..,
    (List.prefix_append_right_inj _).mpr (accepted_isPrefix (length_owes_le e k))⟩
  ran k := by
    rw [h.taken k, ran_append, List.length_append]
    refine ⟨List.prefix_append .., Nat.add_le_add_left ?_ _⟩
    exact (List.length_filterMap_le ..).trans (length_owes_le e k)

/-- **What the threads owe** before and after a step. -/
theorem owes_of_step (hst : threads.delayed e d = some e') :
    (∃ b, d = .act b ∧ e.st.Moves b e'.st ∧ threads.owes e b.thread = [] ∧
        threads.owes e' b.thread = (e'.st.stop b.thread).shows b.thread ∧
        ∀ l, l ≠ b.thread → threads.owes e' l = threads.owes e l) ∨
      ∃ k, d = .emerge k ∧ e'.st = e.st ∧ threads.owes e k = (e.st.stop k).shows k ∧
        threads.owes e' k = [] ∧ ∀ l, l ≠ k → threads.owes e' l = threads.owes e l := by
  have hlocal : (threads : Threads (Atomic F A) _ _ _).Local := fun a b a' hab l hl =>
    congrArg (Stop.shows l) ((moves_of_step hab).stop_of_ne hl)
  obtain ⟨b, rfl, hab, howes⟩ | hemerge := Threads.owes_of_step hlocal hst
  · exact .inl ⟨b, rfl, moves_of_step hab, howes⟩
  · exact .inr hemerge

/-- An action keeps the books: the thread shows all that it has shown or owes, and the others are
as before. -/
theorem Kept.act (h : Kept size e ws) (hm : e.st.Moves b e'.st) (howes : threads.owes e b.thread = [])
    (howes' : threads.owes e' b.thread = (e'.st.stop b.thread).shows b.thread)
    (hother : ∀ l, l ≠ b.thread → threads.owes e' l = threads.owes e l) :
    Kept size e' (ws ++ (b.uses.map .seen ++ b.deeds e'.st)) := by
  have hself : ofThread b.thread b.uses = b.uses := ofThread_self AtomicAct.thread_of_uses
  have hnone : ∀ l, l ≠ b.thread → ofThread l b.uses = [] := fun l hl =>
    ofThread_of_ne hl AtomicAct.thread_of_uses
  have hseen : seenIn (ws ++ (b.uses.map .seen ++ b.deeds e'.st)) = seenIn ws ++ b.uses := by
    rw [seenIn_append, seenIn_append, seenIn_map, seenIn_deeds, List.append_nil]
  have hstored : storedIn (ws ++ (b.uses.map .seen ++ b.deeds e'.st)) =
      storedIn ws ++ storedIn (b.deeds e'.st) := by
    rw [storedIn_append, storedIn_append, storedIn_map, List.nil_append]
  have htaken : takenIn (ws ++ (b.uses.map .seen ++ b.deeds e'.st)) =
      takenIn ws ++ takenIn (b.deeds e'.st) := by
    rw [takenIn_append, takenIn_append, takenIn_map, List.nil_append]
  have hasking := h.asking b.thread
  rw [howes, List.append_nil] at hasking
  have hbounded := hm.length_queue_le (h.length_le.trans_eq h.size_eq.symm)
  refine ⟨hbounded.1.trans h.size_eq, hbounded.2.trans_eq h.size_eq, ?_, fun l => ?_, fun l => ?_,
    fun l => ?_⟩
  · rw [hstored, htaken, tasks_append, tasks_append, h.queue, List.append_assoc, List.append_assoc,
      hm.queue_eq]
  · rw [hseen, ofThread_append, List.append_assoc, asked_append]
    by_cases hl : l = b.thread
    · rw [hl, hself, howes', hasking, hm.asking_eq]
    · rw [hnone l hl, hother l hl, List.nil_append, ← asked_append, h.asking l, hm.stop_of_ne hl]
  · rw [hseen, hstored, hm.storedIn_eq, tasksOf_append, h.stored l, ofThread_append, List.append_assoc]
    by_cases hl : l = b.thread
    · rw [hl, hself, howes, howes', List.append_nil, tasksOf_self, ← hasking, ← accepted_append]
    · rw [hnone l hl, hother l hl, List.nil_append, tasksOf_of_ne hl, List.append_nil]
  · rw [hseen, htaken, hm.takenIn_eq, tasksOf_append, h.taken l, ofThread_append, List.append_assoc]
    by_cases hl : l = b.thread
    · rw [hl, hself, howes, howes', List.append_nil, tasksOf_self, ← ran_append]
    · rw [hnone l hl, hother l hl, List.nil_append, tasksOf_of_ne hl, List.append_nil]

/-- A thread that shows what it owes keeps them. -/
theorem Kept.emerge (h : Kept size e ws) (hst : e'.st = e.st)
    (howes : threads.owes e k = (e.st.stop k).shows k) (howes' : threads.owes e' k = [])
    (hother : ∀ l, l ≠ k → threads.owes e' l = threads.owes e l) :
    Kept size e' (ws ++ ((e.st.stop k).shows k).map .seen) := by
  have hshown : ∀ l, ofThread l (seenIn (ws ++ ((e.st.stop k).shows k).map .seen)) ++
      threads.owes e' l = ofThread l (seenIn ws) ++ threads.owes e l := by
    intro l
    rw [seenIn_append, seenIn_map, ofThread_append, List.append_assoc]
    by_cases hl : l = k
    · rw [hl, ofThread_self Stop.thread_of_shows, howes, howes', List.append_nil]
    · rw [ofThread_of_ne hl Stop.thread_of_shows, hother l hl, List.nil_append]
  have hstored : storedIn (ws ++ ((e.st.stop k).shows k).map .seen) = storedIn ws := by
    rw [storedIn_append, storedIn_map, List.append_nil]
  have htaken : takenIn (ws ++ ((e.st.stop k).shows k).map .seen) = takenIn ws := by
    rw [takenIn_append, takenIn_map, List.append_nil]
  refine ⟨hst ▸ h.size_eq, hst ▸ h.length_le, ?_, fun l => ?_, fun l => ?_, fun l => ?_⟩
  · rw [hstored, htaken, hst]
    exact h.queue
  · rw [hshown, hst]
    exact h.asking l
  · rw [hshown, hstored]
    exact h.stored l
  · rw [hshown, htaken]
    exact h.taken l

/-- **What one step keeps.** -/
theorem Kept.step (h : Kept size e ws) (hst : threads.delayed e d = some e') :
    Kept size e' (ws ++ deeds d e') := by
  obtain ⟨b, rfl, hm, howes, howes', hother⟩ | ⟨k, rfl, hst, howes, howes', hother⟩ :=
    owes_of_step hst
  · exact h.act hm howes howes' hother
  · have hkept := h.emerge hst howes howes' hother
    rw [← hst] at hkept
    exact (congrArg (ws ++ ·) (List.append_nil _)).symm ▸ hkept

theorem Kept.start (n size : ℕ) : Kept size (Threads.begin (start n size : Atomic F A)) [] where
  size_eq := rfl
  length_le := Nat.zero_le size
  queue := rfl
  asking
    | .worker i => by
      simp only [Threads.begin, Atomic.start]
      split_ifs <;> rfl
    | .caller _ => rfl
  stored _ := rfl
  taken _ := rfl

/-- Not more than one thing happens with an action. -/
theorem length_deeds_le (d : DelayedAct (AtomicAct F A) Tid) (e : Delayed (Atomic F A) Tid) :
    (deeds d e).length ≤ 1 := by
  cases d with
  | act b =>
    have hone : (b.uses.map Deed.seen ++ b.deeds e.st).length ≤ 1 := by
      have huses : b.uses.length ≤ 1 := by
        cases b <;> simp [AtomicAct.uses]
      unfold AtomicAct.deeds
      split
      · exact Nat.le_refl 1
      · cases e.st.queue.getLast? <;> simp [AtomicAct.uses]
      · cases e.st.queue.getLast? <;> simp [AtomicAct.uses]
      · rwa [List.append_nil, List.length_map]
    exact hone
  | emerge k =>
    have hone : (((e.st.stop k).shows k).map (Deed.seen (A := A)) ++ []).length ≤ 1 := by
      rw [List.append_nil, List.length_map]
      exact (e.st.stop k).length_shows_le k
    exact hone

/-- What can be seen of what happens. -/
theorem seenIn_trace (e : Delayed (Atomic F A) Tid) (ds : List (DelayedAct (AtomicAct F A) Tid)) :
    seenIn (trace threads.delayed deeds e ds) = threads.history e ds := by
  rw [seenIn, filterMap_trace]
  congr
  funext d e
  show seenIn (deeds d e) = threads.seen d e
  unfold deeds
  rw [seenIn_append, seenIn_map]
  cases d with
  | act b => rw [seenIn_deeds, List.append_nil]
  | emerge k => exact List.append_nil _

/-- **What a run keeps.** -/
theorem kept {ds : List (DelayedAct (AtomicAct F A) Tid)}
    (h : threads.run (Threads.begin (start n size)) ds = some e) :
    Kept size e (trace threads.delayed deeds (Threads.begin (start n size)) ds) :=
  inv_of_trace deeds (fun _ _ _ _ hk hst => Kept.step hk hst) [] (Kept.start n size) h

/-- **What the callers know**, at all times. -/
theorem books {ds : List (DelayedAct (AtomicAct F A) Tid)}
    (h : threads.run (Threads.begin (start n size)) ds = some e) {vs : List (Deed F A)}
    (hv : vs <+: trace threads.delayed deeds (Threads.begin (start n size)) ds) : Books size vs := by
  obtain ⟨ds', u, -, hu, rfl⟩ := exists_exec_of_prefix length_deeds_le h hv
  exact (kept hu).books

end Atomic

/-! ### After a failure -/

/-- A call has returned and left the mutex locked. -/
def Seen.jams : Seen F A → Bool
  | .returns _ (some .queueIsMax) | .returns _ (some .condSignalErr) => true
  | _ => false

namespace Atomic

variable {a a' : Atomic F A} {b : AtomicAct F A} {k : Tid} {e e' : Delayed (Atomic F A) Tid}
  {ds : List (DelayedAct (AtomicAct F A) Tid)}

theorem ran_uses (b : AtomicAct F A) : ran b.uses = [] := by
  cases b <;> rfl

/-- Nobody gets at a queue that is lost. -/
theorem Moves.of_lost (h : a.Moves b a') (hl : a.lost ≠ none) :
    a'.lost ≠ none ∧ ran ((a'.stop b.thread).shows b.thread) = [] := by
  cases h with
  | take _ ho | retry _ ho | addMax _ ho | addSignalErr _ ho | add _ ho | rouseErr _ ho
  | rouse _ ho =>
    exact absurd ho hl
  | finish | addNull | call | addLockErr | close | rouseLockErr | free =>
    refine ⟨hl, ?_⟩
    simp [AtomicAct.thread, Stop.shows, ran, Seen.task]

/-- A failure leaves the queue lost. -/
theorem Moves.of_jams (h : a.Moves b a') :
    (∀ y ∈ b.uses, y.jams = false) ∧
      ∀ y ∈ (a'.stop b.thread).shows b.thread, y.jams = true → a'.lost ≠ none := by
  cases h <;> simp [AtomicAct.uses, AtomicAct.thread, Stop.shows, Seen.jams]

/-- **A failure that is seen** leaves the queue lost. -/
theorem lost_of_jams {n size : ℕ} (h : threads.run (Threads.begin (start n size)) ds = some e)
    {y : Seen F A} (hy : y ∈ threads.history (Threads.begin (start n size)) ds)
    (hj : y.jams = true) : e.st.lost ≠ none := by
  -- and so does one that is still to be seen
  have hinv := inv_of_trace threads.seen
    (I := fun (u : Delayed (Atomic F A) Tid) ys =>
      ∀ z, (z ∈ ys ∨ ∃ k, z ∈ threads.owes u k) → z.jams = true → u.st.lost ≠ none) ?_ []
    (fun z hz => (hz.elim List.not_mem_nil fun ⟨_, hz⟩ => List.not_mem_nil hz).elim) h
  · rw [List.nil_append] at hinv
    exact hinv y (.inl hy) hj
  intro u ys d v hu hst z hz hz'
  obtain ⟨b, rfl, hm, -, howes', hother⟩ | ⟨k, rfl, hst, howes, howes', hother⟩ := owes_of_step hst
  · obtain hz | ⟨l, hz⟩ := hz
    · rcases List.mem_append.mp hz with hz | hz
      · exact (hm.of_lost (hu z (.inl hz) hz')).1
      · rw [hm.of_jams.1 z hz] at hz'
        cases hz'
    · by_cases hl : l = b.thread
      · rw [hl, howes'] at hz
        exact hm.of_jams.2 z hz hz'
      · rw [hother l hl] at hz
        exact (hm.of_lost (hu z (.inr ⟨l, hz⟩) hz')).1
  · rw [hst]
    refine hu z ?_ hz'
    obtain hz | ⟨l, hz⟩ := hz
    · refine (List.mem_append.mp hz).imp id fun hz => ⟨k, ?_⟩
      rw [howes, ← hst]
      exact hz
    · by_cases hl : l = k
      · rw [hl, howes'] at hz
        cases hz
      · rw [hother l hl] at hz
        exact .inr ⟨l, hz⟩

/-- **What a thread has in hand** it runs, and nothing else, when the queue is lost. -/
theorem ran_of_lost (hl : e.st.lost ≠ none) (h : threads.run e ds = some e') (k : Tid) :
    ran (ofThread k (threads.history e ds)) ++ ran (threads.owes e' k) =
      ran (threads.owes e k) := by
  have hinv := inv_of_trace threads.seen
    (I := fun (u : Delayed (Atomic F A) Tid) ys => u.st.lost ≠ none ∧
      ran (ofThread k ys) ++ ran (threads.owes u k) = ran (threads.owes e k)) ?_ [] ⟨hl, rfl⟩ h
  · exact hinv.2
  rintro u ys d v ⟨hu, heq⟩ hst
  rw [ofThread_append, ran_append, List.append_assoc]
  obtain ⟨b, rfl, hm, howes, howes', hother⟩ | ⟨l, rfl, hst, howes, howes', hother⟩ :=
    owes_of_step hst
  · obtain ⟨hlost, hnone⟩ := hm.of_lost hu
    refine ⟨hlost, ?_⟩
    show ran (ofThread k ys) ++ (ran (ofThread k b.uses) ++ ran (threads.owes v k)) = _
    by_cases hk : k = b.thread
    · rw [hk, howes] at heq
      rw [hk, ofThread_self AtomicAct.thread_of_uses, ran_uses, howes', hnone]
      exact heq
    · rw [ofThread_of_ne hk AtomicAct.thread_of_uses, hother k hk]
      exact heq
  · refine ⟨hst ▸ hu, ?_⟩
    show ran (ofThread k ys) ++ (ran (ofThread k ((v.st.stop l).shows l)) ++ ran (threads.owes v k)) = _
    rw [hst]
    by_cases hk : k = l
    · rw [hk, howes] at heq
      rw [hk, ofThread_self Stop.thread_of_shows, howes']
      exact (congrArg _ (List.append_nil _)).trans heq
    · rw [ofThread_of_ne hk Stop.thread_of_shows, hother k hk]
      exact heq

end Atomic

end Syinx.Pthread
