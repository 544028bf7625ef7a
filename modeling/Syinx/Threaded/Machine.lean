import Syinx.Pthread.Machine
import Syinx.Tcp.Core

/-!
# The threaded server

The server of the `SYINX_USE_PTHREAD` build: the main thread runs the callbacks,
the frames and at last `SyinxKernel::Close`, any number of workers run the tasks
it has queued. In this build `OnStatusDoAction` only queues `PthreadFuncHandle`;
a worker then takes the bytes off the input buffer in `OnStatusDoAcionInPthread`.

A step is one libevent call, one mutex-protected section of the pool or one access
to a field by one thread; the threads take steps in any order. A section of the
pool waits while somebody else has left it without the unlock. A worker that
`pthread_cond_wait` has put to sleep may wake up without a signal, so it goes on
whenever it finds a task.

`SyinxKernel::Close` is what the handler of `SIGINT` runs, on top of whatever the
main thread is doing: it may cut in between any two of its steps, and the callback
it interrupts is never finished, for `Close` ends in `exit`. What it does to the event
base and to the outgoing connections is left out.

`evbuffer_lock` does something only if the buffer has a lock (`hasLock`), which is
recursive. What a thread does with memory that has been freed is not defined: it is
recorded in `fault` and the run ends there.

## What is proved

* `lockInstalled_syinxKernelInitialize` — as the server starts up, no buffer has a lock.
* `happens_of_step` — all that can happen in one step, as a list of cases.
* `Settled.step` — whatever the workers do and wherever `Close` cuts in, the main
  thread makes proper operations only.
-/

namespace Syinx.Threaded

open Syinx.Library Syinx.Tcp
open Syinx.Pthread (SyPthreadPoolTask ThreadPool SyinxPthreadPool AddTaskResults Tid Ret)

variable {α : Type}

/-! ### The lock of a buffer -/

/-- The calls of the start that decide whether an `evbuffer` gets a lock. -/
inductive StartupCall where
  /-- `evbuffer_enable_locking`, of `IChannel::Initialize`. -/
  | evbufferEnableLocking
  /-- `evthread_use_windows_threads`. -/
  | evthreadUseWindowsThreads

/-- `SyinxKernelInitAdapter`, which initialises the channels. -/
def syinxKernelInitAdapter : List StartupCall := [.evbufferEnableLocking]

/-- `TCPServer`. -/
def tcpServer (win32 : Bool) : List StartupCall :=
  if win32 then [.evthreadUseWindowsThreads] else []

/-- `SyinxKernel::Initialize`, for a TCP server. -/
def syinxKernelInitialize (win32 : Bool) : List StartupCall :=
  syinxKernelInitAdapter ++ tcpServer win32

/-- The lock callbacks are installed, and the buffer has got a lock, after the calls. -/
def afterStartup (calls : List StartupCall) : Bool × Bool :=
  calls.foldl (fun r call =>
    match call with
    | .evbufferEnableLocking => (r.1, r.2 || r.1)
    | .evthreadUseWindowsThreads => (true, r.2)) (false, false)

/-- The input buffers have a lock after the calls. -/
def lockInstalled (calls : List StartupCall) : Bool := (afterStartup calls).2

/-- `evbuffer_enable_locking` comes too early on Windows, and elsewhere the callbacks are
never installed. -/
theorem lockInstalled_syinxKernelInitialize (win32 : Bool) :
    lockInstalled (syinxKernelInitialize win32) = false := by
  cases win32 <;> rfl

/-! ### The state -/

/-- The functions that are given to `AddTaskFunc`. -/
inductive StartFunc where
  | pthreadFuncHandle

/-- A queued task: its argument is a channel. -/
abbrev Task := SyPthreadPoolTask StartFunc Ptr

/-- Where a worker stands. -/
inductive Pc (α : Type) where
  /-- `SyPthreadPool_thread`: before the section that takes a task. -/
  | top
  /-- Behind the `continue` that kept the mutex, waiting for itself. -/
  | stuck
  /-- The thread has ended. -/
  | exited
  /-- `OnStatusDoAcionInPthread` of channel `c`: at `evbuffer_lock`. -/
  | lock (c : Ptr)
  /-- At `evbuffer_remove`. -/
  | remove (c : Ptr)
  /-- With these packs to hand to `RecvClientPack`: in `SendDataToClient`, at the test of
  `IChStatus`; with none, at `evbuffer_unlock`. -/
  | send (c : Ptr) (packs : List (Pack α))
  /-- The test has been passed for the pack `p`; `m_buffer` is read next. -/
  | load (c : Ptr) (p : Pack α) (packs : List (Pack α))
  /-- At `bufferevent_write`, with the value of `m_buffer`. -/
  | write (c : Ptr) (b : Option BevId) (p : Pack α) (packs : List (Pack α))

/-- The channel a worker there is serving. -/
def Pc.channel : Pc α → Option Ptr
  | top | stuck | exited => none
  | lock c | remove c | send c _ | load c _ _ | write c _ _ _ => some c

/-- A use of memory that has been freed, or of a null pointer. -/
inductive Fault where
  /-- Worker `i` runs `OnStatusDoAcionInPthread` of a channel that has been deleted. -/
  | deletedChannel (i : ℕ) (c : Ptr)
  /-- Worker `i` uses the input buffer of channel `c`, which has been freed. -/
  | freedEvbuffer (i : ℕ) (c : Ptr)
  /-- Worker `i` writes to a `bufferevent` that has been freed. -/
  | freedBuffer (i : ℕ) (b : BevId)
  /-- Worker `i` writes to a null `bufferevent`. -/
  | nullBuffer (i : ℕ)
  deriving DecidableEq

/-- How far `SyinxKernel::Close` is. -/
inductive Phase where
  /-- It has not been called. -/
  | serving
  /-- Before the section of `SyinxPthreadPool::Close`. -/
  | closing
  /-- At `SyPthreadPool_free`. -/
  | freeing
  /-- Done. -/
  | closed
  deriving DecidableEq

/-- The server and its threads. -/
structure Kernel (α : Type) where
  /-- The channels. -/
  srv : Server α
  /-- What is left of the callback, the frame or `SyinxAdapterResource::Close`. -/
  todo : List (Op α)
  /-- The main thread is in the `AddTaskFunc` that `OnStatusDoAction` of this channel calls. -/
  posting : Option Ptr
  /-- How far `SyinxKernel::Close` is. -/
  phase : Phase
  /-- The input buffers have a lock. -/
  hasLock : Bool
  /-- How many workers there are. -/
  workers : ℕ
  /-- `g_SyinxPthPool`. -/
  pool : SyinxPthreadPool StartFunc Ptr
  /-- Who has left a section of the pool without the unlock. -/
  poolOwner : Option Tid
  /-- Where the workers stand. -/
  pc : ℕ → Pc α
  /-- The workers that have taken bytes off an input buffer in the task they run, in the
  order they took them. -/
  order : List ℕ
  /-- Who holds the lock of a channel's input buffer. -/
  evOwner : Ptr → Option ℕ
  /-- How many times. -/
  evDepth : Ptr → ℕ
  /-- What a thread has done to memory that was freed. -/
  fault : Option Fault

/-- What can happen. -/
inductive Act (α : Type) where
  /-- A callback or a frame begins. -/
  | event (e : Event α)
  /-- `SyinxKernel::Close` begins. -/
  | close
  /-- The main thread takes its next step; `o`: what the `pthread` calls in it report. -/
  | main (o : AddTaskResults)
  /-- Worker `i` takes its next step. -/
  | worker (i : ℕ)

/-- The channel whose input buffer an operation uses. -/
def evbufferOf : Op α → Option Ptr
  | .onStatusDoAction c | .readBuffer c _ _ | .evbufferFree c => some c
  | _ => none

namespace Kernel

/-- The server with `N` channels and an idle pool; `cells` is what `new` leaves in
`Taskqueue`. -/
def start (N : ℕ) (hasLock : Bool) (cells : ℤ → Task) (thread_count queue_size : UInt32) :
    Kernel α where
  srv := .resourceInitialize N
  todo := []
  posting := none
  phase := .serving
  hasLock := hasLock
  workers := thread_count.toNat
  pool := ⟨.work, .live { ThreadPool.new cells thread_count queue_size with
    started := thread_count.toNat }⟩
  poolOwner := none
  pc := fun _ => .top
  order := []
  evOwner := fun _ => none
  evDepth := fun _ => 0
  fault := none

/-- Worker `i` moves on to `x`. -/
def goto (s : Kernel α) (i : ℕ) (x : Pc α) : Kernel α :=
  { s with pc := Function.update s.pc i x }

/-! ### The workers -/

/-- `SyPthreadPool_thread`, from the lock to the unlock. -/
def takeTask (s : Kernel α) (i : ℕ) : Option (Kernel α) :=
  match s.pool.pthPool with
  | .live p =>
    if s.workers ≤ i ∨ s.poolOwner ≠ none then none
    else if p.count = 0 ∧ p.pthpoolClose = false then none
    else if p.count = p.queueSize then
      -- `continue`, to the lock at the top
      some { s.goto i .stuck with poolOwner := some (.worker i) }
    else if p.pthpoolClose then
      some { s.goto i .exited with
        pool := { s.pool with pthPool := .live { p with started := p.started - 1 } } }
    else
      match p.front with
      | ⟨.pthreadFuncHandle, c⟩ =>
        some { s.goto i (.lock c) with pool := { s.pool with pthPool := .live p.dequeue } }
  | _ => none

/-- Worker `i` uses channel `c`. -/
def onChannel (s : Kernel α) (i : ℕ) (c : Ptr) (k : Option (Kernel α)) : Option (Kernel α) :=
  if s.srv.deleted c ≠ 0 then some { s with fault := some (.deletedChannel i c) } else k

/-- Worker `i` uses the input buffer of channel `c`. -/
def onEvbuffer (s : Kernel α) (i : ℕ) (c : Ptr) (k : Option (Kernel α)) : Option (Kernel α) :=
  s.onChannel i c
    (if s.srv.evFreed c ≠ 0 then some { s with fault := some (.freedEvbuffer i c) } else k)

/-- A channel that is used has been deleted, or it is as if nobody had looked. -/
theorem onChannel_eq_some {s t : Kernel α} {i : ℕ} {c : Ptr} {k : Option (Kernel α)}
    (h : s.onChannel i c k = some t) :
    (s.srv.deleted c ≠ 0 ∧ t = { s with fault := some (.deletedChannel i c) }) ∨ k = some t := by
  unfold onChannel at h
  split_ifs at h with hd
  · exact .inl ⟨hd, (Option.some.inj h).symm⟩
  · exact .inr h

theorem onEvbuffer_eq_some {s t : Kernel α} {i : ℕ} {c : Ptr} {k : Option (Kernel α)}
    (h : s.onEvbuffer i c k = some t) :
    (s.srv.deleted c ≠ 0 ∧ t = { s with fault := some (.deletedChannel i c) }) ∨
      t = { s with fault := some (.freedEvbuffer i c) } ∨ k = some t := by
  rcases onChannel_eq_some h with h | h
  · exact .inl h
  · split_ifs at h with he
    · exact .inr (.inl (Option.some.inj h).symm)
    · exact .inr (.inr h)

/-- `evbuffer_lock(m_Inputevbuffer)`. -/
def evbufferLock (s : Kernel α) (i : ℕ) (c : Ptr) : Option (Kernel α) :=
  if s.hasLock then
    if s.evOwner c = none ∨ s.evOwner c = some i then
      some { s with
        evOwner := Function.update s.evOwner c (some i)
        evDepth := Function.update s.evDepth c (s.evDepth c + 1) }
    else none
  else some s

/-- `evbuffer_unlock(m_Inputevbuffer)`. -/
def evbufferUnlock (s : Kernel α) (c : Ptr) : Kernel α :=
  if s.hasLock then
    { s with
      evOwner := if s.evDepth c ≤ 1 then Function.update s.evOwner c none else s.evOwner
      evDepth := Function.update s.evDepth c (s.evDepth c - 1) }
  else s

variable [Inhabited α]

/-- The next step of worker `i`. -/
def stepWorker (P : ParseFunc α) (s : Kernel α) (i : ℕ) : Option (Kernel α) :=
  match s.pc i with
  | .top => s.takeTask i
  | .stuck | .exited => none
  | .lock c => s.onEvbuffer i c ((s.evbufferLock i c).map fun t => t.goto i (.remove c))
  | .remove c =>
    s.onEvbuffer i c <|
      -- `if (buffersize <= 0) return;`
      if (s.srv.chan c).inputEvbuffer.length = 0 then some (s.goto i .top)
      else
        ((s.srv.chan c).onStatusDoAction P).map fun r =>
          { s.goto i (.send c r.2) with srv := s.srv.setChan c r.1, order := s.order ++ [i] }
  | .send c [] =>
    s.onEvbuffer i c (some { (s.evbufferUnlock c).goto i .top with order := s.order.erase i })
  | .send c (p :: packs) =>
    s.onChannel i c <| some <|
      if (s.srv.chan c).ichStatus = .clientLogin then s.goto i (.load c p packs)
      else s.goto i (.send c packs)
  | .load c p packs =>
    s.onChannel i c (some (s.goto i (.write c (s.srv.chan c).buffer p packs)))
  | .write _ none _ _ => some { s with fault := some (.nullBuffer i) }
  | .write c (some b) p packs =>
    if (s.srv.bev b).freed ≠ 0 then some { s with fault := some (.freedBuffer i b) }
    else some { s.goto i (.send c packs) with srv := s.srv.record [.write (some b) p.data] }

/-! ### The main thread -/

/-- `OnStatusDoAction` of channel `c`, up to the call of `AddTaskFunc`. -/
def onStatusDoAction (s : Kernel α) (c : Ptr) : Kernel α :=
  { s with posting := if (s.srv.chan c).inputEvbuffer.length = 0 then none else some c }

/-- `PTHREADFUNCADD(PthreadFuncHandle, this)`. -/
def addTask (s : Kernel α) (c : Ptr) (o : AddTaskResults) : Option (Kernel α) :=
  if o.lock = true ∧ s.poolOwner ≠ none then none
  else
    let r := s.pool.addTaskFunc (some .pthreadFuncHandle) c o
    match r.ret with
    | .returns _ =>
      some { s with
        posting := none
        pool := r.obj
        poolOwner := if r.held = 0 then s.poolOwner else some (.caller 0) }
    | .blocks | .faults => none

/-- The section of `SyinxPthreadPool::Close`. -/
def closePool (s : Kernel α) (o : AddTaskResults) : Option (Kernel α) :=
  let s := { s with pool := { s.pool with pthreadStatus := .close } }
  match o.close.lock with
  | .failed => some { s with phase := .closed }
  | .blocks => none
  | .acquired =>
    if s.poolOwner ≠ none then none
    else if o.close.broadcast = false then
      some { s with poolOwner := some (.caller 0), phase := .closed }
    else some { s with phase := .freeing }

/-- The next operation of the main thread. -/
def stepOp (P : ParseFunc α) (s : Kernel α) (op : Op α) (ops : List (Op α)) : Option (Kernel α) :=
  -- a lock that a worker holds keeps the main thread out of the buffer
  if s.hasLock ∧ (evbufferOf op).any (fun c => (s.evOwner c).isSome) then none
  else
    match op with
    | .onStatusDoAction c => some { s.onStatusDoAction c with todo := ops }
    | op => (Op.run P s.srv op).map fun t => { s with srv := t, todo := ops }

/-- The next step of the main thread. -/
def stepMain (P : ParseFunc α) (s : Kernel α) (o : AddTaskResults) : Option (Kernel α) :=
  match s.posting, s.todo, s.phase with
  | some c, _, _ => s.addTask c o
  | none, op :: ops, _ => s.stepOp P op ops
  | none, [], .closing => s.closePool o
  | none, [], .freeing => some { s with pool := s.pool.free.2, phase := .closed }
  | none, [], .serving | none, [], .closed => none

/-- A step of the machine. -/
def step (P : ParseFunc α) (s : Kernel α) (a : Act α) : Option (Kernel α) :=
  if s.fault ≠ none then none
  else
    match a with
    | .event e =>
      if s.phase = .serving ∧ s.posting = none ∧ s.todo.isEmpty then
        (s.srv.turn e).map fun r => { s with srv := r.1, todo := r.2 }
      else none
    | .close =>
      if s.phase = .serving then
        some { s with todo := s.srv.resourceClose, posting := none, phase := .closing }
      else none
    | .main o => s.stepMain P o
    | .worker i => s.stepWorker P i

/-- The channel whose `m_buffer` the main thread frees in its next step. -/
def aboutToFree (s : Kernel α) : Option Ptr :=
  match s.posting, s.todo with
  | none, .freeBuffer c :: _ => some c
  | _, _ => none

/-- The channel the main thread deletes in its next step. -/
def aboutToDelete (s : Kernel α) : Option Ptr :=
  match s.posting, s.todo with
  | none, .delete c :: _ => some c
  | _, _ => none

/-! ### What a step does -/

/-- **All that can happen** in a state `s`. -/
inductive Happens (P : ParseFunc α) (s : Kernel α) : Act α → Kernel α → Prop
  /-- A callback or a frame begins. -/
  | event {e r} : s.phase = .serving → s.posting = none → s.todo = [] → s.srv.turn e = some r →
      Happens P s (.event e) { s with srv := r.1, todo := r.2 }
  /-- `SyinxKernel::Close` begins. -/
  | close : s.phase = .serving →
      Happens P s .close { s with todo := s.srv.resourceClose, posting := none, phase := .closing }
  /-- The main thread is back from `AddTaskFunc`. -/
  | post {c o k} : s.posting = some c →
      Happens P s (.main o) { s with
        posting := none
        pool := (s.pool.addTaskFunc (some .pthreadFuncHandle) c o).obj
        poolOwner := k }
  /-- The main thread runs `OnStatusDoAction`. -/
  | serve {c ops o} : s.posting = none → s.todo = .onStatusDoAction c :: ops →
      Happens P s (.main o) { s.onStatusDoAction c with todo := ops }
  /-- The main thread makes another operation. -/
  | op {op ops t o} : s.posting = none → s.todo = op :: ops → (∀ c, op ≠ .onStatusDoAction c) →
      Op.run P s.srv op = some t → Happens P s (.main o) { s with srv := t, todo := ops }
  /-- The section of `SyinxPthreadPool::Close`. -/
  | closePool {o k ph} : s.todo = [] → ph ≠ .serving →
      Happens P s (.main o) { s with
        pool := { s.pool with pthreadStatus := .close }, poolOwner := k, phase := ph }
  /-- `SyPthreadPool_free`. -/
  | freePool {o} : s.todo = [] →
      Happens P s (.main o) { s with pool := s.pool.free.2, phase := .closed }
  /-- A worker keeps the mutex of the pool. -/
  | stuck {i k} : i < s.workers → s.pc i = .top →
      Happens P s (.worker i) { s.goto i .stuck with poolOwner := k }
  /-- A worker ends, the pool being closed. -/
  | exited {i p g} : i < s.workers → s.pc i = .top → s.pool.pthPool = .live p →
      p.pthpoolClose = true → Happens P s (.worker i) { s.goto i .exited with pool := g }
  /-- A worker takes a task. -/
  | take {i p} : i < s.workers → s.pc i = .top → s.pool.pthPool = .live p → p.count ≠ 0 →
      Happens P s (.worker i) { s.goto i (.lock p.front.arg) with
        pool := { s.pool with pthPool := .live p.dequeue } }
  /-- `evbuffer_lock`. -/
  | lock {i c o d} : s.pc i = .lock c →
      Happens P s (.worker i) { s.goto i (.remove c) with evOwner := o, evDepth := d }
  /-- There was nothing left in the input buffer. -/
  | empty {i c} : s.pc i = .remove c → Happens P s (.worker i) (s.goto i .top)
  /-- A worker takes bytes off an input buffer. -/
  | remove {i c ch packs} : s.pc i = .remove c → (s.srv.chan c).inputEvbuffer ≠ [] →
      (s.srv.chan c).onStatusDoAction P = some (ch, packs) →
      ch = { s.srv.chan c with inputEvbuffer := (s.srv.chan c).inputEvbuffer.drop buffsize } →
      Happens P s (.worker i) { s.goto i (.send c packs) with
        srv := s.srv.setChan c ch, order := s.order ++ [i] }
  /-- `evbuffer_unlock`. -/
  | unlock {i c o d} : s.pc i = .send c [] →
      Happens P s (.worker i) { s.goto i .top with
        order := s.order.erase i, evOwner := o, evDepth := d }
  /-- The channel is `CLIENT_LOGIN`. -/
  | test {i c p packs} : s.pc i = .send c (p :: packs) →
      (s.srv.chan c).ichStatus = .clientLogin →
      Happens P s (.worker i) (s.goto i (.load c p packs))
  /-- It is not: the pack is dropped. -/
  | drop {i c p packs} : s.pc i = .send c (p :: packs) →
      (s.srv.chan c).ichStatus ≠ .clientLogin →
      Happens P s (.worker i) (s.goto i (.send c packs))
  /-- `m_buffer` is read. -/
  | load {i c p packs} : s.pc i = .load c p packs →
      Happens P s (.worker i) (s.goto i (.write c (s.srv.chan c).buffer p packs))
  /-- `bufferevent_write`. -/
  | write {i c b p packs} : s.pc i = .write c (some b) p packs → (s.srv.bev b).freed = 0 →
      Happens P s (.worker i) { s.goto i (.send c packs) with
        srv := s.srv.record [.write (some b) p.data] }
  /-- A worker uses a channel that has been deleted. -/
  | deletedChannel {i c} : (s.pc i).channel = some c → s.srv.deleted c ≠ 0 →
      Happens P s (.worker i) { s with fault := some (.deletedChannel i c) }
  /-- A worker uses an input buffer that has been freed. -/
  | freedEvbuffer {i c} : Happens P s (.worker i) { s with fault := some (.freedEvbuffer i c) }
  /-- A worker writes to a `bufferevent` that has been freed. -/
  | freedBuffer {i c b p packs} : s.pc i = .write c (some b) p packs → (s.srv.bev b).freed ≠ 0 →
      Happens P s (.worker i) { s with fault := some (.freedBuffer i b) }
  /-- A worker writes to a null `bufferevent`. -/
  | nullBuffer {i c p packs} : s.pc i = .write c none p packs →
      Happens P s (.worker i) { s with fault := some (.nullBuffer i) }

/-- Nothing happens after a fault. -/
theorem fault_of_step {P : ParseFunc α} {s t : Kernel α} {a : Act α} (h : s.step P a = some t) :
    s.fault = none := by
  by_contra hf
  unfold step at h
  rw [if_pos hf] at h
  cases h

theorem happens_of_takeTask {P : ParseFunc α} {s t : Kernel α} {i : ℕ} (hi : s.pc i = .top)
    (h : s.takeTask i = some t) : Happens P s (.worker i) t := by
  unfold takeTask at h
  split at h
  · rename_i p hp
    split_ifs at h with hwait hsleep hfull hclose
    · cases h
      exact .stuck (by omega) hi
    · cases h
      exact .exited (by omega) hi hp hclose
    · obtain ⟨hw, -⟩ := not_or.mp hwait
      have hcount : p.count ≠ 0 := fun h0 => hsleep ⟨h0, by simpa using hclose⟩
      split at h
      rename_i c hfront
      cases h
      have hc : c = p.front.arg := by rw [hfront]
      rw [hc]
      exact .take (Nat.not_le.mp hw) hi hp hcount
  · cases h

theorem happens_of_stepWorker {P : ParseFunc α} {s t : Kernel α} {i : ℕ}
    (h : s.stepWorker P i = some t) : Happens P s (.worker i) t := by
  unfold stepWorker at h
  cases hi : s.pc i with
  | top => rw [hi] at h; exact happens_of_takeTask hi h
  | stuck | exited => rw [hi] at h; cases h
  | lock c =>
    rw [hi] at h
    rcases onEvbuffer_eq_some h with ⟨hd, rfl⟩ | rfl | h
    · exact .deletedChannel (by rw [hi]; rfl) hd
    · exact .freedEvbuffer
    · obtain ⟨u, hu, rfl⟩ := Option.map_eq_some_iff.mp h
      unfold evbufferLock at hu
      split_ifs at hu <;> cases hu <;> exact .lock hi
  | remove c =>
    rw [hi] at h
    rcases onEvbuffer_eq_some h with ⟨hd, rfl⟩ | rfl | h
    · exact .deletedChannel (by rw [hi]; rfl) hd
    · exact .freedEvbuffer
    · split_ifs at h with hlen
      · cases h; exact .empty hi
      · obtain ⟨r, hr, rfl⟩ := Option.map_eq_some_iff.mp h
        exact .remove hi (fun hnil => hlen (by rw [hnil]; rfl)) hr
          (IChannel.onStatusDoAction_eq_some hr)
  | send c packs =>
    rw [hi] at h
    cases packs with
    | nil =>
      rcases onEvbuffer_eq_some h with ⟨hd, rfl⟩ | rfl | h
      · exact .deletedChannel (by rw [hi]; rfl) hd
      · exact .freedEvbuffer
      · cases h
        unfold evbufferUnlock
        split_ifs <;> exact .unlock hi
    | cons p packs =>
      rcases onChannel_eq_some h with ⟨hd, rfl⟩ | h
      · exact .deletedChannel (by rw [hi]; rfl) hd
      · cases h
        split_ifs with hst
        · exact .test hi hst
        · exact .drop hi hst
  | load c p packs =>
    rw [hi] at h
    rcases onChannel_eq_some h with ⟨hd, rfl⟩ | h
    · exact .deletedChannel (by rw [hi]; rfl) hd
    · cases h; exact .load hi
  | write c b p packs =>
    rw [hi] at h
    cases b with
    | none => cases h; exact .nullBuffer hi
    | some b =>
      simp only at h
      split_ifs at h with hf
      · cases h; exact .freedBuffer hi hf
      · cases h; exact .write hi (not_not.mp hf)

theorem happens_of_stepMain {P : ParseFunc α} {s t : Kernel α} {o : AddTaskResults}
    (h : s.stepMain P o = some t) : Happens P s (.main o) t := by
  unfold stepMain at h
  split at h
  · rename_i c hpost
    unfold addTask at h
    split_ifs at h
    simp only at h
    split at h
    · cases h; exact .post hpost
    · cases h
    · cases h
  · rename_i op ops hpost htodo
    unfold stepOp at h
    split_ifs at h
    split at h
    · cases h; exact .serve hpost htodo
    · rename_i hop
      obtain ⟨u, hu, rfl⟩ := Option.map_eq_some_iff.mp h
      exact .op hpost htodo hop hu
  · rename_i htodo _
    unfold closePool at h
    simp only at h
    split at h
    · cases h; exact .closePool htodo (by decide)
    · cases h
    · split_ifs at h <;> cases h <;> exact .closePool htodo (by decide)
  · rename_i htodo _
    cases h; exact .freePool htodo
  · cases h
  · cases h

/-- A step of the machine is one of the cases. -/
theorem happens_of_step {P : ParseFunc α} {s t : Kernel α} {a : Act α}
    (h : s.step P a = some t) : Happens P s a t := by
  have hf := fault_of_step h
  unfold step at h
  rw [if_neg (not_not.mpr hf)] at h
  cases a with
  | event e =>
    simp only at h
    split_ifs at h with hs
    obtain ⟨hphase, hpost, htodo⟩ := hs
    obtain ⟨r, hr, rfl⟩ := Option.map_eq_some_iff.mp h
    exact .event hphase hpost (List.isEmpty_iff.mp htodo) hr
  | close =>
    simp only at h
    split_ifs at h with hs
    cases h
    exact .close hs
  | main o => exact happens_of_stepMain h
  | worker i => exact happens_of_stepWorker h

/-! ### The main thread makes proper operations only -/

/-- What the main thread has before it, at any point. -/
structure Settled (N : ℕ) (s : Kernel α) : Prop where
  sound : s.srv.Sound
  /-- What is left to do is proper. -/
  proper : Guarded (Op.run recvValuesFromString) Server.Proper s.srv s.todo
  /-- While the server is not closing, the callback or frame can be finished, and the
  channels are in order then. -/
  serving : s.phase = .serving → s.srv.Clean ∧
    Guarded (Op.run recvValuesFromString) (fun s op => s.Proper op ∧ s.Tidy op) s.srv s.todo ∧
    ∀ t, exec (Op.run recvValuesFromString) s.srv s.todo = some t → PoolInv N t

variable {N : ℕ} {P : ParseFunc α} {s t : Kernel α} {a : Act α}

/-- What has arrived and what is recorded does not matter. -/
theorem Settled.congr (h : Settled N s) (hcore : s.srv.core = t.srv.core) (htodo : t.todo = s.todo)
    (hphase : t.phase = .serving → s.phase = .serving) : Settled N t where
  sound := h.sound.congr hcore
  proper := by
    rw [htodo]
    exact guarded_congr Server.proper_core hcore h.proper
  serving ht := by
    obtain ⟨hclean, hguarded, hends⟩ := h.serving (hphase ht)
    rw [htodo]
    refine ⟨hclean.congr hcore, guarded_congr ?_ hcore hguarded, fun u hu => ?_⟩
    · intro v op
      rw [v.proper_core, v.tidy_core]
    · obtain ⟨v, hv, hvu⟩ := exec_of_rel (R := fun u v => u.core = v.core)
        (fun _ _ _ _ => core_step) hcore hu
      exact (hends v hv).congr hvu

/-- The next operation has been made, in the threaded way or not. -/
theorem Settled.next (h : Settled N s) {op : Op α} {ops : List (Op α)} (htodo : s.todo = op :: ops)
    {u : Server α} (hrun : Op.run recvValuesFromString s.srv op = some u)
    (hcore : u.core = t.srv.core) (hops : t.todo = ops) (hphase : t.phase = s.phase) :
    Settled N t := by
  have hp := h.proper
  rw [htodo] at hp
  have hnext : Settled N { s with srv := u, todo := ops } := by
    refine ⟨h.sound.run (hp u hrun).1 hrun, (hp u hrun).2, fun hs => ?_⟩
    obtain ⟨hclean, hguarded, hends⟩ := h.serving hs
    rw [htodo] at hguarded hends
    obtain ⟨⟨-, htidy⟩, hrest⟩ := hguarded u hrun
    exact ⟨hclean.run htidy hrun, hrest, fun v hv =>
      hends v (exec_cons_eq_some.mpr ⟨u, hrun, hv⟩)⟩
  exact hnext.congr hcore hops fun ht => by rw [← hphase]; exact ht

theorem Settled.start (hasLock : Bool) (cells : ℤ → Task) (n q : UInt32) :
    Settled N (start N hasLock cells n q : Kernel α) where
  sound := .start
  proper := trivial
  serving _ := ⟨.start, trivial, fun t ht => by cases ht; exact .start N⟩

/-- **One step** keeps it, of whichever thread. -/
theorem Settled.step (h : Settled N s) (hst : s.step P a = some t) : Settled N t := by
  cases happens_of_step hst with
  | event hphase _ htodo hr =>
    obtain ⟨hclean, -, hends⟩ := h.serving hphase
    rw [htodo] at hends
    have hpool : PoolInv N s.srv := hends s.srv rfl
    obtain ⟨hsound, hclean', hguarded⟩ :=
      guarded_turn (P := recvValuesFromString) hpool h.sound hclean hr
    refine ⟨hsound, hguarded.mono fun _ _ h => h.1, fun _ => ⟨hclean', hguarded, fun u hu => ?_⟩⟩
    exact hpool.step (by rw [Server.step, hr]; exact hu)
  | close hphase =>
    exact ⟨h.sound, guarded_resourceClose (h.serving hphase).1, by simp⟩
  | serve _ htodo =>
    obtain ⟨u, hu⟩ := run_isSome s.srv (.onStatusDoAction _)
    exact h.next htodo hu (core_onStatusDoAction hu) rfl rfl
  | op _ htodo hop hrun =>
    rw [run_parse recvValuesFromString hop] at hrun
    exact h.next htodo hrun rfl rfl rfl
  | closePool _ hph => exact h.congr rfl rfl fun hs => absurd hs hph
  | freePool => exact h.congr rfl rfl (by simp)
  | remove _ _ _ hch => exact h.congr (by rw [hch]; exact (Server.core_setInput _ _ _).symm) rfl id
  | write => exact h.congr rfl rfl id
  | _ => exact h.congr rfl rfl id

end Kernel

end Syinx.Threaded
