import Syinx.Pthread.Pool

/-!
# `AddTaskFunc` as a call

`SyinxPthreadPool::AddTaskFunc` and the `Close` it may run, as functions of the
pool object and of what the `pthread` calls report. A call is given with the
mutex not held by the caller; its result says what it returns, how many times
the caller holds `Pthlock` afterwards, and the pool object it leaves.

Between its lock and its unlock `AddTaskFunc` has five ways out. Two of them
(`QueueIsMax`, `CondSignalErr`) and the closing branch return without the
unlock, the second of them after the task has been stored.

## What is proved

* `addTaskFunc_honest_iff` — exactly when a call is honest: it returns with the
  mutex released, says `Success` exactly if the task was appended, and otherwise
  leaves the queue as it was.
-/

namespace Syinx.Pthread

variable {F A : Type}

/-- `PTHREAD_LINK_STATUS`. -/
inductive PthreadLinkStatus where
  | close
  | work
  deriving DecidableEq

/-- What the pointer `PthPool` points to. -/
inductive PoolPtr (F A : Type) where
  /-- `nullptr`. -/
  | null
  /-- A pool. -/
  | live (p : ThreadPool F A)
  /-- Memory `SyPthreadPool_free` has released; the pointer is not reset. -/
  | freed

/-- The object `SyinxPthreadPool`. -/
structure SyinxPthreadPool (F A : Type) where
  /-- `PthreadStatus`. -/
  pthreadStatus : PthreadLinkStatus
  /-- `PthPool`. -/
  pthPool : PoolPtr F A

/-- What `pthread_mutex_lock` does. -/
inductive LockResult where
  /-- It returns `0` and the caller holds the mutex. -/
  | acquired
  /-- It returns an error. -/
  | failed
  /-- It never returns: the caller waits for a mutex it holds itself. -/
  | blocks
  deriving DecidableEq

/-- What the `pthread` calls of `Close` report. -/
structure CloseResults where
  /-- `pthread_mutex_lock`. -/
  lock : LockResult
  /-- `pthread_cond_broadcast` returns `0`. -/
  broadcast : Bool
  deriving DecidableEq

/-- What the `pthread` calls of `AddTaskFunc` report. -/
structure AddTaskResults where
  /-- `pthread_mutex_lock` returns `0`. -/
  lock : Bool
  /-- `pthread_cond_signal` returns `0`. -/
  signal : Bool
  /-- The calls of `Close`, if it is run. -/
  close : CloseResults
  deriving DecidableEq

/-- How a call ends. -/
inductive Ret where
  /-- It returns. -/
  | returns (e : SyPthreadPoolErr)
  /-- It never returns. -/
  | blocks
  /-- It dereferences a `PthPool` that points to no pool. -/
  | faults
  deriving DecidableEq

/-- The result of a call. -/
structure Call (F A : Type) where
  /-- How it ends. -/
  ret : Ret
  /-- How many times the caller holds `Pthlock` then. -/
  held : ℕ
  /-- The pool object then. -/
  obj : SyinxPthreadPool F A

/-- The error number a `bool` becomes when it is returned as one. -/
def SyPthreadPoolErr.ofBool : Bool → SyPthreadPoolErr
  | false => .poolErr
  | true => .success

namespace SyinxPthreadPool

/-- `SyPthreadPool_free`: `false` for a null pointer, otherwise everything is
released and the result is `true`. -/
def free (g : SyinxPthreadPool F A) : Bool × SyinxPthreadPool F A :=
  match g.pthPool with
  | .null => (false, g)
  | _ => (true, { g with pthPool := .freed })

/-- `SyinxPthreadPool::Close`, by a caller that holds `Pthlock` `held` times. -/
def close (g : SyinxPthreadPool F A) (held : ℕ) (o : CloseResults) : Call F A :=
  let g := { g with pthreadStatus := .close }
  match g.pthPool with
  | .null | .freed => ⟨.faults, held, g⟩
  | .live _ =>
    match o.lock with
    | .failed => ⟨.returns .lockErr, held, g⟩
    | .blocks => ⟨.blocks, held, g⟩
    | .acquired =>
      -- `PthpoolClose` is not set before the broadcast, nor anywhere else
      if o.broadcast = false then ⟨.returns .condSignalErr, held + 1, g⟩
      else ⟨.returns (.ofBool g.free.1), held, g.free.2⟩

/-- `SyinxPthreadPool::AddTaskFunc`, by a caller that does not hold `Pthlock`. -/
def addTaskFunc (g : SyinxPthreadPool F A) (callback : Option F) (arg : A) (o : AddTaskResults) :
    Call F A :=
  match callback with
  | none => ⟨.returns .varIsNULL, 0, g⟩
  | some startfunc =>
    match g.pthPool with
    | .null | .freed => ⟨.faults, 0, g⟩
    | .live p =>
      if o.lock = false then ⟨.returns .lockErr, 0, g⟩
      else if p.queueSize = p.count then ⟨.returns .queueIsMax, 1, g⟩
      else if p.pthpoolClose then g.close 1 o.close
      else
        let g := { g with pthPool := .live (p.enqueue ⟨startfunc, arg⟩) }
        if o.signal = false then ⟨.returns .condSignalErr, 1, g⟩
        else ⟨.returns .success, 0, g⟩

end SyinxPthreadPool

/-- The call left a pool with the pending tasks `ts`, the count `n` and the tail
index `i`. -/
def Call.Leaves (c : Call F A) (ts : List (SyPthreadPoolTask F A)) (n i : ℤ) : Prop :=
  ∃ p, c.obj.pthPool = .live p ∧ p.pending = ts ∧ p.count = n ∧ p.tailIndex = i

/-- The call appended the task `callback`, `arg` to the queue of `p`. -/
def Call.Appended (c : Call F A) (p : ThreadPool F A) (callback : Option F) (arg : A) : Prop :=
  ∃ f p', callback = some f ∧ c.obj.pthPool = .live p' ∧ p'.pending = p.pending ++ [⟨f, arg⟩]

/-- What the caller of `AddTaskFunc` on the pool `p` relies on. -/
structure Call.Honest (c : Call F A) (p : ThreadPool F A) (callback : Option F) (arg : A) :
    Prop where
  /-- The call returns. -/
  returns : ∃ e, c.ret = .returns e
  /-- It returns with the mutex released. -/
  unlocked : c.held = 0
  /-- It says `Success` exactly when the task was appended. -/
  success_iff : c.ret = .returns .success ↔ c.Appended p callback arg
  /-- Refusing the task, it leaves the queue as it was. -/
  refused : c.ret ≠ .returns .success → c.Leaves p.pending p.count p.tailIndex

/-- When the call does what its caller relies on: it is refused before the lock,
or it finds room, no closing pool and a working condition variable. -/
def AddTaskGood (p : ThreadPool F A) (callback : Option F) (o : AddTaskResults) : Prop :=
  callback = none ∨ o.lock = false ∨
    (p.count ≠ p.queueSize ∧ p.pthpoolClose = false ∧ o.signal = true)

instance (p : ThreadPool F A) (callback : Option F) (o : AddTaskResults) :
    Decidable (AddTaskGood p callback o) :=
  inferInstanceAs (Decidable (_ = none ∨ _))

/-! ### The ways out -/

variable {p : ThreadPool F A} {st : PthreadLinkStatus} {arg : A} {o : AddTaskResults}

/-- A call that leaves the pool alone has appended nothing. -/
theorem not_appended_self {r : Ret} {n : ℕ} {callback : Option F} :
    ¬ (⟨r, n, ⟨st, .live p⟩⟩ : Call F A).Appended p callback arg := by
  rintro ⟨f, p', -, hp, ht⟩
  cases hp
  simp at ht

/-- Refused before the lock: an honest call. -/
theorem honest_refused {e : SyPthreadPoolErr} (he : e ≠ .success) {callback : Option F} :
    (⟨.returns e, 0, ⟨st, .live p⟩⟩ : Call F A).Honest p callback arg where
  returns := ⟨e, rfl⟩
  unlocked := rfl
  success_iff := ⟨fun h => absurd (Ret.returns.inj h) he, fun h => absurd h not_appended_self⟩
  refused := fun _ => ⟨p, rfl, rfl, rfl, rfl⟩

/-- The task stored and the mutex released: an honest call. -/
theorem honest_success (hp : p.RingInv) (hc : p.count ≠ p.queueSize) (f : F) :
    (⟨.returns .success, 0, ⟨st, .live (p.enqueue ⟨f, arg⟩)⟩⟩ : Call F A).Honest p (some f) arg where
  returns := ⟨_, rfl⟩
  unlocked := rfl
  success_iff := ⟨fun _ => ⟨f, _, rfl, rfl, ThreadPool.pending_enqueue hp hc _⟩, fun _ => rfl⟩
  refused := fun h => absurd rfl h

/-- Whatever the `pthread` calls report, the closing branch is not honest: it
keeps the mutex, never returns, or reports `Success` for a pool it has freed. -/
theorem not_honest_close (callback : Option F) (r : CloseResults) :
    ¬ (SyinxPthreadPool.close ⟨st, .live p⟩ 1 r).Honest p callback arg := by
  intro h
  obtain ⟨lock, broadcast⟩ := r
  cases lock with
  | failed => exact absurd h.unlocked Nat.one_ne_zero
  | blocks => obtain ⟨e, he⟩ := h.returns; cases he
  | acquired =>
    have hheld := h.unlocked
    cases broadcast
    · exact absurd hheld (Nat.succ_ne_zero 1)
    · exact absurd hheld Nat.one_ne_zero

/-- **`AddTaskFunc` is honest exactly** when the callback is null, or the lock
fails, or there is room in the queue, the pool is not closing and the signal
succeeds. -/
theorem addTaskFunc_honest_iff (st : PthreadLinkStatus) (p : ThreadPool F A) (hp : p.RingInv)
    (callback : Option F) (arg : A) (o : AddTaskResults) :
    (SyinxPthreadPool.addTaskFunc ⟨st, .live p⟩ callback arg o).Honest p callback arg ↔
      AddTaskGood p callback o := by
  cases callback with
  | none => exact ⟨fun _ => .inl rfl, fun _ => honest_refused (by decide)⟩
  | some f =>
    unfold SyinxPthreadPool.addTaskFunc
    simp only [AddTaskGood, reduceCtorEq, false_or]
    by_cases hlock : o.lock = false
    · rw [if_pos hlock]
      exact ⟨fun _ => .inl hlock, fun _ => honest_refused (by decide)⟩
    rw [if_neg hlock]
    by_cases hfull : p.queueSize = p.count
    · -- `QueueIsMax` returns with the mutex held
      rw [if_pos hfull]
      constructor
      · intro h; exact absurd h.unlocked Nat.one_ne_zero
      · rintro (h | ⟨h, -⟩)
        · exact absurd h hlock
        · exact absurd hfull.symm h
    rw [if_neg hfull]
    by_cases hclose : p.pthpoolClose = true
    · rw [if_pos hclose]
      constructor
      · intro h; exact absurd h (not_honest_close _ _)
      · rintro (h | ⟨-, h, -⟩)
        · exact absurd h hlock
        · rw [hclose] at h; cases h
    rw [if_neg hclose]
    by_cases hsignal : o.signal = false
    · -- `CondSignalErr` returns with the mutex held, the task being stored
      rw [if_pos hsignal]
      constructor
      · intro h; exact absurd h.unlocked Nat.one_ne_zero
      · rintro (h | ⟨-, -, h⟩)
        · exact absurd h hlock
        · rw [hsignal] at h; cases h
    · rw [if_neg hsignal]
      refine ⟨fun _ => .inr ⟨fun h => hfull h.symm, by simpa using hclose, by simpa using hsignal⟩,
        fun _ => honest_success hp (fun h => hfull h.symm) f⟩

/-- A queue of one cell with a task in it. -/
def fullPool : ThreadPool ℕ ℕ := (ThreadPool.new (fun _ => ⟨0, 0⟩) 2 1).enqueue ⟨7, 7⟩

theorem ringInv_fullPool : fullPool.RingInv :=
  (ThreadPool.RingInv.new (by decide) (by decide)).enqueue (by decide) _

/-- Every `pthread` call succeeds. -/
def allOk : AddTaskResults := ⟨true, true, ⟨.acquired, true⟩⟩

/-- The condition holds and the call is honest, with room for a task. -/
theorem addTaskFunc_honest_room :
    (SyinxPthreadPool.addTaskFunc ⟨.work, .live (ThreadPool.new (fun _ => ⟨0, 0⟩) 2 1)⟩
      (some 7) 7 allOk).Honest (ThreadPool.new (fun _ => ⟨0, 0⟩) 2 1) (some 7) 7 :=
  (addTaskFunc_honest_iff .work (ThreadPool.new (fun _ => ⟨0, 0⟩) 2 1)
    (ThreadPool.RingInv.new (by decide) (by decide)) (some 7) 7 allOk).mpr (by decide)

/-- A full queue: the call returns `QueueIsMax` with the mutex held. -/
theorem addTaskFunc_leaks_lock :
    fullPool.RingInv ∧
      (SyinxPthreadPool.addTaskFunc ⟨.work, .live fullPool⟩ (some 8) 8 allOk).ret =
        .returns .queueIsMax ∧
      (SyinxPthreadPool.addTaskFunc ⟨.work, .live fullPool⟩ (some 8) 8 allOk).held = 1 ∧
      ¬ (SyinxPthreadPool.addTaskFunc ⟨.work, .live fullPool⟩ (some 8) 8 allOk).Honest
        fullPool (some 8) 8 :=
  ⟨ringInv_fullPool, by decide, by decide, fun h => absurd h.unlocked (by decide)⟩

end Syinx.Pthread
