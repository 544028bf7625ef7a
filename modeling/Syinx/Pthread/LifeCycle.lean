import Syinx.Library.Runs
import Syinx.Pthread.AddTask
import Mathlib.Data.List.Nodup

/-!
# The life of the pool object

`g_SyinxPthPool` exists from the start of the program; `PthPool` is null until
`Initialize` is called, points to a pool from then on, also when `Initialize` has
failed half-way, and is not reset when `Close` has freed the pool. Nothing in
`AddTaskFunc` or `Close` looks at what it points to. `SyinxKernelInitAdapter` calls
`Initialize` only if the configuration asks for a pool; `SyinxKernel::Close` calls
`Close` always.

A call with a mutex that an earlier one has left locked does not come back. The workers
show only in the tasks they take. `new` does not return a null pointer, so the branch of
`Initialize` for that case is left out.

## What is proved

* `Inv.step` — what a call does to `PthPool`, and which calls find it null or freed.
* `unharmed_iff` — a sequence of calls does no harm exactly if each `Close`, and each
  `AddTaskFunc` with a function, comes after an `Initialize` that no `Close` has undone.
-/

namespace Syinx.Pthread

open Syinx.Library

variable {F A : Type}

/-! ### Initialize -/

/-- What the `pthread` calls of `Initialize` report: `true` is `0`. -/
structure InitResults where
  /-- `pthread_mutex_init`. -/
  mutexInit : Bool
  /-- `pthread_cond_init`. -/
  condInit : Bool
  /-- `pthread_attr_init`. -/
  attrInit : Bool
  /-- `pthread_create` of thread `i`. -/
  create : ℕ → Bool

/-- The loop that creates the threads, from thread `i` on: how many have been started in
the end, and whether it got through. -/
def createThreads (create : ℕ → Bool) (i : ℕ) : ℕ → ℕ × Bool
  | 0 => (i, true)
  | left + 1 => if create i then createThreads create (i + 1) left else (i, false)

namespace SyinxPthreadPool

/-- `SyinxPthreadPool::Initialize`, and whether what it returns is not null; `cells` is what
`new` leaves in `Taskqueue`. -/
def init (g : SyinxPthreadPool F A) (thread_count queue_size : UInt32)
    (cells : ℤ → SyPthreadPoolTask F A) (o : InitResults) : Bool × SyinxPthreadPool F A :=
  let p := ThreadPool.new cells thread_count queue_size
  if o.mutexInit = false then (false, { g with pthPool := .live p })
  else if o.condInit = false then (false, { g with pthPool := .live p })
  else if o.attrInit = false then (false, { g with pthPool := .live p })
  else
    let r := createThreads o.create 0 thread_count.toNat
    if r.2 then (true, ⟨.work, .live { p with started := r.1 }⟩)
    else (false, { g with pthPool := .live { p with started := r.1 } })

/-- Whatever fails, `PthPool` points to the new pool. -/
theorem init_pthPool (g : SyinxPthreadPool F A) (n q : UInt32) (cells : ℤ → SyPthreadPoolTask F A)
    (o : InitResults) :
    ∃ p, (g.init n q cells o).2.pthPool = .live p ∧ p.pthpoolClose = false ∧
      p.queueSize = intOfUint32 q := by
  unfold init
  dsimp only
  split_ifs <;> exact ⟨_, rfl, rfl, rfl⟩

/-- `g_SyinxPthPool` when the program starts. -/
def new : SyinxPthreadPool F A := ⟨.close, .null⟩

end SyinxPthreadPool

/-! ### Sequences of calls -/

/-- What is called. -/
inductive PoolCall (F A : Type) where
  /-- `Initialize`. -/
  | init (thread_count queue_size : UInt32) (cells : ℤ → SyPthreadPoolTask F A) (o : InitResults)
  /-- `AddTaskFunc`. -/
  | addTaskFunc (callback : Option F) (arg : A) (o : AddTaskResults)
  /-- `Close`. -/
  | close (o : CloseResults)
  /-- A worker takes a task. -/
  | take

/-- The pool object in the course of a sequence of calls. -/
structure Life (F A : Type) where
  /-- `g_SyinxPthPool`. -/
  obj : SyinxPthreadPool F A
  /-- How many times the calls have left `Pthlock` locked. -/
  held : ℕ
  /-- How many `threadpool_t` there have been. -/
  made : ℕ
  /-- Those that have been freed, by number. -/
  frees : List ℕ
  /-- A call has dereferenced a `PthPool` that is null or has been freed. -/
  fault : Bool

namespace Life

/-- When the program starts. -/
def start : Life F A := ⟨.new, 0, 0, [], false⟩

/-- `PthPool` points to memory that has been released. -/
def dangling (g : SyinxPthreadPool F A) : Bool :=
  match g.pthPool with
  | .freed => true
  | _ => false

/-- What a call leaves behind. -/
def after (s : Life F A) (c : Call F A) : Option (Life F A) :=
  match c.ret with
  | .faults => some { s with fault := true }
  | .blocks => none
  | .returns _ =>
    some { s with
      obj := c.obj
      held := s.held + c.held
      frees := if dangling c.obj && !dangling s.obj then s.frees ++ [s.made] else s.frees }

/-- One call; `none`: it does not come back, or there has been a fault. -/
def step (s : Life F A) (a : PoolCall F A) : Option (Life F A) :=
  if s.fault then none
  else
    match a with
    | .init n q cells o =>
      some { s with obj := (s.obj.init n q cells o).2, held := 0, made := s.made + 1 }
    | .addTaskFunc callback arg o =>
      if callback.isSome ∧ o.lock = true ∧ s.held ≠ 0 then none
      else s.after (s.obj.addTaskFunc callback arg o)
    | .close o =>
      if o.lock = .acquired ∧ s.held ≠ 0 then none
      else s.after (s.obj.close 0 o)
    | .take =>
      match s.obj.pthPool with
      | .live p =>
        if p.count = 0 ∨ s.held ≠ 0 then none
        else some { s with obj := { s.obj with pthPool := .live p.dequeue } }
      | _ => none

/-- No call has dereferenced a pool that was not there, none has been freed twice. -/
structure Unharmed (s : Life F A) : Prop where
  fault : s.fault = false
  frees : s.frees.Nodup

end Life

/-! ### Which sequences are safe -/

namespace PoolCall

/-- The call needs a pool. -/
def needsPool : PoolCall F A → Bool
  | .addTaskFunc callback _ _ => callback.isSome
  | .close _ => true
  | .init .. | .take => false

/-- There is a pool after the call. -/
def keepsPool (ready : Bool) : PoolCall F A → Bool
  | .init .. => true
  | .close o => ready && !(decide (o.lock = .acquired) && o.broadcast)
  | .addTaskFunc .. | .take => ready

/-- Each call that needs a pool has one: an `Initialize` has come before it, and no
successful `Close` in between. `ready`: there is a pool at the start. -/
def Provided : Bool → List (PoolCall F A) → Prop
  | _, [] => True
  | ready, a :: as => (a.needsPool = true → ready = true) ∧ Provided (a.keepsPool ready) as

instance Provided.decidable : (ready : Bool) → (as : List (PoolCall F A)) →
    Decidable (Provided ready as)
  | _, [] => inferInstanceAs (Decidable True)
  | ready, a :: as =>
    have := Provided.decidable (a.keepsPool ready) as
    inferInstanceAs (Decidable ((a.needsPool = true → ready = true) ∧ _))

end PoolCall

namespace Life

/-- What is known of the pool object between two calls; `ready`: there is a pool. -/
structure Inv (ready : Bool) (s : Life F A) : Prop where
  fault : s.fault = false
  /-- Nobody sets `PthpoolClose`. -/
  live : ready = true → ∃ p, s.obj.pthPool = .live p ∧ p.pthpoolClose = false
  gone : ready = false → s.obj.pthPool = .null ∨ s.obj.pthPool = .freed
  nodup : s.frees.Nodup
  bound : ∀ i ∈ s.frees, i ≤ s.made
  /-- The pool there is has not been freed. -/
  current : ready = true → s.made ∉ s.frees

namespace Inv

variable {ready : Bool} {s t : Life F A}

theorem start : Inv false (Life.start : Life F A) where
  fault := rfl
  live h := by cases h
  gone _ := .inl rfl
  nodup := List.nodup_nil
  bound i hi := by cases hi
  current h := by cases h

/-- The pool is still there, whatever is in it. -/
theorem keep (h : Inv true s) {p : ThreadPool F A} (hp : t.obj.pthPool = .live p)
    (hc : p.pthpoolClose = false) (hfault : t.fault = s.fault) (hmade : t.made = s.made)
    (hfrees : t.frees = s.frees) : Inv true t where
  fault := hfault.trans h.fault
  live _ := ⟨p, hp, hc⟩
  gone h := by cases h
  nodup := hfrees ▸ h.nodup
  bound := by rw [hfrees, hmade]; exact h.bound
  current := by rw [hfrees, hmade]; exact h.current

/-- A call that returns and leaves a pool. -/
theorem of_after (h : Inv true s) {c : Call F A} {e : SyPthreadPoolErr} {p : ThreadPool F A}
    (hret : c.ret = .returns e) (hp : c.obj.pthPool = .live p) (hc : p.pthpoolClose = false)
    (hst : s.after c = some t) : Inv true t := by
  have hd : dangling c.obj = false := by unfold dangling; rw [hp]
  unfold after at hst
  rw [hret, hd] at hst
  cases hst
  exact h.keep hp hc rfl rfl rfl

/-- A call without a pool. -/
theorem close_gone (h : Inv false s) (n : ℕ) (o : CloseResults) :
    (s.obj.close n o).ret = .faults := by
  unfold SyinxPthreadPool.close
  rcases h.gone rfl with hp | hp <;> rw [hp]

theorem addTaskFunc_gone (h : Inv false s) (f : F) (arg : A) (o : AddTaskResults) :
    (s.obj.addTaskFunc (some f) arg o).ret = .faults := by
  unfold SyinxPthreadPool.addTaskFunc
  rcases h.gone rfl with hp | hp <;> rw [hp]

/-- `AddTaskFunc` leaves the pool where it is. -/
theorem addTaskFunc (h : Inv true s) {callback : Option F} {arg : A} {o : AddTaskResults}
    (hst : s.after (s.obj.addTaskFunc callback arg o) = some t) : Inv true t := by
  obtain ⟨p, hp, hc⟩ := h.live rfl
  have hobj : ∃ e p', (s.obj.addTaskFunc callback arg o).ret = .returns e ∧
      (s.obj.addTaskFunc callback arg o).obj.pthPool = .live p' ∧ p'.pthpoolClose = false := by
    unfold SyinxPthreadPool.addTaskFunc
    cases callback with
    | none => exact ⟨_, p, rfl, hp, hc⟩
    | some f =>
      rw [hp]
      dsimp only
      split_ifs with hlock hfull hclose hsignal
      · exact ⟨_, p, rfl, hp, hc⟩
      · exact ⟨_, p, rfl, hp, hc⟩
      · rw [hc] at hclose; cases hclose
      · exact ⟨_, _, rfl, rfl, hc⟩
      · exact ⟨_, _, rfl, rfl, hc⟩
  obtain ⟨e, p', hret, hp', hc'⟩ := hobj
  exact h.of_after hret hp' hc' hst

/-- A null function is refused before the pool is looked at. -/
theorem addTaskFunc_none (h : Inv ready s) {arg : A} {o : AddTaskResults}
    (hst : s.after (s.obj.addTaskFunc none arg o) = some t) : Inv ready t := by
  have hfrees : (dangling s.obj && !dangling s.obj) = false := by cases dangling s.obj <;> rfl
  unfold after SyinxPthreadPool.addTaskFunc at hst
  simp only [hfrees] at hst
  cases hst
  exact ⟨h.fault, h.live, h.gone, h.nodup, h.bound, h.current⟩

/-- `Close` frees the pool, unless its `pthread` calls fail. -/
theorem close (h : Inv true s) {o : CloseResults} (hst : s.after (s.obj.close 0 o) = some t) :
    Inv (!(decide (o.lock = .acquired) && o.broadcast)) t := by
  obtain ⟨p, hp, hc⟩ := h.live rfl
  obtain ⟨lock, broadcast⟩ := o
  cases lock with
  | failed =>
    refine h.of_after (e := .lockErr) (p := p) ?_ ?_ hc hst <;> simp [SyinxPthreadPool.close, hp]
  | blocks =>
    unfold SyinxPthreadPool.close after at hst
    simp only [hp] at hst
    cases hst
  | acquired =>
    cases broadcast with
    | false =>
      refine h.of_after (e := .condSignalErr) (p := p) ?_ ?_ hc hst <;>
        simp [SyinxPthreadPool.close, hp]
    | true =>
      unfold SyinxPthreadPool.close after at hst
      simp only [hp, SyinxPthreadPool.free, dangling, Bool.true_eq_false, if_false] at hst
      cases hst
      have hnot := h.current rfl
      refine ⟨h.fault, fun hr => ?_, fun _ => .inr rfl, ?_, ?_, fun hr => ?_⟩
      · cases hr
      · exact List.nodup_append.mpr ⟨h.nodup, List.nodup_singleton _, fun i hi j hj => by
          rintro rfl
          exact hnot (List.mem_singleton.mp hj ▸ hi)⟩
      · intro i hi
        rcases List.mem_append.mp hi with hi | hi
        · exact h.bound i hi
        · exact (List.mem_singleton.mp hi).le
      · cases hr

/-- **One call** of the pool object: if it needs a pool and there is none it does harm;
otherwise there is a pool after it as `keepsPool` says. -/
theorem step (h : Inv ready s) {a : PoolCall F A} (hst : s.step a = some t) :
    ((a.needsPool = true → ready = true) ∧ Inv (a.keepsPool ready) t) ∨
      (¬ (a.needsPool = true → ready = true) ∧ t.fault = true) := by
  unfold Life.step at hst
  rw [if_neg (by rw [h.fault]; decide)] at hst
  cases a with
  | init n q cells o =>
    cases hst
    obtain ⟨p, hp, hc, -⟩ := s.obj.init_pthPool n q cells o
    refine .inl ⟨fun hn => ?_, h.fault, fun _ => ⟨p, hp, hc⟩, fun hr => ?_, h.nodup,
      fun i hi => (h.bound i hi).trans (Nat.le_succ _), fun _ hm => ?_⟩
    · cases hn
    · cases hr
    · exact absurd (h.bound _ hm) (Nat.not_succ_le_self _)
  | addTaskFunc callback arg o =>
    simp only at hst
    split_ifs at hst
    cases callback with
    | none => exact .inl ⟨fun hn => (by cases hn), h.addTaskFunc_none hst⟩
    | some f =>
      cases ready with
      | true => exact .inl ⟨fun _ => rfl, h.addTaskFunc hst⟩
      | false =>
        unfold after at hst
        rw [h.addTaskFunc_gone] at hst
        cases hst
        exact .inr ⟨by simp [PoolCall.needsPool], rfl⟩
  | close o =>
    simp only at hst
    split_ifs at hst
    cases ready with
    | true => exact .inl ⟨fun _ => rfl, h.close hst⟩
    | false =>
      unfold after at hst
      rw [h.close_gone] at hst
      cases hst
      exact .inr ⟨by simp [PoolCall.needsPool], rfl⟩
  | take =>
    cases ready with
    | true =>
      obtain ⟨p, hp, hc⟩ := h.live rfl
      simp only [hp] at hst
      split_ifs at hst
      cases hst
      exact .inl ⟨fun _ => rfl, h.keep (p := p.dequeue) rfl hc rfl rfl rfl⟩
    | false =>
      rcases h.gone rfl with hp | hp <;> simp only [hp] at hst <;> cases hst

/-- A sequence of calls. -/
theorem iff_provided (h : Inv ready s) {as : List (PoolCall F A)}
    (hx : exec Life.step s as = some t) : t.Unharmed ↔ PoolCall.Provided ready as := by
  induction as generalizing s ready with
  | nil =>
    cases hx
    exact iff_of_true ⟨h.fault, h.nodup⟩ trivial
  | cons a as ih =>
    obtain ⟨u, hu, hx⟩ := exec_cons_eq_some.mp hx
    rcases h.step hu with ⟨ha, hinv⟩ | ⟨ha, hfault⟩
    · rw [ih hinv hx]
      exact (and_iff_right ha).symm
    · -- the run ends with the fault
      have htu : t = u := by
        cases as with
        | nil => cases hx; rfl
        | cons b bs =>
          obtain ⟨v, hv, -⟩ := exec_cons_eq_some.mp hx
          unfold Life.step at hv
          rw [if_pos hfault] at hv
          cases hv
      refine iff_of_false (fun ht => ?_) fun hp => ha hp.1
      have := ht.fault
      rw [htu, hfault] at this
      cases this

end Inv

end Life

/-! ### In the kernel -/

/-- What `SyinxKernelInitAdapter` does with the pool. -/
def syinxKernelInitAdapter (mUsePthreadPool : Bool) (m_PthPoolNum m_TaskNum : ℤ)
    (cells : ℤ → SyPthreadPoolTask F A) (o : InitResults) : List (PoolCall F A) :=
  if m_PthPoolNum > 1 ∧ mUsePthreadPool = true then
    [.init (.ofInt m_PthPoolNum) (.ofInt m_TaskNum) cells o]
  else []

/-- **The pool's interface** does no harm in a run of the kernel, whatever it is
configured to do at the start, exactly if each `Close`, and each `AddTaskFunc` with a
function, comes after an `Initialize`, at the start or later, and no successful `Close`
has come in between. -/
theorem unharmed_iff (mUsePthreadPool : Bool) (m_PthPoolNum m_TaskNum : ℤ)
    (cells : ℤ → SyPthreadPoolTask F A) (o : InitResults) (as : List (PoolCall F A)) (s : Life F A)
    (h : exec Life.step Life.start
      (syinxKernelInitAdapter mUsePthreadPool m_PthPoolNum m_TaskNum cells o ++ as) = some s) :
    s.Unharmed ↔ PoolCall.Provided (decide (m_PthPoolNum > 1) && mUsePthreadPool) as := by
  rw [Life.Inv.start.iff_provided h]
  unfold syinxKernelInitAdapter
  split_ifs with hc
  · rw [decide_eq_true hc.1, hc.2]
    exact and_iff_right fun hn => by cases hn
  · have hready : (decide (m_PthPoolNum > 1) && mUsePthreadPool) = false := by
      rw [Bool.eq_false_iff]
      intro h
      rw [Bool.and_eq_true, decide_eq_true_iff] at h
      exact hc h
    rw [hready]
    exact Iff.rfl

/-- Every `pthread` call of `Initialize` succeeds. -/
def initOk : InitResults := ⟨true, true, true, fun _ => true⟩

/-- A task is stored, and the pool is closed. -/
def storeAndClose : List (PoolCall ℕ ℕ) := [.addTaskFunc (some 7) 5 allOk, .close ⟨.acquired, true⟩]

/-- Four threads and a queue of ten tasks. -/
theorem unharmed_fourThreads :
    ∃ s : Life ℕ ℕ, exec Life.step Life.start
        (syinxKernelInitAdapter true 4 10 (fun _ => ⟨0, 0⟩) initOk ++ storeAndClose) = some s ∧
      s.frees = [1] ∧ s.Unharmed :=
  ⟨_, rfl, rfl, (unharmed_iff true 4 10 (fun _ => ⟨0, 0⟩) initOk storeAndClose _ rfl).mpr (by decide)⟩

/-- No pool is configured: the `Close` of `SyinxKernel::Close` dereferences a null pointer. -/
theorem not_unharmed_noPool :
    ∃ s : Life ℕ ℕ, exec Life.step Life.start
        (syinxKernelInitAdapter false 4 10 (fun _ => ⟨0, 0⟩) initOk ++
          [.close ⟨.acquired, true⟩]) = some s ∧
      s.fault = true ∧ ¬ s.Unharmed :=
  ⟨_, rfl, rfl, fun h => absurd h.fault (by decide)⟩

end Syinx.Pthread
