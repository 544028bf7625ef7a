import Syinx.Pthread.LifeCycle

/-!
# The start of the pool, in the process

`Initialize` once more, with what it takes from the process: memory, the mutex, the condition
variable, the attributes, and the workers it starts one by one. `PthPool` is an address here,
so that a new pool is not the one before. Whatever fails, `Initialize` returns `NULL` at once;
`SyPthreadPool_free` is called on one path only, and `new` does not return a null pointer, so
that path is left out. A worker that has been started stays, as `PthpoolClose` is false.

## What is proved

* `Process.init_obj` — the pool object is that of `SyinxPthreadPool.init`.
* `Process.init_cases` — what is there afterwards, whether it has returned the pool or `NULL`.
* `allOrNothing_iff` — which starts are all or nothing.
-/

namespace Syinx.Pthread

open Syinx.Library

variable {F A : Type}

/-- What `Initialize` takes, for the pool at an address. -/
inductive Resource where
  /-- The `threadpool_t`. -/
  | threadpool (a : ℕ)
  /-- Its `threads`. -/
  | threads (a : ℕ)
  /-- Its `Taskqueue`. -/
  | taskqueue (a : ℕ)
  /-- Its `Pthlock`. -/
  | pthlock (a : ℕ)
  /-- Its `Pthcond`. -/
  | pthcond (a : ℕ)
  /-- The `Pthattr` its threads are created with. -/
  | pthattr (a : ℕ)
  deriving DecidableEq

/-- The process, as `Initialize` sees it. -/
structure Process (F A : Type) where
  /-- `PthreadStatus`. -/
  pthreadStatus : PthreadLinkStatus
  /-- `PthPool`. -/
  pthPool : Option ℕ
  /-- The memory: the `threadpool_t` at an address. -/
  pools : ℕ → Option (ThreadPool F A)
  /-- The next address `new` returns. -/
  next : ℕ
  /-- What has been taken and not given back. -/
  held : List Resource
  /-- The workers that run, each by the address of its pool. -/
  workers : List ℕ

namespace Process

/-- Something is taken. -/
def take (s : Process F A) (r : Resource) : Process F A := { s with held := r :: s.held }

/-- A worker is started, and `started` incremented. -/
def spawn (s : Process F A) (a : ℕ) : Process F A :=
  { s with
    pools := Function.update s.pools a
      ((s.pools a).map fun p => { p with started := p.started + 1 })
    workers := a :: s.workers }

/-- The loop that creates the threads, from thread `i` on, and whether it got through. -/
def createThreads (s : Process F A) (a : ℕ) (create : ℕ → Bool) (i : ℕ) : ℕ → Bool × Process F A
  | 0 => (true, s)
  | left + 1 =>
    if create i then (s.spawn a).createThreads a create (i + 1) left else (false, s)

/-- `PthPool` and its arrays are new, with the fields filled in. -/
def newPool (s : Process F A) (cells : ℤ → SyPthreadPoolTask F A)
    (thread_count queue_size : UInt32) : Process F A :=
  { s with
    pthPool := some s.next
    pools := Function.update s.pools s.next (some (ThreadPool.new cells thread_count queue_size))
    next := s.next + 1
    held := .taskqueue s.next :: .threads s.next :: .threadpool s.next :: s.held }

/-- `SyinxPthreadPool::Initialize`: what it returns, and the process after it. -/
def init (s : Process F A) (thread_count queue_size : UInt32)
    (cells : ℤ → SyPthreadPoolTask F A) (o : InitResults) : Option ℕ × Process F A :=
  let a := s.next
  let s := s.newPool cells thread_count queue_size
  if o.mutexInit = false then (none, s) else
  let s := s.take (.pthlock a)
  if o.condInit = false then (none, s) else
  let s := s.take (.pthcond a)
  if o.attrInit = false then (none, s) else
  let s := s.take (.pthattr a)
  let r := s.createThreads a o.create 0 thread_count.toNat
  if r.1 then (some a, { r.2 with pthreadStatus := .work }) else (none, r.2)

/-- The pool object of the process. -/
def obj (s : Process F A) : SyinxPthreadPool F A where
  pthreadStatus := s.pthreadStatus
  pthPool :=
    match s.pthPool with
    | none => .null
    | some a =>
      match s.pools a with
      | none => .freed
      | some p => .live p

end Process

/-! ### All or nothing -/

/-- The pool was started: it has `n` workers, all of them its own, its ring is empty, and the
status says that it works. -/
structure Started (s t : Process F A) (n a : ℕ) : Prop where
  pthPool : t.pthPool = some a
  pool : ∃ p, t.pools a = some p ∧ p.count = 0 ∧ p.headIndex = 0 ∧ p.tailIndex = 0 ∧ p.pending = []
  workers : t.workers = List.replicate n a ++ s.workers
  status : t.pthreadStatus = .work

/-- Nothing is left of the start. -/
structure RolledBack (s t : Process F A) : Prop where
  pthPool : t.pthPool = s.pthPool
  workers : t.workers = s.workers
  held : t.held = s.held

/-- What `Initialize` is for. -/
def AllOrNothing (s : Process F A) (n : ℕ) (r : Option ℕ × Process F A) : Prop :=
  (∃ a, r.1 = some a ∧ Started s r.2 n a) ∨ (r.1 = none ∧ RolledBack s r.2)

/-- Every `pthread` call succeeds, for `n` threads. -/
structure InitResults.AllSucceed (o : InitResults) (n : ℕ) : Prop where
  mutexInit : o.mutexInit = true
  condInit : o.condInit = true
  attrInit : o.attrInit = true
  create : ∀ i < n, o.create i = true

/-! ### The loop -/

/-- The loop gets through if every thread is created. -/
theorem createThreads_snd_iff (create : ℕ → Bool) (i left : ℕ) :
    (createThreads create i left).2 = true ↔ ∀ j < left, create (i + j) = true := by
  induction left generalizing i with
  | zero => simp [createThreads]
  | succ left ih =>
    unfold createThreads
    split_ifs with hi
    · rw [ih, Nat.forall_lt_succ_left]
      simp only [Nat.add_zero, hi, true_and, Nat.add_right_comm, ← Nat.add_assoc]
    · simp only [false_iff, not_forall]
      exact ⟨0, Nat.succ_pos left, hi⟩

/-- Then it has started all that were left. -/
theorem createThreads_fst (create : ℕ → Bool) (i left : ℕ) :
    i ≤ (createThreads create i left).1 ∧ (createThreads create i left).1 ≤ i + left ∧
      ((createThreads create i left).2 = true → (createThreads create i left).1 = i + left) := by
  induction left generalizing i with
  | zero => exact ⟨le_rfl, le_rfl, fun _ => rfl⟩
  | succ left ih =>
    unfold createThreads
    split_ifs with hi
    · obtain ⟨h1, h2, h3⟩ := ih (i + 1)
      exact ⟨by omega, by omega, fun h => by rw [h3 h]; omega⟩
    · exact ⟨le_rfl, by omega, fun h => by cases h⟩

namespace Process

variable {s : Process F A} {a i : ℕ} {p : ThreadPool F A}

/-- The loop starts as many workers as `SyinxPthreadPool.init` counts. -/
theorem createThreads_eq (create : ℕ → Bool) (hp : s.pools a = some p) (hi : p.started = i)
    (left : ℕ) : s.createThreads a create i left =
      ((Pthread.createThreads create i left).2,
        { s with
          pools := Function.update s.pools a
            (some { p with started := (Pthread.createThreads create i left).1 })
          workers := List.replicate ((Pthread.createThreads create i left).1 - i) a ++
            s.workers }) := by
  induction left generalizing s p i with
  | zero =>
    unfold createThreads Pthread.createThreads
    simp [← hi, ← hp]
  | succ left ih =>
    unfold createThreads Pthread.createThreads
    split_ifs with hc
    · have hle := (createThreads_fst create (i + 1) left).1
      have hsub : (Pthread.createThreads create (i + 1) left).1 - i =
          (Pthread.createThreads create (i + 1) left).1 - (i + 1) + 1 := by omega
      have hp' : (s.spawn a).pools a = some { p with started := p.started + 1 } := by
        simp [spawn, hp]
      rw [ih hp' (by simp [hi]), hsub, List.replicate_succ']
      simp [spawn]
    · simp [← hi, ← hp]

/-! ### What Initialize leaves -/

/-- The process with the new pool and `k` workers of it, and with more taken than before. -/
structure Filled (s t : Process F A) (p : ThreadPool F A) (k : ℕ) : Prop where
  pthPool : t.pthPool = some s.next
  pools : t.pools = Function.update s.pools s.next (some { p with started := k })
  workers : t.workers = List.replicate k s.next ++ s.workers
  held : ∃ rs, t.held = rs ++ .threadpool s.next :: s.held

theorem Filled.newPool (s : Process F A) (cells : ℤ → SyPthreadPoolTask F A) (n q : UInt32) :
    Filled s (s.newPool cells n q) (ThreadPool.new cells n q) 0 where
  pthPool := rfl
  pools := rfl
  workers := rfl
  held := ⟨[_, _], rfl⟩

theorem Filled.take {t : Process F A} {k : ℕ} (h : Filled s t p k) (r : Resource) :
    Filled s (t.take r) p k where
  pthPool := h.pthPool
  pools := h.pools
  workers := h.workers
  held := by
    obtain ⟨rs, hrs⟩ := h.held
    exact ⟨r :: rs, by rw [Process.take, hrs, List.cons_append]⟩

theorem Filled.createThreads {t : Process F A} (h : Filled s t p 0) (create : ℕ → Bool) (n : ℕ) :
    Filled s (t.createThreads s.next create 0 n).2 p (Pthread.createThreads create 0 n).1 ∧
      (t.createThreads s.next create 0 n).1 = (Pthread.createThreads create 0 n).2 ∧
      (t.createThreads s.next create 0 n).2.pthreadStatus = t.pthreadStatus := by
  have hp : t.pools s.next = some { p with started := (0 : ℕ) } := by
    rw [h.pools, Function.update_self]
  rw [createThreads_eq create hp rfl]
  refine ⟨⟨h.pthPool, ?_, ?_, h.held⟩, rfl, rfl⟩
  · rw [h.pools, Function.update_idem]
  · rw [Nat.sub_zero, h.workers, List.replicate_zero, List.nil_append]

/-- What `Initialize` can do: all calls succeed and the pool works, or one fails and the pool
stays with the workers it has got. -/
theorem init_cases (s : Process F A) (n q : UInt32) (cells : ℤ → SyPthreadPoolTask F A)
    (o : InitResults) :
    ∃ k, Filled s (s.init n q cells o).2 (ThreadPool.new cells n q) k ∧
      ((o.AllSucceed n.toNat ∧ k = n.toNat ∧ (s.init n q cells o).1 = some s.next ∧
          (s.init n q cells o).2.pthreadStatus = .work) ∨
        (¬ o.AllSucceed n.toNat ∧ (s.init n q cells o).1 = none ∧
          (s.init n q cells o).2.pthreadStatus = s.pthreadStatus)) := by
  have hnew := Filled.newPool s cells n q
  unfold init
  dsimp only
  split_ifs with hm hc ha hr
  · refine ⟨0, hnew, .inr ⟨fun h => ?_, rfl, rfl⟩⟩
    exact Bool.noConfusion (h.mutexInit.symm.trans hm)
  · refine ⟨0, hnew.take _, .inr ⟨fun h => ?_, rfl, rfl⟩⟩
    exact Bool.noConfusion (h.condInit.symm.trans hc)
  · refine ⟨0, (hnew.take _).take _, .inr ⟨fun h => ?_, rfl, rfl⟩⟩
    exact Bool.noConfusion (h.attrInit.symm.trans ha)
  all_goals
    obtain ⟨hfill, hret, hstatus⟩ :=
      (((hnew.take (.pthlock s.next)).take (.pthcond s.next)).take
        (.pthattr s.next)).createThreads o.create n.toNat
    rw [hret] at hr
    refine ⟨_, ⟨hfill.pthPool, hfill.pools, hfill.workers, hfill.held⟩, ?_⟩
  · have hall := (createThreads_snd_iff o.create 0 n.toNat).mp hr
    refine .inl ⟨⟨by simpa using hm, by simpa using hc, by simpa using ha, ?_⟩, ?_, rfl, rfl⟩
    · intro j hj
      simpa using hall j hj
    · rw [(createThreads_fst o.create 0 n.toNat).2.2 hr, Nat.zero_add]
  · refine .inr ⟨fun h => hr ?_, rfl, hstatus⟩
    exact (createThreads_snd_iff o.create 0 n.toNat).mpr fun j hj => by
      rw [Nat.zero_add]
      exact h.create j hj

/-- The pool object is the one of `SyinxPthreadPool.init`, which does not look at the process. -/
theorem init_obj (s : Process F A) (n q : UInt32) (cells : ℤ → SyPthreadPoolTask F A)
    (o : InitResults) :
    (s.init n q cells o).1.isSome = (s.obj.init n q cells o).1 ∧
      (s.init n q cells o).2.obj = (s.obj.init n q cells o).2 := by
  have hloop := createThreads_eq o.create
    (s := (((s.newPool cells n q).take (.pthlock s.next)).take (.pthcond s.next)).take
      (.pthattr s.next))
    (a := s.next) (p := ThreadPool.new cells n q) (i := 0) (by simp [newPool, take]) rfl n.toNat
  unfold init SyinxPthreadPool.init
  dsimp only
  split_ifs with hm hc ha hr hr'
  · simp [obj, newPool]
  · simp [obj, newPool, take]
  · simp [obj, newPool, take]
  all_goals rw [hloop] at hr ⊢
  · simp [obj, newPool, take]
  · exact absurd hr ‹_›
  · exact absurd ‹_› hr
  · simp [obj, newPool, take]

end Process

/-- **Which starts are all or nothing**: those in which every `pthread` call succeeds. -/
theorem allOrNothing_iff (s : Process F A) (n q : UInt32) (cells : ℤ → SyPthreadPoolTask F A)
    (o : InitResults) :
    AllOrNothing s n.toNat (s.init n q cells o) ↔ o.AllSucceed n.toNat := by
  obtain ⟨k, hfill, ⟨hall, rfl, hret, hstatus⟩ | ⟨hnot, hret, -⟩⟩ := s.init_cases n q cells o
  · refine iff_of_true (.inl ⟨s.next, hret, hfill.pthPool, ?_, hfill.workers, hstatus⟩) hall
    exact ⟨_, by rw [hfill.pools, Function.update_self], rfl, rfl, rfl, rfl⟩
  · refine iff_of_false ?_ hnot
    rintro (⟨a, ha, -⟩ | ⟨-, hback⟩)
    · rw [hret] at ha
      cases ha
    · -- the `threadpool_t` at least has not been given back
      obtain ⟨rs, hrs⟩ := hfill.held
      have hlen := congrArg List.length (hrs.symm.trans hback.held)
      simp at hlen
      omega

/-- `g_SyinxPthPool` when the program starts. -/
def Process.new : Process F A := ⟨.close, none, fun _ => none, 0, [], []⟩

/-- Of four threads the third is not created: two workers run, and `PthPool` points to their
pool. -/
theorem not_allOrNothing_thirdThread :
    ((Process.new : Process ℕ ℕ).init 4 10 (fun _ => ⟨0, 0⟩) ⟨true, true, true, (· ≠ 2)⟩).1 = none ∧
      ((Process.new : Process ℕ ℕ).init 4 10 (fun _ => ⟨0, 0⟩) ⟨true, true, true, (· ≠ 2)⟩).2.workers =
        [0, 0] ∧
      ¬ AllOrNothing (Process.new : Process ℕ ℕ) 4
        ((Process.new : Process ℕ ℕ).init 4 10 (fun _ => ⟨0, 0⟩) ⟨true, true, true, (· ≠ 2)⟩) := by
  refine ⟨rfl, rfl, ?_⟩
  rintro (⟨a, ha, -⟩ | ⟨-, hback⟩)
  · cases ha
  · cases hback.workers

end Syinx.Pthread
