import Syinx.Pthread.Delivery

/-!
# A full task queue

Behind its wait loop `SyPthreadPool_thread` tests `count == queue_size` and, if so,
goes back to the top of the loop with `continue`, where it asks for the mutex it
still holds. From then on nobody gets the mutex any more.

Here calls of `Close` are left out: the pool serves.

## What is proved

* `Moves.frame` — while one thread owns the mutex, no step of another one
  touches the pool, the mutex or the place of the first.
* `serves_iff_notFull` — a run goes only through states in which the pool serves
  (no worker asks for the mutex it holds, and a worker that got it with a task
  pending takes the task and releases it, whatever the other threads do
  meanwhile) exactly if no worker is ever inside its section with a full queue.
-/

namespace Syinx.Pthread

open Syinx.Library

variable {F A : Type}

/-- A thread there asks for the mutex. -/
def Pc.asks : Pc F A → Bool
  | .lock | .wake | .addLock _ | .closeLock => true
  | _ => false

theorem Pc.asks_eq_false_of_holds {x : Pc F A} (h : x.holds = true) : x.asks = false := by
  cases x <;> first | rfl | cases h

/-- A worker there has the mutex and has not yet taken a task. -/
def Pc.entered : Pc F A → Bool
  | .check | .full | .closing | .take => true
  | _ => false

/-- A thread there is inside `Close`. -/
def Pc.inClose : Pc F A → Bool
  | .closeLock | .closeBroadcast | .closeUnlock | .closeFree => true
  | _ => false

/-- The action is neither a step of worker `i` nor a call of `Close`. -/
def Act.OfOthers (i : ℕ) (a : Act F A) : Prop :=
  a.isClose = false ∧ ∀ ok woken, a ≠ .run (.worker i) ok woken

/-- `m` more steps of worker `i` lead to `Q`: each of them is possible whatever the
other threads have done before it. -/
def Completes (i : ℕ) (Q : Machine F A → Prop) : ℕ → Machine F A → Prop
  | 0, s => Q s
  | m + 1, s => ∀ bs t, (∀ a ∈ bs, Act.OfOthers i a) → exec Machine.step s bs = some t →
      ∃ u, t.step (.worker i) = some u ∧ Completes i Q m u

/-- Worker `i` takes the task at `HeadIndex` and then releases the mutex. -/
def Dequeues (s : Machine F A) (i : ℕ) : Prop :=
  ∃ m, Completes i (fun u => u.owner = none ∧ u.pool = s.pool.dequeue ∧
    u.pc (.worker i) = .run s.pool.front) m s

/-- The pool serves: no worker asks for the mutex it holds, and a worker that has
got the mutex with a task pending takes it and releases the mutex. -/
structure Serves (s : Machine F A) : Prop where
  /-- No worker locks itself out. -/
  noSelfLock : ∀ i, (s.pc (.worker i)).asks → s.owner ≠ some (.worker i)
  /-- Every pending task can be taken. -/
  dequeues : ∀ i, (s.pc (.worker i)).entered → 0 < s.pool.count →
    s.pool.count ≤ s.pool.queueSize → s.pool.pthpoolClose = false → Dequeues s i

/-- No worker that has got the mutex finds the queue full. -/
def NotFull (s : Machine F A) : Prop :=
  ∀ i, (s.pc (.worker i)).entered → s.pool.count ≠ s.pool.queueSize

/-! ### While a thread holds the mutex -/

section Frame

variable {s t : Machine F A} {k m : Tid}

/-- While thread `m` owns the mutex, another thread only moves about outside, or
releases the pool at the end of `Close`. -/
theorem Moves.outside (hs : Safe s) (hm : s.owner = some m) (hkm : k ≠ m) (h : Moves s k t) :
    (∃ x, t = s.goto k x ∧ x.inClose = false) ∨
      (s.pc k = .closeFree ∧
        t = { s with freed := true, pc := Function.update s.pc k (.idle (some .success)) }) := by
  have hno : ∀ {x : Pc F A}, s.pc k = x → x.holds = true → False := by
    intro x hx hk
    have hown := hs.owner (k := k) (by rw [hx]; exact hk)
    rw [hm] at hown
    exact hkm (Option.some.inj hown).symm
  cases h with
  | lock _ ho | wake _ ho | addLock _ ho | closeLock _ ho => rw [hm] at ho; cases ho
  | sleep hpc | awake hpc | retry hpc | notFull hpc | leaves hpc | stays hpc | take hpc | unlock hpc
  | leave hpc | leaveUnlock hpc | addMax hpc | addRoom hpc | addCloses hpc | addStays hpc
  | addStore hpc | addSignalErr hpc | addSignal hpc | addSignalNone hpc | addUnlock hpc
  | closeBroadcastErr hpc | closeBroadcast hpc | closeUnlock hpc => exact (hno hpc rfl).elim
  | run | addLockErr | closeLockErr => exact .inl ⟨_, rfl, rfl⟩
  | closeFree hpc => exact .inr ⟨hpc, rfl⟩

/-- While thread `m` owns the mutex, another thread's step leaves the pool, the
mutex and the place of `m` alone. -/
theorem Moves.frame (hs : Safe s) (hm : s.owner = some m) (hkm : k ≠ m) (h : Moves s k t) :
    t.pool = s.pool ∧ t.owner = s.owner ∧ t.pc m = s.pc m := by
  rcases h.outside hs hm hkm with ⟨x, rfl, -⟩ | ⟨-, rfl⟩
  · exact ⟨rfl, rfl, Machine.goto_of_ne hkm.symm⟩
  · exact ⟨rfl, rfl, Function.update_of_ne hkm.symm _ _⟩

/-- The invariant of the runs without a call of `Close`. -/
structure Serving (q : ℤ) (s : Machine F A) : Prop where
  safe : Safe s
  size : s.pool.queueSize = q
  freed : s.freed = false
  fault : s.fault = none
  /-- No thread is inside `Close`. -/
  noClose : ∀ k, (s.pc k).inClose = false

namespace Serving

variable {q : ℤ}

theorem start (cells : ℤ → SyPthreadPoolTask F A) (n q : UInt32) :
    Serving (intOfUint32 q) (Machine.start cells n q) where
  safe := Safe.start cells n q
  size := rfl
  freed := rfl
  fault := rfl
  noClose
    | .worker i => by simp only [Machine.start]; split_ifs <;> rfl
    | .caller _ => rfl

theorem goto_noClose (h : Serving q s) {x : Pc F A} (hx : x.inClose = false) (m : Tid) :
    ((Function.update s.pc k x) m).inClose = false := by
  by_cases hmk : m = k
  · subst hmk; rw [Function.update_self]; exact hx
  · rw [Function.update_of_ne hmk]; exact h.noClose m

theorem move (h : Serving q s) (hm : Moves s k t) : Serving q t := by
  have hsafe := h.safe.move hm
  have hno : ∀ {x : Pc F A}, s.pc k = x → x.inClose = false := fun hx => hx ▸ h.noClose k
  cases hm with
  | addCloses _ hc => rw [h.safe.opened] at hc; cases hc
  | closeLockErr hpc | closeLock hpc | closeBroadcastErr hpc | closeBroadcast hpc
  | closeUnlock hpc | closeFree hpc => cases hno hpc
  | @addSignal i =>
    refine ⟨hsafe, h.size, h.freed, h.fault, fun m => ?_⟩
    have hw : Serving q (s.goto (.worker i) .wake) :=
      ⟨h.safe.goto_outside rfl, h.size, h.freed, h.fault, h.goto_noClose rfl⟩
    exact hw.goto_noClose rfl m
  | _ => exact ⟨hsafe, h.size, h.freed, h.fault, h.goto_noClose rfl⟩

/-- A step other than a call of `Close` keeps the invariant. -/
theorem step {a : Act F A} (h : Serving q s) (ha : a.isClose = false) (hs : s.step a = some t) :
    Serving q t := by
  cases happens_of_step hs with
  | fault hf => rw [h.freed] at hf; cases hf
  | move _ hm => exact h.move hm
  | spurious | addNull | add =>
    exact ⟨h.safe.goto_outside rfl, h.size, h.freed, h.fault, h.goto_noClose rfl⟩
  | close => cases ha

/-- In a pool that is not released a step of a thread is what it does. -/
theorem step_run (h : Serving q s) (ok : Bool) (woken : Option ℕ) :
    s.step (.run k ok woken) = s.advance k ok woken := by
  simp [Machine.step, h.fault, h.freed]

end Serving

end Frame

/-! ### The worker's section -/

section Worker

variable {q : ℤ} {s t : Machine F A} {i : ℕ} {p : ThreadPool F A} {x : Pc F A}

/-- Worker `i` stands at `x` and the pool is `p`. -/
structure At (q : ℤ) (i : ℕ) (x : Pc F A) (p : ThreadPool F A) (s : Machine F A) : Prop where
  serving : Serving q s
  pc : s.pc (.worker i) = x
  pool : s.pool = p

namespace At

theorem owner (h : At q i x p s) (hx : x.holds = true) : s.owner = some (.worker i) :=
  h.serving.safe.owner (by rw [h.pc]; exact hx)

/-- What the others do does not matter to a worker that holds the mutex. -/
theorem others_step (h : At q i x p s) (hx : x.holds = true) {a : Act F A} (ha : a.OfOthers i)
    (hst : s.step a = some t) : At q i x p t := by
  have hi : (s.pc (.worker i)).holds = true := by rw [h.pc]; exact hx
  suffices hst' : t.pool = s.pool ∧ t.pc (.worker i) = s.pc (.worker i) from
    ⟨h.serving.step ha.1 hst, hst'.2.trans h.pc, hst'.1.trans h.pool⟩
  cases happens_of_step hst with
  | fault hf => rw [h.serving.freed] at hf; cases hf
  | @move k ok woken _ _ hm =>
    have hki : k ≠ .worker i := fun he => ha.2 ok woken (by rw [he])
    obtain ⟨hpool, -, hpc⟩ := hm.frame h.serving.safe (h.serving.safe.owner hi) hki
    exact ⟨hpool, hpc⟩
  | @spurious j hj =>
    refine ⟨rfl, Function.update_of_ne ?_ _ _⟩
    rintro ⟨⟩
    rw [Pc.asleep_eq_false_of_holds hi] at hj
    cases hj
  | addNull | add => exact ⟨rfl, Machine.goto_of_ne Tid.noConfusion⟩
  | close => cases ha.1

theorem others (h : At q i x p s) (hx : x.holds = true) {bs : List (Act F A)}
    (hbs : ∀ a ∈ bs, Act.OfOthers i a) (he : exec Machine.step s bs = some t) : At q i x p t := by
  induction bs generalizing s with
  | nil => cases he; exact h
  | cons a bs ih =>
    obtain ⟨u, hu, he⟩ := exec_cons_eq_some.mp he
    exact ih (h.others_step hx (hbs a List.mem_cons_self) hu)
      (fun b hb => hbs b (List.mem_cons_of_mem a hb)) he

/-- One step of the worker, from `x` to `y`, whatever the others do before it. -/
theorem completes_succ {y : Pc F A} {p' : ThreadPool F A} {m : ℕ} {Q : Machine F A → Prop}
    (h : At q i x p s) (hx : x.holds = true)
    (hstep : ∀ t, At q i x p t → ∃ u, t.advance (.worker i) true none = some u ∧ At q i y p' u)
    (hm : ∀ u, At q i y p' u → Completes i Q m u) : Completes i Q (m + 1) s := by
  intro bs t hbs he
  have ht := h.others hx hbs he
  obtain ⟨u, hu, hat⟩ := hstep t ht
  exact ⟨u, (ht.serving.step_run true none).trans hu, hm u hat⟩

/-- A step of the worker that leads to `y` and the pool `p'`. -/
theorem next {y : Pc F A} {p' : ThreadPool F A} {u : Machine F A} (h : At q i x p t)
    (hu : t.advance (.worker i) true none = some u) (hpc : u.pc (.worker i) = y)
    (hpool : u.pool = p') : ∃ u, t.advance (.worker i) true none = some u ∧ At q i y p' u :=
  ⟨u, hu, h.serving.move (moves_of_advance hu), hpc, hpool⟩

/-- The task `p.front` is taken from the pool `p` and the mutex is released. -/
def Done (i : ℕ) (p : ThreadPool F A) (u : Machine F A) : Prop :=
  u.owner = none ∧ u.pool = p.dequeue ∧ u.pc (.worker i) = .run p.front

theorem completes_unlock (h : At q i (.unlock p.front) p.dequeue s) : Completes i (Done i p) 1 s := by
  intro bs t hbs he
  have ht := h.others rfl hbs he
  exact ⟨_, (ht.serving.step_run true none).trans (Machine.advance_unlock ht.pc), rfl, ht.pool,
    Machine.release_self⟩

theorem completes_take (h : At q i .take p s) : Completes i (Done i p) 2 s := by
  refine h.completes_succ rfl (fun t ht => ?_) fun u hu => hu.completes_unlock
  have hpool := ht.pool
  subst hpool
  exact ht.next (Machine.advance_take ht.pc) (Function.update_self ..) rfl

theorem completes_closing (h : At q i .closing p s) : Completes i (Done i p) 3 s := by
  refine h.completes_succ rfl (fun t ht => ?_) fun u hu => hu.completes_take
  exact ht.next (Machine.advance_closing ht.pc ht.serving.safe.opened) Machine.goto_self ht.pool

theorem completes_full (h : At q i .full p s) (hp : p.count ≠ p.queueSize) :
    Completes i (Done i p) 4 s := by
  refine h.completes_succ rfl (fun t ht => ?_) fun u hu => hu.completes_closing
  refine ht.next (Machine.advance_full ht.pc) ?_ ht.pool
  rw [ht.pool, if_neg hp, Machine.goto_self]

theorem completes_check (h : At q i .check p s) (hp : p.count ≠ p.queueSize) (h0 : p.count ≠ 0) :
    Completes i (Done i p) 5 s := by
  refine h.completes_succ rfl (fun t ht => ?_) fun u hu => hu.completes_full hp
  exact ht.next (Machine.advance_check ht.pc (by rw [ht.pool]; exact h0)) Machine.goto_self ht.pool

end At

/-- With room in the queue, a worker that has the mutex takes the pending task. -/
theorem dequeues_of_ne (h : Serving q s) (he : (s.pc (.worker i)).entered)
    (hq : s.pool.count ≠ s.pool.queueSize) (h0 : 0 < s.pool.count) : Dequeues s i := by
  have hat : At q i (s.pc (.worker i)) s.pool s := ⟨h, rfl, rfl⟩
  cases hpc : s.pc (.worker i) <;> rw [hpc] at he hat <;> try cases he
  · exact ⟨5, hat.completes_check hq h0.ne'⟩
  · exact ⟨4, hat.completes_full hq⟩
  · exact ⟨3, hat.completes_closing⟩
  · exact ⟨2, hat.completes_take⟩

/-- At the test `count == queue_size` with a full queue, the worker never comes to
release the mutex: it asks for it again. -/
theorem not_completes_full {Q : Machine F A → Prop} (hQ : ∀ u, Q u → u.owner = none) {m : ℕ}
    (h : At q i .full p s) (hp : p.count = p.queueSize) : ¬ Completes i Q m s := by
  have hown : s.owner = some (.worker i) := h.owner rfl
  have hlock : s.step (.worker i) = some (s.goto (.worker i) .lock) := by
    rw [h.serving.step_run, Machine.advance_full h.pc, h.pool, if_pos hp]
  have hstuck : (s.goto (.worker i) .lock).step (.worker i) = none := by
    have hs : Serving q (s.goto (.worker i) .lock) := h.serving.step rfl hlock
    rw [hs.step_run, Machine.advance_lock Machine.goto_self]
    exact if_neg (by rw [show (s.goto (.worker i) .lock).owner = _ from hown]; simp)
  intro hc
  match m, hc with
  | 0, hc => rw [hQ s hc] at hown; cases hown
  | m + 1, hc =>
    obtain ⟨u, hu, hc⟩ := hc [] s (by simp) rfl
    rw [hlock] at hu
    cases hu
    match m, hc with
    | 0, hc => exact absurd (hown.symm.trans (hQ (s.goto (.worker i) .lock) hc)) (by simp)
    | m + 1, hc =>
      obtain ⟨u, hu, -⟩ := hc [] _ (by simp) rfl
      rw [hstuck] at hu
      cases hu

/-- With a full queue, a worker inside its section does not take the task. -/
theorem not_dequeues_of_eq (h : Serving q s) (he : (s.pc (.worker i)).entered)
    (hq : s.pool.count = s.pool.queueSize) (h0 : s.pool.count ≠ 0) : ¬ Dequeues s i := by
  have hat : At q i (s.pc (.worker i)) s.pool s := ⟨h, rfl, rfl⟩
  rintro ⟨m, hc⟩
  cases hpc : s.pc (.worker i) <;> rw [hpc] at he hat <;> try cases he
  · -- one step on, at the test `count == queue_size`
    have hstep : s.step (.worker i) = some (s.goto (.worker i) .full) :=
      (h.step_run true none).trans (Machine.advance_check hpc h0)
    have hfull : At q i .full s.pool (s.goto (.worker i) .full) :=
      ⟨h.step rfl hstep, Machine.goto_self, rfl⟩
    match m, hc with
    | 0, hc => exact absurd ((hat.owner rfl).symm.trans hc.1) (by simp)
    | m + 1, hc =>
      obtain ⟨u, hu, hc⟩ := hc [] s (by simp) rfl
      rw [hstep] at hu
      cases hu
      exact not_completes_full (fun u hu => hu.1) hfull hq hc
  · exact not_completes_full (fun u hu => hu.1) hat hq hc
  · exact absurd hq (h.safe.fact hpc rfl).2
  · exact absurd hq (h.safe.fact hpc rfl).2

end Worker

/-! ### Runs -/

/-- A worker that owns the mutex is at a point that holds it. -/
def Owned (s : Machine F A) : Prop :=
  ∀ i, s.owner = some (.worker i) → (s.pc (.worker i)).holds = true

theorem Owned.noSelfLock {s : Machine F A} (h : Owned s) (i : ℕ)
    (hi : (s.pc (.worker i)).asks) : s.owner ≠ some (.worker i) := by
  intro ho
  rw [Pc.asks_eq_false_of_holds (h i ho)] at hi
  cases hi

/-- The one step after which a worker owns the mutex without being at a point that
holds it is the `continue` of a full queue. -/
theorem Owned.move {s t : Machine F A} {k : Tid} (h : Owned s) (hs : Safe s) (hk : Kinds s)
    (hfull : NotFull s) (hm : Moves s k t) : Owned t := by
  intro i ho
  by_cases hki : Tid.worker i = k
  · -- the worker's own step
    subst hki
    have hw : ∀ {x : Pc F A}, s.pc (.worker i) = x → x.ofWorker = true :=
      fun hx => hx ▸ hk (.worker i)
    have hh : ∀ {x : Pc F A}, s.pc (.worker i) = x → s.owner = some (.worker i) → x.holds = true :=
      fun hx ho => hx ▸ h i ho
    cases hm with
    | lock | wake => rw [Machine.acquire_self]; rfl
    | sleep | unlock | leaveUnlock | addUnlock | closeUnlock => cases ho
    | awake | notFull | leaves | stays => rw [Machine.goto_self]; rfl
    | take | leave => simp [Pc.holds]
    | retry hpc hc => exact absurd hc (hfull i (by rw [hpc]; rfl))
    | run hpc => cases hh hpc ho
    | addLockErr hpc | addLock hpc | addMax hpc | addRoom hpc | addCloses hpc | addStays hpc
    | addStore hpc | addSignalErr hpc | addSignal hpc | addSignalNone hpc | closeLockErr hpc
    | closeLock hpc | closeBroadcastErr hpc | closeBroadcast hpc | closeFree hpc => cases hw hpc
  · -- another thread's step
    have hno : ∀ {x : Pc F A}, s.pc k = x → x.holds = true → s.owner ≠ some (.worker i) := by
      intro x hx hxh ho
      rw [hs.owner (by rw [hx]; exact hxh)] at ho
      exact hki (Option.some.inj ho).symm
    cases hm with
    | lock | wake | addLock | closeLock => cases ho; exact absurd rfl hki
    | sleep | unlock | leaveUnlock | addUnlock | closeUnlock => cases ho
    | addSignal hpc | closeBroadcast hpc => exact absurd ho (hno hpc rfl)
    | _ => exact (congrArg Pc.holds (Machine.goto_of_ne hki)).trans (h i ho)

theorem Owned.step {s t : Machine F A} {a : Act F A} (h : Owned s) (hs : Safe s) (hk : Kinds s)
    (hfull : NotFull s) (hst : s.step a = some t) : Owned t := by
  cases happens_of_step hst with
  | fault => exact h
  | move _ hm => exact h.move hs hk hfull hm
  | @spurious i hi =>
    intro m ho
    have hne : Tid.worker m ≠ .worker i := by
      rintro ⟨⟩
      rw [Pc.asleep_eq_false_of_holds (h i ho)] at hi
      cases hi
    exact (congrArg Pc.holds (Machine.goto_of_ne hne)).trans (h m ho)
  | addNull | add | close =>
    intro m ho
    exact (congrArg Pc.holds (Machine.goto_of_ne Tid.noConfusion)).trans (h m ho)

/-- A queue of at least one place: the size the pool stores is not zero. -/
theorem Serving.size_ne_zero {s : Machine F A} {q : UInt32} (hq : 1 ≤ q)
    (h : Serving (intOfUint32 q) s) : s.pool.queueSize ≠ 0 := by
  rw [h.size]
  exact intOfUint32_ne_zero hq

/-- A pool that serves has no worker inside its section with a full queue. -/
theorem Serves.notFull {s : Machine F A} {q : UInt32} (hq : 1 ≤ q)
    (h : Serving (intOfUint32 q) s) (hs : Serves s) : NotFull s := by
  intro i hi he
  have h0 : s.pool.count ≠ 0 := by rw [he]; exact h.size_ne_zero hq
  have hpos : 0 < s.pool.count := lt_of_le_of_ne h.safe.count h0.symm
  exact not_dequeues_of_eq h hi he h0 (hs.dequeues i hi hpos he.le h.safe.opened)

/-- **A full queue.** In a run without calls of `Close`, the pool serves in every
state exactly if in none of them a worker is inside its section with a full
queue. -/
theorem serves_iff_notFull (cells : ℤ → SyPthreadPoolTask F A) (n q : UInt32) (hq : 1 ≤ q)
    (as : List (Act F A)) (has : ∀ a ∈ as, a.isClose = false) :
    Along Machine.step Serves (Machine.start cells n q) as ↔
      Along Machine.step NotFull (Machine.start cells n q) as := by
  have h0 : Serving (intOfUint32 q) (Machine.start cells n q) := .start cells n q
  constructor
  · exact Along.strengthen (I := Serving (intOfUint32 q)) (fun s a t ha h _ hst => h.step ha hst)
      (fun s h hs => hs.notFull hq h) h0 has
  · refine Along.strengthen (I := fun s => Serving (intOfUint32 q) s ∧ Kinds s ∧ Owned s)
      ?_ ?_ ⟨h0, Kinds.start cells n q, fun i ho => nomatch ho⟩ has
    · rintro s a t ha ⟨h, hk, ho⟩ hfull hst
      exact ⟨h.step ha hst, hk.step hst, ho.step h.safe hk hfull hst⟩
    · rintro s ⟨h, -, ho⟩ hfull
      exact ⟨ho.noSelfLock, fun i hi hpos _ _ => dequeues_of_ne h hi (hfull i hi) hpos⟩

/-- A task in an array of two places is taken, and the pool serves all along. -/
theorem serves_storeAndTake :
    Along Machine.step Serves (Machine.start (fun _ => ⟨0, 0⟩) 1 2) storeAndTake := by
  refine (serves_iff_notFull (fun _ => ⟨0, 0⟩) 1 2 (by decide) storeAndTake (by decide)).mpr ?_
  have h : Along Machine.step (fun s => s.pool.count ≠ s.pool.queueSize)
      (Machine.start (fun _ => ⟨0, 0⟩) 1 2) storeAndTake := by decide
  exact h.mono fun s hs _ _ => hs

/-- A task in an array of one place: worker `0` gets the mutex, finds the queue full
and asks for the mutex again. -/
def storeAndRetry : List (Act ℕ ℕ) :=
  [.addTaskFunc 0 (some 7) 5, .caller 0 none, .caller 0 none, .caller 0 none, .caller 0 none,
    .caller 0 none, .caller 0 none, .worker 0, .worker 0, .worker 0]

theorem not_serves_storeAndRetry :
    (∀ a ∈ storeAndRetry, a.isClose = false) ∧
      ∃ s, exec Machine.step (Machine.start (fun _ => ⟨0, 0⟩) 1 1) storeAndRetry = some s ∧
        (s.pc (.worker 0)).asks = true ∧ s.owner = some (.worker 0) ∧
        ¬ Along Machine.step Serves (Machine.start (fun _ => ⟨0, 0⟩) 1 1) storeAndRetry := by
  refine ⟨by decide, _, rfl, rfl, rfl, fun h => ?_⟩
  exact (h.last rfl).noSelfLock 0 rfl rfl

end Syinx.Pthread
