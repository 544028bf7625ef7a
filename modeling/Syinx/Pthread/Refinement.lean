import Syinx.Pthread.Delivery
import Syinx.Pthread.Atomic

/-!
# The pool is a queue

The runs of `Syinx.Pthread.Machine`, in which every `pthread` call and every access to the pool is a
step of its own, are carried over to runs of the queue of `Syinx.Pthread.Atomic`. A section of
the code between a lock and what ends it becomes one step, at the time it ends; until then the
queue is as it was before. What a thread shows behind the section, the return of its call or
the task it runs, it shows in both as late as it likes.

That is why a model of more than the pool, such as `Syinx.Threaded.Machine`, may take a section
of the pool as one step.

## What is proved

* `Reflects.step` — a step of a thread is a step of the queue, or none.
* `Tracks.run` — a run is a run of the queue, and the same can be seen of both.
* `atomic_of_exec` — **the pool is the queue**: in every run, whatever the threads do, the
  calls, the values they return and the tasks that are run are those of a run of the queue.
* `fifo_of_exec` — **what the callers know** of their tasks, at all times.
* `jammed_of_exec` — **after a failure** no worker takes a task any more.
-/

namespace Syinx.Pthread

open Syinx.Library

variable {F A : Type}

/-! ### The relation -/

/-- Where a thread of the machine stands, for the queue; `own`: it has the mutex. -/
def Pc.Stands (own : Prop) : Pc F A → Stop F A → Prop
  | .lock, st => (own ∧ st = .stuck) ∨ (¬ own ∧ st = .top)
  | .check, st | .wait, st | .wake, st | .full, st | .closing, st | .take, st | .unlock _, st =>
    st = .top
  | .run t, st => ¬ own ∧ st = .run t
  | .leave, _ | .leaveUnlock, _ => False
  | .exited, st => st = .exited
  | .idle r, st => st = .idle r
  | .addLock t, st | .addFull t, st | .addClosing t, st | .addStore t, st => st = .adding t
  | .addSignal, st | .addUnlock, st => ∃ t, st = .adding t
  | .closeLock, st | .closeBroadcast, st | .closeUnlock, st => st = .closing
  | .closeFree, st => st = .freeing

theorem Pc.shows_of_holds {x : Pc F A} (h : x.holds = true) (k : Tid) : x.shows k = [] := by
  cases x <;> first | rfl | cases h

/-- The same can be seen of both. -/
theorem Pc.Stands.shows {x : Pc F A} {own : Prop} {st : Stop F A} (h : x.Stands own st) (k : Tid) :
    st.shows k = x.shows k := by
  cases x <;> simp only [Pc.Stands] at h
  case lock => obtain ⟨-, rfl⟩ | ⟨-, rfl⟩ := h <;> rfl
  case run => rw [h.2]; rfl
  case addSignal | addUnlock => obtain ⟨t, rfl⟩ := h; rfl
  all_goals (rw [h]; rfl)

/-- The queue and the pending tasks, when the owner of the mutex stands there. In the middle
of a section they differ by what it has done. -/
def Pc.Between (size : ℕ) (queue pending : List (SyPthreadPoolTask F A)) :
    Pc F A → Stop F A → Prop
  | .unlock t, _ => queue = t :: pending ∧ queue.length ≠ size
  | .addSignal, st | .addUnlock, st =>
    ∃ t, st = .adding t ∧ pending = queue ++ [t] ∧ queue.length ≠ size
  | _, _ => queue = pending

/-- What holds of the machine alone. -/
structure Sound (q : ℤ) (m : Machine F A) : Prop where
  safe : Safe m
  kinds : Kinds m
  delivered : Delivered q m

theorem Sound.move {q : ℤ} {m t : Machine F A} {k : Tid} (h : Sound q m) (hm : Moves m k t) :
    Sound q t :=
  ⟨h.safe.move hm, h.kinds.move hm, h.delivered.move h.safe hm⟩

theorem Sound.step {q : ℤ} {m t : Machine F A} {a : Act F A} (h : Sound q m)
    (hst : m.step a = some t) : Sound q t :=
  ⟨h.safe.step hst, h.kinds.step hst, h.delivered.step h.safe hst⟩

/-- The queue is what the callers of the pool see. -/
structure Reflects (m : Machine F A) (a : Atomic F A) : Prop where
  sound : Sound a.size m
  freed : a.freed = m.freed
  /-- The mutex is lost if its owner is not in a section. -/
  lost : ∀ k, a.lost = some k ↔ m.owner = some k ∧ (m.pc k).holds = false
  stands : ∀ k, (m.pc k).Stands (m.owner = some k) (a.stop k)
  between : ∀ k, m.owner = some k → (m.pc k).Between a.size a.queue m.pool.pending (a.stop k)
  /-- Outside of the sections the queue is what is pending. -/
  pending : m.owner = none → a.queue = m.pool.pending

/-! ### Keeping the relation -/

/-- A thread stays where it is, or is woken. -/
def Pc.Stays (x y : Pc F A) : Prop := y = x ∨ (x = .wait ∧ y = .wake)

section Keeping

variable {m t : Machine F A} {a a' : Atomic F A} {k : Tid} {x y : Pc F A} {st : Stop F A}

theorem Pc.Stays.holds (h : x.Stays y) : y.holds = x.holds := by
  obtain rfl | ⟨rfl, rfl⟩ := h <;> rfl

theorem Pc.Stays.stands (h : x.Stays y) {own : Prop} (hx : x.Stands own st) : y.Stands own st := by
  obtain rfl | ⟨rfl, rfl⟩ := h
  · exact hx
  · exact hx

theorem Pc.Stays.between (h : x.Stays y) {size : ℕ} {queue pending : List (SyPthreadPoolTask F A)}
    (hx : x.Between size queue pending st) : y.Between size queue pending st := by
  obtain rfl | ⟨rfl, rfl⟩ := h
  · exact hx
  · exact hx

/-- Thread `k` moves to `x`, and to `st` for the queue; other threads may be woken. -/
theorem Reflects.update (h : Reflects m a) (hs : Sound a'.size t) (hfreed : a'.freed = t.freed)
    (hself : t.pc k = x) (hpc : ∀ e, e ≠ k → (m.pc e).Stays (t.pc e))
    (hstop : a'.stop = Function.update a.stop k st)
    (howner : ∀ e, e ≠ k → (t.owner = some e ↔ m.owner = some e))
    (hlost : ∀ e, e ≠ k → (a'.lost = some e ↔ a.lost = some e))
    (hlost' : a'.lost = some k ↔ t.owner = some k ∧ x.holds = false)
    (hx : x.Stands (t.owner = some k) st)
    (hk : t.owner = some k → x.Between a'.size a'.queue t.pool.pending st)
    (hother : ∀ e, e ≠ k → t.owner = some e →
      a'.size = a.size ∧ a'.queue = a.queue ∧ t.pool.pending = m.pool.pending)
    (hnone : t.owner = none → a'.queue = t.pool.pending) : Reflects t a' where
  sound := hs
  freed := hfreed
  lost e := by
    by_cases hek : e = k
    · subst hek
      rw [hself]
      exact hlost'
    · rw [hlost e hek, howner e hek, (hpc e hek).holds]
      exact h.lost e
  stands e := by
    by_cases hek : e = k
    · subst hek
      rw [hself, hstop, Function.update_self]
      exact hx
    · rw [hstop, Function.update_of_ne hek, howner e hek]
      exact (hpc e hek).stands (h.stands e)
  between e he := by
    by_cases hek : e = k
    · subst hek
      rw [hself, hstop, Function.update_self]
      exact hk he
    · obtain ⟨hsize, hqueue, hpending⟩ := hother e hek he
      rw [hsize, hqueue, hpending, hstop, Function.update_of_ne hek]
      exact (hpc e hek).between (h.between e ((howner e hek).mp he))
  pending := hnone

theorem stays_update {e : Tid} (he : e ≠ k) : (m.pc e).Stays (Function.update m.pc k x e) :=
  .inl (Function.update_of_ne he x m.pc)

/-- A thread moves on, in a section or outside. -/
theorem Reflects.goto (h : Reflects m a) (hs : Sound a.size (m.goto k x))
    (hholds : x.holds = (m.pc k).holds) (hx : x.Stands (m.owner = some k) st)
    (hk : m.owner = some k → x.Between a.size a.queue m.pool.pending st) :
    Reflects (m.goto k x) (a.goto k st) :=
  h.update hs h.freed (Function.update_self ..) (fun _ he => stays_update he) rfl
    (fun _ _ => Iff.rfl) (fun _ _ => Iff.rfl) (by rw [hholds]; exact h.lost k) hx hk
    (fun _ _ _ => ⟨rfl, rfl, rfl⟩) h.pending

theorem Atomic.goto_self : a.goto k (a.stop k) = a := by
  rw [Atomic.goto, Function.update_eq_self]

/-- A thread moves on, and the queue does not see it. -/
theorem Reflects.stay (h : Reflects m a) (hs : Sound a.size (m.goto k x))
    (hholds : x.holds = (m.pc k).holds) (hx : x.Stands (m.owner = some k) (a.stop k))
    (hk : m.owner = some k → x.Between a.size a.queue m.pool.pending (a.stop k)) :
    Reflects (m.goto k x) a := by
  have hself : a.goto k (a.stop k) = a := Atomic.goto_self
  rw [← hself]
  exact h.goto hs hholds hx hk

/-- Nobody has lost the mutex while it is free, or its owner is in a section. -/
theorem Reflects.lost_eq_none (h : Reflects m a)
    (ho : ∀ k, m.owner = some k → (m.pc k).holds = true) : a.lost = none := by
  refine Option.eq_none_iff_forall_ne_some.mpr fun k hk => ?_
  obtain ⟨hown, hholds⟩ := (h.lost k).mp hk
  rw [ho k hown] at hholds
  cases hholds

/-- A thread in a section is the owner of the mutex, and nobody has lost it. -/
theorem Reflects.held (h : Reflects m a) (hholds : (m.pc k).holds = true) :
    m.owner = some k ∧ a.lost = none := by
  have ho := h.sound.safe.owner hholds
  refine ⟨ho, h.lost_eq_none fun e he => ?_⟩
  rw [ho] at he
  cases he
  exact hholds

/-- A thread takes the mutex. -/
theorem Reflects.acquire (h : Reflects m a) (hs : Sound a.size (m.acquire k x))
    (ho : m.owner = none) (hholds : x.holds = true) (hx : x.Stands True (a.stop k))
    (hk : x.Between a.size m.pool.pending m.pool.pending (a.stop k)) :
    Reflects (m.acquire k x) a := by
  have hlost : a.lost = none := h.lost_eq_none fun e he => by
    rw [ho] at he
    cases he
  have hne : ∀ e, e ≠ k → ¬ some k = some e := fun e he hke => he (Option.some.inj hke).symm
  refine h.update hs h.freed (Function.update_self ..) (fun _ he => stays_update he)
    (Function.update_eq_self k a.stop).symm (fun e he => ?_) (fun _ _ => Iff.rfl) ?_ ?_ ?_
    (fun e he heq => absurd heq (hne e he)) (fun heq => by cases heq)
  · rw [ho]
    exact iff_of_false (hne e he) (Option.some_ne_none e).symm
  · rw [hlost, hholds]
    exact iff_of_false (Option.some_ne_none k).symm fun hf => by cases hf.2
  · exact (eq_true (rfl : (m.acquire k x).owner = some k)).symm ▸ hx
  · intro _
    rw [h.pending ho]
    exact hk

/-- The owner of the mutex releases it, at the end of a section. -/
theorem Reflects.release (h : Reflects m a) (st : Stop F A) (hs : Sound a.size (m.release k x))
    (hholds : (m.pc k).holds = true) (hx : x.Stands False st) :
    Reflects (m.release k x) ({ a with queue := m.pool.pending }.goto k st) := by
  obtain ⟨ho, hlost⟩ := h.held hholds
  have hnone : ∀ e, ¬ (m.release k x).owner = some e := fun e => (Option.some_ne_none e).symm
  refine h.update hs h.freed (Function.update_self ..) (fun _ he => stays_update he) rfl
    (fun e he => ?_) (fun _ _ => Iff.rfl) ?_ ?_ (fun heq => absurd heq (hnone k))
    (fun e _ heq => absurd heq (hnone e)) (fun _ => rfl)
  · rw [ho]
    exact iff_of_false (hnone e) fun hke => he (Option.some.inj hke).symm
  · show a.lost = some k ↔ _
    rw [hlost]
    exact iff_of_false (Option.some_ne_none k).symm fun hf => hnone k hf.1
  · rw [eq_false (hnone k)]
    exact hx

/-- The owner of the mutex leaves a section without the unlock. -/
theorem Reflects.lose (h : Reflects m a) (st : Stop F A) (hs : Sound a.size (m.goto k x))
    (hholds : (m.pc k).holds = true) (hholds' : x.holds = false)
    (hx : x.Stands True st) (hk : x.Between a.size m.pool.pending m.pool.pending st) :
    Reflects (m.goto k x) ({ a with queue := m.pool.pending }.lose k st) := by
  obtain ⟨ho, hlost⟩ := h.held hholds
  have hne : ∀ e, e ≠ k → ¬ some k = some e := fun e he hke => he (Option.some.inj hke).symm
  refine h.update hs h.freed (Function.update_self ..) (fun _ he => stays_update he) rfl
    (fun _ _ => Iff.rfl) (fun e he => ?_) (iff_of_true rfl ⟨ho, hholds'⟩) ?_ (fun _ => hk)
    (fun e he heq => absurd (ho.symm.trans heq) (hne e he)) (fun heq => ?_)
  · rw [hlost]
    exact iff_of_false (hne e he) (Option.some_ne_none e).symm
  · rw [eq_true (show (m.goto k x).owner = some k from ho)]
    exact hx
  · cases ho.symm.trans heq

/-- The owner of the mutex does something in the middle of a section: to the array, or to those
who are asleep. -/
theorem Reflects.work (h : Reflects m a) (hs : Sound a.size t) (hholds : (m.pc k).holds = true)
    (hfreed : t.freed = m.freed) (howner : t.owner = m.owner) (hself : t.pc k = x)
    (hpc : ∀ e, e ≠ k → (m.pc e).Stays (t.pc e)) (hholds' : x.holds = true)
    (hx : x.Stands True (a.stop k)) (hk : x.Between a.size a.queue t.pool.pending (a.stop k)) :
    Reflects t a := by
  have ho : t.owner = some k := howner.trans (h.sound.safe.owner hholds)
  refine h.update hs (h.freed.trans hfreed.symm) hself hpc (Function.update_eq_self k a.stop).symm
    (fun e _ => by rw [howner]) (fun _ _ => Iff.rfl) ?_ ?_ (fun _ => hk)
    (fun e he heq => absurd (Option.some.inj (ho.symm.trans heq)).symm he) (fun heq => ?_)
  · rw [h.lost k, hholds, hholds']
    exact iff_of_false (fun hf => by cases hf.2) fun hf => by cases hf.2
  · rw [eq_true ho]
    exact hx
  · cases ho.symm.trans heq

/-- What is pending is counted. -/
theorem Reflects.full_iff (h : Reflects m a) :
    m.pool.pending.length = a.size ↔ m.pool.count = m.pool.queueSize := by
  have hsize := h.sound.delivered.size
  have hcount := h.sound.delivered.ring.count
  rw [ThreadPool.length_pending, hsize]
  omega

theorem Reflects.empty_iff (h : Reflects m a) : m.pool.pending = [] ↔ m.pool.count = 0 := by
  have hcount := h.sound.delivered.ring.count
  rw [← List.length_eq_zero_iff, ThreadPool.length_pending]
  omega

end Keeping

/-! ### Steps -/

/-- The queue comes from `a` to a state that `t` reflects, by a step of thread `k` that makes the
calls `us`, or by none if nothing is to be seen. -/
def Matched (a : Atomic F A) (t : Machine F A) (k : Tid) (us : List (Seen F A)) : Prop :=
  (us = [] ∧ (t.pc k).shows k = [] ∧ Reflects t a) ∨
    ∃ b a', a.step b = some a' ∧ b.thread = k ∧ b.uses = us ∧ Reflects t a'

section Steps

variable {m t : Machine F A} {a a' : Atomic F A} {k : Tid} {x : Pc F A} {st : Stop F A}

theorem Matched.quiet (hself : t.pc k = x) (hx : x.shows k = []) (h : Reflects t a) :
    Matched a t k [] := .inl ⟨rfl, hself ▸ hx, h⟩

theorem Matched.one (b : AtomicAct F A) (a' : Atomic F A) (hb : a.step b = some a')
    (h : Reflects t a') : Matched a t b.thread b.uses := .inr ⟨b, a', hb, rfl, rfl, h⟩

theorem Reflects.stands_of (h : Reflects m a) {y : Pc F A} (hpc : m.pc k = y) :
    y.Stands (m.owner = some k) (a.stop k) := hpc ▸ h.stands k

theorem Reflects.between_of (h : Reflects m a) {y : Pc F A} (hpc : m.pc k = y)
    (ho : m.owner = some k) : y.Between a.size a.queue m.pool.pending (a.stop k) :=
  hpc ▸ h.between k ho

/-- What a thread in a section knows of the queue. -/
theorem Reflects.inside (h : Reflects m a) {y : Pc F A} (hpc : m.pc k = y) (hy : y.holds = true) :
    m.owner = some k ∧ a.lost = none ∧ y.Stands True (a.stop k) ∧
      y.Between a.size a.queue m.pool.pending (a.stop k) := by
  subst hpc
  obtain ⟨ho, hlost⟩ := h.held hy
  have hstands := h.stands k
  rw [eq_true ho] at hstands
  exact ⟨ho, hlost, hstands, h.between k ho⟩

theorem Reflects.not_freed (h : Reflects m a) (hused : m.freed = true → (m.pc k).uses = false)
    {y : Pc F A} (hpc : m.pc k = y) (hy : y.uses = true) : a.freed = false := by
  rw [h.freed]
  refine eq_false_of_ne_true fun hf => ?_
  have := hused hf
  rw [hpc, hy] at this
  cases this

theorem Reflects.worker (h : Reflects m a) {y : Pc F A} (hpc : m.pc k = y)
    (hy : y.ofWorker = true) : ∃ i, k = .worker i := by
  have hk := h.sound.kinds k
  rw [hpc, hy] at hk
  cases k with
  | worker i => exact ⟨i, rfl⟩
  | caller j => cases hk

theorem Reflects.caller (h : Reflects m a) {y : Pc F A} (hpc : m.pc k = y)
    (hy : y.ofWorker = false) : ∃ j, k = .caller j := by
  have hk := h.sound.kinds k
  rw [hpc, hy] at hk
  cases k with
  | worker i => cases hk
  | caller j => exact ⟨j, rfl⟩

/-- `continue`, with the mutex held. -/
theorem Reflects.retry (h : Reflects m a) (hs : Sound a.size (m.goto k .lock))
    (hused : m.freed = true → (m.pc k).uses = false) (hpc : m.pc k = .full)
    (hc : m.pool.count = m.pool.queueSize) : Matched a (m.goto k .lock) k [] := by
  obtain ⟨i, rfl⟩ := h.worker hpc rfl
  obtain ⟨-, hlost, hstop, hqueue⟩ := h.inside hpc rfl
  change a.stop (.worker i) = .top at hstop
  change a.queue = m.pool.pending at hqueue
  have hfreed := h.not_freed hused hpc rfl
  have hfull := h.full_iff.mpr hc
  have hne : a.queue ≠ [] := by
    rw [hqueue, Ne, h.empty_iff]
    exact h.sound.safe.fact hpc rfl
  obtain ⟨t, rest, hcons⟩ := List.exists_cons_of_ne_nil hne
  refine Matched.one (.take i) (a.lose (.worker i) .stuck) ?_ ?_
  · simp only [Atomic.step, hstop, hcons, hfreed, hlost]
    rw [← hcons, hqueue]
    simp [hfull]
  · have hlose := h.lose .stuck hs (by rw [hpc]; rfl) rfl (.inl ⟨trivial, rfl⟩) rfl
    rwa [← hqueue] at hlose

/-- The task that has been taken is run. -/
theorem Reflects.unlock (h : Reflects m a) {task : SyPthreadPoolTask F A}
    (hs : Sound a.size (m.release k (.run task)))
    (hused : m.freed = true → (m.pc k).uses = false) (hpc : m.pc k = .unlock task) :
    Matched a (m.release k (.run task)) k [] := by
  obtain ⟨i, rfl⟩ := h.worker hpc rfl
  obtain ⟨-, hlost, hstop, hqueue, hsize⟩ := h.inside hpc rfl
  change a.stop (.worker i) = .top at hstop
  have hfreed := h.not_freed hused hpc rfl
  have hrelease := h.release (.run task) hs (by rw [hpc]; rfl) ⟨not_false, rfl⟩
  refine Matched.one (.take i) _ ?_ hrelease
  simp only [Atomic.step, hstop, hqueue, hfreed, hlost]
  rw [← hqueue]
  simp [hsize]

/-- The lock of `AddTaskFunc` fails. -/
theorem Reflects.addLockErr (h : Reflects m a) {task : SyPthreadPoolTask F A}
    (hs : Sound a.size (m.goto k (.idle (some .lockErr))))
    (hused : m.freed = true → (m.pc k).uses = false) (hpc : m.pc k = .addLock task) :
    Matched a (m.goto k (.idle (some .lockErr))) k [] := by
  obtain ⟨j, rfl⟩ := h.caller hpc rfl
  have hfreed := h.not_freed hused hpc rfl
  have hstop : a.stop (.caller j) = .adding task := h.stands_of hpc
  refine Matched.one (.add j false true) (a.goto (.caller j) (.idle (some .lockErr))) ?_
    (h.goto hs (by rw [hpc]; rfl) rfl fun ho => ?_)
  · simp [Atomic.step, Atomic.add, hstop, hfreed]
  · exact h.between_of hpc ho

/-- The queue is full. -/
theorem Reflects.addMax (h : Reflects m a) {task : SyPthreadPoolTask F A}
    (hs : Sound a.size (m.goto k (.idle (some .queueIsMax))))
    (hused : m.freed = true → (m.pc k).uses = false) (hpc : m.pc k = .addFull task)
    (hc : m.pool.queueSize = m.pool.count) :
    Matched a (m.goto k (.idle (some .queueIsMax))) k [] := by
  obtain ⟨j, rfl⟩ := h.caller hpc rfl
  obtain ⟨-, hlost, hstop, hqueue⟩ := h.inside hpc rfl
  change a.stop (.caller j) = .adding task at hstop
  change a.queue = m.pool.pending at hqueue
  have hfreed := h.not_freed hused hpc rfl
  have hfull := h.full_iff.mpr hc.symm
  rw [← hqueue] at hfull
  have hlose := h.lose (.idle (some .queueIsMax)) hs (by rw [hpc]; rfl) rfl rfl rfl
  rw [← hqueue] at hlose
  refine Matched.one (.add j true true) (a.lose (.caller j) (.idle (some .queueIsMax))) ?_ hlose
  simp [Atomic.step, Atomic.add, hstop, hfreed, hlost, hfull]

/-- The task is stored, and the signal fails. -/
theorem Reflects.addSignalErr (h : Reflects m a)
    (hs : Sound a.size (m.goto k (.idle (some .condSignalErr))))
    (hused : m.freed = true → (m.pc k).uses = false) (hpc : m.pc k = .addSignal) :
    Matched a (m.goto k (.idle (some .condSignalErr))) k [] := by
  obtain ⟨j, rfl⟩ := h.caller hpc rfl
  obtain ⟨-, hlost, -, task, hstop, hqueue, hsize⟩ := h.inside hpc rfl
  have hfreed := h.not_freed hused hpc rfl
  have hlose := h.lose (.idle (some .condSignalErr)) hs (by rw [hpc]; rfl) rfl rfl rfl
  rw [hqueue] at hlose
  refine Matched.one (.add j true false) _ ?_ hlose
  simp [Atomic.step, Atomic.add, Atomic.push, hstop, hfreed, hlost, hsize]

/-- `AddTaskFunc` returns `Success`. -/
theorem Reflects.addUnlock (h : Reflects m a)
    (hs : Sound a.size (m.release k (.idle (some .success))))
    (hused : m.freed = true → (m.pc k).uses = false) (hpc : m.pc k = .addUnlock) :
    Matched a (m.release k (.idle (some .success))) k [] := by
  obtain ⟨j, rfl⟩ := h.caller hpc rfl
  obtain ⟨-, hlost, -, task, hstop, hqueue, hsize⟩ := h.inside hpc rfl
  have hfreed := h.not_freed hused hpc rfl
  have hrelease := h.release (.idle (some .success)) hs (by rw [hpc]; rfl) rfl
  rw [hqueue] at hrelease
  refine Matched.one (.add j true true) _ ?_ hrelease
  simp [Atomic.step, Atomic.add, Atomic.push, hstop, hfreed, hlost, hsize]

/-- The lock of `Close` fails. -/
theorem Reflects.closeLockErr (h : Reflects m a)
    (hs : Sound a.size (m.goto k (.idle (some .lockErr))))
    (hused : m.freed = true → (m.pc k).uses = false) (hpc : m.pc k = .closeLock) :
    Matched a (m.goto k (.idle (some .lockErr))) k [] := by
  obtain ⟨j, rfl⟩ := h.caller hpc rfl
  have hfreed := h.not_freed hused hpc rfl
  have hstop : a.stop (.caller j) = .closing := h.stands_of hpc
  refine Matched.one (.rouse j false true) (a.goto (.caller j) (.idle (some .lockErr)))
    ?_ (h.goto hs (by rw [hpc]; rfl) rfl fun ho => ?_)
  · simp [Atomic.step, hstop, hfreed]
  · exact h.between_of hpc ho

/-- The broadcast fails. -/
theorem Reflects.closeBroadcastErr (h : Reflects m a)
    (hs : Sound a.size (m.goto k (.idle (some .condSignalErr))))
    (hused : m.freed = true → (m.pc k).uses = false) (hpc : m.pc k = .closeBroadcast) :
    Matched a (m.goto k (.idle (some .condSignalErr))) k [] := by
  obtain ⟨j, rfl⟩ := h.caller hpc rfl
  obtain ⟨-, hlost, hstop, hqueue⟩ := h.inside hpc rfl
  change a.stop (.caller j) = .closing at hstop
  change a.queue = m.pool.pending at hqueue
  have hfreed := h.not_freed hused hpc rfl
  have hlose := h.lose (.idle (some .condSignalErr)) hs (by rw [hpc]; rfl) rfl rfl rfl
  rw [← hqueue] at hlose
  refine Matched.one (.rouse j true false) (a.lose (.caller j) (.idle (some .condSignalErr)))
    ?_ hlose
  simp [Atomic.step, hstop, hfreed, hlost]

/-- `Close` comes to `SyPthreadPool_free`. -/
theorem Reflects.closeUnlock (h : Reflects m a) (hs : Sound a.size (m.release k .closeFree))
    (hused : m.freed = true → (m.pc k).uses = false) (hpc : m.pc k = .closeUnlock) :
    Matched a (m.release k .closeFree) k [] := by
  obtain ⟨j, rfl⟩ := h.caller hpc rfl
  obtain ⟨-, hlost, hstop, hqueue⟩ := h.inside hpc rfl
  change a.stop (.caller j) = .closing at hstop
  change a.queue = m.pool.pending at hqueue
  have hfreed := h.not_freed hused hpc rfl
  have hrelease := h.release .freeing hs (by rw [hpc]; rfl) rfl
  rw [← hqueue] at hrelease
  refine Matched.one (.rouse j true true) (a.goto (.caller j) .freeing) ?_ hrelease
  simp [Atomic.step, hstop, hfreed, hlost]

/-- The pool is released. -/
theorem Reflects.closeFree (h : Reflects m a)
    (hs : Sound a.size { m.goto k (.idle (some .success)) with freed := true })
    (hused : m.freed = true → (m.pc k).uses = false) (hpc : m.pc k = .closeFree) :
    Matched a { m.goto k (.idle (some .success)) with freed := true } k [] := by
  obtain ⟨j, rfl⟩ := h.caller hpc rfl
  have hfreed := h.not_freed hused hpc rfl
  have hstop : a.stop (.caller j) = .freeing := h.stands_of hpc
  refine Matched.one (.free j)
    ({ a with freed := true }.goto (.caller j) (.idle (some .success))) ?_ ?_
  · simp [Atomic.step, hstop, hfreed]
  · refine h.update hs rfl (Function.update_self ..) (fun _ he => stays_update he) rfl
      (fun _ _ => Iff.rfl) (fun _ _ => Iff.rfl) ?_ rfl (fun ho => ?_) (fun _ _ _ => ⟨rfl, rfl, rfl⟩)
      h.pending
    · have hlost := h.lost (.caller j)
      rwa [hpc] at hlost
    · exact h.between_of hpc ho

/-- Whoever is woken was asleep. -/
theorem stays_wake {i : ℕ} (ha : (m.pc (.worker i)).asleep = true) (e : Tid) :
    (m.pc e).Stays (Function.update m.pc (.worker i) .wake e) := by
  by_cases he : e = .worker i
  · subst he
    rw [Function.update_self]
    exact .inr ⟨Pc.eq_wait_of_asleep ha, rfl⟩
  · exact stays_update he

theorem stays_roused (e : Tid) : (m.pc e).Stays (m.rousedPc e) := by
  cases e with
  | worker i =>
    simp only [Machine.rousedPc]
    split_ifs with ha
    · exact .inr ⟨Pc.eq_wait_of_asleep ha, rfl⟩
    · exact .inl rfl
  | caller j => exact .inl rfl

/-- **A step of a thread** is a step of the queue, or none. -/
theorem Reflects.move (h : Reflects m a) (hused : m.freed = true → (m.pc k).uses = false)
    (hm : Moves m k t) : Matched a t k [] := by
  have hs := h.sound.move hm
  have hsafe := h.sound.safe
  -- a thread in a section that goes on without doing anything
  have hon : ∀ {y z : Pc F A}, m.pc k = y → y.holds = true → z.holds = true →
      z.Stands True (a.stop k) → z.Between a.size a.queue m.pool.pending (a.stop k) →
      Sound a.size (m.goto k z) → Matched a (m.goto k z) k [] := by
    intro y z hpc hy hz hstands hbetween hsound
    refine .quiet (Function.update_self ..) (Pc.shows_of_holds hz k)
      (h.stay hsound (by rw [hpc, hy, hz]) ?_ fun _ => hbetween)
    rwa [eq_true (h.inside hpc hy).1]
  cases hm with
  | lock hpc ho =>
    have hstop := h.stands k
    rw [hpc, ho] at hstop
    have htop : a.stop k = .top := by simpa [Pc.Stands] using hstop
    exact .quiet (Function.update_self ..) rfl (h.acquire hs ho rfl htop rfl)
  | wake hpc ho =>
    have htop := h.stands_of hpc
    exact .quiet (Function.update_self ..) rfl (h.acquire hs ho rfl htop rfl)
  | sleep hpc _ =>
    obtain ⟨-, -, hstop, hqueue⟩ := h.inside hpc rfl
    have hrelease := h.release (a.stop k) hs (by rw [hpc]; rfl) hstop
    change a.queue = m.pool.pending at hqueue
    rw [← hqueue] at hrelease
    have hself : a.goto k (a.stop k) = a := Atomic.goto_self
    exact .quiet (Function.update_self ..) rfl (hself ▸ hrelease)
  | awake hpc _ | notFull hpc _ | stays hpc _ | addRoom hpc _ | addStays hpc _
  | addSignalNone hpc _ =>
    obtain ⟨-, -, hstop, hqueue⟩ := h.inside hpc rfl
    exact hon hpc rfl rfl hstop hqueue hs
  | retry hpc hc => exact h.retry hs hused hpc hc
  | leaves _ hc | addCloses _ hc => exact absurd (hsafe.opened.symm.trans hc) Bool.false_ne_true
  | leave hpc | leaveUnlock hpc => exact (hsafe.fact hpc rfl).elim
  | take hpc =>
    obtain ⟨-, -, hstop, hqueue⟩ := h.inside hpc rfl
    obtain ⟨hne, hroom⟩ := hsafe.fact hpc rfl
    change a.queue = m.pool.pending at hqueue
    refine .quiet (Function.update_self ..) rfl
      (h.work hs (by rw [hpc]; rfl) rfl rfl (Function.update_self ..) (fun _ he => stays_update he)
        rfl hstop ⟨?_, ?_⟩)
    · exact hqueue.trans (ThreadPool.pending_dequeue h.sound.delivered.ring hne)
    · rw [hqueue, Ne, h.full_iff]
      exact hroom
  | unlock hpc => exact h.unlock hs hused hpc
  | run hpc =>
    obtain ⟨i, rfl⟩ := h.worker hpc rfl
    have hstands := h.stands_of hpc
    obtain ⟨hown, hstop⟩ := hstands
    have hgoto : Reflects (m.goto (.worker i) .lock) (a.goto (.worker i) .top) :=
      h.goto hs (by rw [hpc]; rfl) (.inr ⟨hown, rfl⟩) fun ho => absurd ho hown
    refine Matched.one (.finish i) (a.goto (.worker i) .top) ?_ hgoto
    simp only [Atomic.step, hstop]
  | addLockErr hpc => exact h.addLockErr hs hused hpc
  | addLock hpc ho =>
    have hstop := h.stands_of hpc
    exact .quiet (Function.update_self ..) rfl (h.acquire hs ho rfl hstop rfl)
  | addMax hpc hc => exact h.addMax hs hused hpc hc
  | @addStore task hpc =>
    obtain ⟨-, -, hstop, hqueue⟩ := h.inside hpc rfl
    have hroom : m.pool.count ≠ m.pool.queueSize := hsafe.fact hpc rfl
    change a.queue = m.pool.pending at hqueue
    refine .quiet (Function.update_self ..) rfl
      (h.work hs (by rw [hpc]; rfl) rfl rfl (Function.update_self ..) (fun _ he => stays_update he)
        rfl ⟨task, hstop⟩ ⟨task, hstop, ?_, ?_⟩)
    · rw [hqueue]
      exact ThreadPool.pending_enqueue h.sound.delivered.ring hroom task
    · rw [hqueue, Ne, h.full_iff]
      exact hroom
  | addSignalErr hpc => exact h.addSignalErr hs hused hpc
  | addSignal hpc ha =>
    obtain ⟨-, -, hstop, hqueue⟩ := h.inside hpc rfl
    refine .quiet (Function.update_self ..) rfl
      (h.work hs (by rw [hpc]; rfl) rfl rfl (Function.update_self ..) ?_ rfl hstop hqueue)
    intro e he
    show (m.pc e).Stays (Function.update (Function.update m.pc _ .wake) k .addUnlock e)
    rw [Function.update_of_ne he]
    exact stays_wake ha e
  | addUnlock hpc => exact h.addUnlock hs hused hpc
  | closeLockErr hpc => exact h.closeLockErr hs hused hpc
  | closeLock hpc ho =>
    have hstop := h.stands_of hpc
    exact .quiet (Function.update_self ..) rfl (h.acquire hs ho rfl hstop rfl)
  | closeBroadcastErr hpc => exact h.closeBroadcastErr hs hused hpc
  | closeBroadcast hpc =>
    obtain ⟨-, -, hstop, hqueue⟩ := h.inside hpc rfl
    refine .quiet (Function.update_self ..) rfl
      (h.work hs (by rw [hpc]; rfl) rfl rfl (Function.update_self ..) ?_ rfl hstop hqueue)
    intro e he
    show (m.pc e).Stays (Function.update m.rousedPc k .closeUnlock e)
    rw [Function.update_of_ne he]
    exact stays_roused e
  | closeUnlock hpc => exact h.closeUnlock hs hused hpc
  | closeFree hpc => exact h.closeFree hs hused hpc

/-- A thread outside of the sections goes on, and the queue sees it. -/
theorem Reflects.call (h : Reflects m a) (hs : Sound a.size (m.goto k x)) {y : Pc F A}
    (hpc : m.pc k = y) (hy : y.holds = false) (hx : x.holds = false)
    (hstands : ∀ own, x.Stands own st)
    (hy' : ∀ queue pending, y.Between a.size queue pending (a.stop k) → queue = pending)
    (hx' : ∀ queue, x.Between a.size queue queue st) : Reflects (m.goto k x) (a.goto k st) := by
  refine h.goto hs (by rw [hpc, hx, hy]) (hstands _) fun ho => ?_
  have hqueue := h.between_of hpc ho
  rw [hy' _ _ hqueue]
  exact hx' _

/-- **A step of the machine** is matched by steps of the queue that make the same calls, if it is
not a use of the pool after it was released. -/
theorem Reflects.step {act : Act F A} (h : Reflects m a) (hst : m.step act = some t) :
    (t.fault ≠ none ∧ t.pc = m.pc ∧ act.uses = [] ∧ (t.pc act.thread).shows act.thread = []) ∨
      Matched a t act.thread act.uses := by
  have hs := h.sound.step hst
  cases happens_of_step hst with
  | @fault k _ _ _ hu =>
    refine .inl ⟨Option.some_ne_none _, rfl, rfl, ?_⟩
    show (m.pc k).shows k = []
    cases hx : m.pc k <;> rw [hx] at hu <;> first | rfl | cases hu
  | move hused hm => exact .inr (h.move hused hm)
  | @spurious i ha =>
    have hpc := Pc.eq_wait_of_asleep ha
    have hstands := h.stands_of hpc
    refine .inr (.quiet (Function.update_self ..) rfl
      (h.stay hs (by rw [hpc]; rfl) hstands fun ho => ?_))
    have hqueue := h.between_of hpc ho
    exact hqueue
  | @addNull j arg r hpc =>
    have hstop : a.stop (.caller j) = .idle r := h.stands_of hpc
    refine .inr (Matched.one (.addTaskFunc j none arg)
      (a.goto (.caller j) (.idle (some .varIsNULL))) ?_
      (h.call hs hpc rfl rfl (fun _ => rfl) (fun _ _ hq => hq) fun _ => rfl))
    simp only [Atomic.step, hstop]
  | @add j f arg r hpc =>
    have hstop : a.stop (.caller j) = .idle r := h.stands_of hpc
    refine .inr (Matched.one (.addTaskFunc j (some f) arg)
      (a.goto (.caller j) (.adding ⟨f, arg⟩)) ?_
      (h.call hs hpc rfl rfl (fun _ => rfl) (fun _ _ hq => hq) fun _ => rfl))
    simp only [Atomic.step, hstop]
  | @close j r hpc =>
    have hstop : a.stop (.caller j) = .idle r := h.stands_of hpc
    refine .inr (Matched.one (.close j) (a.goto (.caller j) .closing) ?_
      (h.call hs hpc rfl rfl (fun _ => rfl) (fun _ _ hq => hq) fun _ => rfl))
    simp only [Atomic.step, hstop]

end Steps

/-! ### Runs -/

/-- The pool just started is the empty queue. -/
theorem Reflects.start (cells : ℤ → SyPthreadPoolTask F A) (n q : UInt32) (h1 : 1 ≤ q)
    (h2 : q.toNat < 2 ^ 31) :
    Reflects (Machine.start cells n q) (Atomic.start n.toNat q.toNat) where
  sound := ⟨.start cells n q, .start cells n q, .start cells h1 h2⟩
  freed := rfl
  lost k := iff_of_false (Option.some_ne_none k).symm fun hf => (Option.some_ne_none k).symm hf.1
  stands
    | .worker i => by
      simp only [Machine.start, Atomic.start]
      split_ifs
      · exact .inr ⟨not_false, rfl⟩
      · rfl
    | .caller _ => rfl
  between k ho := absurd ho (Option.some_ne_none k).symm
  pending _ := rfl

/-- The queue is what can be seen of the pool; it is what the pool reflects, as long as nobody has
used the pool after it was released. -/
structure Tracks (m : Machine F A) (a : Atomic F A) : Prop where
  reflects : m.fault = none → Reflects m a
  shows : ∀ k, (a.stop k).shows k = (m.pc k).shows k

theorem Reflects.tracks {m : Machine F A} {a : Atomic F A} (h : Reflects m a) : Tracks m a :=
  ⟨fun _ => h, fun k => (h.stands k).shows k⟩

/-- A step of the pool is one of the queue, or none. -/
theorem Tracks.step {m t : Machine F A} {a : Atomic F A} {act : Act F A} (h : Tracks m a)
    (hst : m.step act = some t) :
    (act.uses = [] ∧ (t.pc act.thread).shows act.thread = [] ∧ Tracks t a) ∨
      ∃ b a', a.step b = some a' ∧ b.thread = act.thread ∧ b.uses = act.uses ∧ Tracks t a' := by
  have hfault : m.fault = none := by
    by_contra hf
    unfold Machine.step at hst
    rw [if_pos (Option.isSome_iff_ne_none.mpr hf)] at hst
    cases hst
  rcases (h.reflects hfault).step hst with ⟨ht, hpc, huses, hshows⟩ | ⟨huses, hshows, hr⟩ |
    ⟨b, a', hb, hthread, huses, hr⟩
  · exact .inl ⟨huses, hshows, fun hf => absurd hf ht, fun k => hpc ▸ h.shows k⟩
  · exact .inl ⟨huses, hshows, hr.tracks⟩
  · exact .inr ⟨b, a', hb, hthread, huses, hr.tracks⟩

/-- The same can be seen of a run of the pool and of a run of the queue. -/
theorem Tracks.run {d d' : Delayed (Machine F A) Tid} {e : Delayed (Atomic F A) Tid}
    {as : List (DelayedAct (Act F A) Tid)} (h : Tracks d.st e.st) (hlate : e.late = d.late)
    (hd : Machine.threads.run d as = some d') :
    ∃ bs e', Atomic.threads.run e bs = some e' ∧
      Atomic.threads.history e bs = Machine.threads.history d as ∧ Tracks d'.st e'.st ∧
      e'.late = d'.late :=
  Threads.exists_trace_of_threads (R := Tracks) (fun _ _ k h => h.shows k)
    (fun _ _ _ _ h hst => h.step hst) h hlate hd

/-- **The pool is the queue.** In every run of the pool, in whatever order the threads take their
steps and however late they show what they have come to, what can be seen of it (the calls, what
they return and the tasks that are run) is what can be seen of a run of the queue. If nobody has
used the pool after it was released, it ends in a state that reflects the queue: what is pending
is what is queued, unless a thread stands between a lock and an unlock. -/
theorem atomic_of_exec (cells : ℤ → SyPthreadPoolTask F A) (n q : UInt32) (h1 : 1 ≤ q)
    (h2 : q.toNat < 2 ^ 31) (as : List (DelayedAct (Act F A) Tid)) (d : Delayed (Machine F A) Tid)
    (h : Machine.threads.run (Threads.begin (Machine.start cells n q)) as = some d) :
    ∃ bs e, Atomic.threads.run (Threads.begin (Atomic.start n.toNat q.toNat)) bs = some e ∧
      Atomic.threads.history (Threads.begin (Atomic.start n.toNat q.toNat)) bs =
        Machine.threads.history (Threads.begin (Machine.start cells n q)) as ∧
      e.late = d.late ∧ (d.st.fault = none → Reflects d.st e.st) := by
  obtain ⟨bs, e, hbs, hseen, htracks, hlate⟩ :=
    Tracks.run (e := Threads.begin _) (Reflects.start cells n q h1 h2).tracks rfl h
  exact ⟨bs, e, hbs, hseen, hlate, htracks.reflects⟩

/-- A run: a task is stored, and worker `0` runs it before `AddTaskFunc` has returned. -/
def storeAndRun : List (DelayedAct (Act ℕ ℕ) Tid) :=
  (storeAndTake ++ [Act.worker 0]).map .act ++ [.emerge (.worker 0), .emerge (.caller 0)]

/-- What can be seen of the run can be seen of a run of the queue. -/
theorem atomic_storeAndRun :
    ∃ d, Machine.threads.run (Threads.begin (Machine.start (fun _ => ⟨0, 0⟩) 1 2)) storeAndRun =
        some d ∧
      ∃ bs e, Atomic.threads.run (Threads.begin (Atomic.start 1 2)) bs = some e ∧
        Atomic.threads.history (Threads.begin (Atomic.start 1 2)) bs =
          [.addTaskFunc 0 (some 7) 5, .runs (.worker 0) ⟨7, 5⟩,
            .returns (.caller 0) (some .success)] ∧ Reflects d.st e.st := by
  obtain ⟨bs, e, hbs, hseen, -, hr⟩ :=
    atomic_of_exec (fun _ => ⟨0, 0⟩) 1 2 (by decide) (by decide) storeAndRun _ rfl
  exact ⟨_, rfl, bs, e, hbs, hseen.trans rfl, hr rfl⟩

/-- Caller `0` stores the task `x`, and is told so. -/
def store (x : ℕ) : List (DelayedAct (Act ℕ ℕ) Tid) :=
  (.addTaskFunc 0 (some x) 5 :: List.replicate 6 (.caller 0 none)).map .act ++ [.emerge (.caller 0)]

/-- A run: a task is stored and taken, and worker `0` is about to run it; two more tasks are stored,
and the next one is refused. -/
def takeAndRefuse : List (DelayedAct (Act ℕ ℕ) Tid) :=
  store 7 ++ (List.replicate 6 (.worker 0)).map .act ++ store 8 ++ store 9 ++
    [.addTaskFunc 0 (some 1) 5, .caller 0 none, .caller 0 none].map .act ++ [.emerge (.caller 0)]

/-- **What the callers know.** In every run of the pool there are moments, between what is seen of
it, at which the tasks are stored and taken, so that at all times the books stand as they should:
tasks are taken in the order in which they have been stored, with at most `queue_size` of them
left; a caller is told of the tasks it has stored, in their order, and what it has stored besides
is what its open call asks for; and a worker runs the tasks it has taken, in their order, with at
most one that it has not run yet. The tasks left are those that are pending, when nobody has the
mutex. -/
theorem fifo_of_exec (cells : ℤ → SyPthreadPoolTask F A) (n q : UInt32) (h1 : 1 ≤ q)
    (h2 : q.toNat < 2 ^ 31) (as : List (DelayedAct (Act F A) Tid)) (d : Delayed (Machine F A) Tid)
    (h : Machine.threads.run (Threads.begin (Machine.start cells n q)) as = some d) :
    ∃ ws : List (Deed F A),
      seenIn ws = Machine.threads.history (Threads.begin (Machine.start cells n q)) as ∧
      (∀ vs, vs <+: ws → Books q.toNat vs) ∧
      (d.st.fault = none → d.st.owner = none →
        tasks (storedIn ws) = tasks (takenIn ws) ++ d.st.pool.pending) := by
  obtain ⟨bs, e, hbs, hseen, htracks, -⟩ :=
    Tracks.run (e := Threads.begin _) (Reflects.start cells n q h1 h2).tracks rfl h
  refine ⟨_, (Atomic.seenIn_trace _ bs).trans hseen, fun vs hv => Atomic.books hbs hv, fun hf ho => ?_⟩
  rw [← (htracks.reflects hf).pending ho]
  exact (Atomic.kept hbs).queue

/-- In that run three tasks were stored, of which one was taken and none has been run. -/
theorem fifo_takeAndRefuse :
    ∃ d, Machine.threads.run (Threads.begin (Machine.start (fun _ => ⟨0, 0⟩) 1 2)) takeAndRefuse =
        some d ∧
      ∃ ws : List (Deed ℕ ℕ),
        accepted none (ofThread (.caller 0) (seenIn ws)) = [⟨7, 5⟩, ⟨8, 5⟩, ⟨9, 5⟩] ∧
        ran (ofThread (.worker 0) (seenIn ws)) = [] ∧ Books 2 ws := by
  obtain ⟨ws, hseen, hbooks, -⟩ :=
    fifo_of_exec (fun _ => ⟨0, 0⟩) 1 2 (by decide) (by decide) takeAndRefuse _ rfl
  refine ⟨_, rfl, ws, ?_, ?_, hbooks ws List.prefix_rfl⟩
  · rw [hseen]
    rfl
  · rw [hseen]
    rfl

/-- **After a failure.** In every run of the pool: once `AddTaskFunc` has returned `QueueIsMax`, or a
call of the pool `CondSignalErr`, a thread runs the task that it has in hand, having taken it and
released the mutex before, and no other one. -/
theorem jammed_of_exec (cells : ℤ → SyPthreadPoolTask F A) (n q : UInt32) (h1 : 1 ≤ q)
    (h2 : q.toNat < 2 ^ 31) (as bs : List (DelayedAct (Act F A) Tid))
    (d d' : Delayed (Machine F A) Tid)
    (h : Machine.threads.run (Threads.begin (Machine.start cells n q)) as = some d)
    (h' : Machine.threads.run d bs = some d') (y : Seen F A)
    (hy : y ∈ Machine.threads.history (Threads.begin (Machine.start cells n q)) as)
    (hjams : y.jams = true) (k : Tid) :
    ran (ofThread k (Machine.threads.history d bs)) <+: ran (Machine.threads.owes d k) := by
  obtain ⟨cs, e, hcs, hseen, htracks, hlate⟩ :=
    Tracks.run (e := Threads.begin _) (Reflects.start cells n q h1 h2).tracks rfl h
  obtain ⟨cs', e', hcs', hseen', -, -⟩ := htracks.run hlate h'
  have howes : Atomic.threads.owes e k = Machine.threads.owes d k := by
    unfold Threads.owes
    rw [hlate, show Atomic.threads.shows e.st k = Machine.threads.shows d.st k from htracks.shows k]
  have hlost := Atomic.lost_of_jams hcs (hseen ▸ hy) hjams
  rw [← hseen', ← howes, ← Atomic.ran_of_lost hlost hcs' k]
  exact List.prefix_append ..

/-- The worker runs its task after the failure. -/
theorem jammed_takeAndRefuse :
    ∃ d d', Machine.threads.run (Threads.begin (Machine.start (fun _ => ⟨0, 0⟩) 1 2))
        takeAndRefuse = some d ∧
      Machine.threads.run d [.emerge (.worker 0)] = some d' ∧
      Machine.threads.history d [.emerge (.worker 0)] = [.runs (.worker 0) ⟨7, 5⟩] ∧
      ran (ofThread (.worker 0) (Machine.threads.history d [.emerge (.worker 0)])) <+:
        ran (Machine.threads.owes d (.worker 0)) :=
  ⟨_, _, rfl, rfl, rfl, jammed_of_exec (fun _ => ⟨0, 0⟩) 1 2 (by decide) (by decide) takeAndRefuse
    [.emerge (.worker 0)] _ _ rfl rfl (.returns (.caller 0) (some .queueIsMax))
    (List.mem_of_getLast? rfl) rfl _⟩

end Syinx.Pthread
