import Syinx.Library.Counting
import Syinx.Pthread.Machine

/-!
# No lost wake-up

`AddTaskFunc` signals once for each task it stores. A worker that comes back from a
task may take the task for which another one was woken, so a signal does not belong to
a task. What holds is a count: as long as some worker sleeps in `pthread_cond_wait`,
there are no more pending tasks than workers on their way to one. A worker falls asleep
only if no task is pending, and whoever takes a task was on its way.

Between `++count` and `pthread_cond_signal` the task just stored has nobody yet;
`AddTaskFunc` holds `Pthlock` there.

## What is proved

* `Attended.step` — the count is kept by every step of every thread.
* `attended_of_exec` — while some worker sleeps there are no more pending tasks than
  workers on their way, but for a task that is about to be signalled; so it cannot be
  that a task is pending and all workers sleep.
-/

namespace Syinx.Pthread

open Syinx.Library

variable {F A : Type}

/-- A worker there is awake and on its way to a task. -/
def Pc.fetches : Pc F A → Bool
  | lock | check | wake | full | closing | take => true
  | _ => false

theorem Pc.fetches_eq_false_of_asleep {x : Pc F A} (h : x.asleep = true) : x.fetches = false := by
  cases x <;> first | rfl | cases h

namespace Machine

/-- How many workers are on their way to a task. -/
def fetching (s : Machine F A) : ℕ :=
  Nat.count (fun i => (s.pc (.worker i)).fetches = true) s.workers

/-- Some worker is blocked in `pthread_cond_wait`. -/
def Waits (s : Machine F A) : Prop := ∃ i < s.workers, (s.pc (.worker i)).asleep = true

/-- A call of `AddTaskFunc` stands between `++count` and `pthread_cond_signal`. -/
def Signalling (s : Machine F A) : Prop := ∃ k, s.pc k = .addSignal

/-- `pthread_cond_signal` does not fail. -/
def Signals (s : Machine F A) (a : Act F A) : Prop :=
  ∀ k woken, a = .run k false woken → s.pc k ≠ .addSignal

end Machine

/-- The pending tasks are attended to. -/
structure Attended (s : Machine F A) : Prop where
  /-- Nobody runs beyond the workers `Initialize` has started. -/
  outside : ∀ i, s.workers ≤ i → s.pc (.worker i) = .exited
  /-- Each pending task has a worker on its way, one just stored apart. -/
  covered : s.Waits →
    s.pool.count ≤ s.fetching ∨ (s.pool.count ≤ s.fetching + 1 ∧ s.Signalling)

namespace Attended

variable {s t : Machine F A} {k : Tid}

theorem start (cells : ℤ → SyPthreadPoolTask F A) (n q : UInt32) :
    Attended (Machine.start cells n q) where
  outside _ hi := if_neg (Nat.not_lt.mpr hi)
  covered _ := .inl (Int.natCast_nonneg _)

/-- The thread that moves is none of those that were never started. -/
theorem outside_update (h : Attended s) {pc : Tid → Pc F A} {x : Pc F A}
    (hk : s.pc k ≠ .exited) (hpc : ∀ i, s.workers ≤ i → pc (.worker i) = .exited) :
    ∀ i, s.workers ≤ i → (Function.update pc k x) (.worker i) = .exited := by
  intro i hi
  have hne : Tid.worker i ≠ k := by
    rintro rfl
    exact hk (h.outside i hi)
  rw [Function.update_of_ne hne]
  exact hpc i hi

/-- A worker that sleeps after a thread has moved to `x` slept before. -/
theorem waits_update {x : Pc F A} (hx : x.asleep = false) {i : ℕ}
    (hi : ((Function.update s.pc k x) (.worker i)).asleep = true) :
    (s.pc (.worker i)).asleep = true := by
  by_cases hne : Tid.worker i = k
  · rw [hne, Function.update_self, hx] at hi; cases hi
  · rwa [Function.update_of_ne hne] at hi

/-- Who was on the way is so still, when the thread that moves is. -/
theorem fetches_update {x y : Pc F A} (hk : s.pc k = y) (hf : y.fetches = true → x.fetches = true)
    {i : ℕ} (hi : (s.pc (.worker i)).fetches = true) :
    ((Function.update s.pc k x) (.worker i)).fetches = true := by
  by_cases hne : Tid.worker i = k
  · rw [hne, hk] at hi
    rw [hne, Function.update_self]
    exact hf hi
  · rwa [Function.update_of_ne hne]

/-- A thread moves from `y` to `x`, and the pending tasks stay. -/
theorem goto (h : Attended s) {x y : Pc F A} (hk : s.pc k = y)
    (hy : y ≠ .addSignal ∧ y ≠ .exited) (hx : x.asleep = false)
    (hf : y.fetches = true → x.fetches = true)
    (hpc : t.pc = Function.update s.pc k x) (hw : t.workers = s.workers)
    (hc : t.pool.count = s.pool.count) : Attended t where
  outside := by
    rw [hw, hpc]
    exact h.outside_update (by rw [hk]; exact hy.2) h.outside
  covered ht := by
    have hs : s.Waits := by
      obtain ⟨i, hi, ha⟩ := ht
      rw [hpc] at ha
      exact ⟨i, hw ▸ hi, waits_update hx ha⟩
    have hfetch : s.fetching ≤ t.fetching := by
      unfold Machine.fetching
      rw [hw, hpc]
      exact Nat.count_mono_left fun i _ => fetches_update hk hf
    rw [hc]
    rcases h.covered hs with hle | ⟨hle, m, hm⟩
    · exact .inl (by omega)
    · refine .inr ⟨by omega, m, ?_⟩
      have hne : m ≠ k := by
        rintro rfl
        exact hy.1 (hk.symm.trans hm)
      rw [hpc, Function.update_of_ne hne]
      exact hm

/-- A worker falls asleep: no task is pending. -/
theorem sleep (h : Attended s) (hk : s.pc k = .check) (hc : s.pool.count = 0) :
    Attended (s.release k .wait) where
  outside := h.outside_update (by rw [hk]; simp) h.outside
  covered _ := .inl (by show s.pool.count ≤ _; rw [hc]; exact Int.natCast_nonneg _)

/-- A worker takes a task: both sides drop by one. -/
theorem take (h : Attended s) (hk : s.pc k = .take) (x : SyPthreadPoolTask F A)
    (hpc : t.pc = Function.update s.pc k (.unlock x)) (hw : t.workers = s.workers)
    (hc : t.pool.count = s.pool.count - 1) : Attended t where
  outside := by
    rw [hw, hpc]
    exact h.outside_update (by rw [hk]; simp) h.outside
  covered ht := by
    have hs : s.Waits := by
      obtain ⟨i, hi, ha⟩ := ht
      rw [hpc] at ha
      exact ⟨i, hw ▸ hi, waits_update rfl ha⟩
    have hfetch : s.fetching ≤ t.fetching + 1 := by
      unfold Machine.fetching
      rw [hw, hpc]
      cases k with
      | worker i =>
        apply count_le_succ (b := i)
        intro e he hp
        have hne : Tid.worker e ≠ .worker i := fun h => he (Tid.worker.inj h)
        rwa [Function.update_of_ne hne]
      | caller j =>
        refine (Nat.count_mono_left fun e _ hp => ?_).trans (Nat.le_succ _)
        rwa [Function.update_of_ne Tid.noConfusion]
    rw [hc]
    rcases h.covered hs with hle | ⟨hle, m, hm⟩
    · exact .inl (by omega)
    · refine .inr ⟨by omega, m, ?_⟩
      have hne : m ≠ k := by
        rintro rfl
        rw [hk] at hm
        cases hm
      rw [hpc, Function.update_of_ne hne]
      exact hm

/-- A task is stored: it is about to be signalled, and no other one is. -/
theorem store (h : Attended s) (hs : Safe s) {x : SyPthreadPoolTask F A} (hk : s.pc k = .addStore x)
    (hpc : t.pc = Function.update s.pc k .addSignal) (hw : t.workers = s.workers)
    (hc : t.pool.count = s.pool.count + 1) : Attended t where
  outside := by
    rw [hw, hpc]
    exact h.outside_update (by rw [hk]; simp) h.outside
  covered ht := by
    have hwaits : s.Waits := by
      obtain ⟨i, hi, ha⟩ := ht
      rw [hpc] at ha
      exact ⟨i, hw ▸ hi, waits_update rfl ha⟩
    have hnone : ¬ s.Signalling := by
      rintro ⟨m, hm⟩
      have hmk : m = k := hs.disciplined.unique (by rw [hm]; rfl) (by rw [hk]; rfl)
      rw [hmk, hk] at hm
      cases hm
    have hfetch : s.fetching ≤ t.fetching := by
      unfold Machine.fetching
      rw [hw, hpc]
      refine Nat.count_mono_left fun i _ => fetches_update hk ?_
      intro hf
      cases hf
    have hle := (h.covered hwaits).resolve_right fun hsig => hnone hsig.2
    refine .inr ⟨by omega, k, ?_⟩
    rw [hpc, Function.update_self]

/-- A signal wakes a worker: the task just stored has one now. -/
theorem signal (h : Attended s) {i : ℕ} (hk : s.pc k = .addSignal)
    (hi : (s.pc (.worker i)).asleep = true) :
    Attended ((s.goto (.worker i) .wake).goto k .addUnlock) := by
  have hlt : i < s.workers := by
    by_contra hge
    rw [h.outside i (Nat.not_lt.mp hge)] at hi
    cases hi
  have hki : Tid.worker i ≠ k := by
    rintro rfl
    rw [hk] at hi
    cases hi
  have hpc : ∀ e, e ≠ i → ((s.goto (.worker i) .wake).goto k .addUnlock).pc (.worker e) =
      (Function.update s.pc k .addUnlock) (.worker e) := by
    intro e he
    have hne : Tid.worker e ≠ .worker i := fun h => he (Tid.worker.inj h)
    by_cases hek : Tid.worker e = k
    · rw [← hek, Machine.goto_self, Function.update_self]
    · rw [Machine.goto_of_ne hek, Machine.goto_of_ne hne, Function.update_of_ne hek]
  have hwake : ((s.goto (.worker i) .wake).goto k .addUnlock).pc (.worker i) = .wake := by
    rw [Machine.goto_of_ne hki, Machine.goto_self]
  refine ⟨?_, fun _ => .inl ?_⟩
  · apply h.outside_update (by rw [hk]; simp)
    intro e he
    have hne : Tid.worker e ≠ .worker i := fun heq => by
      have := Tid.worker.inj heq
      omega
    exact (Function.update_of_ne hne _ _).trans (h.outside e he)
  · have hfetch : ((s.goto (.worker i) .wake).goto k .addUnlock).fetching = s.fetching + 1 := by
      refine count_insert hlt ?_ ?_ fun e he => ?_
      · rw [Pc.fetches_eq_false_of_asleep hi]; decide
      · rw [hwake]; rfl
      · rw [hpc e he]
        by_cases hek : Tid.worker e = k
        · rw [hek, Function.update_self, hk]; rfl
        · rw [Function.update_of_ne hek]
    show s.pool.count ≤ _
    rw [hfetch]
    rcases h.covered ⟨i, hlt, hi⟩ with hle | ⟨hle, -⟩ <;> omega

/-- A signal found nobody asleep. -/
theorem signalNone (h : Attended s) (hk : s.pc k = .addSignal)
    (hnone : ∀ i < s.workers, ¬ (s.pc (.worker i)).asleep = true) :
    Attended (s.goto k .addUnlock) where
  outside := h.outside_update (by rw [hk]; simp) h.outside
  covered ht := by
    obtain ⟨i, hi, ha⟩ := ht
    exact absurd (waits_update rfl ha) (hnone i hi)

/-- A broadcast leaves nobody asleep. -/
theorem broadcast (h : Attended s) (hk : s.pc k = .closeBroadcast) :
    Attended (s.broadcast k .closeUnlock) where
  outside := by
    apply h.outside_update (by rw [hk]; simp)
    intro i hi
    simp [Machine.rousedPc, h.outside i hi, Pc.asleep]
  covered ht := by
    obtain ⟨i, -, ha⟩ := ht
    have hroused : (s.rousedPc (.worker i)).asleep = false := by
      simp only [Machine.rousedPc]
      split_ifs with has
      · rfl
      · exact Bool.not_eq_true _ ▸ has
    by_cases hik : Tid.worker i = k
    · rw [hik] at ha
      rw [show (s.broadcast k .closeUnlock).pc k = .closeUnlock from Function.update_self ..] at ha
      cases ha
    · rw [show (s.broadcast k .closeUnlock).pc (.worker i) = s.rousedPc (.worker i) from
        Function.update_of_ne hik .., hroused] at ha
      cases ha

/-- A thread's step keeps the pending tasks attended to. -/
theorem move (h : Attended s) (hs : Safe s) (hsig : s.pc k = .addSignal →
    t ≠ s.goto k (.idle (some .condSignalErr))) (hm : Moves s k t) : Attended t := by
  cases hm with
  | sleep hpc hc => exact h.sleep hpc hc
  | take hpc => exact h.take hpc _ rfl rfl rfl
  | addStore hpc => exact h.store hs hpc rfl rfl rfl
  | addSignalErr hpc => exact absurd rfl (hsig hpc)
  | addSignal hpc ha => exact h.signal hpc ha
  | addSignalNone hpc hnone => exact h.signalNone hpc hnone
  | closeBroadcast hpc => exact h.broadcast hpc
  | leaves _ hc => rw [hs.opened] at hc; cases hc
  | leave hpc | leaveUnlock hpc => exact (hs.fact hpc rfl).elim
  | lock hpc | awake hpc | wake hpc | retry hpc | notFull hpc | stays hpc | unlock hpc | run hpc
  | addLockErr hpc | addLock hpc | addMax hpc | addRoom hpc | addCloses hpc | addStays hpc
  | addUnlock hpc | closeLockErr hpc | closeLock hpc | closeBroadcastErr hpc | closeUnlock hpc
  | closeFree hpc => exact h.goto hpc (by simp) rfl (by simp [Pc.fetches]) rfl rfl rfl

/-- A signal that succeeds does not make `AddTaskFunc` return. -/
theorem pc_of_signal {woken : Option ℕ} (hst : s.step (.run k true woken) = some t)
    (hk : s.pc k = .addSignal) : t.pc k = .addSignal ∨ t.pc k = .addUnlock := by
  unfold Machine.step at hst
  split_ifs at hst
  simp only at hst
  split_ifs at hst
  · cases hst
    exact .inl hk
  · unfold Machine.advance at hst
    rw [hk] at hst
    simp only [Bool.true_eq_false, if_false] at hst
    cases woken with
    | none =>
      simp only [Machine.signal] at hst
      split_ifs at hst
      cases hst
      exact .inr Machine.goto_self
    | some i =>
      simp only [Machine.signal] at hst
      split_ifs at hst
      cases hst
      exact .inr Machine.goto_self

/-- **A step of the machine** keeps the pending tasks attended to. -/
theorem step {a : Act F A} (h : Attended s) (hs : Safe s) (ha : s.Signals a)
    (hst : s.step a = some t) : Attended t := by
  cases happens_of_step hst with
  | fault => exact ⟨h.outside, h.covered⟩
  | @move k ok woken _ _ hm =>
    refine h.move hs (fun hk heq => ?_) hm
    have hok : ok = true := by
      cases ok with
      | false => exact absurd hk (ha k woken rfl)
      | true => rfl
    subst hok
    have hidle : t.pc k = .idle (some .condSignalErr) := by rw [heq, Machine.goto_self]
    rcases pc_of_signal hst hk with hpc | hpc <;> rw [hpc] at hidle <;> cases hidle
  | @spurious i hi =>
    have hk : s.pc (.worker i) = .wait := Pc.eq_wait_of_asleep hi
    exact h.goto hk (by simp) rfl (by simp [Pc.fetches]) rfl rfl rfl
  | addNull hpc | add hpc | close hpc =>
    exact h.goto hpc (by simp) rfl (by simp [Pc.fetches]) rfl rfl rfl

/-- It holds in every state a run reaches in which no `pthread_cond_signal` fails. -/
theorem of_exec {cells : ℤ → SyPthreadPoolTask F A} {n q : UInt32} {as : List (Act F A)}
    (hg : Guarded Machine.step Machine.Signals (Machine.start cells n q) as)
    (h : exec Machine.step (Machine.start cells n q) as = some s) : Safe s ∧ Attended s := by
  have ha : Along Machine.step (fun s => Safe s ∧ Attended s) (Machine.start cells n q) as :=
    Along.of_guarded (fun _ _ _ hs ha hst => ⟨hs.1.step hst, hs.2.step hs.1 ha hst⟩) (fun _ h => h)
      ⟨Safe.start cells n q, start cells n q⟩ hg
  exact ha.last h

end Attended

/-- **No lost wake-up.** As long as every `pthread_cond_signal` succeeds: while some
worker is blocked in `pthread_cond_wait`, no more tasks are pending than workers are on
their way to one, one task apart while a call of `AddTaskFunc` that has counted it up has
not yet signalled it. But for that call, it cannot be that a task is pending and all
workers are asleep. -/
theorem attended_of_exec (cells : ℤ → SyPthreadPoolTask F A) (n q : UInt32)
    (as : List (Act F A)) (s : Machine F A)
    (hg : Guarded Machine.step Machine.Signals (Machine.start cells n q) as)
    (h : exec Machine.step (Machine.start cells n q) as = some s) :
    (s.Waits → s.pool.count ≤ s.fetching ∨ (s.pool.count ≤ s.fetching + 1 ∧ s.Signalling)) ∧
      (s.Waits → (∀ i < s.workers, (s.pc (.worker i)).asleep = true) → ¬ s.Signalling →
        s.pool.count = 0) := by
  obtain ⟨hsafe, hatt⟩ := Attended.of_exec hg h
  refine ⟨hatt.covered, fun hw hall hnone => ?_⟩
  have hfetch : s.fetching = 0 := Nat.count_iff_forall_not.mpr fun i hi => by
    rw [Pc.fetches_eq_false_of_asleep (hall i hi)]
    decide
  have hle := (hatt.covered hw).resolve_right fun hsig => hnone hsig.2
  have hcount := hsafe.count
  omega

/-- A run in which no call fails. -/
theorem guarded_signals {s : Machine F A} {as : List (Act F A)}
    (h : ∀ a ∈ as, ∀ k woken, a ≠ .run k false woken) : Guarded Machine.step Machine.Signals s as :=
  Guarded.of_inv (I := fun _ => True) (P := fun a => ∀ k woken, a ≠ .run k false woken)
    (fun _ _ _ _ _ _ => trivial) (fun _ _ ha _ k woken hk => absurd hk (ha k woken)) trivial h

/-- Worker `0` falls asleep, and a call of `AddTaskFunc` comes as far as its signal. -/
def sleepAndStore : List (Act ℕ ℕ) :=
  [.worker 0, .worker 0, .addTaskFunc 0 (some 7) 5, .caller 0 none, .caller 0 none, .caller 0 none,
    .caller 0 none]

theorem guarded_sleepAndStore {s : Machine ℕ ℕ} : Guarded Machine.step Machine.Signals s sleepAndStore :=
  guarded_signals (by simp [sleepAndStore, Act.worker, Act.caller])

/-- Worker `1` is running while worker `0` sleeps. -/
theorem attended_sleepAndStore :
    ∃ s, exec Machine.step (Machine.start (fun _ => ⟨0, 0⟩) 2 4) sleepAndStore = some s ∧
      s.pool.count = 1 ∧ s.fetching = 1 ∧
      (s.pool.count ≤ s.fetching ∨ (s.pool.count ≤ s.fetching + 1 ∧ s.Signalling)) :=
  ⟨_, rfl, rfl, by decide,
    (attended_of_exec (fun _ => ⟨0, 0⟩) 2 4 sleepAndStore _ guarded_sleepAndStore rfl).1
      ⟨0, by decide, rfl⟩⟩

/-- With one worker, nobody is on the way to the task until it is signalled. -/
theorem not_attended_beforeSignal :
    ∃ s, exec Machine.step (Machine.start (fun _ => ⟨0, 0⟩) 1 4) sleepAndStore = some s ∧
      Guarded Machine.step Machine.Signals (Machine.start (fun _ => ⟨0, 0⟩) 1 4) sleepAndStore ∧
      s.Waits ∧ ¬ s.pool.count ≤ s.fetching ∧
      s.pool.count = 1 ∧ ∀ i < s.workers, (s.pc (.worker i)).asleep = true :=
  ⟨_, rfl, guarded_sleepAndStore, ⟨0, by decide, rfl⟩, by decide, rfl, by decide⟩

end Syinx.Pthread
