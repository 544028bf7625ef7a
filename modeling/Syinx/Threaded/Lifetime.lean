import Syinx.Threaded.Echo

/-!
# What a task uses, and how long it lives

A task carries the pointer of a channel through the queue, and a worker writes to
the `m_buffer` it has read. Nobody counts these uses: `Clear` frees the `m_buffer`
whoever is about to write to it, and `SyinxAdapterResource::Close` deletes the channels
while the workers are running and tasks are queued, some of them by its own `Clear`.

## What is proved

* `Kept.step` — no queued task and no worker has a pointer to anything freed, as long as
  every step is `Timely`: what is freed is not in use.
* `noneOutlives_of_timely` — in a run of such steps no worker uses a deleted channel or
  writes to a freed `bufferevent`.
* `not_noneOutlives_meanwhile` — `Clear` frees an `m_buffer` between the test of `IChStatus` and
  the write, `Close` deletes the channel of a queued task.
-/

namespace Syinx.Threaded

open Syinx.Library Syinx.Tcp
open Syinx.Pthread (SyPthreadPoolTask ThreadPool SyinxPthreadPool AddTaskResults PoolPtr)

variable {α : Type}

/-- The channel a worker there is about to write to, past the test of `IChStatus`. -/
def Pc.writing : Pc α → Option Ptr
  | load c _ _ | write c _ _ _ => some c
  | _ => none

theorem Pc.channel_of_writing {x : Pc α} {c : Ptr} (h : x.writing = some c) :
    x.channel = some c := by
  cases x with
  | load | write => exact h
  | _ => cases h

namespace Kernel

/-- No task outlives what it uses. -/
structure NoneOutlives (s : Kernel α) : Prop where
  /-- No worker has run `OnStatusDoAcionInPthread` on a channel that had been deleted. -/
  channel : ∀ i c, s.fault ≠ some (.deletedChannel i c)
  /-- None has written to a `bufferevent` that had been freed. -/
  buffer : ∀ i b, s.fault ≠ some (.freedBuffer i b)

/-- A task for channel `c` is queued. -/
def Queued (c : Ptr) : PoolPtr StartFunc Ptr → Prop
  | .live p => ∃ j < p.count.toNat, (p.ahead j).arg = c
  | .null | .freed => False

instance (c : Ptr) : (g : PoolPtr StartFunc Ptr) → Decidable (Queued c g)
  | .live p => inferInstanceAs (Decidable (∃ j < p.count.toNat, (p.ahead j).arg = c))
  | .null | .freed => inferInstanceAs (Decidable False)

/-- **The condition on a step**: `Clear` frees the `m_buffer` of a channel only when no worker
is about to write to it, and a channel is deleted only when no task for it is queued and no
worker is serving it. -/
def Timely (s : Kernel α) (a : Act α) : Prop :=
  match a with
  | .main _ =>
    (∀ c ∈ s.aboutToFree, ∀ i < s.workers, (s.pc i).writing ≠ some c) ∧
      ∀ c ∈ s.aboutToDelete, ¬ Queued c s.pool.pthPool ∧ ∀ i < s.workers, (s.pc i).channel ≠ some c
  | _ => True

instance (s : Kernel α) : (a : Act α) → Decidable (s.Timely a)
  | .main _ => inferInstanceAs (Decidable (_ ∧ ∀ c ∈ s.aboutToDelete, _))
  | .worker _ | .event _ | .close => inferInstanceAs (Decidable True)

/-! ### The invariant -/

/-- What a worker at this point has a pointer to has not been freed. -/
def Holds (srv : Server α) (x : Pc α) : Prop :=
  (∀ c, x.channel = some c → srv.deleted c = 0) ∧
    match x with
    | .load c _ _ => ∃ b, srv.Open c b
    | .write c b _ _ => ∃ e, b = some e ∧ srv.Open c e
    | _ => True

/-- Nor has the channel of a queued task. -/
def Queues (srv : Server α) (g : SyinxPthreadPool StartFunc Ptr) : Prop :=
  ∀ p, g.pthPool = .live p → p.Chained ∧ p.pthpoolClose = false ∧
    ∀ j < p.count.toNat, srv.deleted (p.ahead j).arg = 0

/-- Nobody has a pointer to anything that has been freed. -/
structure Kept (s : Kernel α) : Prop where
  queue : Queues s.srv s.pool
  workers : ∀ i, Holds s.srv (s.pc i)
  posting : ∀ c, s.posting = some c → s.srv.deleted c = 0
  /-- Only the workers run. -/
  outside : ∀ i, s.workers ≤ i → s.pc i = .top
  outlived : s.NoneOutlives

/-- A worker that serves no channel has no pointer. -/
theorem Holds.of_channel {u : Server α} {x : Pc α} (h : x.channel = none) : Holds u x := by
  constructor
  · intro c hc
    rw [h] at hc
    cases hc
  cases x with
  | load | write => cases h
  | _ => trivial

/-- A worker keeps what it has if it is not freed. -/
theorem Holds.of_open {u v : Server α} {x : Pc α} (h : Holds u x)
    (hdel : ∀ c, x.channel = some c → u.deleted c = 0 → v.deleted c = 0)
    (hopen : ∀ c b, x.writing = some c → u.Open c b → v.Open c b) : Holds v x := by
  refine ⟨fun c hc => hdel c hc (h.1 c hc), ?_⟩
  have hx := h.2
  cases x with
  | load c p packs =>
    obtain ⟨b, hb⟩ := hx
    exact ⟨b, hopen c b rfl hb⟩
  | write c b p packs =>
    obtain ⟨e, he, ho⟩ := hx
    exact ⟨e, he, hopen c e rfl ho⟩
  | _ => trivial

theorem Queues.of_deleted {u v : Server α} {g : SyinxPthreadPool StartFunc Ptr} (h : Queues u g)
    (hdel : ∀ p, g.pthPool = .live p → ∀ j < p.count.toNat,
      u.deleted (p.ahead j).arg = 0 → v.deleted (p.ahead j).arg = 0) : Queues v g := by
  intro p hp
  obtain ⟨hchain, hclose, htasks⟩ := h p hp
  exact ⟨hchain, hclose, fun j hj => hdel p hp j hj (htasks j hj)⟩

/-- `AddTaskFunc` stores the task in the pool, or leaves the pool alone. -/
theorem Queues.addTaskFunc {u : Server α} {g : SyinxPthreadPool StartFunc Ptr} (h : Queues u g)
    {c : Ptr} (hc : u.deleted c = 0) (o : AddTaskResults) :
    Queues u (g.addTaskFunc (some .pthreadFuncHandle) c o).obj := by
  obtain ⟨st, pool⟩ := g
  cases pool with
  | null | freed => exact h
  | live p =>
    obtain ⟨hchain, hclose, htasks⟩ := h p rfl
    simp only [SyinxPthreadPool.addTaskFunc]
    split_ifs with hlock hfull hclosing
    · exact h
    · exact h
    · rw [hclose] at hclosing; cases hclosing
    all_goals
      rintro q ⟨⟩
      refine ⟨hchain.enqueue _, hclose, fun j hj => ?_⟩
      rcases ThreadPool.ahead_enqueue p ⟨.pthreadFuncHandle, c⟩ j with hnew | ⟨htail, hold⟩
      · rw [hnew]; exact hc
      · rw [hold]
        refine htasks j (lt_of_le_of_ne ?_ ?_)
        · have hcount := hchain.count
          simp only [ThreadPool.enqueue] at hj
          omega
        · rintro rfl
          exact htail hchain.tail.symm

/-- A worker takes the first task: its channel has not been deleted. -/
theorem Queues.take {u : Server α} {g : SyinxPthreadPool StartFunc Ptr} (h : Queues u g)
    {p : ThreadPool StartFunc Ptr} (hp : g.pthPool = .live p) (hcount : p.count ≠ 0) :
    u.deleted p.front.arg = 0 ∧ Queues u { g with pthPool := .live p.dequeue } := by
  obtain ⟨hchain, hclose, htasks⟩ := h p hp
  have hpos := hchain.count
  constructor
  · exact htasks 0 (by omega)
  · rintro q ⟨⟩
    refine ⟨hchain.dequeue hcount, hclose, fun j hj => htasks (j + 1) ?_⟩
    simp only [ThreadPool.dequeue] at hj
    omega

/-- A pool that has been freed has no tasks. -/
theorem Queues.free (u : Server α) (g : SyinxPthreadPool StartFunc Ptr) : Queues u g.free.2 := by
  intro p hp
  cases hpool : g.pthPool <;> simp [SyinxPthreadPool.free, hpool] at hp

namespace Kept

variable {s t : Kernel α}

/-- A worker moves on to `x`. -/
theorem walk (h : Kept s) {i : ℕ} {x : Pc α} (hx : Holds s.srv x) (hi : i < s.workers)
    (hcore : s.srv.core = t.srv.core) (hpool : Queues s.srv t.pool) (hpost : t.posting = s.posting)
    (hworkers : t.workers = s.workers) (hpc : t.pc = Function.update s.pc i x)
    (hfault : t.fault = s.fault) : Kept t := by
  have hopen := Server.open_congr hcore
  have hdel : s.srv.deleted = t.srv.deleted := by
    show s.srv.core.deleted = t.srv.core.deleted
    rw [hcore]
  have hholds : ∀ y, Holds s.srv y → Holds t.srv y := fun y hy =>
    hy.of_open (fun c _ hc => by rw [← hdel]; exact hc) fun c b _ hb => (hopen c b).mp hb
  refine ⟨hpool.of_deleted fun _ _ _ _ hd => by rw [← hdel]; exact hd, fun j => ?_, fun c hc => ?_,
    fun j hj => ?_, by constructor <;> rw [hfault]; exacts [h.outlived.channel, h.outlived.buffer]⟩
  · rw [hpc]
    by_cases hj : j = i
    · subst hj; rw [Function.update_self]; exact hholds x hx
    · rw [Function.update_of_ne hj]; exact hholds _ (h.workers j)
  · rw [hpost] at hc
    rw [← hdel]
    exact h.posting c hc
  · rw [hworkers] at hj
    rw [hpc, Function.update_of_ne (by omega)]
    exact h.outside j hj

/-- The workers stand where they stood, and nothing they have is freed. -/
theorem frame (h : Kept s)
    (hdel : ∀ c, s.srv.deleted c = 0 → t.srv.deleted c = 0) (hopen : ∀ c b, s.srv.Open c b → t.srv.Open c b)
    (hpool : Queues s.srv t.pool) (hpost : ∀ c, t.posting = some c → s.srv.deleted c = 0)
    (hworkers : t.workers = s.workers) (hpc : t.pc = s.pc) (hfault : t.fault = s.fault) : Kept t where
  queue := hpool.of_deleted fun _ _ _ _ => hdel _
  workers i := by
    rw [hpc]
    exact (h.workers i).of_open (fun c _ => hdel c) fun c b _ => hopen c b
  posting c hc := hdel c (hpost c hc)
  outside i hi := by
    rw [hpc]
    exact h.outside i (hworkers ▸ hi)
  outlived := ⟨fun i c => by rw [hfault]; exact h.outlived.channel i c,
    fun i b => by rw [hfault]; exact h.outlived.buffer i b⟩

/-- Who serves a channel is one of the workers. -/
theorem lt_workers (h : Kept s) {i : ℕ} {c : Ptr} (hi : (s.pc i).channel = some c) :
    i < s.workers := by
  by_contra hge
  rw [h.outside i (Nat.not_lt.mp hge)] at hi
  cases hi

/-- A worker that serves a channel goes on with it, and leaves all the rest alone. -/
theorem goOn (h : Kept s) {i : ℕ} {x y : Pc α} {c : Ptr} (hi : s.pc i = x) (hx : x.channel = some c)
    (hy : (∀ d, x.channel = some d → s.srv.deleted d = 0) → Holds s.srv y)
    (hcore : s.srv.core = t.srv.core) (hpool : t.pool = s.pool) (hpost : t.posting = s.posting)
    (hworkers : t.workers = s.workers) (hpc : t.pc = Function.update s.pc i y)
    (hfault : t.fault = s.fault) : Kept t := by
  subst hi
  refine h.walk (hy (h.workers i).1) (h.lt_workers hx) hcore ?_ hpost hworkers hpc hfault
  rw [hpool]
  exact h.queue

/-- A worker has done something undefined that is not the business of this module. -/
theorem fault (h : Kept s) {f : Fault} (hchan : ∀ i c, f ≠ .deletedChannel i c)
    (hbuf : ∀ i b, f ≠ .freedBuffer i b) : Kept { s with fault := some f } where
  queue := h.queue
  workers := h.workers
  posting := h.posting
  outside := h.outside
  outlived := ⟨fun i c hf => hchan i c (Option.some.inj hf), fun i b hf => hbuf i b (Option.some.inj hf)⟩

variable [Inhabited α] {P : ParseFunc α} {N : ℕ} {a : Act α}

/-- The main thread makes a proper operation, which frees nothing that is in use. -/
theorem op (h : Kept s) (hs : s.srv.Sound) {o : Op α} (hp : s.srv.Proper o)
    (hrun : Op.run P s.srv o = some t.srv)
    (hfree : ∀ c, o = .freeBuffer c → ∀ i < s.workers, (s.pc i).writing ≠ some c)
    (hdelete : ∀ c, o = .delete c → ¬ Queued c s.pool.pthPool ∧
      ∀ i < s.workers, (s.pc i).channel ≠ some c)
    (hpost : t.posting = none) (hpool : t.pool = s.pool) (hworkers : t.workers = s.workers)
    (hpc : t.pc = s.pc) (hfault : t.fault = s.fault) : Kept t := by
  have hdel : ∀ c, o ≠ .delete c → s.srv.deleted c = 0 → t.srv.deleted c = 0 :=
    fun c hc h0 => (deleted_run hrun hc).trans h0
  have hwriting : ∀ i c, (s.pc i).writing = some c → o ≠ .freeBuffer c := by
    rintro i c hc rfl
    exact hfree c rfl i (h.lt_workers (Pc.channel_of_writing hc)) hc
  have hserving : ∀ i c, (s.pc i).channel = some c → o ≠ .delete c := by
    rintro i c hc rfl
    exact (hdelete c rfl).2 i (h.lt_workers hc) hc
  refine ⟨?_, fun i => ?_, by rw [hpost]; simp, fun i hi => ?_, ?_, ?_⟩
  · rw [hpool]
    refine h.queue.of_deleted fun p hlive j hj => hdel _ ?_
    rintro rfl
    apply (hdelete _ rfl).1
    rw [hlive]
    exact ⟨j, hj, rfl⟩
  · rw [hpc]
    apply (h.workers i).of_open (fun c hc => hdel c (hserving i c hc))
    intro c b hc hb
    by_contra hn
    exact hwriting i c hc (eq_freeBuffer_of_closed hs hp hrun hb hn)
  · rw [hpc]
    exact h.outside i (hworkers ▸ hi)
  · rw [hfault]
    exact h.outlived.channel
  · rw [hfault]
    exact h.outlived.buffer

omit [Inhabited α] in
/-- A callback or a frame begins, which at most opens a client. -/
theorem turn (h : Kept s) (hs : s.srv.Sound) (hpost : s.posting = none) {e : Event α}
    {r : Server α × List (Op α)} (hr : s.srv.turn e = some r) :
    Kept { s with srv := r.1, todo := r.2 } := by
  have hnone : ∀ c, s.posting = some c → s.srv.deleted c = 0 := by
    intro c hc
    rw [hpost] at hc
    cases hc
  rcases Server.turn_fst hr with hr1 | ⟨fd, hr1⟩
  all_goals
    refine h.frame ?_ ?_ h.queue hnone rfl rfl rfl
    all_goals rw [hr1]
  · exact fun c => id
  · exact fun c b => id
  · exact fun c => id
  · exact fun c b => (hs.open_socketNew fd c b).mpr

/-- `OnStatusDoAction` queues a channel that has not been deleted. -/
theorem serve (h : Kept s) (hset : s.Settled N) {c : Ptr} {ops : List (Op α)}
    (htodo : s.todo = .onStatusDoAction c :: ops) :
    Kept { s.onStatusDoAction c with todo := ops } := by
  have hproper := hset.proper
  rw [htodo] at hproper
  obtain ⟨u, hu⟩ := run_isSome s.srv (.onStatusDoAction c)
  refine h.frame (fun _ => id) (fun _ _ => id) h.queue (fun d hd => ?_) rfl rfl rfl
  simp only [onStatusDoAction] at hd
  split_ifs at hd
  cases hd
  exact (hproper u hu).1

/-- **One step** frees nothing that is in use, of whichever thread, if it is timely. -/
theorem step (h : Kept s) (hset : s.Settled N) (hg : s.Timely a)
    (hst : s.step P a = some t) : Kept t := by
  cases happens_of_step hst with
  | event _ hpost _ hr => exact h.turn hset.sound hpost hr
  | close => exact h.frame (fun _ => id) (fun _ _ => id) h.queue (by simp) rfl rfl rfl
  | post hpost =>
    exact h.frame (fun _ => id) (fun _ _ => id) (h.queue.addTaskFunc (h.posting _ hpost) _)
      (by simp) rfl rfl rfl
  | serve _ htodo => exact h.serve hset htodo
  | @op o ops u _ hpost htodo hop hrun =>
    have hproper := hset.proper
    rw [htodo] at hproper
    have hrun' := hrun
    rw [run_parse recvValuesFromString hop] at hrun'
    refine h.op hset.sound (hproper u hrun').1 hrun ?_ ?_ hpost rfl rfl rfl rfl
    · rintro c rfl
      exact hg.1 c (by rw [aboutToFree, hpost, htodo]; rfl)
    · rintro c rfl
      exact hg.2 c (by rw [aboutToDelete, hpost, htodo]; rfl)
  | closePool => exact h.frame (fun _ => id) (fun _ _ => id) h.queue h.posting rfl rfl rfl
  | freePool => exact h.frame (fun _ => id) (fun _ _ => id) (.free _ _) h.posting rfl rfl rfl
  | stuck hi => exact h.walk (x := .stuck) (.of_channel rfl) hi rfl h.queue rfl rfl rfl rfl
  | exited _ _ hp hclose =>
    have hopen := (h.queue _ hp).2.1
    rw [hclose] at hopen
    cases hopen
  | @take i p hi _ hp hcount =>
    obtain ⟨hfront, hqueue⟩ := h.queue.take hp hcount
    refine h.walk (x := .lock p.front.arg) ⟨?_, trivial⟩ hi rfl hqueue rfl rfl rfl rfl
    rintro c ⟨⟩
    exact hfront
  | @lock i c _ _ hi =>
    exact h.goOn (y := .remove c) hi rfl (fun hd => ⟨hd, trivial⟩) rfl rfl rfl rfl rfl rfl
  | empty hi => exact h.goOn (y := .top) hi rfl (fun _ => .of_channel rfl) rfl rfl rfl rfl rfl rfl
  | @remove i c ch packs hi _ _ hch =>
    refine h.goOn (y := .send c packs) hi rfl (fun hd => ⟨hd, trivial⟩) ?_ rfl rfl rfl rfl rfl
    rw [hch]
    exact (Server.core_setInput ..).symm
  | unlock hi => exact h.goOn (y := .top) hi rfl (fun _ => .of_channel rfl) rfl rfl rfl rfl rfl rfl
  | @test i c p packs hi hlogin =>
    exact h.goOn (y := .load c p packs) hi rfl (fun hd => ⟨hd, hset.sound.login c hlogin⟩) rfl rfl rfl
      rfl rfl rfl
  | @drop i c p packs hi =>
    exact h.goOn (y := .send c packs) hi rfl (fun hd => ⟨hd, trivial⟩) rfl rfl rfl rfl rfl rfl
  | @load i c p packs hi =>
    have hx := h.workers i
    rw [hi] at hx
    obtain ⟨-, b, hb⟩ := hx
    exact h.goOn (y := .write c (s.srv.chan c).buffer p packs) hi rfl (fun hd => ⟨hd, b, hb.1, hb⟩)
      rfl rfl rfl rfl rfl rfl
  | @write i c b p packs hi =>
    exact h.goOn (y := .send c packs) hi rfl (fun hd => ⟨hd, trivial⟩) rfl rfl rfl rfl rfl rfl
  | @deletedChannel i c hi hdel => exact absurd ((h.workers i).1 c hi) hdel
  | freedEvbuffer => exact h.fault (by simp) (by simp)
  | @freedBuffer i c b p packs hi hfreed =>
    have hx := h.workers i
    rw [hi] at hx
    obtain ⟨-, e, he, ho⟩ := hx
    cases he
    exact absurd ho.2 hfreed
  | nullBuffer => exact h.fault (by simp) (by simp)

end Kept

/-! ### Every run -/

theorem Kept.start (N : ℕ) (hasLock : Bool) (cells : ℤ → Task) (n q : UInt32) :
    Kept (start N hasLock cells n q : Kernel α) where
  queue := by
    rintro p ⟨⟩
    exact ⟨⟨le_rfl, rfl⟩, rfl, fun j hj => absurd hj (Nat.not_lt_zero j)⟩
  workers _ := .of_channel rfl
  posting := by simp [Kernel.start]
  outside _ _ := rfl
  outlived := ⟨by simp [Kernel.start], by simp [Kernel.start]⟩

/-- **No task outlives what it uses.** Let every step of a run be timely: then in no state
of the run has a worker served a channel that had been deleted, or written to a
`bufferevent` that had been freed. -/
theorem noneOutlives_of_timely [Inhabited α] (P : ParseFunc α) (N : ℕ) (hasLock : Bool) (cells : ℤ → Task)
    (thread_count queue_size : UInt32) (as : List (Act α))
    (h : Guarded (step P) Timely (start N hasLock cells thread_count queue_size) as) :
    Along (step P) NoneOutlives (start N hasLock cells thread_count queue_size) as := by
  refine Along.of_guarded (I := fun s => Settled N s ∧ Kept s) ?_ (fun s hs => hs.2.outlived)
    ⟨.start hasLock cells thread_count queue_size, .start N hasLock cells thread_count queue_size⟩ h
  rintro s a t ⟨hset, hkept⟩ hg hst
  exact ⟨hset.step hst, hkept.step hset hg hst⟩

/-- The byte is echoed, and the server closes. -/
def closeAtRest : List (Act UInt8) := firstByte ++ works 0 7 ++ .close :: mains 12

theorem noneOutlives_closeAtRest :
    (exec (step recvValuesFromString) small closeAtRest).any
        (fun s => decide (s.srv.deleted 0 = 1)) = true ∧
      Along (step recvValuesFromString) NoneOutlives small closeAtRest :=
  ⟨by decide +kernel, noneOutlives_of_timely recvValuesFromString 1
    (lockInstalled (syinxKernelInitialize true)) noTask 2 8 closeAtRest (by decide +kernel)⟩

/-- A worker has read `m_buffer`; the client hangs up before the write. -/
def clearedMeanwhile : List (Act UInt8) :=
  firstByte ++ works 0 5 ++ .event (.event 0 bevEventEof) :: mains 6 ++ works 0 1

/-- The server closes with a task in the queue. -/
def closedMeanwhile : List (Act UInt8) := firstByte ++ .close :: mains 11 ++ works 0 2

theorem not_noneOutlives_meanwhile :
    ¬ Along (step recvValuesFromString) NoneOutlives small clearedMeanwhile ∧
      ¬ Along (step recvValuesFromString) NoneOutlives small closedMeanwhile := by
  have hclear : (exec (step recvValuesFromString) small clearedMeanwhile).any
      (fun s => decide (s.fault = some (.freedBuffer 0 0))) = true := by decide +kernel
  have hclose : (exec (step recvValuesFromString) small closedMeanwhile).any
      (fun s => decide (s.fault = some (.deletedChannel 0 0))) = true := by decide +kernel
  obtain ⟨s, hs, hfreed⟩ := (Option.any_eq_true _ _).mp hclear
  obtain ⟨t, ht, hdeleted⟩ := (Option.any_eq_true _ _).mp hclose
  exact ⟨fun h => (h.last hs).buffer 0 0 (of_decide_eq_true hfreed),
    fun h => (h.last ht).channel 0 0 (of_decide_eq_true hdeleted)⟩

end Kernel

end Syinx.Threaded
