import Syinx.Kernel.FrameLoop
import Syinx.Threaded.Sessions

/-!
# The pace of the server

`TCPRun` with the server it serves: on each pass `event_base_loop` calls back, and when it is
time for a frame, every connected channel is served `BUFFSIZE` bytes. So what a connection is
sent depends on the clock: on how long the passes take and on how far the frames are apart.

A pass is one with which the loop goes on; how it is left is told in `Syinx.Kernel.FrameLoop`
and `Syinx.Kernel.Machine`.

## What is proved

* `TCPRun.split` — a run of the loop is a run of the clock and a run of the server, with as many
  frames in the one as in the other.
* `rate_of_exec` — **at most**: in a span of time a connection is sent `BUFFSIZE` bytes for each
  frame time in it, and twice `BUFFSIZE`.
* `latency_of_exec` — **at least**: what is in the input buffer of a connection is sent after a
  time that its length and the longest pass give.
-/

namespace Syinx.Kernel

open Syinx.Library Syinx.Library.Pacing Syinx.Tcp Syinx.Threaded

variable {α : Type}

/-- A pass of the loop, as it depends on libevent and the clock. -/
structure Pass (α : Type) where
  /-- What `event_base_loop` calls back. -/
  callbacks : List (Event α)
  /-- The true time at which `GetMselTime` is called, in milliseconds. -/
  time : ℕ
  /-- Libevent runs no frame. -/
  notFrame : ∀ e ∈ callbacks, e.isFrame = false

/-- What the clock sees of a pass. -/
def Pass.iteration (p : Pass α) : Iteration := ⟨some .work, p.time, .work⟩

/-- `TCPRun`, at the beginning of a pass, and the server. -/
structure TCPRun (α : Type) where
  loop : Loop
  srv : Server α

/-- The action that the latest pass has run. -/
def Loop.ran (l : Loop) : Option StatusFunc := l.passes.head?.bind Prod.snd

namespace TCPRun

/-- `TCPRun` is called, after the server has been set up for `N` connections. -/
def start (N : ℕ) : TCPRun α := ⟨Loop.start .work, Server.resourceInitialize N⟩

/-- A pass of the loop: the callbacks, and the frame if it is time for one. -/
def pass [Inhabited α] (c : Clock) (s : TCPRun α) (p : Pass α) : Option (TCPRun α) :=
  (exec (Server.step recvValuesFromString) s.srv p.callbacks).bind fun srv =>
    (s.loop.iterate c p.iteration).bind fun loop =>
      match loop.ran with
      | some .onStatusDoAction =>
        (srv.step recvValuesFromString .frame).bind fun srv => some ⟨loop, srv⟩
      | _ => some ⟨loop, srv⟩

end TCPRun

/-! ### The two halves of a run -/

section Split

variable [Inhabited α] {c : Clock} {s t : TCPRun α} {p : Pass α}

/-- What the loop does on a pass: the latest pass is recorded, with the action it has run. -/
theorem Loop.iterate_work {l r : Loop} {u : ℕ} (h : l.iterate c ⟨some .work, u, .work⟩ = some r) :
    (r.ran = none ∧ r.record = (u, false) :: l.record) ∨
      (r.ran = some .onStatusDoAction ∧ r.record = (u, true) :: l.record) := by
  unfold Loop.iterate at h
  split_ifs at h
  dsimp only at h
  split_ifs at h
  · cases h
    exact .inl ⟨rfl, rfl⟩
  · cases h
    exact .inr ⟨rfl, rfl⟩

/-- A pass is one of the loop, and some events of the server, a frame among them exactly if the
loop has run one. -/
theorem TCPRun.pass_cases (h : s.pass c p = some t) :
    s.loop.iterate c p.iteration = some t.loop ∧ ∃ (b : Bool) (es : List (Event α)),
      t.loop.record = (p.time, b) :: s.loop.record ∧
      exec (Server.step recvValuesFromString) s.srv es = some t.srv ∧
      es.countP Event.isFrame = if b then 1 else 0 := by
  obtain ⟨srv, hsrv, h⟩ := Option.bind_eq_some_iff.mp h
  obtain ⟨loop, hloop, h⟩ := Option.bind_eq_some_iff.mp h
  have hnone : p.callbacks.countP Event.isFrame = 0 :=
    List.countP_eq_zero.mpr fun e he => by simp [p.notFrame e he]
  obtain ⟨hran, hrec⟩ | ⟨hran, hrec⟩ := Loop.iterate_work hloop
  · rw [hran] at h
    cases h
    exact ⟨hloop, false, p.callbacks, hrec, hsrv, hnone⟩
  · rw [hran] at h
    obtain ⟨srv', hframe, h⟩ := Option.bind_eq_some_iff.mp h
    cases h
    refine ⟨hloop, true, p.callbacks ++ [.frame], hrec, ?_, ?_⟩
    · exact exec_append_eq_some.mpr ⟨srv, hsrv, by simpa using hframe⟩
    · rw [List.countP_append, hnone]
      rfl

/-- A run of the loop: what the clock sees of it, and the events of the server. -/
structure Split (c : Clock) (s t : TCPRun α) (ps : List (Pass α)) (w : Record ℕ)
    (es : List (Event α)) : Prop where
  clock : exec (Loop.iterate c) s.loop (ps.map Pass.iteration) = some t.loop
  record : t.loop.record = w ++ s.loop.record
  times : times w = (ps.map Pass.time).reverse
  server : exec (Server.step recvValuesFromString) s.srv es = some t.srv
  frames : (beats w).length = es.countP Event.isFrame

/-- Every run of the loop is such a run. -/
theorem TCPRun.split {ps : List (Pass α)} (h : exec (TCPRun.pass c) s ps = some t) :
    ∃ w es, Split c s t ps w es := by
  induction ps generalizing s with
  | nil =>
    cases h
    exact ⟨[], [], rfl, rfl, rfl, rfl, rfl⟩
  | cons p ps ih =>
    obtain ⟨u, hu, h⟩ := exec_cons_eq_some.mp h
    obtain ⟨hloop, b, es₀, hrec, hsrv, hcount⟩ := TCPRun.pass_cases hu
    obtain ⟨w, es, hrun⟩ := ih h
    refine ⟨w ++ [(p.time, b)], es₀ ++ es, ?_, ?_, ?_, ?_, ?_⟩
    · exact exec_cons_eq_some.mpr ⟨u.loop, hloop, hrun.clock⟩
    · rw [hrun.record, hrec, List.append_assoc]
      rfl
    · rw [times_append, hrun.times, List.map_cons, List.reverse_cons]
      rfl
    · exact exec_append_eq_some.mpr ⟨u.srv, hsrv, hrun.server⟩
    · rw [beats_append, List.length_append, hrun.frames, List.countP_append, hcount, Nat.add_comm]
      cases b <;> rfl

end Split

/-! ### The pace -/

section Pace

variable [Inhabited α] {c : Clock} {N : ℕ} {s t : TCPRun α} {ps qs : List (Pass α)} {b : BevId}

/-- A part of a run that began with the server: the loop keeps the pace. -/
structure Timely (c : Clock) (N : ℕ) (s t : TCPRun α) (qs : List (Pass α)) (w : Record ℕ)
    (es : List (Event α)) : Prop where
  split : Split c s t qs w es
  sessions : Sessions N s.srv
  ordered : (times (w ++ s.loop.record)).Pairwise fun u v => v ≤ u
  pacing : FramePacing (w ++ s.loop.record)

/-- Before its clock comes round, every part of a run is of this kind. -/
theorem TCPRun.timely (hs : exec (TCPRun.pass c) (TCPRun.start N) ps = some s)
    (ht : exec (TCPRun.pass c) s qs = some t) (hmono : ((ps ++ qs).map Pass.time).Pairwise (· ≤ ·))
    (hspan : ∀ p ∈ ps ++ qs, p.time + frameTime < c.span) : ∃ w es, Timely c N s t qs w es := by
  obtain ⟨w₀, es₀, h₀⟩ := TCPRun.split hs
  obtain ⟨w, es, h⟩ := TCPRun.split ht
  have hrecord : s.loop.record = w₀ := h₀.record.trans (List.append_nil w₀)
  have htimes : times (w ++ s.loop.record) = ((ps ++ qs).map Pass.time).reverse := by
    rw [times_append, hrecord, h.times, h₀.times, List.map_append, List.reverse_append]
  have hordered : (times (w ++ s.loop.record)).Pairwise fun u v => v ≤ u := by
    rw [htimes, List.pairwise_reverse]
    exact hmono
  have hclock : exec (Loop.iterate c) (Loop.start .work) ((ps ++ qs).map Pass.iteration) =
      some t.loop := by
    rw [List.map_append]
    exact exec_append_eq_some.mpr ⟨s.loop, h₀.clock, h.clock⟩
  refine ⟨w, es, h, Sessions.of_exec h₀.server, hordered, ?_⟩
  rw [← h.record] at hordered ⊢
  refine FramePacing.of_lt hclock hordered fun u hu => ?_
  rw [h.record, htimes, List.mem_reverse] at hu
  obtain ⟨p, hp, rfl⟩ := List.mem_map.mp hu
  exact hspan p hp

/-- Frames are a frame time apart: so many fit into a span of time. -/
theorem Timely.frames_le {w : Record ℕ} {es : List (Event α)} {first last : ℕ}
    (h : Timely c N s t qs w es) (hq : ∀ q ∈ qs, first ≤ q.time ∧ q.time ≤ last) :
    es.countP Event.isFrame ≤ (last - first) / frameTime + 1 := by
  have hmem : ∀ u ∈ beats w, first ≤ u ∧ u ≤ last := by
    intro u hu
    have htimes := mem_times_of_mem_beats hu
    rw [h.split.times, List.mem_reverse] at htimes
    obtain ⟨q, hqs, rfl⟩ := List.mem_map.mp htimes
    exact hq q hqs
  have hapart : (beats w).Pairwise fun u v => v + frameTime ≤ u := by
    have happart := h.pacing.apart
    rw [beats_append] at happart
    exact (List.pairwise_append.mp happart).1
  have hcount := length_mul_le hapart (fun u hu => (hmem u hu).1) fun u hu => (hmem u hu).2
  have hpos : 0 < frameTime := by decide
  rw [← h.split.frames, ← Nat.add_div_right _ hpos, Nat.le_div_iff_mul_le hpos]
  exact hcount

/-- With passes at most `d` apart, a span of time has so many frames in it. -/
theorem Timely.le_frames {w : Record ℕ} {es : List (Event α)} {d k : ℕ} {us : List ℕ}
    (h : Timely c N s t qs w es) {first last : ℕ} (hqs : qs.map Pass.time = first :: us)
    (hlast : (first :: us).getLast? = some last) (hgap : (first :: us).IsChain fun u v => v ≤ u + d)
    (hlong : first + k * (frameTime + d) + frameTime ≤ last) : k < es.countP Event.isFrame := by
  have htimes : times w = us.reverse ++ [first] := by
    rw [h.split.times, hqs, List.reverse_cons]
  obtain ⟨w', q, rfl⟩ : ∃ w' q, w = w' ++ [q] := by
    obtain rfl | hw := List.eq_nil_or_concat' w
    · simp at htimes
    · exact hw
  obtain ⟨u, b⟩ := q
  obtain ⟨htimes', hu⟩ := List.append_inj' ((times_append w' [(u, b)]).symm.trans htimes) rfl
  obtain rfl : u = first := by simpa using hu
  have hordered := h.ordered
  have hexact := h.pacing.exact
  rw [List.append_assoc] at hordered hexact
  obtain ⟨v, -, hnear, hsum⟩ := Paced.lt_of_gap (by decide) hexact hordered (d := d) (by
    rw [htimes, ← List.reverse_cons, List.isChain_reverse]
    exact hgap)
  have hend : last < v + frameTime := by
    refine hnear last ?_
    rw [htimes, ← List.reverse_cons, List.head?_reverse]
    exact hlast
  rw [h.split.frames] at hsum
  by_contra hle
  have hmul := Nat.mul_le_mul_right (frameTime + d) (Nat.not_lt.mp hle)
  omega

end Pace

/-- **At most.** While its clock has not come round, a server sends a connection, in a span of time
of the loop, `BUFFSIZE` bytes for each frame time in it, and twice `BUFFSIZE`, whatever the clients
do. -/
theorem rate_of_exec [Inhabited α] (c : Clock) (N : ℕ) (ps qs : List (Pass α)) (s t : TCPRun α)
    (b : BevId) (first last : ℕ) (hs : exec (TCPRun.pass c) (TCPRun.start N) ps = some s)
    (ht : exec (TCPRun.pass c) s qs = some t) (hmono : ((ps ++ qs).map Pass.time).Pairwise (· ≤ ·))
    (hspan : ∀ p ∈ ps ++ qs, p.time + frameTime < c.span)
    (hq : ∀ q ∈ qs, first ≤ q.time ∧ q.time ≤ last) :
    (echoed b t.srv).length ≤
      (echoed b s.srv).length + buffsize * ((last - first) / frameTime + 2) := by
  obtain ⟨w, es, h⟩ := TCPRun.timely hs ht hmono hspan
  have hframes := h.frames_le hq
  calc (echoed b t.srv).length
      ≤ (echoed b s.srv).length + buffsize * (es.countP Event.isFrame + 1) :=
        slow_run h.sessions h.split.server
    _ ≤ (echoed b s.srv).length + buffsize * ((last - first) / frameTime + 2) :=
        Nat.add_le_add_left (Nat.mul_le_mul_left _ (Nat.succ_le_succ hframes)) _

/-- A client sends more than `BUFFSIZE` bytes and gets the first of them at once, in the first
frame. -/
def firstFrame : List (Pass UInt8) :=
  [⟨[.listen 7 true, .recv 0 (List.replicate (buffsize + 1) 1)], 0, by decide⟩]

/-- Later passes: a frame is due at the third. -/
def laterPasses : List (Pass UInt8) := [20, 60, 100].map fun u => ⟨[], u, by decide⟩

/-- In 80 ms the connection is sent the rest, which is less than it might have been sent. -/
theorem rate_laterPasses :
    ∃ s t, exec (TCPRun.pass .gettimeofday) (TCPRun.start 1) firstFrame = some s ∧
      exec (TCPRun.pass .gettimeofday) s laterPasses = some t ∧
      (echoed 0 t.srv).length = buffsize + 1 ∧
      (echoed 0 t.srv).length ≤
        (echoed 0 s.srv).length + buffsize * ((100 - 20) / frameTime + 2) := by
  have h : (exec (TCPRun.pass .gettimeofday) (TCPRun.start 1) firstFrame).any (fun s =>
      (exec (TCPRun.pass .gettimeofday) s laterPasses).any
        fun t => decide ((echoed 0 t.srv).length = buffsize + 1)) = true := by decide +kernel
  obtain ⟨s, hs, h⟩ := (Option.any_eq_true _ _).mp h
  obtain ⟨t, ht, h⟩ := (Option.any_eq_true _ _).mp h
  exact ⟨s, t, hs, ht, of_decide_eq_true h, rate_of_exec .gettimeofday 1 firstFrame laterPasses s t 0
    20 100 hs ht (by decide) (by decide) (by decide)⟩

/-- **At least.** While its clock has not come round, a server whose passes are at most `d`
milliseconds apart has sent a connection that lasts all that was in its input buffer,
`(k + 1) * BUFFSIZE` bytes or fewer, with the first pass that is `k` times the frame time and `d`,
and one frame time, behind the first one: at most `d` milliseconds later than that. -/
theorem latency_of_exec [Inhabited α] (c : Clock) (N : ℕ) (ps qs : List (Pass α)) (s t : TCPRun α)
    (ch : Ptr) (b : BevId) (d k first last : ℕ) (us : List ℕ)
    (hs : exec (TCPRun.pass c) (TCPRun.start N) ps = some s)
    (ht : exec (TCPRun.pass c) s qs = some t) (hmono : ((ps ++ qs).map Pass.time).Pairwise (· ≤ ·))
    (hspan : ∀ p ∈ ps ++ qs, p.time + frameTime < c.span)
    (hch : ch ∈ s.srv.listConnectClient) (hb : (s.srv.chan ch).buffer = some b)
    (hlive : t.srv.live b = true) (hqs : qs.map Pass.time = first :: us)
    (hlast : (first :: us).getLast? = some last) (hgap : (first :: us).IsChain fun u v => v ≤ u + d)
    (hlen : (s.srv.chan ch).inputEvbuffer.length ≤ buffsize * (k + 1))
    (hlong : first + k * (frameTime + d) + frameTime ≤ last) :
    echoed b s.srv ++ (s.srv.chan ch).inputEvbuffer <+: echoed b t.srv := by
  obtain ⟨w, es, h⟩ := TCPRun.timely hs ht hmono hspan
  obtain ⟨b', hb'⟩ := h.sessions.pool.connected ch hch
  obtain rfl : b' = b := Option.some.inj (hb'.buffer.symm.trans hb)
  have hsent := prompt_run h.sessions hb' h.split.server hlive
  have hframes : k + 1 ≤ es.countP Event.isFrame := h.le_frames hqs hlast hgap hlong
  rwa [List.take_of_length_le (hlen.trans (Nat.mul_le_mul_left _ hframes))] at hsent

/-- One frame is needed for what is left after the first, and 66 ms are enough for it. -/
theorem latency_laterPasses :
    ∃ s t, exec (TCPRun.pass .gettimeofday) (TCPRun.start 1) firstFrame = some s ∧
      exec (TCPRun.pass .gettimeofday) s laterPasses = some t ∧
      (s.srv.chan 0).inputEvbuffer.length = 1 ∧
      echoed 0 s.srv ++ (s.srv.chan 0).inputEvbuffer <+: echoed 0 t.srv := by
  have h : (exec (TCPRun.pass .gettimeofday) (TCPRun.start 1) firstFrame).any (fun s =>
      (exec (TCPRun.pass .gettimeofday) s laterPasses).any fun t =>
        decide (0 ∈ s.srv.listConnectClient) && decide ((s.srv.chan 0).buffer = some 0) &&
          decide ((s.srv.chan 0).inputEvbuffer.length = 1) && t.srv.live 0) = true := by
    decide +kernel
  obtain ⟨s, hs, h⟩ := (Option.any_eq_true _ _).mp h
  obtain ⟨t, ht, h⟩ := (Option.any_eq_true _ _).mp h
  simp only [Bool.and_eq_true, decide_eq_true_iff] at h
  obtain ⟨⟨⟨hmem, hbuf⟩, hlen⟩, hlive⟩ := h
  exact ⟨s, t, hs, ht, hlen, latency_of_exec .gettimeofday 1 firstFrame laterPasses s t 0 0 40 0 20 100
    [60, 100] hs ht (by decide) (by decide) hmem hbuf hlive rfl rfl (by decide)
    (by rw [hlen]; decide) (by decide)⟩

end Syinx.Kernel
