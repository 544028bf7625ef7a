import Mathlib.Algebra.Order.Ring.Nat
import Syinx.Library.Pacing
import Syinx.Library.Runs

/-!
# The frame loop

`SyinxKernel::TCPRun` serves libevent once on each pass of its loop, and then runs the
action of the frame if it is time for one. `GetMselTime` is `GetTickCount` on Windows, 32
bits that come round after 49.7 days, and `gettimeofday` elsewhere; the deadline of the next
frame is kept in 64 bits.

What the callbacks and the action of a frame leave in `m_nWorkStatus` is given with the
pass. `SYINX_LINK_WAIT` is never assigned and has no action. The pause of a pass without a
frame (`Skipping`) is part of the true times, and the time of day that is kept for the frame
is left out.

## What is proved

* `Loop.inv_of_exec` — the deadline is that of the last frame, and a pass runs a frame exactly
  when the time it has read is not below the deadline.
* `Clock.decides_iff` — when that is the right decision.
* `framePacing_iff` — which runs keep the pace; `FramePacing.of_lt` — all that end before the
  clock comes round.
* `Loop.Inv.no_more_beats` — which frame ends the frames for good.
-/

namespace Syinx.Kernel

open Syinx.Library Syinx.Library.Pacing

/-- `GAME_SERVER_FRAME_NUMS`. -/
def gameServerFrameNums : ℕ := 15

/-- `1000 / GAME_SERVER_FRAME_NUMS`, in milliseconds. -/
def frameTime : ℕ := 1000 / gameServerFrameNums

/-- `SYINX_LINK_STATUS`. -/
inductive LinkStatus where
  | close
  | work
  deriving DecidableEq

/-- What the action of a frame is. -/
inductive StatusFunc where
  | onStatusDoAction
  | onStatusDoClose
  deriving DecidableEq

/-- `m_SyinxStatusFunc`. -/
def syinxStatusFunc : LinkStatus → StatusFunc
  | .work => .onStatusDoAction
  | .close => .onStatusDoClose

/-- What `GetMselTime` is made of. -/
inductive Clock where
  | getTickCount
  | gettimeofday
  deriving DecidableEq

/-- `GetMselTime`, called at the true time `t`. -/
def Clock.getMselTime : Clock → ℕ → UInt64
  | .getTickCount, t => (UInt32.ofNat t).toUInt64
  | .gettimeofday, t => UInt64.ofNat t

/-- A pass of the loop, as it depends on the rest of the program. -/
structure Iteration where
  /-- `m_nWorkStatus` after `event_base_loop`; `none` if it returns `-1`. -/
  eventBaseLoop : Option LinkStatus
  /-- The true time at which `GetMselTime` is called, in milliseconds. -/
  time : ℕ
  /-- `m_nWorkStatus` after the action of the frame, if it is run. -/
  acted : LinkStatus

/-- `TCPRun`, at the beginning of a pass. -/
structure Loop where
  /-- `m_nWorkStatus`. -/
  nWorkStatus : LinkStatus
  /-- `NextMeslTime`. -/
  nextMeslTime : UInt64
  /-- It has returned, because of `event_base_loop`. -/
  returned : Bool
  /-- The passes that have read the time, the latest first: the true time, and the action that
  was run. -/
  passes : List (ℕ × Option StatusFunc)

/-- `TCPRun` is called. -/
def Loop.start (w : LinkStatus) : Loop := ⟨w, 0, false, []⟩

/-- A pass of the loop. -/
def Loop.iterate (c : Clock) (l : Loop) (i : Iteration) : Option Loop :=
  if l.returned = true ∨ l.nWorkStatus = .close then none
  else match i.eventBaseLoop with
    | none => some { l with returned := true }
    | some w =>
      let beginMeslTime := c.getMselTime i.time
      if beginMeslTime < l.nextMeslTime then
        some { l with nWorkStatus := w, passes := (i.time, none) :: l.passes }
      else
        some
          { nWorkStatus := i.acted
            nextMeslTime := beginMeslTime + .ofNat frameTime
            returned := false
            passes := (i.time, some (syinxStatusFunc w)) :: l.passes }

/-- The passes, a frame being a beat. -/
def Loop.record (l : Loop) : Record ℕ := l.passes.map fun q => (q.1, q.2.isSome)

/-! ### What a pass does -/

/-- `NextMeslTime`, if this was the last frame. -/
def Clock.deadline (c : Clock) : Option ℕ → UInt64
  | none => 0
  | some s => c.getMselTime s + .ofNat frameTime

variable {c : Clock} {l r : Loop} {i : Iteration} {is : List Iteration}

/-- What a pass can do. -/
theorem Loop.iterate_cases (h : l.iterate c i = some r) :
    (r.record = l.record ∧ r.nextMeslTime = l.nextMeslTime) ∨
    (c.getMselTime i.time < l.nextMeslTime ∧ r.record = (i.time, false) :: l.record ∧
      r.nextMeslTime = l.nextMeslTime) ∨
    (¬ c.getMselTime i.time < l.nextMeslTime ∧ r.record = (i.time, true) :: l.record ∧
      r.nextMeslTime = c.deadline (some i.time)) := by
  unfold Loop.iterate at h
  split at h
  · cases h
  · split at h
    · cases h
      exact .inl ⟨rfl, rfl⟩
    · dsimp only at h
      split at h
      · cases h
        exact .inr (.inl ⟨‹_›, rfl, rfl⟩)
      · cases h
        exact .inr (.inr ⟨‹_›, rfl, rfl⟩)

/-- The deadline is that of the last frame, and whenever the time was read, a frame was run
unless the time was below the deadline. -/
structure Loop.Inv (c : Clock) (l : Loop) : Prop where
  deadline : l.nextMeslTime = c.deadline (lastBeat l.record)
  decided : Each (fun o t b => b = true ↔ ¬ c.getMselTime t < c.deadline o) l.record

theorem Loop.Inv.start (c : Clock) (w : LinkStatus) : (Loop.start w).Inv c := ⟨rfl, trivial⟩

theorem Loop.Inv.iterate (h : l.Inv c) (hst : l.iterate c i = some r) : r.Inv c := by
  obtain ⟨hrec, hnext⟩ | ⟨hlt, hrec, hnext⟩ | ⟨hlt, hrec, hnext⟩ := Loop.iterate_cases hst
  · constructor
    · rw [hrec, hnext, h.deadline]
    · rw [hrec]
      exact h.decided
  · rw [h.deadline] at hlt
    constructor
    · rw [hrec, hnext, h.deadline]
      rfl
    · rw [hrec]
      exact ⟨by simp [hlt], h.decided⟩
  · rw [h.deadline] at hlt
    constructor
    · rw [hrec, hnext]
      rfl
    · rw [hrec]
      exact ⟨by simp [hlt], h.decided⟩

theorem Loop.inv_of_exec {w : LinkStatus} (h : exec (Loop.iterate c) (Loop.start w) is = some r) :
    r.Inv c :=
  Library.inv_of_exec (fun _ _ _ hl hst => hl.iterate hst) (Loop.Inv.start c w) h

/-! ### The clocks -/

theorem toNat_frameTime : (UInt64.ofNat frameTime).toNat = 66 := rfl

theorem toNat_getTickCount (t : ℕ) : (Clock.getTickCount.getMselTime t).toNat = t % 2 ^ 32 := by
  rw [Clock.getMselTime, UInt32.toNat_toUInt64, UInt32.toNat_ofNat']

theorem toNat_gettimeofday {t : ℕ} (h : t < 2 ^ 64) :
    (Clock.gettimeofday.getMselTime t).toNat = t := by
  rw [Clock.getMselTime, UInt64.toNat_ofNat_of_lt' h]

/-- With the last frame at `s`, the time read at `t` is on the wrong side of the deadline.
`GetTickCount` has come round since, and the deadline has been reached, but the count has not
got up to it again; with `gettimeofday`, the deadline itself does not fit in 64 bits. -/
def Clock.Astray : Clock → ℕ → ℕ → Prop
  | .getTickCount, s, t =>
    s / 2 ^ 32 < t / 2 ^ 32 ∧ s + frameTime ≤ t ∧ t % 2 ^ 32 < s % 2 ^ 32 + frameTime
  | .gettimeofday, s, _ => 2 ^ 64 ≤ s + frameTime

instance : (c : Clock) → (s t : ℕ) → Decidable (c.Astray s t)
  | .getTickCount, _, _ => inferInstanceAs (Decidable (_ ∧ _ ∧ _))
  | .gettimeofday, s, _ => inferInstanceAs (Decidable (2 ^ 64 ≤ s + frameTime))

/-- What a pass decides is right exactly when the clock is not astray. -/
theorem Clock.decides_iff {s t : ℕ} (hst : s ≤ t) (hread : c = .gettimeofday → t < 2 ^ 64) :
    ((¬ c.getMselTime t < c.deadline (some s)) ↔ s + frameTime ≤ t) ↔ ¬ c.Astray s t := by
  have hframe : frameTime = 66 := rfl
  cases c with
  | getTickCount =>
    have hdeadline : (Clock.getTickCount.deadline (some s)).toNat = s % 2 ^ 32 + 66 := by
      rw [Clock.deadline, UInt64.toNat_add, toNat_frameTime, toNat_getTickCount]
      omega
    rw [UInt64.lt_iff_toNat_lt, toNat_getTickCount, hdeadline, hframe]
    unfold Clock.Astray
    rw [hframe]
    omega
  | gettimeofday =>
    have ht := hread rfl
    have hs : s < 2 ^ 64 := by omega
    have hdeadline : (Clock.gettimeofday.deadline (some s)).toNat = (s + 66) % 2 ^ 64 := by
      rw [Clock.deadline, UInt64.toNat_add, toNat_frameTime, toNat_gettimeofday hs]
    rw [UInt64.lt_iff_toNat_lt, toNat_gettimeofday ht, hdeadline, hframe]
    unfold Clock.Astray
    rw [hframe]
    omega

/-- How long a clock goes on before it comes round, in milliseconds. -/
def Clock.span : Clock → ℕ
  | .getTickCount => 2 ^ 32
  | .gettimeofday => 2 ^ 64

/-- Before it has come round for the first time, a clock is not astray. -/
theorem Clock.not_astray_of_lt {s t : ℕ} (hst : s ≤ t) (ht : t + frameTime < c.span) :
    ¬ c.Astray s t := by
  cases c with
  | getTickCount =>
    rw [Clock.span] at ht
    rintro ⟨hround, -, -⟩
    omega
  | gettimeofday =>
    rw [Clock.span] at ht
    unfold Clock.Astray
    omega

/-! ### The pace -/

/-- What the loop is for: a pass runs the frame exactly when there has been none or the last
one is a frame time back, so that frames are a frame time apart and do not stop coming. -/
structure FramePacing (l : Record ℕ) : Prop where
  exact : Paced frameTime l
  apart : (beats l).Pairwise fun t s => s + frameTime ≤ t
  coming : ∀ t ∈ times l, ∃ s ∈ beats l, s ≤ t ∧ t < s + frameTime

theorem FramePacing.iff_paced {l : Record ℕ} (ht : (times l).Pairwise fun t s => s ≤ t) :
    FramePacing l ↔ Paced frameTime l := by
  constructor
  · exact fun h => h.exact
  · intro h
    have hpos : 0 < frameTime := by decide
    exact ⟨h, h.apart hpos.le, h.beat_near hpos ht⟩

/-- A loop keeps the pace as long as its clock is not astray. -/
theorem Loop.Inv.paced_iff (h : l.Inv c) (ht : (times l.record).Pairwise fun t s => s ≤ t)
    (hread : c = .gettimeofday → ∀ t ∈ times l.record, t < 2 ^ 64) :
    Paced frameTime l.record ↔ Each (fun o t _ => ∀ s ∈ o, ¬ c.Astray s t) l.record := by
  have hreads : Each (fun o t _ => (∀ s ∈ o, c = .gettimeofday → s < 2 ^ 64) ∧
      (c = .gettimeofday → t < 2 ^ 64)) l.record :=
    Each.of_times fun t hmem hc => hread hc t hmem
  refine Each.congr (fun o t b hall => ?_) ((h.decided.and (Each.of_pairwise ht)).and hreads)
  obtain ⟨⟨hb, hle⟩, -, hlt⟩ := hall
  rw [hb]
  cases o with
  | none => simp [Clock.deadline]
  | some s =>
    simp only [Option.mem_def, Option.some.injEq, forall_eq']
    exact Clock.decides_iff (hle s rfl) hlt

/-- **Which runs keep the pace**: those in which the clock is not astray at any pass. -/
theorem framePacing_iff {w : LinkStatus}
    (h : exec (Loop.iterate c) (Loop.start w) is = some r)
    (ht : (times r.record).Pairwise fun t s => s ≤ t)
    (hread : c = .gettimeofday → ∀ t ∈ times r.record, t < 2 ^ 64) :
    FramePacing r.record ↔ Each (fun o t _ => ∀ s ∈ o, ¬ c.Astray s t) r.record := by
  rw [FramePacing.iff_paced ht]
  exact (Loop.inv_of_exec h).paced_iff ht hread

/-- Frames at 0, 100 and 166 ms, with passes at 50 and 120 ms between them. -/
theorem framePacing_iff_five :
    FramePacing [(166, true), (120, false), (100, true), (50, false), (0, true)] ↔
      Each (fun o t _ => ∀ s ∈ o, ¬ Clock.getTickCount.Astray s t)
        [(166, true), (120, false), (100, true), (50, false), (0, true)] :=
  have hrun : exec (Loop.iterate .getTickCount) (Loop.start .work)
      [⟨some .work, 0, .work⟩, ⟨some .work, 50, .work⟩, ⟨some .work, 100, .work⟩,
        ⟨some .work, 120, .work⟩, ⟨some .work, 166, .work⟩] =
      some ⟨.work, 232, false, [(166, some .onStatusDoAction), (120, none),
        (100, some .onStatusDoAction), (50, none), (0, some .onStatusDoAction)]⟩ := rfl
  framePacing_iff hrun (by decide) (by decide)

/-- The last frame before `GetTickCount` comes round is followed by none, a second later. -/
theorem not_framePacing_after_round :
    ∃ r, exec (Loop.iterate .getTickCount) (Loop.start .work)
        [⟨some .work, 2 ^ 32 - 1, .work⟩, ⟨some .work, 2 ^ 32 + 1000, .work⟩] = some r ∧
      (times r.record).Pairwise (fun t s => s ≤ t) ∧ ¬ FramePacing r.record := by
  refine ⟨_, rfl, by decide, fun h => ?_⟩
  obtain ⟨hlast, -⟩ := h.exact
  have hrun : false = true := hlast.mpr (by decide)
  cases hrun

/-- Until its clock comes round for the first time, a server keeps the pace. -/
theorem FramePacing.of_lt {w : LinkStatus} (h : exec (Loop.iterate c) (Loop.start w) is = some r)
    (ht : (times r.record).Pairwise fun t s => s ≤ t)
    (hlt : ∀ t ∈ times r.record, t + frameTime < c.span) : FramePacing r.record := by
  have hread : c = .gettimeofday → ∀ t ∈ times r.record, t < 2 ^ 64 := by
    intro hc t hmem
    have := hlt t hmem
    rw [hc, Clock.span] at this
    omega
  rw [FramePacing.iff_paced ht, (Loop.inv_of_exec h).paced_iff ht hread]
  apply ((Each.of_pairwise ht).and (Each.of_times hlt)).mono
  intro o t b hall s hs
  exact Clock.not_astray_of_lt (hall.1 s hs) hall.2.2

/-! ### Frames that do not come again -/

/-- A deadline of 32 bits and more is not reached by `GetTickCount`: no pass runs a frame. -/
theorem Loop.iterate_of_stuck (hnext : 2 ^ 32 ≤ l.nextMeslTime.toNat)
    (hst : l.iterate .getTickCount i = some r) :
    beats r.record = beats l.record ∧ r.nextMeslTime = l.nextMeslTime := by
  obtain ⟨hrec, hn⟩ | ⟨-, hrec, hn⟩ | ⟨hlt, -, -⟩ := Loop.iterate_cases hst
  · exact ⟨by rw [hrec], hn⟩
  · exact ⟨by rw [hrec]; rfl, hn⟩
  · rw [UInt64.lt_iff_toNat_lt, toNat_getTickCount] at hlt
    omega

/-- There is no frame after the one with such a deadline, however long the loop goes on. -/
theorem Loop.beats_eq_of_stuck (hnext : 2 ^ 32 ≤ l.nextMeslTime.toNat)
    (h : exec (Loop.iterate .getTickCount) l is = some r) : beats r.record = beats l.record := by
  have hkept : beats r.record = beats l.record ∧ r.nextMeslTime = l.nextMeslTime := by
    refine Library.inv_of_exec
      (I := fun k => beats k.record = beats l.record ∧ k.nextMeslTime = l.nextMeslTime)
      (fun k i k' hk hst => ?_) ⟨rfl, rfl⟩ h
    obtain ⟨hb, hn⟩ := Loop.iterate_of_stuck (by rw [hk.2]; exact hnext) hst
    exact ⟨hb.trans hk.1, hn.trans hk.2⟩
  exact hkept.1

/-- Which frames are the last ones: those less than a frame time before `GetTickCount` comes
round. -/
theorem Clock.stuck_iff (s : ℕ) :
    2 ^ 32 ≤ (Clock.getTickCount.deadline (some s)).toNat ↔ 2 ^ 32 ≤ s % 2 ^ 32 + frameTime := by
  have hframe : frameTime = 66 := rfl
  rw [Clock.deadline, UInt64.toNat_add, toNat_frameTime, toNat_getTickCount, hframe]
  omega

/-- After a frame less than a frame time before `GetTickCount` comes round there is no other. -/
theorem Loop.Inv.no_more_beats (h : l.Inv .getTickCount) {s : ℕ}
    (hs : lastBeat l.record = some s) (hlate : 2 ^ 32 ≤ s % 2 ^ 32 + frameTime)
    (hx : exec (Loop.iterate .getTickCount) l is = some r) : beats r.record = beats l.record := by
  apply Loop.beats_eq_of_stuck _ hx
  rw [h.deadline, hs]
  exact (Clock.stuck_iff s).mpr hlate

end Syinx.Kernel
