import Mathlib.Algebra.Order.Ring.Int
import Mathlib.Data.List.Nodup

/-!
# The handles of the connection pool

`SyMysqlConPool` keeps the database handles that nobody uses in `m_queueMysql`. `Initialize`
makes and connects them, `GetMysqlHandle` takes one from the front, `PutMysqlHandle` puts one
at the back, and `close` closes those that are there. What has been lent is not recorded.

A handle is a number here: `mysql_init` returns a new one or `NULL`. The fields that
`Initialize` fills in and nothing reads are left out. The `int` that `close` counts with is
taken not to overflow.

## What is proved

* `Made.of_initLoop` — what the loop of `Initialize` leaves.
* `init_rollsBack_iff` — in which calls `Initialize` rolls back what it has done, or succeeds.
-/

namespace Syinx.Mysql

/-- `SyMysqlConPool`, and what has been done with the handles. -/
structure SyMysqlConPool where
  /-- `m_queueMysql`, the front first. -/
  queueMysql : List ℕ
  /-- How many handles `mysql_init` has returned; the next one has this number. -/
  made : ℕ
  /-- The handles `mysql_real_connect` has connected. -/
  connected : List ℕ
  /-- The handles that were given to `mysql_close`. -/
  closed : List ℕ

/-- What the calls of `Initialize` report. -/
structure InitResults where
  /-- `pthread_mutex_init` returns `0`. -/
  mutexInit : Bool
  /-- `mysql_init` does not return `NULL` in pass `i`. -/
  init : ℕ → Bool
  /-- `mysql_real_connect` succeeds in pass `i`. -/
  connect : ℕ → Bool

namespace SyMysqlConPool

/-- `g_pMysqlPool` when the program starts. -/
def new : SyMysqlConPool := ⟨[], 0, [], []⟩

/-- A pass of the loop after `mysql_init`: the handle is pushed if it can be connected. -/
def addHandle (s : SyMysqlConPool) (connects : Bool) : SyMysqlConPool :=
  if connects then
    { s with
      queueMysql := s.queueMysql ++ [s.made]
      made := s.made + 1
      connected := s.connected ++ [s.made] }
  else { s with made := s.made + 1 }

/-- The loop, from pass `i` on: whether it got through, and the pool after it. -/
def initLoop (o : InitResults) (s : SyMysqlConPool) (i : ℕ) : ℕ → Bool × SyMysqlConPool
  | 0 => (true, s)
  | left + 1 => if o.init i then (s.addHandle (o.connect i)).initLoop o (i + 1) left else (false, s)

/-- `Initialize`. The size of the queue is compared with `connum` as a `size_t`. -/
def init (s : SyMysqlConPool) (connum : Int32) (o : InitResults) : Bool × SyMysqlConPool :=
  if o.mutexInit = false then (false, s)
  else
    let r := s.initLoop o 0 connum.toInt.toNat
    if r.1 then (decide ((r.2.queueMysql.length : ℤ) = connum.toInt % 2 ^ 64), r.2)
    else (false, r.2)

/-- `GetMysqlHandle`. -/
def getMysqlHandle (s : SyMysqlConPool) : Option ℕ × SyMysqlConPool :=
  match s.queueMysql with
  | [] => (none, s)
  | h :: hs => (some h, { s with queueMysql := hs })

/-- `PutMysqlHandle`. -/
def putMysqlHandle (s : SyMysqlConPool) : Option ℕ → Bool × SyMysqlConPool
  | none => (false, s)
  | some h => (true, { s with queueMysql := s.queueMysql ++ [h] })

/-- `close`. -/
def close (s : SyMysqlConPool) : SyMysqlConPool :=
  { s with queueMysql := [], closed := s.closed ++ s.queueMysql }

end SyMysqlConPool

/-! ### Initialize -/

/-- What `Initialize` is for: it has added as many connected handles as it was asked for, or it
has left the queue as it was and closed all handles it has made. -/
def RollsBack (s : SyMysqlConPool) (connum : Int32) (r : Bool × SyMysqlConPool) : Prop :=
  (r.1 = true ∧ ∃ hs : List ℕ, (hs.length : ℤ) = connum.toInt ∧ hs.Nodup ∧
      (∀ h ∈ hs, s.made ≤ h ∧ h < r.2.made) ∧ r.2.queueMysql = s.queueMysql ++ hs ∧
      r.2.connected = s.connected ++ hs) ∨
    (r.1 = false ∧ r.2.queueMysql = s.queueMysql ∧ ∃ cs, r.2.closed = s.closed ++ cs ∧
      ∀ h, s.made ≤ h → h < r.2.made → h ∈ cs)

/-- The condition. The mutex cannot be had; or nothing is asked for, and a negative number is
not the size of the queue by chance; or the first handle cannot be made; or all handles are
made and connected, and the queue was empty. -/
def InitResults.Whole (o : InitResults) (s : SyMysqlConPool) (connum : Int32) : Prop :=
  o.mutexInit = false ∨
    (connum.toInt ≤ 0 ∧ (connum.toInt < 0 → (s.queueMysql.length : ℤ) ≠ connum.toInt % 2 ^ 64)) ∨
    (0 < connum.toInt ∧ (o.init 0 = false ∨ (s.queueMysql = [] ∧
      ∀ i < connum.toInt.toNat, o.init i = true ∧ o.connect i = true)))

/-- The pool after `k` handles have been made, `hs` of them connected. -/
structure Made (s t : SyMysqlConPool) (k : ℕ) (hs : List ℕ) : Prop where
  queueMysql : t.queueMysql = s.queueMysql ++ hs
  made : t.made = s.made + k
  connected : t.connected = s.connected ++ hs
  closed : t.closed = s.closed
  nodup : hs.Nodup
  mem : ∀ h ∈ hs, s.made ≤ h ∧ h < s.made + k
  le : hs.length ≤ k

theorem Made.refl (s : SyMysqlConPool) : Made s s 0 [] where
  queueMysql := (List.append_nil _).symm
  made := rfl
  connected := (List.append_nil _).symm
  closed := rfl
  nodup := .nil
  mem := List.forall_mem_nil _
  le := le_rfl

theorem Made.addHandle (s : SyMysqlConPool) (connects : Bool) :
    Made s (s.addHandle connects) 1 (if connects then [s.made] else []) := by
  cases connects with
  | false => exact { Made.refl s with made := rfl, mem := List.forall_mem_nil _, le := zero_le_one }
  | true =>
    refine ⟨rfl, rfl, rfl, rfl, List.nodup_singleton _, fun h hh => ?_, le_rfl⟩
    obtain rfl := List.mem_singleton.mp hh
    exact ⟨le_rfl, Nat.lt_succ_self _⟩

theorem Made.trans {s t u : SyMysqlConPool} {k m : ℕ} {hs gs : List ℕ} (h : Made s t k hs)
    (h' : Made t u m gs) : Made s u (k + m) (hs ++ gs) where
  queueMysql := by rw [h'.queueMysql, h.queueMysql, List.append_assoc]
  made := by rw [h'.made, h.made, Nat.add_assoc]
  connected := by rw [h'.connected, h.connected, List.append_assoc]
  closed := h'.closed.trans h.closed
  nodup := by
    refine List.nodup_append.mpr ⟨h.nodup, h'.nodup, fun x hx y hy hxy => ?_⟩
    have h1 := (h.mem x hx).2
    have h2 := (h'.mem y hy).1
    rw [h.made] at h2
    omega
  mem x hx := by
    obtain hx | hx := List.mem_append.mp hx
    · obtain ⟨h1, h2⟩ := h.mem x hx
      exact ⟨h1, by omega⟩
    · obtain ⟨h1, h2⟩ := h'.mem x hx
      rw [h.made] at h1 h2
      exact ⟨by omega, by omega⟩
  le := by
    have h1 := h.le
    have h2 := h'.le
    rw [List.length_append]
    omega

/-- What the loop leaves: `k` handles, all that were asked for if it got through, and all of
them connected exactly if every `mysql_real_connect` succeeded. -/
theorem Made.of_initLoop (o : InitResults) (s : SyMysqlConPool) (i left : ℕ) :
    ∃ k hs, Made s (s.initLoop o i left).2 k hs ∧
      ((s.initLoop o i left).1 = true ↔ ∀ j < left, o.init (i + j) = true) ∧
      ((s.initLoop o i left).1 = true → k = left) ∧
      (k = 0 ↔ left = 0 ∨ o.init i = false) ∧
      (hs.length = k ↔ ∀ j < k, o.connect (i + j) = true) := by
  induction left generalizing s i with
  | zero => exact ⟨0, [], Made.refl s, by simp [SyMysqlConPool.initLoop], fun _ => rfl, by simp, by simp⟩
  | succ left ih =>
    unfold SyMysqlConPool.initLoop
    split_ifs with hi
    · obtain ⟨k, hs, hmade, hthrough, hall, -, hconn⟩ := ih (s.addHandle (o.connect i)) (i + 1)
      have hfirst := Made.addHandle s (o.connect i)
      refine ⟨1 + k, _, hfirst.trans hmade, ?_, fun h => by rw [hall h, Nat.add_comm], by simp [hi], ?_⟩
      · rw [hthrough, Nat.forall_lt_succ_left]
        simp only [Nat.add_zero, hi, true_and, Nat.add_right_comm, ← Nat.add_assoc]
      · have hle := hmade.le
        rw [Nat.add_comm 1 k, Nat.forall_lt_succ_left, List.length_append]
        simp only [Nat.add_zero]
        cases hc : o.connect i with
        | false =>
          refine iff_of_false ?_ (by simp)
          simp only [Bool.false_eq_true, if_false, List.length_nil]
          omega
        | true =>
          have heq : (if true = true then [s.made] else []).length + hs.length = k + 1 ↔
              hs.length = k := by
            simp only [if_true, List.length_singleton]
            omega
          rw [heq, hconn]
          simp only [true_and, Nat.add_right_comm, ← Nat.add_assoc]
    · have hi : o.init i = false := by simpa using hi
      refine ⟨0, [], Made.refl s, ?_, fun h => by simp at h, by simp [hi], by simp⟩
      apply iff_of_false (by simp)
      intro h
      have := h 0 (Nat.succ_pos left)
      rw [Nat.add_zero, hi] at this
      cases this

section RollsBack

variable {s t : SyMysqlConPool} {connum : Int32} {k : ℕ} {hs : List ℕ}

/-- A failed call rolls back exactly if it has made no handle, as it closes none. -/
theorem Made.rollsBack_false_iff (h : Made s t k hs) : RollsBack s connum (false, t) ↔ k = 0 := by
  constructor
  · rintro (⟨hret, -⟩ | ⟨-, -, cs, hclosed, hall⟩)
    · cases hret
    · have hnil : cs = [] := by
        have hc := h.closed
        rw [hclosed] at hc
        exact List.append_right_eq_self.mp hc
      by_contra hk
      have hmem := hall s.made le_rfl (by rw [h.made]; omega)
      rw [hnil] at hmem
      cases hmem
  · rintro rfl
    have hnil : hs = [] := List.eq_nil_of_length_eq_zero (Nat.le_zero.mp h.le)
    refine .inr ⟨rfl, by rw [h.queueMysql, hnil, List.append_nil], [], ?_, fun x h1 h2 => ?_⟩
    · rw [h.closed, List.append_nil]
    · rw [h.made] at h2
      omega

/-- A call that returns true has done what it is for exactly if it has connected as many
handles as it was asked for. -/
theorem Made.rollsBack_true_iff (h : Made s t k hs) :
    RollsBack s connum (true, t) ↔ (hs.length : ℤ) = connum.toInt := by
  constructor
  · rintro (⟨-, gs, hlen, -, -, hqueue, -⟩ | ⟨hret, -⟩)
    · rw [h.queueMysql] at hqueue
      rw [List.append_cancel_left hqueue]
      exact hlen
    · cases hret
  · intro hlen
    refine .inl ⟨rfl, hs, hlen, h.nodup, fun x hx => ?_, h.queueMysql, h.connected⟩
    obtain ⟨h1, h2⟩ := h.mem x hx
    exact ⟨h1, by rw [h.made]; exact h2⟩

/-- Nothing is asked for. -/
theorem rollsBack_of_nonpos_iff (hle : connum.toInt ≤ 0) :
    RollsBack s connum (decide ((s.queueMysql.length : ℤ) = connum.toInt % 2 ^ 64), s) ↔
      (connum.toInt < 0 → (s.queueMysql.length : ℤ) ≠ connum.toInt % 2 ^ 64) := by
  have hmade := Made.refl s
  by_cases hsize : (s.queueMysql.length : ℤ) = connum.toInt % 2 ^ 64
  · rw [decide_eq_true hsize, hmade.rollsBack_true_iff, List.length_nil]
    constructor
    · intro hzero hneg
      omega
    · intro hneg
      by_contra hne
      exact hneg (by omega) hsize
  · rw [decide_eq_false hsize, hmade.rollsBack_false_iff]
    exact iff_of_true rfl fun _ => hsize

/-- All handles that were asked for have been made. -/
theorem Made.rollsBack_iff (h : Made s t k hs) (hpos : 0 < connum.toInt)
    (hk : k = connum.toInt.toNat) :
    RollsBack s connum (decide ((t.queueMysql.length : ℤ) = connum.toInt % 2 ^ 64), t) ↔
      s.queueMysql = [] ∧ hs.length = k := by
  have hlt := connum.toInt_lt
  have hmod : connum.toInt % 2 ^ 64 = connum.toInt := Int.emod_eq_of_lt hpos.le (by omega)
  have hlen : (t.queueMysql.length : ℤ) = s.queueMysql.length + hs.length := by
    rw [h.queueMysql, List.length_append, Nat.cast_add]
  rw [hmod, hlen, ← List.length_eq_zero_iff]
  by_cases hsize : (s.queueMysql.length : ℤ) + hs.length = connum.toInt
  · rw [decide_eq_true hsize, h.rollsBack_true_iff]
    omega
  · rw [decide_eq_false hsize, h.rollsBack_false_iff]
    omega

end RollsBack

/-- **When `Initialize` rolls back or succeeds.** -/
theorem init_rollsBack_iff (s : SyMysqlConPool) (connum : Int32) (o : InitResults) :
    RollsBack s connum (s.init connum o) ↔ o.Whole s connum := by
  unfold SyMysqlConPool.init InitResults.Whole
  dsimp only
  split_ifs with hm hthrough
  · exact iff_of_true ((Made.refl s).rollsBack_false_iff.mpr rfl) (.inl hm)
  all_goals
    obtain ⟨k, hs, hmade, hall, hk, hzero, hconn⟩ :=
      Made.of_initLoop o s 0 connum.toInt.toNat
    simp only [Nat.zero_add] at hall hconn
    simp only [hm, Bool.true_eq_false, false_or]
  · have hinit := hall.mp hthrough
    obtain hpos | hle := lt_or_ge 0 connum.toInt
    · have h0 : o.init 0 = true := hinit 0 (by omega)
      rw [hmade.rollsBack_iff hpos (hk hthrough), hconn, hk hthrough]
      simp only [not_le.mpr hpos, hpos, h0, false_and, false_or, true_and, Bool.true_eq_false,
        and_congr_right_iff]
      intro _
      exact ⟨fun h i hi => ⟨hinit i hi, h i hi⟩, fun h i hi => (h i hi).2⟩
    · have hn : connum.toInt.toNat = 0 := by omega
      rw [hn, SyMysqlConPool.initLoop, rollsBack_of_nonpos_iff hle]
      simp [hle, not_lt.mpr hle]
  · have hnot : ¬ ∀ i < connum.toInt.toNat, o.init i = true := fun h => hthrough (hall.mpr h)
    have hpos : 0 < connum.toInt := by
      by_contra hle
      exact hnot fun i hi => by omega
    rw [hmade.rollsBack_false_iff, hzero]
    simp only [not_le.mpr hpos, hpos, false_and, false_or, true_and]
    have hn : connum.toInt.toNat ≠ 0 := by omega
    simp only [hn, false_or]
    refine ⟨.inl, fun h => h.resolve_right fun hr => hnot fun i hi => (hr.2 i hi).1⟩

/-- Of four handles the third cannot be made: `Initialize` returns false, two handles are in
the queue and none has been closed. -/
theorem not_rollsBack_thirdHandle :
    (SyMysqlConPool.new.init 4 ⟨true, fun i => i ≠ 2, fun _ => true⟩).1 = false ∧
      (SyMysqlConPool.new.init 4 ⟨true, fun i => i ≠ 2, fun _ => true⟩).2.queueMysql = [0, 1] ∧
      ¬ RollsBack SyMysqlConPool.new 4
        (SyMysqlConPool.new.init 4 ⟨true, fun i => i ≠ 2, fun _ => true⟩) := by
  refine ⟨rfl, rfl, ?_⟩
  rintro (⟨hret, -⟩ | ⟨-, hqueue, -⟩)
  · cases hret
  · cases hqueue

end Syinx.Mysql
