import Syinx.Tcp.ChannelPool

/-!
# Operation by operation

A callback can be cut between any two of its operations, by another thread or by
a signal. This module is about what holds at every such point, and what the
functions of the source have seen to before each operation they make (`Proper`).

What arrives and what is recorded does not matter to any of it: two states with the
same `core` allow the same operations.

## What is proved

* `Sound.run` — a proper operation keeps what the pointers of the channels say.
* `open_run_iff` — what an operation does to the open connections.
* `guarded_turn`, `guarded_resourceClose` — every callback, every frame and
  `SyinxAdapterResource::Close` are made of proper operations.
-/

namespace Syinx.Tcp

open Syinx.Library

variable {α : Type}

namespace Server

/-- `m_buffer` of channel `c` is `b`, which has not been freed. -/
def Open (s : Server α) (c : Ptr) (b : BevId) : Prop :=
  (s.chan c).buffer = some b ∧ (s.bev b).freed = 0

/-- A channel has one `m_buffer`. -/
theorem Open.unique {s : Server α} {c : Ptr} {b e : BevId} (hb : s.Open c b) (he : s.Open c e) :
    b = e := Option.some.inj (hb.1.symm.trans he.1)

theorem Serves.open {s : Server α} {c : Ptr} {b : BevId} (h : s.Serves c b) : s.Open c b :=
  ⟨h.buffer, (live_iff.mp h.live).2.2⟩

/-- What the pointers of the channels say, at any point of a callback. -/
structure Sound (s : Server α) : Prop where
  /-- No two channels have one `m_buffer`. -/
  uniq : ∀ c d b, (s.chan c).buffer = some b → (s.chan d).buffer = some b → c = d
  bound : ∀ c b, (s.chan c).buffer = some b → b < s.nbev
  /-- A channel that is `CLIENT_LOGIN` can be written to. -/
  login : ∀ c, (s.chan c).ichStatus = .clientLogin → ∃ b, s.Open c b

/-- Every channel is in the containers at most once, and none has been deleted. -/
structure Clean (s : Server α) : Prop where
  nodup : (s.queueILoop ++ s.listConnectClient).Nodup
  deleted : ∀ c, s.deleted c = 0

/-- What has been seen to before an operation is made. -/
def Proper (s : Server α) : Op α → Prop
  | .setBuffer c none => (s.chan c).ichStatus ≠ .clientLogin ∧ ∀ b, ¬ s.Open c b
  | .setBuffer c (some b) =>
    b < s.nbev ∧ (s.bev b).freed = 0 ∧ (∀ d, (s.chan d).buffer ≠ some b) ∧ ∀ e, ¬ s.Open c e
  | .setStatus c .clientLogin => ∃ b, s.Open c b
  | .freeBuffer c => (s.chan c).ichStatus ≠ .clientLogin
  | .freeBev b => ∀ d, (s.chan d).buffer ≠ some b
  | .onStatusDoAction c => s.deleted c = 0
  | .readBuffer c b _ => s.Open c b ∧ s.deleted c = 0
  | _ => True

/-- What has been seen to, on top of it, while the server is not closing. -/
def Tidy (s : Server α) : Op α → Prop
  | .queuePush c | .listPush c => c ∉ s.queueILoop ++ s.listConnectClient
  | .delete _ => False
  | _ => True

/-- A state without what has arrived and what is recorded. -/
def core (s : Server α) : Server α :=
  { s with chan := fun c => { s.chan c with inputEvbuffer := [] }, log := [] }

end Server

open Server

variable {s t : Server α} {N : ℕ}

/-! ### What does not matter -/

theorem Server.proper_core (s : Server α) (op : Op α) : s.core.Proper op ↔ s.Proper op := by
  cases op with
  | setBuffer c b => cases b <;> exact Iff.rfl
  | setStatus c st => cases st <;> exact Iff.rfl
  | _ => exact Iff.rfl

theorem Server.tidy_core (s : Server α) (op : Op α) : s.core.Tidy op ↔ s.Tidy op := by
  cases op <;> exact Iff.rfl

theorem Server.serves_core {c : Ptr} {b : BevId} : s.core.Serves c b ↔ s.Serves c b :=
  ⟨fun h => ⟨h.login, h.buffer, h.socket, h.live, h.ctx⟩,
    fun h => ⟨h.login, h.buffer, h.socket, h.live, h.ctx⟩⟩

theorem poolInv_core : PoolInv N s.core ↔ PoolInv N s := by
  have hserves : ∀ c b, s.core.Serves c b = s.Serves c b := fun c b => propext serves_core
  constructor
  · rintro ⟨hr, hids, hidle, hcon, hcb⟩
    simp only [hserves] at hcon hcb
    exact ⟨hr, hids, hidle, hcon, hcb⟩
  · rintro ⟨hr, hids, hidle, hcon, hcb⟩
    simp only [← hserves] at hcon hcb
    exact ⟨hr, hids, hidle, hcon, hcb⟩

/-- Two states with one core have the same connections, as far as `PoolInv` goes. -/
theorem PoolInv.congr (h : PoolInv N s) (hc : s.core = t.core) : PoolInv N t :=
  poolInv_core.mp (hc ▸ poolInv_core.mpr h)

theorem Server.open_congr (hc : s.core = t.core) (c : Ptr) (b : BevId) :
    s.Open c b ↔ t.Open c b := by
  show s.core.Open c b ↔ _
  rw [hc]
  exact Iff.rfl

theorem Server.Sound.congr (h : s.Sound) (hc : s.core = t.core) : t.Sound := by
  have hs : s.core.Sound := ⟨h.uniq, h.bound, h.login⟩
  rw [hc] at hs
  exact ⟨hs.uniq, hs.bound, hs.login⟩

theorem Server.Clean.congr (h : s.Clean) (hc : s.core = t.core) : t.Clean := by
  have hs : s.core.Clean := ⟨h.nodup, h.deleted⟩
  rw [hc] at hs
  exact ⟨hs.nodup, hs.deleted⟩

theorem Server.setChan_core (s : Server α) (c : Ptr) {ch ch' : IChannel α}
    (h : ({ ch with inputEvbuffer := [] } : IChannel α) = { ch' with inputEvbuffer := [] }) :
    (s.setChan c ch).core = (s.core.setChan c ch').core := by
  simp only [core, setChan, Server.mk.injEq, true_and, and_true]
  funext d
  by_cases hd : d = c
  · subst hd; rw [Function.update_self, Function.update_self]; exact h
  · simp [hd]

theorem Server.core_setInput (s : Server α) (c : Ptr) (buf : List α) :
    (s.setChan c { s.chan c with inputEvbuffer := buf }).core = s.core := by
  simp only [core, setChan, Server.mk.injEq, true_and, and_true]
  funext d
  by_cases hd : d = c
  · subst hd; simp
  · simp [hd]

/-- A new `bufferevent` is nobody's yet. -/
theorem Server.Sound.open_socketNew (hs : s.Sound) (fd : ℤ) (c : Ptr) (b : BevId) :
    (s.buffereventSocketNew fd).Open c b ↔ s.Open c b := by
  apply and_congr_right
  intro hb
  have hne : b ≠ s.nbev := (hs.bound c b hb).ne
  simp [buffereventSocketNew, hne]

theorem Server.Sound.socketNew (hs : s.Sound) (fd : ℤ) : (s.buffereventSocketNew fd).Sound where
  uniq := hs.uniq
  bound c b hc := Nat.lt_succ_of_lt (hs.bound c b hc)
  login c hc := by
    obtain ⟨b, hb⟩ := hs.login c hc
    exact ⟨b, (hs.open_socketNew fd c b).mpr hb⟩

/-- A turn begins with a new `bufferevent`, or with nothing. -/
theorem Server.turn_fst {e : Event α} {r : Server α × List (Op α)} (h : s.turn e = some r) :
    r.1 = s ∨ ∃ fd, r.1 = s.buffereventSocketNew fd := by
  cases e with
  | listen fd created =>
    cases created with
    | false => cases h; exact .inl rfl
    | true => cases h; exact .inr ⟨fd, rfl⟩
  | recv b data =>
    simp only [turn] at h
    split_ifs at h
    cases h
    exact .inl rfl
  | event b what =>
    simp only [turn] at h
    split_ifs at h
    obtain ⟨ops, -, rfl⟩ := Option.map_eq_some_iff.mp h
    exact .inl rfl
  | frame => cases h; exact .inl rfl

section Run

variable [Inhabited α] {P : ParseFunc α}

/-- `RecvValuesFromString` makes every operation end. -/
theorem run_isSome (s : Server α) (op : Op α) : ∃ t, Op.run recvValuesFromString s op = some t := by
  cases op with
  | onStatusDoAction c =>
    obtain ⟨packs, hr, -⟩ := (s.chan c).onStatusDoAction_recvValues
    exact ⟨_, by rw [Op.run, hr]; rfl⟩
  | freeBuffer c =>
    rw [Op.run]
    cases (s.chan c).buffer <;> exact ⟨_, rfl⟩
  | _ => exact ⟨_, rfl⟩

/-- The parse function matters to `OnStatusDoAction` only. -/
theorem run_parse (Q : ParseFunc α) {op : Op α} (h : ∀ c, op ≠ .onStatusDoAction c) :
    Op.run P s op = Op.run Q s op := by
  cases op with
  | onStatusDoAction c => exact absurd rfl (h c)
  | _ => rfl

/-- Serving a channel changes what has arrived and what is recorded. -/
theorem core_onStatusDoAction {c : Ptr} (h : Op.run P s (.onStatusDoAction c) = some t) :
    t.core = s.core := by
  obtain ⟨packs, -, rfl⟩ := run_onStatusDoAction h
  exact core_setInput s c ((s.chan c).inputEvbuffer.drop buffsize)

/-- What an operation does to the core is decided by the core. -/
theorem core_run (s : Server α) (op : Op α) :
    (Op.run recvValuesFromString s op).map core =
      (Op.run recvValuesFromString s.core op).map core := by
  cases op with
  | setSocket c fd | setBuffer c b | setStatus c st =>
    exact congrArg some (setChan_core s c rfl)
  | onStatusDoAction c =>
    obtain ⟨t, ht⟩ := run_isSome s (.onStatusDoAction c)
    obtain ⟨u, hu⟩ := run_isSome s.core (.onStatusDoAction c)
    rw [ht, hu, Option.map_some, Option.map_some, core_onStatusDoAction ht, core_onStatusDoAction hu]
    rfl
  | freeBuffer c =>
    have hb : (s.core.chan c).buffer = (s.chan c).buffer := rfl
    simp only [Op.run, hb]
    cases (s.chan c).buffer <;> rfl
  | readBuffer c b data =>
    simp only [Op.run, Option.map_some, Option.some.injEq]
    simp only [core, setChan, record, IChannel.readBuffer, Server.mk.injEq, true_and, and_true]
    funext d
    by_cases hd : d = c
    · subst hd; simp
    · simp [hd]
  | _ => rfl

/-- States with one core stay so. -/
theorem core_step {s t t' : Server α} {op : Op α} (h : s.core = t.core)
    (ht : Op.run recvValuesFromString t op = some t') :
    ∃ s', Op.run recvValuesFromString s op = some s' ∧ s'.core = t'.core := by
  have hmap := core_run s op
  rw [h, ← core_run t op, ht] at hmap
  exact Option.map_eq_some_iff.mp hmap

/-- What operations meet a condition on the core, is decided by the core. -/
theorem guarded_congr {G : Server α → Op α → Prop} (hG : ∀ s op, G s.core op ↔ G s op)
    {ops : List (Op α)} (hc : s.core = t.core)
    (h : Guarded (Op.run recvValuesFromString) G s ops) :
    Guarded (Op.run recvValuesFromString) G t ops := by
  refine Guarded.of_rel (R := fun u v => u.core = v.core) (fun _ _ _ _ => core_step) ?_ hc h
  intro u v op huv hu
  rw [← hG, ← huv, hG]
  exact hu

/-! ### What an operation keeps -/

/-- The open connections after an operation, from those before it. -/
def Op.opens (op : Op α) (c : Ptr) (b : BevId) (before : Prop) : Prop :=
  match op with
  | .setBuffer d (some e) => before ∨ (c = d ∧ b = e)
  | .freeBuffer d => before ∧ c ≠ d
  | _ => before

/-- A channel that gets a `bufferevent` is open with it, and only that changes. -/
theorem open_setBuffer_iff {d : Ptr} {e : Option BevId} (hp : s.Proper (.setBuffer d e))
    (h : Op.run P s (.setBuffer d e) = some t) (c : Ptr) (b : BevId) :
    t.Open c b ↔ (Op.setBuffer d e : Op α).opens c b (s.Open c b) := by
  cases h
  cases e with
  | none =>
    obtain ⟨-, hne⟩ := hp
    by_cases hc : c = d
    · subst hc
      exact iff_of_false (by simp [Open, setChan]) (hne b)
    · simp [Op.opens, Open, setChan, hc]
  | some e =>
    obtain ⟨-, hfr, -, hne⟩ := hp
    by_cases hc : c = d
    · subst hc
      have hb := hne b
      simp only [Op.opens, hb, false_or, true_and]
      simp only [Open, setChan, Function.update_self, Option.some.injEq]
      exact ⟨fun hbe => hbe.1.symm, fun hbe => ⟨hbe.symm, by rw [hbe]; exact hfr⟩⟩
    · simp [Op.opens, Open, setChan, hc]

/-- Freeing the `m_buffer` of a channel closes its connection, and no other one. -/
theorem open_freeBuffer_iff (hs : s.Sound) {d : Ptr} (h : Op.run P s (.freeBuffer d) = some t)
    (c : Ptr) (b : BevId) : t.Open c b ↔ s.Open c b ∧ c ≠ d := by
  cases hd : (s.chan d).buffer with
  | none =>
    simp only [Op.run, hd] at h
    cases h
    refine ⟨fun ho => ⟨ho, ?_⟩, fun ho => ho.1⟩
    rintro rfl
    rw [ho.1] at hd
    cases hd
  | some e =>
    simp only [Op.run, hd] at h
    cases h
    by_cases hb : b = e
    · subst hb
      refine iff_of_false (fun ho => ?_) fun ho => ho.2 (hs.uniq c d b ho.1.1 hd)
      simpa [buffereventFree] using ho.2
    · have hfree : (s.buffereventFree e).Open c b ↔ s.Open c b := by
        simp [Open, buffereventFree, hb]
      rw [hfree]
      refine ⟨fun ho => ⟨ho, ?_⟩, fun ho => ho.1⟩
      rintro rfl
      exact hb (Option.some.inj (ho.1.symm.trans hd))

/-- **What an operation does to the open connections.** -/
theorem open_run_iff {op : Op α} (hs : s.Sound) (hp : s.Proper op) (h : Op.run P s op = some t)
    (c : Ptr) (b : BevId) : t.Open c b ↔ op.opens c b (s.Open c b) := by
  cases op with
  | onStatusDoAction d =>
    have hcore := core_onStatusDoAction h
    show t.core.Open c b ↔ _
    rw [hcore]
    exact Iff.rfl
  | setBuffer d e => exact open_setBuffer_iff hp h c b
  | freeBuffer d => exact open_freeBuffer_iff hs h c b
  | freeBev e =>
    cases h
    by_cases hb : b = e
    · subst hb
      have hn : (s.chan c).buffer ≠ some b := hp c
      exact iff_of_false (fun ho => hn ho.1) fun ho => hn ho.1
    · simp [Op.opens, Open, buffereventFree, hb]
  | setcb e d | enable e =>
    cases h
    by_cases hb : b = e
    · subst hb; simp [Op.opens, Open]
    · simp [Op.opens, Open, hb]
  | setSocket d fd | setStatus d st | readBuffer d e data =>
    cases h
    by_cases hc : c = d
    · subst hc; simp [Op.opens, Open, setChan, record, IChannel.readBuffer]
    · simp [Op.opens, Open, setChan, record, hc]
  | _ => cases h; exact Iff.rfl

/-- A connection is closed by freeing the `m_buffer` of its channel. -/
theorem eq_freeBuffer_of_closed {op : Op α} (hs : s.Sound) (hp : s.Proper op)
    (h : Op.run P s op = some t) {c : Ptr} {b : BevId} (hb : s.Open c b) (hn : ¬ t.Open c b) :
    op = .freeBuffer c := by
  rw [open_run_iff hs hp h] at hn
  cases op with
  | freeBuffer d =>
    have hcd : c = d := by
      by_contra hne
      exact hn ⟨hb, hne⟩
    rw [hcd]
  | setBuffer d x => cases x <;> exact absurd (by simp [Op.opens, hb]) hn
  | _ => exact absurd hb hn

/-- It is opened by setting it. -/
theorem eq_setBuffer_of_opened {op : Op α} (hs : s.Sound) (hp : s.Proper op)
    (h : Op.run P s op = some t) {c : Ptr} {b : BevId} (hn : ¬ s.Open c b) (hb : t.Open c b) :
    op = .setBuffer c (some b) := by
  rw [open_run_iff hs hp h] at hb
  cases op with
  | freeBuffer d => exact absurd hb.1 hn
  | setBuffer d x =>
    cases x with
    | none => exact absurd hb hn
    | some e =>
      obtain ⟨rfl, rfl⟩ := hb.resolve_left hn
      rfl
  | _ => exact absurd hb hn

/-- `m_buffer` of channel `c` after an operation. -/
def Op.buffer (op : Op α) (c : Ptr) (before : Option BevId) : Option BevId :=
  match op with
  | .setBuffer d b => if c = d then b else before
  | _ => before

/-- `IChStatus` of channel `c` after an operation. -/
def Op.status (op : Op α) (c : Ptr) (before : IchannelLinkStatus) : IchannelLinkStatus :=
  match op with
  | .setStatus d st => if c = d then st else before
  | _ => before

/-- What an operation does to the fields of a channel. -/
theorem fields_run {op : Op α} (h : Op.run P s op = some t) :
    (∀ c, (t.chan c).buffer = op.buffer c (s.chan c).buffer) ∧
      (∀ c, (t.chan c).ichStatus = op.status c (s.chan c).ichStatus) ∧ t.nbev = s.nbev := by
  cases op with
  | onStatusDoAction d =>
    have hcore := core_onStatusDoAction h
    show (∀ c, (t.core.chan c).buffer = _) ∧ (∀ c, (t.core.chan c).ichStatus = _) ∧ t.core.nbev = _
    rw [hcore]
    exact ⟨fun _ => rfl, fun _ => rfl, rfl⟩
  | freeBuffer d =>
    rw [Op.run] at h
    cases hd : (s.chan d).buffer <;> rw [hd] at h <;> cases h <;>
      exact ⟨fun _ => rfl, fun _ => rfl, rfl⟩
  | setSocket d fd | setBuffer d b | setStatus d st | readBuffer d e data =>
    cases h
    refine ⟨fun c => ?_, fun c => ?_, rfl⟩
    all_goals
      by_cases hc : c = d
      · subst hc; simp [Op.buffer, Op.status, setChan, record, IChannel.readBuffer]
      · simp [Op.buffer, Op.status, setChan, record, hc]
  | _ => cases h; exact ⟨fun _ => rfl, fun _ => rfl, rfl⟩

/-- **A proper operation** keeps what the pointers of the channels say. -/
theorem Server.Sound.run {op : Op α} (hs : s.Sound) (hp : s.Proper op)
    (h : Op.run P s op = some t) : t.Sound := by
  obtain ⟨hbuffer, hstatus, hn⟩ := fields_run h
  refine ⟨fun c d b hc hd => ?_, fun c b hc => ?_, fun c hc => ?_⟩
  · rw [hbuffer] at hc hd
    cases op with
    | setBuffer e x =>
      -- the new `m_buffer` is nobody's
      have hnew : ∀ c, x = some b → (s.chan c).buffer ≠ some b := by
        rintro c rfl
        exact hp.2.2.1 c
      simp only [Op.buffer] at hc hd
      split_ifs at hc hd with hce hde hde
      · exact hce.trans hde.symm
      · exact absurd hd (hnew d hc)
      · exact absurd hc (hnew c hd)
      · exact hs.uniq c d b hc hd
    | _ => exact hs.uniq c d b hc hd
  · rw [hn]
    rw [hbuffer] at hc
    cases op with
    | setBuffer e x =>
      simp only [Op.buffer] at hc
      split_ifs at hc with hce
      · subst hc; exact hp.1
      · exact hs.bound c b hc
    | _ => exact hs.bound c b hc
  · rw [hstatus] at hc
    have hopen : ∃ b, s.Open c b := by
      cases op with
      | setStatus d st =>
        simp only [Op.status] at hc
        split_ifs at hc with hcd
        · subst hc hcd; exact hp
        · exact hs.login c hc
      | _ => exact hs.login c hc
    obtain ⟨b, ho⟩ := hopen
    refine ⟨b, ?_⟩
    by_contra hn
    obtain rfl := eq_freeBuffer_of_closed hs hp h ho hn
    exact hp hc

/-- What an operation does to the containers and to who has been deleted. -/
theorem Server.Clean.run {op : Op α} (hs : s.Clean) (hp : s.Tidy op) (h : Op.run P s op = some t) :
    t.Clean := by
  obtain ⟨hnd, hdel⟩ := hs
  cases op with
  | onStatusDoAction d =>
    have hcore := core_onStatusDoAction h
    refine ⟨?_, ?_⟩
    · show (t.core.queueILoop ++ t.core.listConnectClient).Nodup
      rw [hcore]
      exact hnd
    · show ∀ c, t.core.deleted c = 0
      rw [hcore]
      exact hdel
  | freeBuffer d =>
    rw [Op.run] at h
    cases hd : (s.chan d).buffer <;> rw [hd] at h <;> cases h <;> exact ⟨hnd, hdel⟩
  | queuePop =>
    cases h
    exact ⟨hnd.sublist ((List.tail_sublist _).append_right _), hdel⟩
  | queuePush c =>
    cases h
    refine ⟨?_, hdel⟩
    show ((s.queueILoop ++ [c]) ++ s.listConnectClient).Nodup
    rw [List.append_assoc, List.singleton_append]
    exact List.nodup_middle.mpr (List.nodup_cons.mpr ⟨hp, hnd⟩)
  | listPush c =>
    cases h
    refine ⟨?_, hdel⟩
    show (s.queueILoop ++ (s.listConnectClient ++ [c])).Nodup
    rw [← List.append_assoc]
    have hc : c ∉ s.queueILoop ++ s.listConnectClient := hp
    exact List.nodup_append.mpr ⟨hnd, List.nodup_singleton c, fun d hd e he => by
      rintro rfl
      exact hc (List.mem_singleton.mp he ▸ hd)⟩
  | listRemove c =>
    cases h
    exact ⟨hnd.sublist (List.filter_sublist.append_left _), hdel⟩
  | delete c => exact hp.elim
  | _ => cases h; exact ⟨hnd, hdel⟩

theorem deleted_run {op : Op α} {c : Ptr} (h : Op.run P s op = some t) (hop : op ≠ .delete c) :
    t.deleted c = s.deleted c := by
  cases op with
  | onStatusDoAction d =>
    show t.core.deleted c = _
    rw [core_onStatusDoAction h]
    rfl
  | freeBuffer d =>
    rw [Op.run] at h
    cases hd : (s.chan d).buffer <;> rw [hd] at h <;> cases h <;> rfl
  | delete d =>
    cases h
    have hne : c ≠ d := by
      rintro rfl
      exact hop rfl
    exact Function.update_of_ne hne ..
  | _ => cases h; rfl

theorem deleted_exec {ops : List (Op α)} {c : Ptr} (h : exec (Op.run P) s ops = some t)
    (hops : ∀ op ∈ ops, op ≠ .delete c) : t.deleted c = s.deleted c :=
  inv_of_exec_of_forall (I := fun u => u.deleted c = s.deleted c)
    (fun _ _ _ hop hu hrun => (deleted_run hrun hop).trans hu) rfl hops h

/-! ### The functions of the source -/

/-- What a channel's `m_buffer` was is not open any more. -/
theorem not_open_freeBuffer {c : Ptr} (h : Op.run P s (.freeBuffer c) = some t) (b : BevId) :
    ¬ t.Open c b := by
  cases hb : (s.chan c).buffer with
  | none =>
    simp only [Op.run, hb] at h
    cases h
    rintro ⟨ho, -⟩
    rw [hb] at ho
    cases ho
  | some e =>
    simp only [Op.run, hb] at h
    cases h
    rintro ⟨ho, hfr⟩
    obtain rfl : e = b := Option.some.inj (hb.symm.trans ho)
    simp [buffereventFree] at hfr

/-- `IChannel::Clear` of a channel that has not been deleted. -/
theorem guarded_clear {c : Ptr} (hdel : s.deleted c = 0) :
    Guarded (Op.run P) (fun s op => s.Proper op ∧ s.Tidy op) s (clear c) := by
  intro s1 h1
  have hdel1 : s1.deleted c = 0 := (deleted_run h1 (by simp)).trans hdel
  refine ⟨⟨trivial, trivial⟩, fun s2 h2 => ⟨⟨hdel1, trivial⟩, fun s3 h3 => ?_⟩⟩
  have hst : (s3.chan c).ichStatus = .clientLogout := by
    rw [(fields_run h3).2.1]
    exact if_pos rfl
  refine ⟨⟨trivial, trivial⟩, fun s4 h4 => ?_⟩
  have hst4 : (s4.chan c).ichStatus = .clientLogout := ((fields_run h4).2.1 c).trans hst
  have hne : (s3.chan c).ichStatus ≠ .clientLogin := by rw [hst]; decide
  have hne4 : (s4.chan c).ichStatus ≠ .clientLogin := by rw [hst4]; decide
  refine ⟨⟨hne, trivial⟩, fun s5 h5 => ?_⟩
  exact ⟨⟨⟨hne4, not_open_freeBuffer h4⟩, trivial⟩, fun s6 h6 => ⟨⟨trivial, trivial⟩, trivial⟩⟩

/-- `Clear` leaves the containers as they are. -/
theorem containers_clear {c : Ptr} (h : exec (Op.run P) s (clear c) = some t) :
    t.queueILoop = s.queueILoop ∧ t.listConnectClient = s.listConnectClient := by
  refine inv_of_exec_of_forall (I := fun u : Server α => u.queueILoop = s.queueILoop ∧
    u.listConnectClient = s.listConnectClient) (P := fun op => op ∈ clear c) ?_ ⟨rfl, rfl⟩
    (fun op hop => hop) h
  rintro u op v hop hu hrun
  simp only [clear, List.mem_cons, List.not_mem_nil, or_false] at hop
  rcases hop with rfl | rfl | rfl | rfl | rfl | rfl
  case inr.inl =>
    show v.core.queueILoop = _ ∧ v.core.listConnectClient = _
    rw [core_onStatusDoAction hrun]
    exact hu
  case inr.inr.inr.inl =>
    rw [Op.run] at hrun
    cases hb : (u.chan c).buffer <;> rw [hb] at hrun <;> cases hrun <;> exact hu
  all_goals cases hrun; exact hu

/-- `SocketFdDel` of a connected channel. -/
theorem guarded_socketFdDel (hs : s.Clean) {c : Ptr} (hc : c ∈ s.listConnectClient) :
    Guarded (Op.run P) (fun s op => s.Proper op ∧ s.Tidy op) s (socketFdDel c) := by
  intro s1 h1
  refine ⟨⟨trivial, trivial⟩, ?_⟩
  cases h1
  refine Guarded.append (guarded_clear (hs.deleted c)) fun t ht u hu => ?_
  refine ⟨⟨trivial, ?_⟩, trivial⟩
  obtain ⟨htq, htl⟩ := containers_clear ht
  show c ∉ t.queueILoop ++ t.listConnectClient
  rw [htq, htl]
  have hq : c ∉ s.queueILoop := fun hq => (List.nodup_append.mp hs.nodup).2.2 c hq c hc rfl
  simp [hq]

/-- `AllocationIChannel` of a new connection, with an idle channel. -/
theorem guarded_accept (hs : s.Sound) (hc : s.Clean) {c : Ptr} {q : List Ptr}
    (hq : s.queueILoop = c :: q) (hidle : (s.chan c).buffer = none) (fd : ℤ) :
    Guarded (Op.run P) (fun s op => s.Proper op ∧ s.Tidy op) (s.buffereventSocketNew fd)
      ((s.buffereventSocketNew fd).allocationIChannel s.nbev fd).1 := by
  have hnew : ∀ d, (s.chan d).buffer ≠ some s.nbev := fun d hd => lt_irrefl _ (hs.bound d _ hd)
  have hnd := hc.nodup
  rw [hq, List.cons_append, List.nodup_cons] at hnd
  have hops : ((s.buffereventSocketNew fd).allocationIChannel s.nbev fd).1 =
      [.queuePop, .setcb s.nbev c, .setwatermark s.nbev, .enable s.nbev] ++ onClientConnect c fd s.nbev ++ socketFdAdd c := by
    rw [allocationIChannel, show (s.buffereventSocketNew fd).queueILoop = c :: q from hq]
  rw [hops]
  rintro s1 ⟨⟩
  refine ⟨⟨trivial, trivial⟩, ?_⟩
  rintro s2 ⟨⟩
  refine ⟨⟨trivial, trivial⟩, ?_⟩
  rintro s3 ⟨⟩
  refine ⟨⟨trivial, trivial⟩, ?_⟩
  rintro s4 ⟨⟩
  refine ⟨⟨trivial, trivial⟩, ?_⟩
  rintro s5 ⟨⟩
  refine ⟨⟨trivial, trivial⟩, ?_⟩
  rintro s6 ⟨⟩
  refine ⟨⟨⟨Nat.lt_succ_self _, ?_, fun d => ?_, fun e he => ?_⟩, trivial⟩, ?_⟩
  · simp [setChan, buffereventSocketNew]
  · by_cases hd : d = c
    · subst hd; simpa [setChan, buffereventSocketNew] using hnew d
    · simpa [setChan, buffereventSocketNew, hd] using hnew d
  · have hn := he.1
    simp [setChan, buffereventSocketNew, hidle] at hn
  rintro s7 ⟨⟩
  refine ⟨⟨trivial, trivial⟩, ?_⟩
  rintro s8 ⟨⟩
  refine ⟨⟨⟨s.nbev, ?_⟩, trivial⟩, ?_⟩
  · simp [Open, setChan, record, buffereventSocketNew]
  rintro s9 ⟨⟩
  refine ⟨⟨trivial, ?_⟩, trivial⟩
  simpa [Tidy, setChan, record, buffereventSocketNew, hq] using hnd.1

/-- **Every callback and every frame** is made of proper operations. -/
theorem guarded_turn (hp : PoolInv N s) (hs : s.Sound) (hc : s.Clean) {e : Event α}
    {r : Server α × List (Op α)} (h : s.turn e = some r) :
    r.1.Sound ∧ r.1.Clean ∧
      Guarded (Op.run P) (fun s op => s.Proper op ∧ s.Tidy op) r.1 r.2 := by
  cases e with
  | listen fd created =>
    cases created with
    | false => cases h; exact ⟨hs, hc, trivial⟩
    | true =>
      cases h
      refine ⟨hs.socketNew fd, ⟨hc.nodup, hc.deleted⟩, ?_⟩
      cases hq : s.queueILoop with
      | nil =>
        rw [allocationIChannel, show (s.buffereventSocketNew fd).queueILoop = [] from hq]
        exact fun t _ => ⟨⟨fun d hd => lt_irrefl _ (hs.bound d _ hd), trivial⟩, trivial⟩
      | cons c q =>
        exact guarded_accept hs hc hq (hp.idle c (by rw [hq]; exact List.mem_cons_self)).2 fd
  | recv b data =>
    simp only [turn, syinxKernelRecvCb] at h
    split_ifs at h with hl
    cases h
    cases hctx : (s.bev b).ctx with
    | none => exact ⟨hs, hc, trivial⟩
    | some c =>
      obtain ⟨-, hserves⟩ := hp.serves_of_ctx hl hctx
      exact ⟨hs, hc, fun t _ => ⟨⟨⟨hserves.open, hc.deleted c⟩, trivial⟩, trivial⟩⟩
  | event b what =>
    simp only [turn, syinxKernelEventCb] at h
    split_ifs at h with hl hw
    · obtain ⟨ops, hops, rfl⟩ := Option.map_eq_some_iff.mp h
      obtain ⟨c, hctx, rfl⟩ := Option.map_eq_some_iff.mp hops
      exact ⟨hs, hc, guarded_socketFdDel hc (hp.serves_of_ctx hl hctx).1⟩
    · cases h
      exact ⟨hs, hc, trivial⟩
  | frame =>
    cases h
    refine ⟨hs, hc, Guarded.of_inv (I := fun u : Server α => ∀ c, u.deleted c = 0)
      (P := fun op => ∃ c, op = .onStatusDoAction c) ?_ ?_ hc.deleted ?_⟩
    · rintro u op v ⟨c, rfl⟩ hu hrun d
      exact (deleted_run hrun (by simp)).trans (hu d)
    · rintro u op ⟨c, rfl⟩ hu
      exact ⟨hu c, trivial⟩
    · intro op hop
      obtain ⟨c, -, rfl⟩ := List.mem_map.mp hop
      exact ⟨c, rfl⟩

/-- The channels are taken off the queue, cleared, closed and deleted one by one. -/
theorem guarded_release {cs : List Ptr} (hnd : cs.Nodup) (hdel : ∀ c ∈ cs, s.deleted c = 0) :
    Guarded (Op.run P) Server.Proper s (cs.flatMap fun c =>
      .queuePop :: (clear c ++ ichannelClose c ++ [.delete c])) := by
  induction cs generalizing s with
  | nil => trivial
  | cons c cs ih =>
    rw [List.nodup_cons] at hnd
    rw [List.flatMap_cons]
    refine Guarded.append ?_ fun t ht => ih hnd.2 fun d hd => ?_
    · intro s1 h1
      refine ⟨trivial, ?_⟩
      rw [List.append_assoc]
      have hdel1 : s1.deleted c = 0 := (deleted_run h1 (by simp)).trans (hdel c List.mem_cons_self)
      exact ((guarded_clear hdel1).mono fun _ _ h => h.1).append
        fun t _ u _ => ⟨trivial, fun v _ => ⟨trivial, trivial⟩⟩
    · have hne : d ≠ c := by
        rintro rfl
        exact hnd.1 hd
      rw [deleted_exec ht ?_]
      · exact hdel d (List.mem_cons_of_mem c hd)
      · simp [clear, ichannelClose, hne.symm]

/-- **`SyinxAdapterResource::Close`** is made of proper operations, wherever it cuts in. -/
theorem guarded_resourceClose (hs : s.Clean) :
    Guarded (Op.run P) Server.Proper s s.resourceClose := by
  refine Guarded.append ?_ fun t ht => guarded_release hs.nodup fun c _ => ?_
  · refine Guarded.of_inv (I := fun _ => True) (P := fun op => ∃ c, op = .queuePush c)
      (fun _ _ _ _ _ _ => trivial) ?_ trivial ?_
    · rintro u op ⟨c, rfl⟩ -
      trivial
    · intro op hop
      obtain ⟨c, -, rfl⟩ := List.mem_map.mp hop
      exact ⟨c, rfl⟩
  · rw [deleted_exec ht ?_]
    · exact hs.deleted c
    · simp

end Run

/-! ### From the start -/

theorem Server.Sound.start : (resourceInitialize N : Server α).Sound := by
  rw [resourceInitialize_eq]
  have hnew : ∀ c, (if c < N then { IChannel.new with ichannelID := c + 1 } else IChannel.new :
      IChannel α).buffer = none ∧ (if c < N then { IChannel.new with ichannelID := c + 1 } else
        IChannel.new : IChannel α).ichStatus = .clientLogout := by
    intro c
    split_ifs <;> exact ⟨rfl, rfl⟩
  refine ⟨fun c d b hc => ?_, fun c b hc => ?_, fun c hc => ?_⟩
  · rw [(hnew c).1] at hc; cases hc
  · rw [(hnew c).1] at hc; cases hc
  · rw [(hnew c).2] at hc; cases hc

theorem Server.Clean.start : (resourceInitialize N : Server α).Clean := by
  rw [resourceInitialize_eq]
  exact ⟨by simpa using List.nodup_range, fun c => rfl⟩

end Syinx.Tcp
