import Syinx.Tcp.Conservation
import Syinx.Threaded.Echo

/-!
# Sessions of the single-threaded build

What a client gets back from the single-threaded server, which the threaded one is measured
against, over the whole of its session and whoever had its channel before. `Clear` serves the
channel once more, for `BUFFSIZE` bytes, and leaves the rest in `m_Inputevbuffer`; the next client
of the channel begins with it.

## What is proved

* `reuse_of_exec` — **whose turn it is**: channels are given out in the order in which they were
  given back, behind those that were never used.
* `Session.step` — the ledger of a session: what its channel began with and what it received is
  what it was sent and what is left.
* `session_of_exec` — the same over every run, also after the session.
* `prompt_of_exec` — **how long it takes**: `n` frames send the next `n * BUFFSIZE` bytes.
-/

namespace Syinx.Threaded

open Syinx.Library Syinx.Tcp

variable {α : Type}

/-! ### Whose turn it is -/

/-- The channel a recorded event logs in. -/
def loggedIn : Ev α → Option Ptr
  | .login c => some c
  | _ => none

/-- The channel a recorded event logs out. -/
def loggedOut : Ev α → Option Ptr
  | .logout c => some c
  | _ => none

/-- The channels that have been given out, in order. -/
def logins (s : Server α) : List Ptr := s.log.filterMap loggedIn

/-- The channels that have been given back, in order. -/
def logouts (s : Server α) : List Ptr := s.log.filterMap loggedOut

/-- What has been given out and what is waiting is what there was and what has been given back. -/
def InTurns (N : ℕ) (s : Server α) : Prop :=
  logins s ++ s.queueILoop = List.range N ++ logouts s

/-- Packs log nobody in or out. -/
theorem callbacks_packs (packs : List (Pack α)) (c : Ptr) (ch : IChannel α) :
    (packs.flatMap (recvClientPack c ch)).filterMap loggedIn = [] ∧
      (packs.flatMap (recvClientPack c ch)).filterMap loggedOut = [] := by
  constructor <;>
  · rw [List.filterMap_eq_nil_iff]
    intro e he
    obtain ⟨p, -, hp⟩ := List.mem_flatMap.mp he
    unfold recvClientPack at hp
    split_ifs at hp <;> simp at hp <;> rcases hp with rfl | rfl <;> rfl

section Turns

variable {N : ℕ} {s t : Server α}

theorem InTurns.served {c : Ptr} {packs : List (Pack α)} (h : InTurns N s) : InTurns N (s.served c packs) := by
  obtain ⟨hin, hout⟩ := callbacks_packs packs c (s.chan c)
  have hlogins : logins (s.served c packs) = logins s := by
    simp [logins, Server.served, Server.record, Server.setChan, hin]
  have hlogouts : logouts (s.served c packs) = logouts s := by
    simp [logouts, Server.served, Server.record, Server.setChan, hout]
  unfold InTurns
  rw [hlogins, hlogouts]
  exact h

theorem InTurns.step [Inhabited α] {P : ParseFunc α} {e : Event α} (h : InTurns N s) (hp : PoolInv N s)
    (hst : s.step P e = some t) : InTurns N t := by
  cases Server.happens_of_step hst with
  | notCreated | recvNull | noHangup | refused => exact h
  | @accepted fd c q hq =>
    unfold InTurns at h ⊢
    rw [hq] at h
    simpa [logins, logouts, Server.accepted, hq, loggedIn, loggedOut, List.filterMap_cons] using h
  | recv =>
    unfold InTurns at h ⊢
    simpa [logins, logouts, Server.record, Server.setChan, loggedIn, loggedOut, List.filterMap_cons]
      using h
  | @hangup b c what _ hl hc _ hx =>
    obtain ⟨packs, -, rfl⟩ := Server.exec_socketFdDel (hp.serves_of_ctx hl hc).2.buffer hx
    obtain ⟨hin, hout⟩ := callbacks_packs packs c (s.chan c)
    unfold InTurns at h ⊢
    simp only [logins, logouts, Server.departed, List.filterMap_append, hin, hout] at h ⊢
    simp only [loggedIn, loggedOut, List.filterMap_cons, List.filterMap_nil, List.append_nil]
    rw [← List.append_assoc, h, List.append_assoc]
  | frame hx => exact Server.inv_of_frame (fun _ _ _ _ hu _ => hu.served) h hx

end Turns

/-- **Whose turn it is.** In every state the server reaches, the channels that have been given to
connections are, one after the other, all of them in their order and then those that were given
back, in the order in which they were; those that come next are the idle ones. -/
theorem reuse_of_exec [Inhabited α] (P : ParseFunc α) (N : ℕ) (es : List (Event α)) (s : Server α)
    (h : exec (Server.step P) (Server.resourceInitialize N) es = some s) :
    logins s ++ s.queueILoop = List.range N ++ logouts s := by
  have h0 : InTurns N (Server.resourceInitialize N : Server α) := by
    unfold InTurns
    rw [resourceInitialize_eq]
    simp [logins, logouts]
  exact (inv_of_exec (I := fun s => PoolInv N s ∧ InTurns N s)
    (fun s e t hs ht => ⟨hs.1.step ht, hs.2.step hs.1 ht⟩) ⟨PoolInv.start N, h0⟩ h).2

/-- The first of two channels is given back before the second is taken. -/
def backInQueue : List (Event UInt8) :=
  [.listen 7 true, .event 0 bevEventEof, .listen 8 true, .listen 9 true]

theorem reuse_backInQueue :
    ∃ s, exec (Server.step recvValuesFromString) (Server.resourceInitialize 2) backInQueue = some s ∧
      logins s = [0, 1, 0] ∧ logins s ++ s.queueILoop = List.range 2 ++ logouts s :=
  ⟨_, rfl, rfl, reuse_of_exec recvValuesFromString 2 backInQueue _ rfl⟩

/-! ### What is recorded of a connection -/

/-- The packs of a channel are sent to the connection it serves. -/
theorem traffic_packs {ch : IChannel α} {e : BevId} (hbuf : ch.buffer = some e)
    (hlogin : ch.ichStatus = .clientLogin) (packs : List (Pack α)) (c : Ptr) (b : BevId) :
    (packs.flatMap (recvClientPack c ch)).flatMap (writtenTo b) =
        (if e = b then (packs.map Pack.data).flatten else []) ∧
      (packs.flatMap (recvClientPack c ch)).flatMap (readFrom b) = [] := by
  have hpack : ∀ p : Pack α, recvClientPack c ch p = [.pack c (some e) p, .write (some e) p.data] := by
    intro p
    rw [recvClientPack, if_pos hlogin, hbuf]
  induction packs with
  | nil => simp
  | cons p packs ih =>
    obtain ⟨hw, hr⟩ := ih
    rw [List.flatMap_cons, List.flatMap_append, List.flatMap_append, hw, hr, hpack]
    by_cases he : e = b
    · simp [writtenTo, readFrom, he]
    · simp [writtenTo, readFrom, he]

/-- Of two connections of one channel the first has ended. -/
def OneByOne (s : Server α) : Prop :=
  ∀ c d e, d < e → e < s.nbev → (s.bev d).ctx = some c → (s.bev e).ctx = some c → s.live d = false

/-- Nothing is recorded of connections that there have not been. -/
def Unheard (s : Server α) : Prop :=
  ∀ b, s.nbev ≤ b → echoed b s = [] ∧ receivedFrom b s = []

/-- A session: channel `c` was given to connection `b` with `residue` in its input buffer. As long
as no other connection has got the channel, what has not been sent is in it. -/
structure Session (c : Ptr) (b : BevId) (residue : List α) (s : Server α) : Prop where
  known : b < s.nbev
  ctx : (s.bev b).ctx = some c
  ledger : ∃ rest, echoed b s ++ rest = residue ++ receivedFrom b s ∧
    ((∀ e, b < e → e < s.nbev → (s.bev e).ctx ≠ some c) → rest = (s.chan c).inputEvbuffer)

/-! ### A session, step by step -/

section Steps

variable {N : ℕ} {s t : Server α} {c d : Ptr} {b e : BevId} {residue : List α}
  {packs : List (Pack α)}

/-- While a session lasts, no other connection gets its channel. -/
theorem Session.last (ho : OneByOne s) (hb : s.Serves c b) :
    ∀ e, b < e → e < s.nbev → (s.bev e).ctx ≠ some c := by
  intro e hbe he hc
  have hdead := ho c b e hbe he hb.ctx hc
  rw [hb.live] at hdead
  cases hdead

/-- When its channel serves another connection, that is a later one. -/
theorem Session.later (h : Session c b residue s) (ho : OneByOne s) (he : s.Serves c e)
    (hne : e ≠ b) : ¬ ∀ e, b < e → e < s.nbev → (s.bev e).ctx ≠ some c := by
  rcases Nat.lt_or_gt_of_ne hne with hlt | hgt
  · have hdead := ho c e b hlt h.known he.ctx h.ctx
    rw [he.live] at hdead
    cases hdead
  · exact fun hall => hall e hgt he.lt he.ctx

/-- A channel is served, in a frame or at the end of its connection. -/
theorem Session.send (h : Session c b residue s) (ho : OneByOne s) (hd : s.Serves d e)
    (hecho : echoed b t =
      echoed b s ++ if e = b then (s.chan d).inputEvbuffer.take buffsize else [])
    (hrecv : receivedFrom b t = receivedFrom b s)
    (hin : (t.chan c).inputEvbuffer =
      if c = d then (s.chan c).inputEvbuffer.drop buffsize else (s.chan c).inputEvbuffer)
    (hnbev : t.nbev = s.nbev) (hctx : ∀ f, (t.bev f).ctx = (s.bev f).ctx) :
    Session c b residue t := by
  obtain ⟨hknown, hbc, rest, hledger, hrest⟩ := h
  have hcond : (∀ f, b < f → f < t.nbev → (t.bev f).ctx ≠ some c) ↔
      ∀ f, b < f → f < s.nbev → (s.bev f).ctx ≠ some c := by
    simp only [hnbev, hctx]
  refine ⟨by rw [hnbev]; exact hknown, by rw [hctx]; exact hbc, ?_⟩
  rw [hrecv, hecho, hin, hcond]
  by_cases heb : e = b
  · -- its own connection: what has not been sent is in the buffer
    subst heb
    obtain rfl : c = d := Option.some.inj (hbc.symm.trans hd.ctx)
    have hbuf := hrest (Session.last ho hd)
    refine ⟨rest.drop buffsize, ?_, fun _ => ?_⟩
    · rw [if_pos rfl, ← hbuf, List.append_assoc, List.take_append_drop, hledger]
    · rw [if_pos rfl, hbuf]
  · rw [if_neg heb, List.append_nil]
    refine ⟨rest, hledger, fun hall => ?_⟩
    by_cases hcd : c = d
    · subst hcd
      exact absurd hall (Session.later ⟨hknown, hbc, rest, hledger, hrest⟩ ho hd heb)
    · rw [if_neg hcd, hrest hall]

section Bound

variable [Inhabited α]

/-- What is recorded when a channel is served. -/
theorem traffic_served (hd : s.Serves d e)
    (hr : (s.chan d).onStatusDoAction recvValuesFromString =
      some ({ s.chan d with inputEvbuffer := (s.chan d).inputEvbuffer.drop buffsize }, packs))
    (b : BevId) :
    (packs.flatMap (recvClientPack d (s.chan d))).flatMap (writtenTo b) =
        (if e = b then (s.chan d).inputEvbuffer.take buffsize else []) ∧
      (packs.flatMap (recvClientPack d (s.chan d))).flatMap (readFrom b) = [] := by
  rw [← packs_data hr]
  exact traffic_packs hd.buffer hd.login packs d b

theorem Session.served (h : Session c b residue s) (ho : OneByOne s) (hd : s.Serves d e)
    (hr : (s.chan d).onStatusDoAction recvValuesFromString =
      some ({ s.chan d with inputEvbuffer := (s.chan d).inputEvbuffer.drop buffsize }, packs)) :
    Session c b residue (s.served d packs) := by
  obtain ⟨hw, hread⟩ := traffic_served hd hr b
  refine h.send ho hd ?_ ?_ ?_ rfl fun _ => rfl
  · simp only [echoed, Server.served, Server.record, Server.setChan, List.flatMap_append, hw]
  · simp only [receivedFrom, Server.served, Server.record, Server.setChan, List.flatMap_append, hread,
      List.append_nil]
  · by_cases hcd : c = d
    · subst hcd
      simp [Server.served, Server.record, Server.setChan]
    · simp [Server.served, Server.record, Server.setChan, hcd]

theorem Session.departed (h : Session c b residue s) (ho : OneByOne s) (hd : s.Serves d e)
    (hr : (s.chan d).onStatusDoAction recvValuesFromString =
      some ({ s.chan d with inputEvbuffer := (s.chan d).inputEvbuffer.drop buffsize }, packs)) :
    Session c b residue (s.departed d e packs) := by
  obtain ⟨hw, hread⟩ := traffic_served hd hr b
  refine h.send ho hd ?_ ?_ ?_ rfl fun f => ?_
  · simp [echoed, Server.departed, List.flatMap_append, hw, writtenTo]
  · simp [receivedFrom, Server.departed, List.flatMap_append, hread, readFrom]
  · by_cases hcd : c = d
    · subst hcd
      simp [Server.departed]
    · simp [Server.departed, hcd]
  · by_cases hfe : f = e
    · subst hfe
      simp [Server.departed]
    · simp [Server.departed, hfe]

/-! ### Any step -/

/-- What a step leaves of the connections that there are. -/
theorem bev_step {P : ParseFunc α} {a : Event α} (hp : PoolInv N s) (hst : s.step P a = some t) :
    s.nbev ≤ t.nbev ∧ ∀ b < s.nbev, (t.bev b).ctx = (s.bev b).ctx ∧
      (t.live b = true → s.live b = true) := by
  cases Server.happens_of_step hst with
  | notCreated | recvNull | noHangup | recv => exact ⟨le_rfl, fun _ _ => ⟨rfl, id⟩⟩
  | refused | accepted =>
    refine ⟨Nat.le_succ _, fun b hb => ?_⟩
    refine ⟨?_, fun h => ?_⟩
    · simp [Server.buffereventFree, Server.buffereventSocketNew, Server.accepted, hb.ne]
    · obtain ⟨-, hen, hfr⟩ := Server.live_iff.mp h
      refine Server.live_iff.mpr ⟨hb, ?_, ?_⟩
      · simpa [Server.buffereventFree, Server.buffereventSocketNew, Server.accepted, hb.ne] using hen
      · simpa [Server.buffereventFree, Server.buffereventSocketNew, Server.accepted, hb.ne] using hfr
  | @hangup e d what _ hl hd _ hx =>
    obtain ⟨packs, -, rfl⟩ := Server.exec_socketFdDel (hp.serves_of_ctx hl hd).2.buffer hx
    refine ⟨le_rfl, fun b hb => ?_⟩
    by_cases hbe : b = e
    · subst hbe
      simp [Server.departed, Server.live]
    · simp [Server.departed, Server.live, hbe]
  | frame hx =>
    have hframe := Server.inv_of_frame (I := fun u => u.bev = s.bev ∧ u.nbev = s.nbev)
      (fun u c packs _ hu _ => hu) ⟨rfl, rfl⟩ hx
    obtain ⟨hbev, hnbev⟩ := hframe
    refine ⟨hnbev.ge, fun b _ => ⟨by rw [hbev], fun h => ?_⟩⟩
    rwa [Server.live, hbev, hnbev] at h

theorem OneByOne.step {P : ParseFunc α} {a : Event α} (ho : OneByOne s) (hp : PoolInv N s)
    (hst : s.step P a = some t) : OneByOne t := by
  obtain ⟨-, hbev⟩ := bev_step hp hst
  have hold : ∀ c d e, d < e → e < s.nbev → (t.bev d).ctx = some c → (t.bev e).ctx = some c →
      t.live d = false := by
    intro c d e hde he hd hec
    obtain ⟨hcd, hlive⟩ := hbev d (hde.trans he)
    rw [hcd] at hd
    rw [(hbev e he).1] at hec
    have hdead := ho c d e hde he hd hec
    rw [Bool.eq_false_iff] at hdead ⊢
    exact fun h => hdead (hlive h)
  cases Server.happens_of_step hst with
  | notCreated | recvNull | noHangup | recv => exact hold
  | refused =>
    intro c d e hde he hd hec
    rcases Nat.lt_succ_iff_lt_or_eq.mp he with he | rfl
    · exact hold c d e hde he hd hec
    · simp [Server.buffereventFree, Server.buffereventSocketNew] at hec
  | @accepted fd c' q hq =>
    intro c d e hde he hd hec
    rcases Nat.lt_succ_iff_lt_or_eq.mp he with he | rfl
    · exact hold c d e hde he hd hec
    · -- the channel was idle
      have hc : c' = c := by simpa [Server.accepted] using hec
      subst hc
      obtain ⟨hcd, hlive⟩ := hbev d hde
      rw [hcd] at hd
      rw [Bool.eq_false_iff]
      intro h
      exact hp.recycled.not_mem_free (hp.serves_of_ctx (hlive h) hd).1
        (by rw [hq]; exact List.mem_cons_self)
  | @hangup e' d' what _ hl hd' _ hx =>
    obtain ⟨packs, -, rfl⟩ := Server.exec_socketFdDel (hp.serves_of_ctx hl hd').2.buffer hx
    exact hold
  | frame hx =>
    have hnbev : t.nbev = s.nbev := Server.inv_of_frame (I := fun u => u.nbev = s.nbev)
      (fun u c packs _ hu _ => hu) rfl hx
    intro c d e hde he
    rw [hnbev] at he
    exact hold c d e hde he

theorem Unheard.step {a : Event α} (hu : Unheard s) (hp : PoolInv N s)
    (hst : s.step recvValuesFromString a = some t) : Unheard t := by
  cases Server.happens_of_step hst with
  | notCreated | recvNull | noHangup => exact hu
  | refused => exact fun b hb => hu b ((Nat.le_succ _).trans hb)
  | accepted =>
    intro b hb
    have hb' := hu b ((Nat.le_succ _).trans hb)
    simpa [echoed, receivedFrom, Server.accepted, writtenTo, readFrom] using hb'
  | @recv e c data hl =>
    intro b hb
    have hne : e ≠ b := (lt_of_lt_of_le (Server.live_iff.mp hl).1 hb).ne
    simpa [echoed, receivedFrom, Server.record, Server.setChan, writtenTo, readFrom, hne] using hu b hb
  | @hangup e c what _ hl hc _ hx =>
    obtain ⟨-, hce⟩ := hp.serves_of_ctx hl hc
    obtain ⟨packs, hr, rfl⟩ := Server.exec_socketFdDel hce.buffer hx
    intro b hb
    obtain ⟨hw, hread⟩ := traffic_served hce hr b
    rw [if_neg (lt_of_lt_of_le hce.lt hb).ne] at hw
    simpa [echoed, receivedFrom, Server.departed, hw, hread, writtenTo, readFrom] using hu b hb
  | frame hx =>
    have hframe := Server.inv_of_frame (I := fun u => PoolInv N u ∧
      u.listConnectClient = s.listConnectClient ∧ Unheard u) ?_ ⟨hp, rfl, hu⟩ hx
    · exact hframe.2.2
    · rintro u c packs hc ⟨hpu, hlu, hu⟩ hr
      obtain ⟨e, he⟩ := hpu.connected c (by rw [hlu]; exact hc)
      refine ⟨hpu.input _ _ _, hlu, fun b hb => ?_⟩
      obtain ⟨hw, hread⟩ := traffic_served he hr b
      rw [if_neg (lt_of_lt_of_le he.lt hb).ne] at hw
      simpa [echoed, receivedFrom, Server.served, Server.record, Server.setChan, hw, hread] using hu b hb

/-- **One step** of a session. -/
theorem Session.step {a : Event α} (h : Session c b residue s) (ho : OneByOne s) (hp : PoolInv N s)
    (hst : s.step recvValuesFromString a = some t) : Session c b residue t := by
  cases Server.happens_of_step hst with
  | notCreated | recvNull | noHangup => exact h
  | refused =>
    obtain ⟨hknown, hbc, rest, hledger, hrest⟩ := h
    refine ⟨hknown.trans (Nat.lt_succ_self _), ?_, rest, hledger, fun hall => hrest fun e hbe he => ?_⟩
    · simpa [Server.buffereventFree, Server.buffereventSocketNew, hknown.ne] using hbc
    · have hne := hall e hbe (he.trans (Nat.lt_succ_self _))
      simpa [Server.buffereventFree, Server.buffereventSocketNew, he.ne] using hne
  | @accepted fd d q hq =>
    obtain ⟨hknown, hbc, rest, hledger, hrest⟩ := h
    refine ⟨hknown.trans (Nat.lt_succ_self _), ?_, rest, ?_, fun hall => ?_⟩
    · simpa [Server.accepted, hknown.ne] using hbc
    · simpa [echoed, receivedFrom, Server.accepted, writtenTo, readFrom] using hledger
    · have hcd : c ≠ d := by
        rintro rfl
        exact hall s.nbev hknown (Nat.lt_succ_self _) (by simp [Server.accepted])
      have hin : ((s.accepted d fd).chan c).inputEvbuffer = (s.chan c).inputEvbuffer := by
        simp [Server.accepted, hcd]
      rw [hin]
      refine hrest fun e hbe he => ?_
      have hne := hall e hbe (he.trans (Nat.lt_succ_self _))
      simpa [Server.accepted, he.ne] using hne
  | @recv e d data hl hd =>
    obtain ⟨-, hde⟩ := hp.serves_of_ctx hl hd
    have hecho : echoed b ((s.setChan d ((s.chan d).readBuffer data)).record [.recv d e data]) =
        echoed b s := by simp [echoed, Server.record, Server.setChan, writtenTo]
    have hrecv : receivedFrom b ((s.setChan d ((s.chan d).readBuffer data)).record [.recv d e data]) =
        receivedFrom b s ++ if e = b then data else [] := by
      simp [receivedFrom, Server.record, Server.setChan, readFrom]
    have hin : (((s.setChan d ((s.chan d).readBuffer data)).record [.recv d e data]).chan
        c).inputEvbuffer = (s.chan c).inputEvbuffer ++ if c = d then data else [] := by
      by_cases hcd : c = d
      · subst hcd
        simp [Server.record, Server.setChan, IChannel.readBuffer]
      · simp [Server.record, Server.setChan, hcd]
    refine ⟨h.known, h.ctx, ?_⟩
    rw [hecho, hrecv, hin]
    obtain ⟨rest, hledger, hrest⟩ := h.ledger
    by_cases heb : e = b
    · subst heb
      obtain rfl : c = d := Option.some.inj (h.ctx.symm.trans hd)
      refine ⟨rest ++ data, ?_, fun hall => ?_⟩
      · rw [if_pos rfl, ← List.append_assoc, hledger, List.append_assoc]
      · rw [if_pos rfl, hrest hall]
    · rw [if_neg heb, List.append_nil]
      refine ⟨rest, hledger, fun hall => ?_⟩
      have hcd : c ≠ d := by
        rintro rfl
        exact h.later ho hde heb hall
      rw [if_neg hcd, List.append_nil]
      exact hrest hall
  | @hangup e d what _ hl hd _ hx =>
    obtain ⟨-, hde⟩ := hp.serves_of_ctx hl hd
    obtain ⟨packs, hr, rfl⟩ := Server.exec_socketFdDel hde.buffer hx
    exact h.departed ho hde hr
  | frame hx =>
    have hframe := Server.inv_of_frame (I := fun u => PoolInv N u ∧
      u.listConnectClient = s.listConnectClient ∧ OneByOne u ∧ Session c b residue u) ?_
      ⟨hp, rfl, ho, h⟩ hx
    · exact hframe.2.2.2
    · rintro u d packs hd ⟨hpu, hlu, hou, hu⟩ hr
      obtain ⟨e, he⟩ := hpu.connected d (by rw [hlu]; exact hd)
      exact ⟨hpu.input _ _ _, hlu, hou, hu.served hou he hr⟩

/-- What is known of the connections of all channels. -/
structure Sessions (N : ℕ) (s : Server α) : Prop where
  pool : PoolInv N s
  oneByOne : OneByOne s
  unheard : Unheard s

omit [Inhabited α] in
theorem Sessions.start (N : ℕ) : Sessions N (Server.resourceInitialize N : Server α) := by
  refine ⟨.start N, ?_, ?_⟩ <;> rw [resourceInitialize_eq]
  · exact fun c d e _ he => absurd he (Nat.not_lt_zero e)
  · exact fun b _ => ⟨rfl, rfl⟩

theorem Sessions.step {a : Event α} (h : Sessions N s)
    (hst : s.step recvValuesFromString a = some t) : Sessions N t :=
  ⟨h.pool.step hst, h.oneByOne.step h.pool hst, h.unheard.step h.pool hst⟩

theorem Sessions.of_exec {es : List (Event α)}
    (h : exec (Server.step recvValuesFromString) (Server.resourceInitialize N) es = some s) :
    Sessions N s :=
  inv_of_exec (fun _ _ _ hs hst => hs.step hst) (Sessions.start N) h

omit [Inhabited α] in
/-- A session begins. -/
theorem Session.start (h : Sessions N s) (c : Ptr) (fd : ℤ) :
    Session c s.nbev (s.chan c).inputEvbuffer (s.accepted c fd) := by
  obtain ⟨hecho, hrecv⟩ := h.unheard s.nbev le_rfl
  refine ⟨Nat.lt_succ_self _, by simp [Server.accepted], (s.chan c).inputEvbuffer, ?_, fun _ => ?_⟩
  · have he : echoed s.nbev (s.accepted c fd) = echoed s.nbev s := by
      simp [echoed, Server.accepted, writtenTo]
    have hr : receivedFrom s.nbev (s.accepted c fd) = receivedFrom s.nbev s := by
      simp [receivedFrom, Server.accepted, readFrom]
    rw [he, hr, hecho, hrecv, List.nil_append, List.append_nil]
  · simp [Server.accepted]

/-! ### How long it takes -/

/-- One step of a session that goes on: a frame sends `BUFFSIZE` bytes of what is in the buffer. -/
theorem prompt_step {a : Event α} (h : Sessions N s) (hb : s.Serves c b)
    (hst : s.step recvValuesFromString a = some t) (hlive : t.live b = true) :
    t.Serves c b ∧ echoed b t = echoed b s ++
        (s.chan c).inputEvbuffer.take (if a.isFrame then buffsize else 0) ∧
      ∃ data, (t.chan c).inputEvbuffer =
        (s.chan c).inputEvbuffer.drop (if a.isFrame then buffsize else 0) ++ data := by
  obtain ⟨-, hbev⟩ := bev_step h.pool hst
  have hserves : t.Serves c b :=
    ((h.pool.step hst).serves_of_ctx hlive ((hbev b hb.lt).1.trans hb.ctx)).2
  refine ⟨hserves, ?_⟩
  cases Server.happens_of_step hst with
  | notCreated | recvNull | noHangup =>
    simp only [Event.isFrame, Bool.false_eq_true, if_false, List.take_zero, List.drop_zero,
      List.append_nil, true_and]
    exact ⟨[], (List.append_nil _).symm⟩
  | refused =>
    simp only [Event.isFrame, Bool.false_eq_true, if_false, List.take_zero, List.drop_zero,
      List.append_nil]
    exact ⟨rfl, [], (List.append_nil _).symm⟩
  | @accepted fd d q hq =>
    have hcd : c ≠ d := by
      rintro rfl
      exact h.pool.recycled.not_mem_free (h.pool.serves_of_ctx hb.live hb.ctx).1
        (by rw [hq]; exact List.mem_cons_self)
    refine ⟨?_, [], ?_⟩
    · simp [echoed, Server.accepted, writtenTo, Event.isFrame]
    · simp [Server.accepted, hcd, Event.isFrame]
  | @recv e d data hl hd =>
    refine ⟨?_, if c = d then data else [], ?_⟩
    · simp [echoed, Server.record, Server.setChan, writtenTo, Event.isFrame]
    · by_cases hcd : c = d
      · subst hcd
        simp [Server.record, Server.setChan, IChannel.readBuffer, Event.isFrame]
      · simp [Server.record, Server.setChan, hcd, Event.isFrame]
  | @hangup e d what _ hl hd _ hx =>
    obtain ⟨-, hde⟩ := h.pool.serves_of_ctx hl hd
    obtain ⟨packs, hr, rfl⟩ := Server.exec_socketFdDel hde.buffer hx
    have heb : e ≠ b := by
      rintro rfl
      simp [Server.live, Server.departed] at hlive
    have hcd : c ≠ d := by
      rintro rfl
      exact heb (hde.bev_unique hb)
    obtain ⟨hw, -⟩ := traffic_served hde hr b
    rw [if_neg heb] at hw
    refine ⟨?_, [], ?_⟩
    · simp [echoed, Server.departed, hw, writtenTo, Event.isFrame]
    · simp [Server.departed, hcd, Event.isFrame]
  | frame hx =>
    obtain ⟨t', ht', hspec⟩ := frame_spec h.pool
    rw [hst] at ht'
    cases ht'
    have hmem : c ∈ s.listConnectClient := (h.pool.serves_of_ctx hb.live hb.ctx).1
    have hin : (t.chan c).inputEvbuffer = (s.chan c).inputEvbuffer.drop buffsize := by
      rw [(hspec c).2, if_pos hmem]
    -- what is sent and what is in the buffer is the same all through the frame
    have hsum := Server.inv_of_frame (I := fun u => PoolInv N u ∧
      u.listConnectClient = s.listConnectClient ∧ u.Serves c b ∧
      echoed b u ++ (u.chan c).inputEvbuffer = echoed b s ++ (s.chan c).inputEvbuffer) ?_
      ⟨h.pool, rfl, hb, rfl⟩ hx
    · have hcut : echoed b t ++ (s.chan c).inputEvbuffer.drop buffsize =
          echoed b s ++ (s.chan c).inputEvbuffer.take buffsize ++
            (s.chan c).inputEvbuffer.drop buffsize := by
        rw [List.append_assoc, List.take_append_drop, ← hin]
        exact hsum.2.2.2
      exact ⟨List.append_cancel_right hcut, [], by rw [hin, List.append_nil]; rfl⟩
    · rintro u d packs hd ⟨hpu, hlu, hbu, hu⟩ hr
      obtain ⟨e, he⟩ := hpu.connected d (by rw [hlu]; exact hd)
      obtain ⟨hw, -⟩ := traffic_served he hr b
      have hecho : echoed b (u.served d packs) =
          echoed b u ++ if e = b then (u.chan d).inputEvbuffer.take buffsize else [] := by
        simp only [echoed, Server.served, Server.record, Server.setChan, List.flatMap_append, hw]
      refine ⟨hpu.input _ _ _, hlu, hbu.input _ _ _, ?_⟩
      rw [hecho]
      by_cases hdc : d = c
      · subst hdc
        obtain rfl := he.bev_unique hbu
        have hdrop : ((u.served d packs).chan d).inputEvbuffer =
            (u.chan d).inputEvbuffer.drop buffsize := by
          simp [Server.served, Server.record, Server.setChan]
        rw [if_pos rfl, hdrop, List.append_assoc, List.take_append_drop, hu]
      · have heb : e ≠ b := by
          rintro rfl
          exact hdc (he.chan_unique hbu)
        have hsame : ((u.served d packs).chan c).inputEvbuffer = (u.chan c).inputEvbuffer := by
          simp [Server.served, Server.record, Server.setChan, Ne.symm hdc]
        rw [if_neg heb, List.append_nil, hsame, hu]

/-- A run of a session that goes on. -/
theorem prompt_run {es : List (Event α)} (h : Sessions N s) (hb : s.Serves c b)
    (hx : exec (Server.step recvValuesFromString) s es = some t) (hlive : t.live b = true) :
    echoed b s ++ (s.chan c).inputEvbuffer.take (buffsize * es.countP Event.isFrame) <+:
      echoed b t := by
  induction es generalizing s with
  | nil =>
    cases hx
    simp
  | cons a es ih =>
    obtain ⟨u, hu, hx⟩ := exec_cons_eq_some.mp hx
    have hliveu : u.live b = true := by
      refine inv_of_exec (I := fun v => Sessions N v ∧ b < v.nbev ∧ (v.live b = true → u.live b = true))
        ?_ ⟨h.step hu, ?_, id⟩ hx |>.2.2 hlive
      · rintro v a w ⟨hv, hbv, hvu⟩ hw
        obtain ⟨hle, hbev⟩ := bev_step hv.pool hw
        exact ⟨hv.step hw, hbv.trans_le hle, fun hl => hvu ((hbev b hbv).2 hl)⟩
      · exact hb.lt.trans_le (bev_step h.pool hu).1
    obtain ⟨hbu, hecho, data, hin⟩ := prompt_step h hb hu hliveu
    have hcount : buffsize * (a :: es).countP Event.isFrame =
        (if a.isFrame then buffsize else 0) + buffsize * es.countP Event.isFrame := by
      rw [List.countP_cons, Nat.mul_add, Nat.add_comm]
      split_ifs <;> simp
    refine List.IsPrefix.trans ?_ (ih (h.step hu) hbu hx)
    rw [hecho, hin, hcount, List.take_add, ← List.append_assoc, List.prefix_append_right_inj]
    exact (List.prefix_append _ data).take _

/-! ### How much at most -/

/-- What a connection may be sent besides what the frames send: `Clear` serves its channel once
more. -/
def spare (b : BevId) (s : Server α) : ℕ := if b < s.nbev ∧ s.live b = false then 0 else buffsize

omit [Inhabited α] in
theorem spare_le (b : BevId) (s : Server α) : spare b s ≤ buffsize := by
  unfold spare
  split_ifs
  · exact Nat.zero_le _
  · exact le_rfl

/-- A connection that has ended has nothing to come. -/
theorem spare_step {a : Event α} (hp : PoolInv N s) (hst : s.step recvValuesFromString a = some t) :
    spare b t ≤ spare b s := by
  by_cases hb : b < s.nbev ∧ s.live b = false
  · obtain ⟨hle, hbev⟩ := bev_step hp hst
    have hdead : t.live b = false := by
      rw [Bool.eq_false_iff]
      intro h
      rw [(hbev b hb.1).2 h] at hb
      exact Bool.noConfusion hb.2
    unfold spare
    rw [if_pos ⟨hb.1.trans_le hle, hdead⟩]
    exact Nat.zero_le _
  · have hspare : spare b s = buffsize := if_neg hb
    rw [hspare]
    exact spare_le b t

/-- One step: a frame sends a connection `BUFFSIZE` bytes at most, and so does its end. -/
theorem slow_step {a : Event α} (h : Sessions N s) (hst : s.step recvValuesFromString a = some t) :
    (echoed b t).length + spare b t ≤
      (echoed b s).length + spare b s + if a.isFrame then buffsize else 0 := by
  have hspare := spare_step (b := b) h.pool hst
  cases Server.happens_of_step hst with
  | notCreated | recvNull | noHangup => exact Nat.le_add_right _ _
  | refused | accepted | recv =>
    refine Nat.le_trans (Nat.add_le_add (Nat.le_of_eq (congrArg List.length ?_)) hspare)
      (Nat.le_add_right _ _)
    simp [echoed, Server.buffereventFree, Server.buffereventSocketNew, Server.accepted, Server.record,
      Server.setChan, writtenTo]
  | @hangup e d what _ hl hd _ hx =>
    obtain ⟨-, hde⟩ := h.pool.serves_of_ctx hl hd
    obtain ⟨packs, hr, rfl⟩ := Server.exec_socketFdDel hde.buffer hx
    obtain ⟨hw, -⟩ := traffic_served hde hr b
    have hecho : echoed b (s.departed d e packs) =
        echoed b s ++ if e = b then (s.chan d).inputEvbuffer.take buffsize else [] := by
      simp [echoed, Server.departed, List.flatMap_append, hw, writtenTo]
    rw [hecho]
    by_cases heb : e = b
    · -- its own end
      subst heb
      have hbefore : spare e s = buffsize := if_neg (by simp [hl])
      have hafter : spare e (s.departed d e packs) = 0 :=
        if_pos ⟨hde.lt, by simp [Server.live, Server.departed]⟩
      have htake := List.length_take_le buffsize (s.chan d).inputEvbuffer
      rw [if_pos rfl, List.length_append, hbefore, hafter]
      omega
    · rw [if_neg heb, List.append_nil]
      omega
  | frame hx =>
    have hbev := Server.inv_of_frame (I := fun u => u.bev = s.bev ∧ u.nbev = s.nbev)
      (fun _ _ _ _ hu _ => hu) ⟨rfl, rfl⟩ hx
    have hlive : t.live b = s.live b := by rw [Server.live, Server.live, hbev.1, hbev.2]
    simp only [Event.isFrame, if_true]
    cases hl : s.live b with
    | true =>
      obtain ⟨c, -, hcb⟩ := h.pool.callbacks b hl
      obtain ⟨-, hecho, -⟩ := prompt_step h hcb hst (hlive.trans hl)
      have htake := List.length_take_le buffsize (s.chan c).inputEvbuffer
      simp only [Event.isFrame, if_true] at hecho
      rw [hecho, List.length_append]
      omega
    | false =>
      have hsame := Server.inv_of_frame (I := fun u => PoolInv N u ∧
        u.listConnectClient = s.listConnectClient ∧ u.live b = false ∧ echoed b u = echoed b s) ?_
        ⟨h.pool, rfl, hl, rfl⟩ hx
      · rw [hsame.2.2.2]
        omega
      · rintro u d packs hd ⟨hpu, hlu, hbu, hu⟩ hr
        obtain ⟨e, he⟩ := hpu.connected d (by rw [hlu]; exact hd)
        obtain ⟨hw, -⟩ := traffic_served he hr b
        have heb : e ≠ b := by
          rintro rfl
          rw [he.live] at hbu
          cases hbu
        refine ⟨hpu.input _ _ _, hlu, hbu, ?_⟩
        rw [← hu]
        simp only [echoed, Server.served, Server.record, Server.setChan, List.flatMap_append, hw,
          if_neg heb, List.append_nil]

/-- A run with `n` frames sends a connection `(n + 1) * BUFFSIZE` bytes at most. -/
theorem slow_run {es : List (Event α)} (h : Sessions N s)
    (hx : exec (Server.step recvValuesFromString) s es = some t) :
    (echoed b t).length ≤ (echoed b s).length + buffsize * (es.countP Event.isFrame + 1) := by
  have hsum : (echoed b t).length + spare b t ≤
      (echoed b s).length + spare b s + buffsize * es.countP Event.isFrame := by
    induction es generalizing s with
    | nil =>
      cases hx
      simp
    | cons a es ih =>
      obtain ⟨u, hu, hx⟩ := exec_cons_eq_some.mp hx
      have hone := slow_step (b := b) h hu
      have hrest := ih (h.step hu) hx
      have hcount : buffsize * (a :: es).countP Event.isFrame =
          (if a.isFrame then buffsize else 0) + buffsize * es.countP Event.isFrame := by
        rw [List.countP_cons, Nat.mul_add, Nat.add_comm]
        split_ifs <;> simp
      omega
  have hspare := spare_le b s
  rw [Nat.mul_succ]
  omega

end Bound

end Steps

/-! ### Every run -/

/-- **A session.** Channel `c` is given to a new connection, with a residue in its input buffer;
whatever happens afterwards, what the connection has been sent is the residue and then what was
received from it, in order, up to a rest. As long as no later connection has got the channel, also
when this one has ended, the rest is in the input buffer of the channel. -/
theorem session_of_exec [Inhabited α] (N : ℕ) (es fs : List (Event α)) (s t : Server α) (fd : ℤ)
    (c : Ptr) (q : List Ptr)
    (h : exec (Server.step recvValuesFromString) (Server.resourceInitialize N) es = some s)
    (hq : s.queueILoop = c :: q)
    (hx : exec (Server.step recvValuesFromString) s (.listen fd true :: fs) = some t) :
    ∃ rest, echoed s.nbev t ++ rest = (s.chan c).inputEvbuffer ++ receivedFrom s.nbev t ∧
      ((∀ e, s.nbev < e → e < t.nbev → (t.bev e).ctx ≠ some c) → rest = (t.chan c).inputEvbuffer) := by
  have hs := Sessions.of_exec h
  obtain ⟨u, hu, hx⟩ := exec_cons_eq_some.mp hx
  have haccepted : u = s.accepted c fd := by
    have hrun := Server.exec_allocationIChannel recvValuesFromString hq fd
    exact Option.some.inj (hu.symm.trans hrun)
  have hsession : Session c s.nbev (s.chan c).inputEvbuffer u := haccepted ▸ Session.start hs c fd
  exact (inv_of_exec (I := fun v => Sessions N v ∧ Session c s.nbev (s.chan c).inputEvbuffer v)
    (fun v a w hv hw => ⟨hv.1.step hw, hv.2.step hv.1.oneByOne hv.1.pool hw⟩)
    ⟨hs.step hu, hsession⟩ hx).2.ledger

/-- The only channel is given back with one byte too many in its input buffer. -/
def leftover : List (Event UInt8) :=
  [.listen 7 true, .recv 0 (List.replicate (buffsize + 1) 1), .event 0 bevEventEof]

/-- The next client of the channel is sent that byte. -/
theorem session_leftover :
    ∃ s t, exec (Server.step recvValuesFromString) (Server.resourceInitialize 1) leftover = some s ∧
      exec (Server.step recvValuesFromString) s [.listen 8 true, .frame] = some t ∧
      echoed s.nbev t = [1] ∧
      ∃ rest, echoed s.nbev t ++ rest = (s.chan 0).inputEvbuffer ++ receivedFrom s.nbev t ∧
        ((∀ e, s.nbev < e → e < t.nbev → (t.bev e).ctx ≠ some 0) → rest = (t.chan 0).inputEvbuffer) := by
  have h : (exec (Server.step recvValuesFromString) (Server.resourceInitialize 1) leftover).any
      (fun s => decide (s.queueILoop = [0]) &&
        (exec (Server.step recvValuesFromString) s [.listen 8 true, .frame]).any
          fun t => decide (echoed s.nbev t = [1])) = true := by decide +kernel
  obtain ⟨s, hs, h⟩ := (Option.any_eq_true _ _).mp h
  rw [Bool.and_eq_true, decide_eq_true_iff, Option.any_eq_true] at h
  obtain ⟨hq, t, ht, hecho⟩ := h
  exact ⟨s, t, hs, ht, of_decide_eq_true hecho, session_of_exec 1 leftover [.frame] s t 8 0 [] hs hq ht⟩

/-- **How long it takes.** While a connection lasts, a run with `n` frames sends it the next
`n * BUFFSIZE` bytes of what is in the input buffer of its channel, whatever else happens. -/
theorem prompt_of_exec [Inhabited α] (N : ℕ) (es fs : List (Event α)) (s t : Server α) (c : Ptr)
    (b : BevId)
    (h : exec (Server.step recvValuesFromString) (Server.resourceInitialize N) es = some s)
    (hc : c ∈ s.listConnectClient) (hb : (s.chan c).buffer = some b)
    (hx : exec (Server.step recvValuesFromString) s fs = some t) (hlive : t.live b = true) :
    echoed b s ++ (s.chan c).inputEvbuffer.take (buffsize * fs.countP Event.isFrame) <+:
      echoed b t := by
  have hs := Sessions.of_exec h
  obtain ⟨b', hb'⟩ := hs.pool.connected c hc
  obtain rfl : b' = b := Option.some.inj (hb'.buffer.symm.trans hb)
  exact prompt_run hs hb' hx hlive

/-- A client sends more than `BUFFSIZE` bytes, and more while they are sent back. -/
theorem prompt_twoFrames :
    ∃ s t, exec (Server.step recvValuesFromString) (Server.resourceInitialize 1)
        [.listen 7 true, .recv 0 (List.replicate (buffsize + 1) (1 : UInt8))] = some s ∧
      exec (Server.step recvValuesFromString) s [.frame, .recv 0 [2], .frame] = some t ∧
      echoed 0 s ++ (s.chan 0).inputEvbuffer.take (buffsize * 2) <+: echoed 0 t := by
  have h : (exec (Server.step recvValuesFromString) (Server.resourceInitialize 1)
      [.listen 7 true, .recv 0 (List.replicate (buffsize + 1) (1 : UInt8))]).any
      (fun s => decide (0 ∈ s.listConnectClient) && decide ((s.chan 0).buffer = some 0) &&
        (exec (Server.step recvValuesFromString) s [.frame, .recv 0 [2], .frame]).any
          fun t => t.live 0) = true := by decide +kernel
  obtain ⟨s, hs, h⟩ := (Option.any_eq_true _ _).mp h
  rw [Bool.and_eq_true, Bool.and_eq_true, decide_eq_true_iff, decide_eq_true_iff,
    Option.any_eq_true] at h
  obtain ⟨⟨hc, hb⟩, t, ht, hlive⟩ := h
  exact ⟨s, t, hs, ht, prompt_of_exec 1 _ [.frame, .recv 0 [2], .frame] s t 0 0 hs hc hb ht hlive⟩

end Syinx.Threaded
