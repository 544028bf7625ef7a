import Syinx.Tcp.ChannelPool

/-!
# What is released, and how often

A `bufferevent` is freed when its connection is refused, when it ends, or at last
by `SyinxAdapterResource::Close`, which also frees the channels and their input
buffers. Nothing marks a `bufferevent` or a channel as released: that none is released
twice or forgotten rests on where the pointers to it are.

## What is proved

* `exec_release` — what clearing, closing and deleting one channel does.
* `Drains.of_exec` — what the loop of `SyinxAdapterResource::Close` does to all of them.
* `releasedOnce_of_exec` — between two events every `bufferevent` is either the
  `m_buffer` of one connected channel or has been freed once, and after `Close`
  everything has been released, once.
-/

namespace Syinx.Tcp

open Syinx.Library

variable {α : Type}

/-! ### The calls of the player -/

/-- A call of the player. -/
inductive Callback where
  | login
  | logout
  deriving DecidableEq

/-- The call for channel `c` that is recorded. -/
def Ev.callback (c : Ptr) : Ev α → Option Callback
  | .login d => if d = c then some .login else none
  | .logout d => if d = c then some .logout else none
  | _ => none

namespace Server

/-- The calls of the player of channel `c`, in order. -/
def callbacks (s : Server α) (c : Ptr) : List Callback := s.log.filterMap (Ev.callback c)

/-- Recording packs and what is written is no call of a player. -/
theorem filterMap_recvClientPack (c d : Ptr) (ch : IChannel α) (packs : List (Pack α)) :
    (packs.flatMap (recvClientPack d ch)).filterMap (Ev.callback c) = [] := by
  rw [List.filterMap_eq_nil_iff]
  intro e he
  obtain ⟨p, -, hp⟩ := List.mem_flatMap.mp he
  simp only [recvClientPack, List.mem_cons] at hp
  rcases hp with rfl | hp
  · rfl
  · split_ifs at hp
    · rw [List.mem_singleton.mp hp]; rfl
    · cases hp

/-! ### A channel is released -/

/-- Channel `c`, the first of the queue, has been cleared, closed and deleted, after
these packs. -/
def released (s : Server α) (c : Ptr) (packs : List (Pack α)) : Server α :=
  { s with
    queueILoop := s.queueILoop.tail
    chan := Function.update s.chan c
      { s.chan c with
        socket := 0
        buffer := none
        inputEvbuffer := (s.chan c).inputEvbuffer.drop buffsize
        ichStatus := .clientLogout }
    bev := fun b =>
      if (s.chan c).buffer = some b then { s.bev b with freed := (s.bev b).freed + 1 } else s.bev b
    evFreed := Function.update s.evFreed c (s.evFreed c + 1)
    deleted := Function.update s.deleted c (s.deleted c + 1)
    log := s.log ++ packs.flatMap (recvClientPack c (s.chan c)) ++ [.logout c] }

theorem callbacks_released (s : Server α) (c d : Ptr) (packs : List (Pack α)) :
    (s.released d packs).callbacks c = s.callbacks c ++ if d = c then [.logout] else [] := by
  simp only [callbacks, released, List.filterMap_append, filterMap_recvClientPack, List.append_nil]
  split_ifs with hd <;> simp [Ev.callback, hd]

section Run

variable [Inhabited α] {P : ParseFunc α} {s t : Server α} {c : Ptr}

/-- What becomes of one channel in `SyinxAdapterResource::Close`. -/
theorem exec_release
    (h : exec (Op.run P) s (.queuePop :: (clear c ++ ichannelClose c ++ [.delete c])) = some t) :
    ∃ packs, t = s.released c packs := by
  cases hr : (s.chan c).onStatusDoAction P with
  | none => simp [clear, Op.run, setChan, onStatusDoAction_socket, hr] at h
  | some r =>
    obtain ⟨ch, packs⟩ := r
    obtain rfl := IChannel.onStatusDoAction_eq_some hr
    refine ⟨packs, ?_⟩
    have hpack : ∀ b, (s.chan c).buffer = b →
        recvClientPack c { s.chan c with socket := 0, buffer := b } = recvClientPack c (s.chan c) := by
      rintro b rfl
      rfl
    cases hb : (s.chan c).buffer with
    | none =>
      simp [clear, ichannelClose, Op.run, setChan, record, onStatusDoAction_socket, hr, hb,
        hpack none hb] at h
      simp [released, hb, ← h]
    | some b =>
      simp [clear, ichannelClose, Op.run, setChan, record, onStatusDoAction_socket, hr, hb,
        buffereventFree, hpack (some b) hb] at h
      have hbev : (fun e => if b = e then { s.bev e with freed := (s.bev e).freed + 1 } else s.bev e) =
          Function.update s.bev b { s.bev b with freed := (s.bev b).freed + 1 } := by
        funext e
        by_cases he : b = e
        · subst he; simp
        · simp [he, Ne.symm he]
      simp [released, hb, hbev, ← h]

end Run

/-! ### All channels are released -/

/-- The channels `cs` have been released. -/
structure Drains (s : Server α) (cs : List Ptr) (t : Server α) : Prop where
  nbev : t.nbev = s.nbev
  ctx : ∀ b, (t.bev b).ctx = (s.bev b).ctx
  freed : ∀ b, (t.bev b).freed = (s.bev b).freed + cs.countP fun c => (s.chan c).buffer = some b
  evFreed : ∀ c, t.evFreed c = s.evFreed c + cs.count c
  deleted : ∀ c, t.deleted c = s.deleted c + cs.count c
  callbacks : ∀ c, t.callbacks c = s.callbacks c ++ List.replicate (cs.count c) .logout

theorem Drains.nil (s : Server α) : s.Drains [] s where
  nbev := rfl
  ctx _ := rfl
  freed _ := rfl
  evFreed _ := rfl
  deleted _ := rfl
  callbacks c := by rw [List.count_nil, List.replicate_zero, List.append_nil]

/-- One channel is released, then the others. -/
theorem Drains.cons {s t : Server α} {c : Ptr} {cs : List Ptr} {packs : List (Pack α)} (hc : c ∉ cs)
    (h : (s.released c packs).Drains cs t) : s.Drains (c :: cs) t where
  nbev := h.nbev
  ctx b := by
    apply (h.ctx b).trans
    simp only [released]
    split_ifs <;> rfl
  freed b := by
    -- the release of `c` leaves the `m_buffer` of the others as it was
    have hcs : cs.countP (fun d => ((s.released c packs).chan d).buffer = some b) =
        cs.countP fun d => (s.chan d).buffer = some b := by
      apply List.countP_congr
      intro d hd
      have hne : d ≠ c := by
        rintro rfl
        exact hc hd
      simp [released, hne]
    rw [h.freed, hcs, List.countP_cons]
    simp only [released, decide_eq_true_eq]
    split_ifs with hb
    · exact (Nat.succ_add_eq_add_succ _ _)
    · rfl
  evFreed d := by
    rw [h.evFreed, List.count_cons]
    by_cases hd : d = c
    · subst hd; simp only [released, Function.update_self, beq_self_eq_true, if_true]; omega
    · simp [released, hd, Ne.symm hd]
  deleted d := by
    rw [h.deleted, List.count_cons]
    by_cases hd : d = c
    · subst hd; simp only [released, Function.update_self, beq_self_eq_true, if_true]; omega
    · simp [released, hd, Ne.symm hd]
  callbacks d := by
    rw [h.callbacks, callbacks_released, List.count_cons, List.append_assoc]
    by_cases hd : c = d
    · subst hd
      rw [if_pos rfl, beq_self_eq_true, if_pos rfl, List.replicate_succ, List.singleton_append]
    · simp [hd]

variable [Inhabited α] {P : ParseFunc α} {s t : Server α}

/-- The loop of `SyinxAdapterResource::Close`. -/
theorem Drains.of_release {cs : List Ptr} (hnd : cs.Nodup)
    (h : exec (Op.run P) s (cs.flatMap fun c =>
      .queuePop :: (clear c ++ ichannelClose c ++ [.delete c])) = some t) : s.Drains cs t := by
  induction cs generalizing s with
  | nil => cases h; exact .nil _
  | cons c cs ih =>
    obtain ⟨hc, hcs⟩ := List.nodup_cons.mp hnd
    rw [List.flatMap_cons] at h
    obtain ⟨u, hu, h⟩ := exec_append_eq_some.mp h
    obtain ⟨packs, rfl⟩ := exec_release hu
    exact .cons hc (ih hcs h)

/-- Queueing channels changes nothing else. -/
theorem exec_queuePush (P : ParseFunc α) (s : Server α) (cs : List Ptr) :
    exec (Op.run P) s (cs.map .queuePush) = some { s with queueILoop := s.queueILoop ++ cs } := by
  induction cs generalizing s with
  | nil => rw [List.map_nil, exec_nil, List.append_nil]
  | cons c cs ih => simp [Op.run, ih]

/-- **`SyinxAdapterResource::Close`** releases the idle and the connected channels. -/
theorem Drains.of_exec (hnd : (s.queueILoop ++ s.listConnectClient).Nodup)
    (h : exec (Op.run P) s s.resourceClose = some t) :
    s.Drains (s.queueILoop ++ s.listConnectClient) t := by
  obtain ⟨u, hu, h⟩ := exec_append_eq_some.mp h
  rw [exec_queuePush] at hu
  cases hu
  obtain ⟨h1, h2, h3, h4, h5, h6⟩ := Drains.of_release hnd h
  exact ⟨h1, h2, h3, h4, h5, h6⟩

end Server

/-! ### Over a run -/

/-- Nothing is released twice, and nothing is forgotten. -/
structure ReleaseInv (N : ℕ) (s : Server α) : Prop where
  pool : PoolInv N s
  /-- The callbacks of a `bufferevent` come until it is freed. -/
  freed : ∀ b < s.nbev, s.live b = true ∨ (s.bev b).freed = 1
  evFreed : ∀ c, s.evFreed c = 0
  deleted : ∀ c, s.deleted c = 0

namespace ReleaseInv

variable {N : ℕ} {s t : Server α}

theorem start (N : ℕ) : ReleaseInv N (Server.resourceInitialize N : Server α) where
  pool := .start N
  freed b hb := by rw [resourceInitialize_eq] at hb; exact absurd hb b.not_lt_zero
  evFreed c := by rw [resourceInitialize_eq]
  deleted c := by rw [resourceInitialize_eq]

/-- What has arrived and what is recorded does not matter. -/
theorem input (h : ReleaseInv N s) (c : Ptr) (buf : List α) (es : List (Ev α)) :
    ReleaseInv N ((s.setChan c { s.chan c with inputEvbuffer := buf }).record es) :=
  ⟨h.pool.input c buf es, h.freed, h.evFreed, h.deleted⟩

variable [Inhabited α] {P : ParseFunc α}

/-- A step of the server keeps it. -/
theorem step {e : Event α} (h : ReleaseInv N s) (hst : s.step P e = some t) : ReleaseInv N t := by
  have hpool := h.pool.step hst
  cases Server.happens_of_step hst with
  | notCreated | recvNull | noHangup => exact h
  | refused =>
    refine ⟨hpool, fun b hb => ?_, h.evFreed, h.deleted⟩
    by_cases hbn : b = s.nbev
    · subst hbn
      exact .inr (by simp [Server.buffereventSocketNew, Server.buffereventFree])
    · have hlt : b < s.nbev := lt_of_le_of_ne (Nat.lt_succ_iff.mp hb) hbn
      refine (h.freed b hlt).imp (fun hl => ?_) fun hf => ?_
      · obtain ⟨-, hen, hfr⟩ := Server.live_iff.mp hl
        apply Server.live_iff.mpr
        simp [Server.buffereventSocketNew, Server.buffereventFree, hbn, hen, hfr, Nat.lt_succ_of_lt hlt]
      · simp [Server.buffereventSocketNew, Server.buffereventFree, hbn, hf]
  | @accepted fd c q hq =>
    refine ⟨hpool, fun b hb => ?_, h.evFreed, h.deleted⟩
    by_cases hbn : b = s.nbev
    · subst hbn
      exact .inl (by simp [Server.accepted, Server.live])
    · have hlt : b < s.nbev := lt_of_le_of_ne (Nat.lt_succ_iff.mp hb) hbn
      refine (h.freed b hlt).imp (fun hl => ?_) fun hf => ?_
      · obtain ⟨-, hen, hfr⟩ := Server.live_iff.mp hl
        apply Server.live_iff.mpr
        simp [Server.accepted, hbn, hen, hfr, Nat.lt_succ_of_lt hlt]
      · simp [Server.accepted, hbn, hf]
  | recv => exact h.input _ _ _
  | @hangup b c _ _ hl hc _ hx =>
    obtain ⟨-, hcb⟩ := h.pool.serves_of_ctx hl hc
    obtain ⟨packs, -, rfl⟩ := Server.exec_socketFdDel hcb.buffer hx
    refine ⟨hpool, fun e he => ?_, h.evFreed, h.deleted⟩
    by_cases heb : e = b
    · subst heb
      obtain ⟨-, -, hfr⟩ := Server.live_iff.mp hl
      exact .inr (by simp [Server.departed, hfr])
    · refine (h.freed e he).imp (fun hl' => ?_) fun hf => ?_
      · obtain ⟨hlt, hen, hfr⟩ := Server.live_iff.mp hl'
        apply Server.live_iff.mpr
        simp [Server.departed, heb, hlt, hen, hfr]
      · simp [Server.departed, heb, hf]
  | frame hx => exact Server.inv_of_frame (fun _ _ _ _ h _ => h.input _ _ _) h hx

/-- It holds in every state the server reaches. -/
theorem of_exec {es : List (Event α)}
    (h : exec (Server.step P) (Server.resourceInitialize N) es = some s) : ReleaseInv N s :=
  inv_of_exec (fun _ _ _ hs ht => hs.step ht) (start N) h

omit [Inhabited α] in
/-- A `bufferevent` that has not been freed serves a connected channel. -/
theorem serves (h : ReleaseInv N s) {b : BevId} (hb : b < s.nbev) (hf : (s.bev b).freed ≠ 1) :
    ∃ c ∈ s.listConnectClient, s.Serves c b :=
  h.pool.callbacks b ((h.freed b hb).resolve_right hf)

end ReleaseInv

/-- Between two events: a `bufferevent` is the `m_buffer` of one connected channel, or it
has been freed once. -/
def Server.Accounted (s : Server α) : Prop :=
  ∀ b < s.nbev,
    ((s.bev b).freed = 0 ∧ ∃! c, c ∈ s.listConnectClient ∧ (s.chan c).buffer = some b) ∨
      ((s.bev b).freed = 1 ∧ ∀ c ∈ s.listConnectClient, (s.chan c).buffer ≠ some b)

/-- `t` is what `SyinxAdapterResource::Close` has made of `s`: each of the `N` channels has
been cleared, closed and deleted once, each `bufferevent` has been freed once. -/
structure Server.Closed (N : ℕ) (s t : Server α) : Prop where
  /-- `Clear` has called the player's `Logout` once more. -/
  cleared : ∀ c < N, t.callbacks c = s.callbacks c ++ [.logout]
  evFreed : ∀ c < N, t.evFreed c = 1
  deleted : ∀ c < N, t.deleted c = 1
  nbev : t.nbev = s.nbev
  freed : ∀ b < t.nbev, (t.bev b).freed = 1

namespace ReleaseInv

variable {N : ℕ} {s t : Server α}

theorem accounted (h : ReleaseInv N s) : s.Accounted := by
  intro b hb
  by_cases hf : (s.bev b).freed = 1
  · refine .inr ⟨hf, fun c hc hbuf => ?_⟩
    obtain ⟨e, he⟩ := h.pool.connected c hc
    obtain rfl : e = b := Option.some.inj (he.buffer.symm.trans hbuf)
    have := (Server.live_iff.mp he.live).2.2
    omega
  · obtain ⟨c, hc, hcb⟩ := h.serves hb hf
    refine .inl ⟨(Server.live_iff.mp hcb.live).2.2, c, ⟨hc, hcb.buffer⟩, fun d hd => ?_⟩
    obtain ⟨e, he⟩ := h.pool.connected d hd.1
    obtain rfl : e = b := Option.some.inj (he.buffer.symm.trans hd.2)
    exact he.chan_unique hcb

/-- A channel is in the containers once. -/
theorem count_eq (h : ReleaseInv N s) {c : Ptr} (hc : c < N) :
    (s.queueILoop ++ s.listConnectClient).count c = 1 := by
  rw [h.pool.recycled.perm.count_eq]
  exact List.count_eq_one_of_mem List.nodup_range (List.mem_range.mpr hc)

/-- What is still live is the `m_buffer` of one channel of the containers. -/
theorem countP_buffer (h : ReleaseInv N s) {b : BevId} (hb : b < s.nbev) :
    (s.bev b).freed + (s.queueILoop ++ s.listConnectClient).countP
      (fun c => (s.chan c).buffer = some b) = 1 := by
  have hidle : s.queueILoop.countP (fun c => (s.chan c).buffer = some b) = 0 := by
    rw [List.countP_eq_zero]
    intro c hc hbuf
    rw [(h.pool.idle c hc).2] at hbuf
    cases of_decide_eq_true hbuf
  rw [List.countP_append, hidle, Nat.zero_add]
  rcases h.accounted b hb with ⟨hf, c, ⟨hc, hbuf⟩, huniq⟩ | ⟨hf, hnone⟩
  · have hcount : s.listConnectClient.countP (fun d => (s.chan d).buffer = some b) =
        s.listConnectClient.count c := by
      apply List.countP_congr
      intro d hd
      rw [decide_eq_true_iff, beq_iff_eq]
      exact ⟨fun hd' => huniq d ⟨hd, hd'⟩, fun hdc => hdc ▸ hbuf⟩
    rw [hf, hcount, List.count_eq_one_of_mem h.pool.recycled.nodup_used hc]
  · rw [hf, List.countP_eq_zero.mpr fun c hc hbuf => hnone c hc (of_decide_eq_true hbuf)]

/-- `SyinxAdapterResource::Close` releases what there is. -/
theorem closed [Inhabited α] {P : ParseFunc α} (h : ReleaseInv N s)
    (hx : exec (Op.run P) s s.resourceClose = some t) : Server.Closed N s t := by
  have hd := Server.Drains.of_exec h.pool.recycled.nodup_append hx
  refine ⟨fun c hc => ?_, fun c hc => ?_, fun c hc => ?_, hd.nbev, fun b hb => ?_⟩
  · rw [hd.callbacks, h.count_eq hc, List.replicate_one]
  · rw [hd.evFreed, h.evFreed, h.count_eq hc]
  · rw [hd.deleted, h.deleted, h.count_eq hc]
  · rw [hd.freed]
    exact h.countP_buffer (hd.nbev ▸ hb)

end ReleaseInv

/-- **Released once.** In every state the server reaches, each `bufferevent` is the
`m_buffer` of one connected channel or has been freed once; and when
`SyinxAdapterResource::Close` returns there, all has been released, once. -/
theorem releasedOnce_of_exec [Inhabited α] (P : ParseFunc α) (N : ℕ) (es : List (Event α))
    (s : Server α) (h : exec (Server.step P) (Server.resourceInitialize N) es = some s) :
    s.Accounted ∧
      ∀ t, exec (Op.run P) s s.resourceClose = some t → Server.Closed N s t :=
  ⟨(ReleaseInv.of_exec h).accounted, fun _ ht => (ReleaseInv.of_exec h).closed ht⟩

/-- Two of three connections find a channel, and the first one ends. -/
def twoOfThree : List (Event UInt8) :=
  [.listen 7 true, .listen 8 true, .listen 9 true, .event 0 bevEventEof]

theorem releasedOnce_twoOfThree :
    ∃ s t, exec (Server.step recvValuesFromString) (Server.resourceInitialize 2) twoOfThree = some s ∧
      exec (Op.run recvValuesFromString) s s.resourceClose = some t ∧
      s.listConnectClient = [1] ∧ t.nbev = 3 ∧ s.Accounted ∧ Server.Closed 2 s t := by
  have h := releasedOnce_of_exec recvValuesFromString 2 twoOfThree _ rfl
  exact ⟨_, _, rfl, rfl, rfl, rfl, h.1, h.2 _ rfl⟩

end Syinx.Tcp
