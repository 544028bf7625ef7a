import Syinx.Tcp.Resource

/-!
# The channels and their two containers

In every state the server reaches, the channels are split between
`m_queueILoop` and `m_listConnectClient`, a connected channel and its
`bufferevent` point at each other, and the callbacks of a `bufferevent` find in
their argument the channel that serves it.

## What is proved

* `PoolInv.step` — the invariant is kept by every callback and every frame,
  whatever the bound parse function does.
* `channelPool_of_exec` — what it means for the containers, the fields of the
  channels and the next call of `AllocationIChannel`.
-/

namespace Syinx.Tcp

open Syinx.Library

variable {α : Type}

/-- Channel `c` serves the connection `b`. -/
structure Server.Serves (s : Server α) (c : Ptr) (b : BevId) : Prop where
  login : (s.chan c).ichStatus = .clientLogin
  buffer : (s.chan c).buffer = some b
  socket : (s.chan c).socket = (s.bev b).fd
  /-- Its callbacks come. -/
  live : s.live b = true
  /-- They come to `c`. -/
  ctx : (s.bev b).ctx = some c

/-- The invariant of the channels. -/
structure PoolInv (N : ℕ) (s : Server α) : Prop where
  /-- Every channel is in one of the containers, once. -/
  recycled : Recycled (List.range N) s.queueILoop s.listConnectClient
  ids : ∀ c < N, (s.chan c).ichannelID = c + 1
  idle : ∀ c ∈ s.queueILoop, (s.chan c).ichStatus = .clientLogout ∧ (s.chan c).buffer = none
  connected : ∀ c ∈ s.listConnectClient, ∃ b, s.Serves c b
  /-- A callback comes to a connected channel, the one that serves the connection. -/
  callbacks : ∀ b, s.live b = true → ∃ c ∈ s.listConnectClient, s.Serves c b

namespace Server

variable {s t : Server α} {c d : Ptr} {b e : BevId}

theorem live_iff : s.live b = true ↔ b < s.nbev ∧ (s.bev b).enabled = true ∧ (s.bev b).freed = 0 := by
  simp [live, and_assoc]

theorem Serves.lt (h : s.Serves c b) : b < s.nbev := (live_iff.mp h.live).1

/-- One connection is served by one channel. -/
theorem Serves.chan_unique (hc : s.Serves c b) (hd : s.Serves d b) : c = d :=
  Option.some.inj (hc.ctx.symm.trans hd.ctx)

/-- One channel serves one connection. -/
theorem Serves.bev_unique (hb : s.Serves c b) (he : s.Serves c e) : b = e :=
  Option.some.inj (hb.buffer.symm.trans he.buffer)

/-- What a connection's service depends on: its `bufferevent` and its channel, the input
buffer apart. -/
theorem Serves.congr (h : s.Serves c b) (hbev : t.bev b = s.bev b) (hn : s.nbev ≤ t.nbev)
    (hst : (t.chan c).ichStatus = (s.chan c).ichStatus) (hb : (t.chan c).buffer = (s.chan c).buffer)
    (hfd : (t.chan c).socket = (s.chan c).socket) : t.Serves c b where
  login := hst.trans h.login
  buffer := hb.trans h.buffer
  socket := by rw [hfd, hbev]; exact h.socket
  live := by
    obtain ⟨hlt, hen, hfr⟩ := live_iff.mp h.live
    exact live_iff.mpr ⟨hlt.trans_le hn, by rw [hbev]; exact hen, by rw [hbev]; exact hfr⟩
  ctx := by rw [hbev]; exact h.ctx

/-- Input buffers and the record do not matter to it. -/
theorem Serves.input (h : s.Serves d e) (c : Ptr) (buf : List α) (es : List (Ev α)) :
    ((s.setChan c { s.chan c with inputEvbuffer := buf }).record es).Serves d e := by
  by_cases hd : d = c
  · subst hd
    refine h.congr rfl le_rfl ?_ ?_ ?_ <;> simp [setChan, record]
  · refine h.congr rfl le_rfl ?_ ?_ ?_ <;> simp [setChan, record, hd]

/-- A connection that is refused does not matter to it. -/
theorem Serves.refused (h : s.Serves d e) (fd : ℤ) :
    ((s.buffereventSocketNew fd).buffereventFree s.nbev).Serves d e := by
  refine h.congr ?_ (Nat.le_succ _) rfl rfl rfl
  simp [buffereventSocketNew, buffereventFree, h.lt.ne]

/-- Nor does a connection another channel takes. -/
theorem Serves.accepted (h : s.Serves d e) (hd : d ≠ c) (fd : ℤ) :
    (s.accepted c fd).Serves d e := by
  have hchan : (s.accepted c fd).chan d = s.chan d := Function.update_of_ne hd ..
  refine h.congr (Function.update_of_ne h.lt.ne _ _) (Nat.le_succ _) ?_ ?_ ?_ <;> rw [hchan]

/-- Nor does the end of another connection. -/
theorem Serves.departed (h : s.Serves d e) (hcb : s.Serves c b) (hd : d ≠ c)
    (packs : List (Pack α)) : (s.departed c b packs).Serves d e := by
  have he : e ≠ b := by
    rintro rfl
    exact hd (h.chan_unique hcb)
  have hchan : (s.departed c b packs).chan d = s.chan d := Function.update_of_ne hd ..
  refine h.congr (Function.update_of_ne he _ _) le_rfl ?_ ?_ ?_ <;> rw [hchan]

end Server

namespace PoolInv

variable {N : ℕ} {s t : Server α} {c : Ptr} {b : BevId}

/-- A channel's input buffer changes, and something is recorded. -/
theorem input (h : PoolInv N s) (c : Ptr) (buf : List α) (es : List (Ev α)) :
    PoolInv N ((s.setChan c { s.chan c with inputEvbuffer := buf }).record es) := by
  have hchan : ∀ d, ∃ buf', (Function.update s.chan c { s.chan c with inputEvbuffer := buf }) d =
      { s.chan d with inputEvbuffer := buf' } := by
    intro d
    by_cases hd : d = c
    · subst hd; exact ⟨buf, Function.update_self ..⟩
    · exact ⟨(s.chan d).inputEvbuffer, Function.update_of_ne hd ..⟩
  refine ⟨h.recycled, fun d hd => ?_, fun d hd => ?_, fun d hd => ?_, fun e he => ?_⟩
  · obtain ⟨buf', hd'⟩ := hchan d
    exact (congrArg IChannel.ichannelID hd').trans (h.ids d hd)
  · obtain ⟨buf', hd'⟩ := hchan d
    obtain ⟨hst, hb⟩ := h.idle d hd
    exact ⟨(congrArg IChannel.ichStatus hd').trans hst, (congrArg IChannel.buffer hd').trans hb⟩
  · obtain ⟨e, he⟩ := h.connected d hd
    exact ⟨e, he.input c buf es⟩
  · obtain ⟨d, hd, hde⟩ := h.callbacks e he
    exact ⟨d, hd, hde.input c buf es⟩

/-- The callbacks of a connection find its channel. -/
theorem serves_of_ctx (h : PoolInv N s) (hb : s.live b = true) (hc : (s.bev b).ctx = some c) :
    c ∈ s.listConnectClient ∧ s.Serves c b := by
  obtain ⟨d, hd, hdb⟩ := h.callbacks b hb
  obtain rfl : d = c := Option.some.inj (hdb.ctx.symm.trans hc)
  exact ⟨hd, hdb⟩

/-- A connection that is refused leaves nothing behind. -/
theorem refused (h : PoolInv N s) (fd : ℤ) :
    PoolInv N ((s.buffereventSocketNew fd).buffereventFree s.nbev) := by
  have hbev : ∀ b < s.nbev,
      ((s.buffereventSocketNew fd).buffereventFree s.nbev).bev b = s.bev b := by
    intro b hb
    simp [Server.buffereventSocketNew, Server.buffereventFree, hb.ne]
  refine ⟨h.recycled, h.ids, h.idle, fun d hd => ?_, fun e he => ?_⟩
  · obtain ⟨e, he⟩ := h.connected d hd
    exact ⟨e, he.refused fd⟩
  · obtain ⟨hlt, hen, hfr⟩ := Server.live_iff.mp he
    have hne : e ≠ s.nbev := by
      rintro rfl
      simp [Server.buffereventSocketNew, Server.buffereventFree] at hfr
    have hlt' : e < s.nbev := lt_of_le_of_ne (Nat.lt_succ_iff.mp hlt) hne
    rw [hbev e hlt'] at hen hfr
    obtain ⟨d, hd, hde⟩ := h.callbacks e (Server.live_iff.mpr ⟨hlt', hen, hfr⟩)
    exact ⟨d, hd, hde.refused fd⟩

/-- The first idle channel takes a new connection. -/
theorem accepted (h : PoolInv N s) {q : List Ptr} (hq : s.queueILoop = c :: q) (fd : ℤ) :
    PoolInv N (s.accepted c fd) := by
  have hc : c ∈ s.queueILoop := by rw [hq]; exact List.mem_cons_self
  have hnot : ∀ d ∈ s.listConnectClient, d ≠ c := by
    rintro d hd rfl
    exact h.recycled.not_mem_free hd hc
  have hnew : (s.accepted c fd).Serves c s.nbev :=
    ⟨by simp [Server.accepted], by simp [Server.accepted], by simp [Server.accepted],
      by simp [Server.accepted, Server.live], by simp [Server.accepted]⟩
  have hr := h.recycled
  rw [hq] at hr
  refine ⟨?_, fun d hd => ?_, fun d hd => ?_, fun d hd => ?_, fun e he => ?_⟩
  · show Recycled (List.range N) s.queueILoop.tail (s.listConnectClient ++ [c])
    rw [hq]
    exact hr.allocate
  · by_cases hdc : d = c
    · subst hdc; simpa [Server.accepted] using h.ids d hd
    · simpa [Server.accepted, hdc] using h.ids d hd
  · have hd' : d ∈ q := by simpa [Server.accepted, hq] using hd
    have hdc : d ≠ c := by
      rintro rfl
      have hn := hr.nodup_append
      rw [List.cons_append, List.nodup_cons] at hn
      exact hn.1 (List.mem_append_left _ hd')
    have := h.idle d (by rw [hq]; exact List.mem_cons_of_mem _ hd')
    simpa [Server.accepted, hdc] using this
  · rcases List.mem_append.mp hd with hd | hd
    · obtain ⟨e, he⟩ := h.connected d hd
      exact ⟨e, he.accepted (hnot d hd) fd⟩
    · rw [List.mem_singleton.mp hd]
      exact ⟨s.nbev, hnew⟩
  · obtain ⟨hlt, hen, hfr⟩ := Server.live_iff.mp he
    by_cases hne : e = s.nbev
    · subst hne
      exact ⟨c, List.mem_append_right _ (List.mem_singleton_self c), hnew⟩
    · have hlt' : e < s.nbev := lt_of_le_of_ne (Nat.lt_succ_iff.mp hlt) hne
      have hbev : (s.accepted c fd).bev e = s.bev e := Function.update_of_ne hne ..
      rw [hbev] at hen hfr
      obtain ⟨d, hd, hde⟩ := h.callbacks e (Server.live_iff.mpr ⟨hlt', hen, hfr⟩)
      exact ⟨d, List.mem_append_left _ hd, hde.accepted (hnot d hd) fd⟩

/-- A connection ends and its channel is idle again. -/
theorem departed (h : PoolInv N s) (hc : c ∈ s.listConnectClient) (hcb : s.Serves c b)
    (packs : List (Pack α)) : PoolInv N (s.departed c b packs) := by
  refine ⟨h.recycled.release hc, fun d hd => ?_, fun d hd => ?_, fun d hd => ?_, fun e he => ?_⟩
  · by_cases hdc : d = c
    · subst hdc; simpa [Server.departed] using h.ids d hd
    · simpa [Server.departed, hdc] using h.ids d hd
  · rcases List.mem_append.mp hd with hd | hd
    · have hdc : d ≠ c := fun hdc => h.recycled.not_mem_free hc (hdc ▸ hd)
      simpa [Server.departed, hdc] using h.idle d hd
    · rw [List.mem_singleton.mp hd]
      simp [Server.departed]
  · obtain ⟨hd, hdc⟩ := List.mem_filter.mp hd
    obtain ⟨e, he⟩ := h.connected d hd
    exact ⟨e, he.departed hcb (by simpa using hdc) packs⟩
  · obtain ⟨hlt, hen, hfr⟩ := Server.live_iff.mp he
    have hne : e ≠ b := by
      rintro rfl
      simp [Server.departed] at hfr
    have hbev : (s.departed c b packs).bev e = s.bev e := Function.update_of_ne hne ..
    rw [hbev] at hen hfr
    obtain ⟨d, hd, hde⟩ := h.callbacks e (Server.live_iff.mpr ⟨hlt, hen, hfr⟩)
    have hdc : d ≠ c := by
      rintro rfl
      exact hne (hde.bev_unique hcb)
    exact ⟨d, List.mem_filter.mpr ⟨hd, by simpa using hdc⟩, hde.departed hcb hdc packs⟩

section Run

variable [Inhabited α] {P : ParseFunc α}

/-- A step of the server keeps the invariant. -/
theorem step {e : Event α} (h : PoolInv N s) (hst : s.step P e = some t) : PoolInv N t := by
  cases Server.happens_of_step hst with
  | notCreated | recvNull | noHangup => exact h
  | refused => exact h.refused _
  | accepted hq => exact h.accepted hq _
  | recv => exact h.input _ _ _
  | @hangup b c _ _ hl hc _ hx =>
    obtain ⟨hmem, hcb⟩ := h.serves_of_ctx hl hc
    obtain ⟨packs, -, rfl⟩ := Server.exec_socketFdDel hcb.buffer hx
    exact h.departed hmem hcb packs
  | frame hx => exact Server.inv_of_frame (fun _ _ _ _ h _ => h.input _ _ _) h hx

end Run

end PoolInv

/-! ### From the start -/

/-- The loop of `Initialize` makes the channels one after the other. -/
theorem foldl_addIChannel (s : Server α) (hq : s.queueILoop = []) (k : ℕ) :
    (List.range' 1 k).foldl Server.addIChannel s =
      { s with
        queueILoop := List.range k
        chan := fun c => if c < k then { IChannel.new with ichannelID := c + 1 } else s.chan c } := by
  induction k with
  | zero => cases s; simp_all
  | succ k ih =>
    rw [List.range'_1_concat, List.foldl_append, ih]
    simp only [List.foldl_cons, List.foldl_nil, Server.addIChannel, List.length_range,
      IChannel.setIChannelID, IChannel.new, if_true, List.range_succ]
    congr 1
    funext c
    by_cases hc : c = k
    · subst hc; simp [Nat.add_comm]
    · have hlt : c < k + 1 ↔ c < k := Nat.lt_succ_iff_lt_or_eq.trans (or_iff_left hc)
      rw [Function.update_of_ne hc]
      simp only [hlt]

theorem resourceInitialize_eq (N : ℕ) :
    (Server.resourceInitialize N : Server α) =
      { ichannelNum := N
        queueILoop := List.range N
        listConnectClient := []
        chan := fun c => if c < N then { IChannel.new with ichannelID := c + 1 } else .new
        bev := fun _ => { fd := 0, ctx := none, enabled := false, freed := 0 }
        nbev := 0
        evFreed := fun _ => 0
        deleted := fun _ => 0
        log := [] } :=
  foldl_addIChannel _ rfl N

theorem PoolInv.start (N : ℕ) : PoolInv N (Server.resourceInitialize N : Server α) := by
  rw [resourceInitialize_eq]
  refine ⟨⟨List.nodup_range, by simp⟩, fun c hc => ?_, fun c hc => ?_, by simp, fun b hb => ?_⟩
  · simp [hc]
  · simp [List.mem_range.mp hc, IChannel.new]
  · simp [Server.live] at hb

/-- What the two containers and the fields of the channels say together. -/
structure ChannelPool [Inhabited α] (N : ℕ) (s : Server α) : Prop where
  /-- The containers hold the channels, each once. -/
  perm : (s.queueILoop ++ s.listConnectClient).Perm (List.range N)
  nodup : (s.queueILoop ++ s.listConnectClient).Nodup
  /-- The channels' ids are `1`, …, `N`. -/
  ids : ∀ c < N, (s.chan c).ichannelID = c + 1
  login_iff : ∀ c < N, c ∈ s.listConnectClient ↔ (s.chan c).ichStatus = .clientLogin
  buffer_iff : ∀ c < N, c ∈ s.listConnectClient ↔ (s.chan c).buffer ≠ none
  /-- Two connected channels have two different connections, and their sockets. -/
  own : ∀ c ∈ s.listConnectClient, ∀ d ∈ s.listConnectClient, c ≠ d → ∃ b e,
    (s.chan c).buffer = some b ∧ (s.chan c).socket = (s.bev b).fd ∧
      (s.chan d).buffer = some e ∧ (s.chan d).socket = (s.bev e).fd ∧
      b < s.nbev ∧ e < s.nbev ∧ b ≠ e
  /-- `AllocationIChannel` succeeds exactly if fewer than `N` clients are connected. -/
  succeeds_iff : ∀ b fd, (s.allocationIChannel b fd).2 = true ↔ s.listConnectClient.length < N
  /-- Where it fails, it frees the `bufferevent` and changes nothing else. -/
  refused : ∀ (P : ParseFunc α) (b : BevId) (fd : ℤ), (s.allocationIChannel b fd).2 = false →
    ∃ t, exec (Op.run P) s (s.allocationIChannel b fd).1 = some t ∧ t.chan = s.chan ∧
      t.queueILoop = s.queueILoop ∧ t.listConnectClient = s.listConnectClient ∧
      (t.bev b).freed = (s.bev b).freed + 1

theorem Server.allocationIChannel_snd {s : Server α} {b : BevId} {fd : ℤ} :
    (s.allocationIChannel b fd).2 = true ↔ s.queueILoop ≠ [] := by
  unfold Server.allocationIChannel
  cases s.queueILoop <;> simp

theorem PoolInv.channelPool [Inhabited α] {N : ℕ} {s : Server α} (h : PoolInv N s) : ChannelPool N s where
  perm := h.recycled.perm
  nodup := h.recycled.nodup_append
  ids := h.ids
  login_iff c hc := by
    rcases h.recycled.mem_iff.mp (List.mem_range.mpr hc) with hq | hl
    · have hn : c ∉ s.listConnectClient := fun hl => h.recycled.not_mem_free hl hq
      simp [hn, (h.idle c hq).1]
    · obtain ⟨b, hb⟩ := h.connected c hl
      simp [hl, hb.login]
  buffer_iff c hc := by
    rcases h.recycled.mem_iff.mp (List.mem_range.mpr hc) with hq | hl
    · have hn : c ∉ s.listConnectClient := fun hl => h.recycled.not_mem_free hl hq
      simp [hn, (h.idle c hq).2]
    · obtain ⟨b, hb⟩ := h.connected c hl
      simp [hl, hb.buffer]
  own c hc d hd hcd := by
    obtain ⟨b, hb⟩ := h.connected c hc
    obtain ⟨e, he⟩ := h.connected d hd
    refine ⟨b, e, hb.buffer, hb.socket, he.buffer, he.socket, hb.lt, he.lt, ?_⟩
    rintro rfl
    exact hcd (hb.chan_unique he)
  succeeds_iff b fd := by
    rw [Server.allocationIChannel_snd, h.recycled.free_ne_nil_iff, List.length_range]
  refused P b fd hf := by
    unfold Server.allocationIChannel at hf ⊢
    cases hq : s.queueILoop with
    | nil => exact ⟨s.buffereventFree b, rfl, rfl, hq, rfl, by simp [Server.buffereventFree]⟩
    | cons c q => rw [hq] at hf; cases hf

/-- **The channel pool.** In every state the server reaches, whatever parse function
is bound, the containers and the channels agree as `ChannelPool` says. -/
theorem channelPool_of_exec [Inhabited α] (P : ParseFunc α) (N : ℕ) (es : List (Event α))
    (s : Server α) (h : exec (Server.step P) (Server.resourceInitialize N) es = some s) :
    ChannelPool N s :=
  (inv_of_exec (fun _ _ _ hs ht => hs.step ht) (PoolInv.start N) h).channelPool

/-- Two connections come to a server with one channel, the second is refused; then the
first ends and a third one takes its channel. -/
def threeClients : List (Event UInt8) :=
  [.listen 7 true, .listen 8 true, .event 0 bevEventEof, .listen 9 true]

theorem channelPool_threeClients :
    ∃ s, exec (Server.step recvValuesFromString) (Server.resourceInitialize 1) threeClients = some s ∧
      s.listConnectClient = [0] ∧ (s.chan 0).buffer = some 2 ∧ ChannelPool 1 s :=
  ⟨_, rfl, rfl, rfl, channelPool_of_exec recvValuesFromString 1 threeClients _ rfl⟩

end Syinx.Tcp
