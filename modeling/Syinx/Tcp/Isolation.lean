import Syinx.Tcp.Conservation
import Syinx.Tcp.Marking

/-!
# Sessions and their bytes

A channel is handed from one client to the next. The bytes of a run are marked
with the connection they were read from (`Syinx.Tcp.Marking`), so that one can
say whose bytes a channel hands to `SendDataToClient`.

`IChannel::Clear` runs `OnStatusDoAction` once more, which takes `BUFFSIZE` bytes
at most; it does not empty `m_Inputevbuffer`. What is left there is the first
input of the next client of the channel.

## What is proved

* `isolated_step` — what one event does to the separation of the sessions.
* `isolated_iff` — a run keeps the sessions apart in every state exactly if each
  connection that ends in it has at most `BUFFSIZE` unread bytes then.
-/

namespace Syinx.Tcp

open Syinx.Library

/-- The sessions are kept apart. -/
structure Isolated (s : Server RByte) : Prop where
  /-- What a channel hands to `SendDataToClient` was read from the connection it serves. -/
  own : ∀ c serving p, Ev.pack c serving p ∈ s.log →
    ∀ x ∈ p.data, ∃ b, serving = some b ∧ x.src = some b
  /-- A channel that can be handed to a new client has no unread bytes. -/
  idle : ∀ c ∈ s.queueILoop, (s.chan c).inputEvbuffer = []

/-- The unread bytes of a connected channel are its connection's. -/
def Fed (s : Server RByte) : Prop :=
  ∀ c ∈ s.listConnectClient, ∀ x ∈ (s.chan c).inputEvbuffer, x.src = (s.chan c).buffer

/-- If the event ends a connection, at most `BUFFSIZE` bytes of it are unread. -/
def ShortBacklog (s : Server RByte) : Event UInt8 → Prop
  | .event b what => hangsUp what = true → ∀ c, (s.bev b).ctx = some c →
      (s.chan c).inputEvbuffer.length ≤ buffsize
  | _ => True

section

variable {N : ℕ} {s t : Server RByte} {c d : Ptr} {b : BevId} {packs : List (Pack RByte)}

/-! ### What is handed over -/

/-- The packs recorded for a served channel are its packs. -/
theorem mem_packs {α : Type} {ch : IChannel α} {packs : List (Pack α)} {serving : Option BevId}
    {p : Pack α} (h : Ev.pack d serving p ∈ packs.flatMap (recvClientPack c ch)) :
    serving = ch.buffer ∧ p ∈ packs := by
  obtain ⟨q, hq, hp⟩ := List.mem_flatMap.mp h
  unfold recvClientPack at hp
  split_ifs at hp <;> simp at hp <;> obtain ⟨-, rfl, rfl⟩ := hp <;> exact ⟨rfl, hq⟩

/-- Where a connected channel's unread bytes are its own, so are the bytes it hands over. -/
theorem own_packs (hf : ∀ x ∈ (s.chan c).inputEvbuffer, x.src = (s.chan c).buffer)
    (hb : (s.chan c).buffer = some b)
    (hr : (s.chan c).onStatusDoAction recvValuesFromString =
      some ({ s.chan c with inputEvbuffer := (s.chan c).inputEvbuffer.drop buffsize }, packs))
    {serving : Option BevId} {p : Pack RByte}
    (h : Ev.pack d serving p ∈ packs.flatMap (recvClientPack c (s.chan c))) :
    ∀ x ∈ p.data, ∃ b, serving = some b ∧ x.src = some b := by
  obtain ⟨rfl, hp⟩ := mem_packs h
  intro x hx
  have hx' : x ∈ (packs.map Pack.data).flatten :=
    List.mem_flatten.mpr ⟨p.data, List.mem_map_of_mem hp, hx⟩
  rw [packs_data hr] at hx'
  exact ⟨b, hb, (hf x (List.mem_of_mem_take hx')).trans hb⟩

/-! ### The steps -/

/-- A connected channel is served. -/
theorem Isolated.served (hs : Isolated s) (hf : Fed s) (hp : PoolInv N s)
    (hc : c ∈ s.listConnectClient)
    (hr : (s.chan c).onStatusDoAction recvValuesFromString =
      some ({ s.chan c with inputEvbuffer := (s.chan c).inputEvbuffer.drop buffsize }, packs)) :
    Isolated (s.served c packs) ∧ Fed (s.served c packs) := by
  obtain ⟨b, hb⟩ := hp.connected c hc
  refine ⟨⟨fun d serving p h => ?_, fun d hd => ?_⟩, fun d hd x hx => ?_⟩
  · rcases List.mem_append.mp h with h | h
    · exact hs.own d serving p h
    · exact own_packs (hf c hc) hb.buffer hr h
  · have hdc : d ≠ c := by
      rintro rfl
      exact hp.recycled.not_mem_free hc hd
    simpa [Server.served, Server.record, Server.setChan, hdc] using hs.idle d hd
  · by_cases hdc : d = c
    · subst hdc
      simp only [Server.served, Server.record, Server.setChan, Function.update_self] at hx ⊢
      exact hf d hc x (List.mem_of_mem_drop hx)
    · simp only [Server.served, Server.record, Server.setChan, Function.update_of_ne hdc] at hx ⊢
      exact hf d hd x hx

/-- A connection ends: the other channels' unread bytes are theirs still. -/
theorem Fed.departed (hf : Fed s) : Fed (s.departed c b packs) := by
  intro d hd x hx
  obtain ⟨hd', hdc⟩ := List.mem_filter.mp hd
  have hdc' : d ≠ c := by simpa using hdc
  simp only [Server.departed, Function.update_of_ne hdc'] at hx ⊢
  exact hf d hd' x hx

/-- A connection ends: the channel is clean exactly if the backlog was short. -/
theorem isolated_departed_iff (hs : Isolated s) (hf : Fed s) (hc : c ∈ s.listConnectClient)
    (hcb : s.Serves c b)
    (hr : (s.chan c).onStatusDoAction recvValuesFromString =
      some ({ s.chan c with inputEvbuffer := (s.chan c).inputEvbuffer.drop buffsize }, packs)) :
    Isolated (s.departed c b packs) ↔ (s.chan c).inputEvbuffer.length ≤ buffsize := by
  have hlast : ((s.departed c b packs).chan c).inputEvbuffer =
      (s.chan c).inputEvbuffer.drop buffsize := by simp [Server.departed]
  constructor
  · intro hi
    have := hi.idle c (List.mem_append_right _ (List.mem_singleton_self c))
    rwa [hlast, List.drop_eq_nil_iff] at this
  · intro hlen
    refine ⟨fun d serving p h => ?_, fun d hd => ?_⟩
    · rcases List.mem_append.mp h with h | h
      · rcases List.mem_append.mp h with h | h
        · exact hs.own d serving p h
        · exact own_packs (hf c hc) hcb.buffer hr h
      · simp at h
    · by_cases hdc : d = c
      · subst hdc
        rw [hlast, List.drop_eq_nil_of_le hlen]
      · have hd' : d ∈ s.queueILoop := by simpa [Server.departed, hdc] using hd
        simpa [Server.departed, hdc] using hs.idle d hd'

/-- A connection is accepted by an idle channel. -/
theorem Isolated.accepted (hs : Isolated s) (hf : Fed s) (hp : PoolInv N s) {q : List Ptr}
    (hq : s.queueILoop = c :: q) (fd : ℤ) : Isolated (s.accepted c fd) ∧ Fed (s.accepted c fd) := by
  have hc : c ∈ s.queueILoop := by rw [hq]; exact List.mem_cons_self
  have hnd : c ∉ q := by
    have := hp.recycled.nodup_append
    rw [hq, List.cons_append, List.nodup_cons] at this
    exact fun h => this.1 (List.mem_append_left _ h)
  refine ⟨⟨fun d serving p h => ?_, fun d hd => ?_⟩, fun d hd x hx => ?_⟩
  · rcases List.mem_append.mp h with h | h
    · exact hs.own d serving p h
    · simp at h
  · have hd' : d ∈ q := by simpa [Server.accepted, hq] using hd
    have hdc : d ≠ c := by
      rintro rfl
      exact hnd hd'
    simpa [Server.accepted, hdc] using hs.idle d (by rw [hq]; exact List.mem_cons_of_mem _ hd')
  · by_cases hdc : d = c
    · subst hdc
      simp [Server.accepted, hs.idle d hc] at hx
    · have hd' : d ∈ s.listConnectClient := by simpa [Server.accepted, hdc] using hd
      simp only [Server.accepted, Function.update_of_ne hdc] at hx ⊢
      exact hf d hd' x hx

/-- Bytes of a connection are read into its channel. -/
theorem Isolated.recv (hs : Isolated s) (hf : Fed s) (hp : PoolInv N s)
    (hc : c ∈ s.listConnectClient) (hcb : s.Serves c b) (data : List UInt8) :
    let t := (s.setChan c ((s.chan c).readBuffer (data.map fun x => ⟨some b, x⟩))).record
      [.recv c b (data.map fun x => ⟨some b, x⟩)]
    Isolated t ∧ Fed t := by
  refine ⟨⟨fun d serving p h => ?_, fun d hd => ?_⟩, fun d hd x hx => ?_⟩
  · rcases List.mem_append.mp h with h | h
    · exact hs.own d serving p h
    · simp at h
  · have hdc : d ≠ c := by
      rintro rfl
      exact hp.recycled.not_mem_free hc hd
    simpa [Server.record, Server.setChan, hdc] using hs.idle d hd
  · by_cases hdc : d = c
    · subst hdc
      simp only [Server.record, Server.setChan, Function.update_self, IChannel.readBuffer] at hx ⊢
      rcases List.mem_append.mp hx with hx | hx
      · exact hf d hd x hx
      · obtain ⟨y, -, rfl⟩ := List.mem_map.mp hx
        exact hcb.buffer.symm
    · simp only [Server.record, Server.setChan, Function.update_of_ne hdc] at hx ⊢
      exact hf d hd x hx

/-- **One step**: from a state in which the sessions are apart, an event leads to such a
state exactly if it does not end a connection with a long backlog. -/
theorem isolated_step {e : Event UInt8} (hp : PoolInv N s) (hs : Isolated s) (hf : Fed s)
    (hst : markedStep s e = some t) : Fed t ∧ (Isolated t ↔ ShortBacklog s e) := by
  have hgood : ∀ {t}, Isolated t ∧ Fed t → ShortBacklog s e →
      Fed t ∧ (Isolated t ↔ ShortBacklog s e) := fun h he => ⟨h.2, iff_of_true h.1 he⟩
  cases e with
  | listen fd created =>
    cases Server.happens_of_step hst with
    | notCreated => exact hgood ⟨hs, hf⟩ trivial
    | refused => exact hgood ⟨⟨hs.own, hs.idle⟩, hf⟩ trivial
    | accepted hq => exact hgood (hs.accepted hf hp hq fd) trivial
  | recv b data =>
    cases Server.happens_of_step hst with
    | recvNull => exact hgood ⟨hs, hf⟩ trivial
    | recv hl hc =>
      obtain ⟨hmem, hcb⟩ := hp.serves_of_ctx hl hc
      exact hgood (hs.recv hf hp hmem hcb data) trivial
  | event b what =>
    cases Server.happens_of_step hst with
    | noHangup _ hw => exact hgood ⟨hs, hf⟩ fun h => by rw [hw] at h; cases h
    | hangup hl hc hw hx =>
      obtain ⟨hmem, hcb⟩ := hp.serves_of_ctx hl hc
      obtain ⟨packs, hr, rfl⟩ := Server.exec_socketFdDel hcb.buffer hx
      refine ⟨hf.departed, ?_⟩
      rw [isolated_departed_iff hs hf hmem hcb hr]
      simp [ShortBacklog, hw, hc]
  | frame =>
    cases Server.happens_of_step hst with
    | frame hx =>
      refine hgood ?_ trivial
      have hall := Server.inv_of_frame
        (I := fun u => PoolInv N u ∧ u.listConnectClient = s.listConnectClient ∧ Isolated u ∧ Fed u)
        ?_ ⟨hp, rfl, hs, hf⟩ hx
      · exact hall.2.2
      · rintro u c packs hc ⟨hpu, hlu, hsu, hfu⟩ hr
        exact ⟨hpu.input _ _ _, hlu, hsu.served hfu hpu (by rw [hlu]; exact hc) hr⟩

end

/-! ### Every run -/

/-- **Session isolation.** A run of the server keeps the sessions apart in every state
exactly if every connection that ends in it has at most `BUFFSIZE` unread bytes. -/
theorem isolated_iff (N : ℕ) (es : List (Event UInt8)) :
    Along markedStep Isolated (Server.resourceInitialize N) es ↔
      Guarded markedStep ShortBacklog (Server.resourceInitialize N) es := by
  have hp0 : PoolInv N (Server.resourceInitialize N : Server RByte) := .start N
  have hs0 : Isolated (Server.resourceInitialize N) := by
    rw [resourceInitialize_eq]
    refine ⟨by simp, fun c hc => ?_⟩
    simp [List.mem_range.mp hc, IChannel.new]
  have hf0 : Fed (Server.resourceInitialize N) := by
    rw [resourceInitialize_eq]
    intro c hc
    cases hc
  have hfed : Along markedStep Isolated (Server.resourceInitialize N) es ↔
      Along markedStep (fun s => Isolated s ∧ Fed s) (Server.resourceInitialize N) es := by
    constructor
    · refine Along.strengthen (I := fun s => PoolInv N s ∧ Fed s) (P := fun _ => True) ?_ ?_
        ⟨hp0, hf0⟩ fun _ _ => trivial
      · rintro s e t - ⟨hp, hf⟩ hs hst
        exact ⟨hp.step hst, (isolated_step hp hs hf hst).1⟩
      · exact fun s h hs => ⟨hs, h.2⟩
    · exact Along.mono fun s hs => hs.1
  rw [hfed]
  refine along_iff_guarded (I := PoolInv N) (fun s e t hp hst => hp.step hst) ?_ hp0 ⟨hs0, hf0⟩
  rintro s e t hp ⟨hs, hf⟩ hst
  obtain ⟨hft, hiff⟩ := isolated_step hp hs hf hst
  exact ⟨fun h => hiff.mp h.1, fun h => ⟨hiff.mpr h, hft⟩⟩

/-- A client sends one byte more than `BUFFSIZE` and hangs up; the next client gets its
channel, and a frame follows. -/
def overrun : List (Event UInt8) :=
  [.listen 7 true, .recv 0 (List.replicate (buffsize + 1) 1), .event 0 bevEventEof,
    .listen 8 true, .frame]

/-- The byte is among those a recorded event handed to `SendDataToClient` of channel `c`
while it served `b`. -/
def Ev.hands (c : Ptr) (b : BevId) (x : RByte) : Ev RByte → Bool
  | .pack d serving p => decide (d = c) && decide (serving = some b) && decide (x ∈ p.data)
  | _ => false

/-- The second client is sent a byte of the first. -/
theorem not_isolated_overrun :
    (∃ s, exec markedStep (Server.resourceInitialize 1) overrun = some s ∧
      s.log.any (Ev.hands 0 1 ⟨some 0, 1⟩) = true) ∧
      ¬ Along markedStep Isolated (Server.resourceInitialize 1) overrun := by
  have h : (exec markedStep (Server.resourceInitialize 1) overrun).any
      (fun s => s.log.any (Ev.hands 0 1 ⟨some 0, 1⟩)) = true := by decide +kernel
  obtain ⟨s, hs, hlog⟩ := (Option.any_eq_true _ _).mp h
  refine ⟨⟨s, hs, hlog⟩, fun halong => ?_⟩
  obtain ⟨e, he, hx⟩ := List.any_eq_true.mp hlog
  cases e with
  | pack d serving p =>
    simp only [Ev.hands, Bool.and_eq_true, decide_eq_true_eq] at hx
    obtain ⟨⟨rfl, rfl⟩, hx⟩ := hx
    obtain ⟨b, hb, hsrc⟩ := (halong.last hs).own _ _ p he _ hx
    cases hb
    cases hsrc
  | _ => cases hx

end Syinx.Tcp
