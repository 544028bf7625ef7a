import Syinx.Tcp.ChannelPool

/-!
# Input is conserved

With `RecvValuesFromString` bound, nothing a connection sends is lost, doubled or
reordered on its way through a channel: what the packs of a channel carried and
what is still in its input buffer is what was moved into the buffer. A frame
serves each connected channel once, `BUFFSIZE` bytes at most.

## What is proved

* `Conserved.step` — the ledger of every channel is kept by every callback and
  every frame.
* `frame_spec` — a frame, channel by channel.
* `quiet_run` — what the frames of a run do to a connected channel that gets no
  new input.
* `conservation_of_exec` — the three of them for every state the server reaches.
-/

namespace Syinx.Tcp

open Syinx.Library

variable {α : Type}

/-- The bytes a recorded event handed to `RecvClientPack` of channel `c`. -/
def Ev.delivers (c : Ptr) : Ev α → List α
  | .pack d _ p => if d = c then p.data else []
  | _ => []

/-- The bytes a recorded event moved into the input buffer of channel `c`. -/
def Ev.receives (c : Ptr) : Ev α → List α
  | .recv d _ data => if d = c then data else []
  | _ => []

/-- All bytes handed to `RecvClientPack` of channel `c`. -/
def delivered (c : Ptr) (log : List (Ev α)) : List α := log.flatMap (Ev.delivers c)

/-- All bytes moved into the input buffer of channel `c`. -/
def received (c : Ptr) (log : List (Ev α)) : List α := log.flatMap (Ev.receives c)

/-- The ledger of every channel is in balance. -/
def Conserved (s : Server α) : Prop :=
  ∀ c, delivered c s.log ++ (s.chan c).inputEvbuffer = received c s.log

/-! ### What is recorded -/

section Log

variable {c d : Ptr} {es fs : List (Ev α)} {packs : List (Pack α)} {ch : IChannel α}

@[simp] theorem delivered_append : delivered c (es ++ fs) = delivered c es ++ delivered c fs :=
  List.flatMap_append

@[simp] theorem received_append : received c (es ++ fs) = received c es ++ received c fs :=
  List.flatMap_append

@[simp] theorem delivered_nil : delivered c ([] : List (Ev α)) = [] := rfl

@[simp] theorem received_nil : received c ([] : List (Ev α)) = [] := rfl

@[simp] theorem delivered_login : delivered c [(.login d : Ev α)] = [] := rfl

@[simp] theorem received_login : received c [(.login d : Ev α)] = [] := rfl

@[simp] theorem delivered_logout : delivered c [(.logout d : Ev α)] = [] := rfl

@[simp] theorem received_logout : received c [(.logout d : Ev α)] = [] := rfl

@[simp] theorem delivered_recv {b : BevId} {data : List α} :
    delivered c [(.recv d b data : Ev α)] = [] := rfl

@[simp] theorem received_recv {b : BevId} {data : List α} :
    received c [(.recv d b data : Ev α)] = if d = c then data else [] := by
  simp [received, Ev.receives]

/-- The packs of a channel deliver their bytes to it. -/
theorem delivered_packs_self :
    delivered c (packs.flatMap (recvClientPack c ch)) = (packs.map Pack.data).flatten := by
  induction packs with
  | nil => rfl
  | cons p packs ih =>
    rw [List.flatMap_cons, delivered_append, ih, List.map_cons, List.flatten_cons]
    congr 1
    unfold recvClientPack
    split_ifs <;> simp [delivered, Ev.delivers]

/-- They deliver nothing to another one. -/
theorem delivered_packs_of_ne (h : d ≠ c) :
    delivered d (packs.flatMap (recvClientPack c ch)) = [] := by
  induction packs with
  | nil => rfl
  | cons p packs ih =>
    rw [List.flatMap_cons, delivered_append, ih]
    unfold recvClientPack
    split_ifs <;> simp [delivered, Ev.delivers, h.symm]

@[simp] theorem received_packs :
    received d (packs.flatMap (recvClientPack c ch)) = [] := by
  induction packs with
  | nil => rfl
  | cons p packs ih =>
    rw [List.flatMap_cons, received_append, ih]
    unfold recvClientPack
    split_ifs <;> simp [received, Ev.receives]

end Log

/-! ### The ledger -/

section Ledger

variable [Inhabited α] {s t : Server α} {c : Ptr} {b : BevId} {packs : List (Pack α)}

/-- What the packs of a served channel carry is what left its input buffer. -/
theorem packs_data (h : (s.chan c).onStatusDoAction recvValuesFromString =
      some ({ s.chan c with inputEvbuffer := (s.chan c).inputEvbuffer.drop buffsize }, packs)) :
    (packs.map Pack.data).flatten = (s.chan c).inputEvbuffer.take buffsize := by
  obtain ⟨packs', he, hd⟩ := (s.chan c).onStatusDoAction_recvValues
  rw [h] at he
  cases he
  exact hd

/-- Serving a channel, for each of the channels. -/
theorem served_spec (h : (s.chan c).onStatusDoAction recvValuesFromString =
      some ({ s.chan c with inputEvbuffer := (s.chan c).inputEvbuffer.drop buffsize }, packs))
    (d : Ptr) :
    delivered d (s.served c packs).log =
        delivered d s.log ++ (if d = c then (s.chan d).inputEvbuffer.take buffsize else []) ∧
      ((s.served c packs).chan d).inputEvbuffer =
        (if d = c then (s.chan d).inputEvbuffer.drop buffsize else (s.chan d).inputEvbuffer) := by
  by_cases hd : d = c
  · subst hd
    simp [Server.served, Server.record, Server.setChan, delivered_packs_self, packs_data h]
  · simp [Server.served, Server.record, Server.setChan, delivered_packs_of_ne hd, hd]

theorem Conserved.served (hs : Conserved s)
    (h : (s.chan c).onStatusDoAction recvValuesFromString =
      some ({ s.chan c with inputEvbuffer := (s.chan c).inputEvbuffer.drop buffsize }, packs)) :
    Conserved (s.served c packs) := by
  intro d
  obtain ⟨hdel, hin⟩ := served_spec h d
  have hrec : received d (s.served c packs).log = received d s.log := by
    simp [Server.served, Server.record, Server.setChan]
  rw [hdel, hin, hrec, ← hs d]
  split_ifs
  · rw [List.append_assoc, List.take_append_drop]
  · rw [List.append_nil]

theorem Conserved.departed (hs : Conserved s)
    (h : (s.chan c).onStatusDoAction recvValuesFromString =
      some ({ s.chan c with inputEvbuffer := (s.chan c).inputEvbuffer.drop buffsize }, packs)) :
    Conserved (s.departed c b packs) := by
  intro d
  by_cases hd : d = c
  · subst hd
    simp [Server.departed, delivered_packs_self, packs_data h, ← hs d]
  · simp [Server.departed, delivered_packs_of_ne hd, hd, ← hs d]

/-- A step of the server keeps the ledgers. -/
theorem Conserved.step {N : ℕ} {e : Event α} (hs : Conserved s) (hp : PoolInv N s)
    (hst : s.step recvValuesFromString e = some t) : Conserved t := by
  cases Server.happens_of_step hst with
  | notCreated | recvNull | noHangup => exact hs
  | refused => exact hs
  | @accepted _ c =>
    intro d
    by_cases hd : d = c
    · subst hd; simpa [Server.accepted] using hs d
    · simpa [Server.accepted, hd] using hs d
  | @recv b c data =>
    intro d
    by_cases hd : d = c
    · subst hd
      simp [Server.record, Server.setChan, IChannel.readBuffer, ← hs d]
    · simpa [Server.record, Server.setChan, hd, Ne.symm hd] using hs d
  | hangup hl hc _ hx =>
    obtain ⟨packs, hr, rfl⟩ := Server.exec_socketFdDel (hp.serves_of_ctx hl hc).2.buffer hx
    exact hs.departed hr
  | frame hx => exact Server.inv_of_frame (fun _ _ _ _ h hr => h.served hr) hs hx

/-! ### Frames -/

/-- Serving the channels of a list one after the other. -/
theorem exec_serve (l : List Ptr) (hl : l.Nodup) (s : Server α) :
    ∃ t, exec (Op.run recvValuesFromString) s (l.map .onStatusDoAction) = some t ∧ ∀ d,
      delivered d t.log =
          delivered d s.log ++ (if d ∈ l then (s.chan d).inputEvbuffer.take buffsize else []) ∧
        (t.chan d).inputEvbuffer =
          (if d ∈ l then (s.chan d).inputEvbuffer.drop buffsize else (s.chan d).inputEvbuffer) := by
  induction l generalizing s with
  | nil => exact ⟨s, rfl, fun d => by simp⟩
  | cons c l ih =>
    obtain ⟨hc, hl⟩ := List.nodup_cons.mp hl
    obtain ⟨packs, hr, -⟩ := (s.chan c).onStatusDoAction_recvValues
    obtain ⟨t, ht, hspec⟩ := ih hl (s.served c packs)
    refine ⟨t, ?_, fun d => ?_⟩
    · have hrun : Op.run recvValuesFromString s (.onStatusDoAction c) = some (s.served c packs) := by
        simp only [Op.run, hr, Option.map_some]
        rfl
      exact exec_cons_eq_some.mpr ⟨_, hrun, ht⟩
    · obtain ⟨hdel, hin⟩ := hspec d
      obtain ⟨hdel', hin'⟩ := served_spec hr d
      rw [hdel, hin, hdel', hin']
      by_cases hd : d = c
      · subst hd; simp [hc]
      · simp [hd]

/-- **A frame**: each connected channel hands over the first `BUFFSIZE` bytes of its
input buffer, and no other channel does anything. -/
theorem frame_spec {N : ℕ} (hp : PoolInv N s) :
    ∃ t, s.step recvValuesFromString .frame = some t ∧ ∀ d,
      delivered d t.log = delivered d s.log ++
          (if d ∈ s.listConnectClient then (s.chan d).inputEvbuffer.take buffsize else []) ∧
        (t.chan d).inputEvbuffer =
          (if d ∈ s.listConnectClient then (s.chan d).inputEvbuffer.drop buffsize
            else (s.chan d).inputEvbuffer) :=
  exec_serve s.listConnectClient hp.recycled.nodup_used s

/-- The event is a frame. -/
def Event.isFrame : Event α → Bool
  | .frame => true
  | _ => false

/-- The event neither brings input of the connection `b` nor ends it. -/
def Event.quiet (b : BevId) : Event α → Prop
  | .recv e _ => e ≠ b
  | .event e what => e = b → hangsUp what = false
  | _ => True

/-- A step that neither brings input of a connection nor ends it. -/
theorem quiet_step {N : ℕ} {e : Event α} (hp : PoolInv N s) (h : s.Serves c b) (he : e.quiet b)
    (hst : s.step recvValuesFromString e = some t) :
    t.Serves c b ∧
      delivered c t.log = delivered c s.log ++
        (s.chan c).inputEvbuffer.take (if e.isFrame then buffsize else 0) ∧
      (t.chan c).inputEvbuffer = (s.chan c).inputEvbuffer.drop (if e.isFrame then buffsize else 0) := by
  have hmem : c ∈ s.listConnectClient := (hp.serves_of_ctx h.live h.ctx).1
  cases Server.happens_of_step hst with
  | notCreated | recvNull | noHangup => simp [h, Event.isFrame]
  | refused => exact ⟨h.refused _, by simp [Server.buffereventFree, Server.buffereventSocketNew,
      Event.isFrame]⟩
  | @accepted fd d q hq =>
    have hcd : c ≠ d := by
      rintro rfl
      exact hp.recycled.not_mem_free hmem (by rw [hq]; exact List.mem_cons_self)
    exact ⟨h.accepted hcd fd, by simp [Server.accepted, Event.isFrame, hcd]⟩
  | @recv e d data hl hd =>
    have hcd : c ≠ d := by
      rintro rfl
      exact he ((hp.serves_of_ctx hl hd).2.bev_unique h)
    exact ⟨h.input _ _ _, by simp [Server.record, Server.setChan, Event.isFrame, hcd]⟩
  | @hangup e d what _ hl hd hw hx =>
    obtain ⟨-, hde⟩ := hp.serves_of_ctx hl hd
    have hcd : c ≠ d := by
      rintro rfl
      rw [he (hde.bev_unique h)] at hw
      cases hw
    obtain ⟨packs, -, rfl⟩ := Server.exec_socketFdDel hde.buffer hx
    refine ⟨h.departed hde hcd packs, ?_⟩
    simp [Server.departed, Event.isFrame, hcd, delivered_packs_of_ne hcd]
  | frame hx =>
    obtain ⟨t', ht', hspec⟩ := frame_spec hp
    rw [hst] at ht'
    cases ht'
    obtain ⟨hdel, hin⟩ := hspec c
    refine ⟨?_, by simpa [Event.isFrame, hmem] using hdel, by simpa [Event.isFrame, hmem] using hin⟩
    exact Server.inv_of_frame (I := fun s => s.Serves c b) (fun _ _ _ _ h _ => h.input _ _ _) h hx

/-- A run in which a connected channel gets no new input: its frames hand over what was
in its input buffer, `BUFFSIZE` bytes each. -/
theorem quiet_run {N : ℕ} {es : List (Event α)} (hp : PoolInv N s) (h : s.Serves c b)
    (he : ∀ e ∈ es, e.quiet b) (hx : exec (Server.step recvValuesFromString) s es = some t) :
    delivered c t.log = delivered c s.log ++
        (s.chan c).inputEvbuffer.take (buffsize * es.countP Event.isFrame) ∧
      (t.chan c).inputEvbuffer =
        (s.chan c).inputEvbuffer.drop (buffsize * es.countP Event.isFrame) := by
  induction es generalizing s with
  | nil => cases hx; simp
  | cons e es ih =>
    obtain ⟨u, hu, hx⟩ := exec_cons_eq_some.mp hx
    obtain ⟨hserves, hdel, hin⟩ := quiet_step hp h (he e List.mem_cons_self) hu
    obtain ⟨hdel', hin'⟩ := ih (hp.step hu) hserves
      (fun e' he' => he e' (List.mem_cons_of_mem e he')) hx
    have hcount : buffsize * (e :: es).countP Event.isFrame =
        (if e.isFrame then buffsize else 0) + buffsize * es.countP Event.isFrame := by
      rw [List.countP_cons, Nat.mul_add, Nat.add_comm]
      split_ifs <;> simp
    rw [hdel', hin', hdel, hin, hcount, List.take_add, List.drop_drop, List.append_assoc]
    exact ⟨rfl, rfl⟩

/-! ### Every run -/

/-- What the server promises the connections about their input. -/
structure Conserves (s : Server α) : Prop where
  /-- The packs of a channel and what is left in its input buffer are what it received. -/
  ledger : ∀ c, delivered c s.log ++ (s.chan c).inputEvbuffer = received c s.log
  /-- A frame serves the connected channels, each once, and no other. -/
  frame : ∃ t, s.step recvValuesFromString .frame = some t ∧ ∀ c,
    delivered c t.log = delivered c s.log ++
        (if c ∈ s.listConnectClient then (s.chan c).inputEvbuffer.take buffsize else []) ∧
      (t.chan c).inputEvbuffer =
        (if c ∈ s.listConnectClient then (s.chan c).inputEvbuffer.drop buffsize
          else (s.chan c).inputEvbuffer)
  /-- A backlog is delivered by as many frames as it has `BUFFSIZE`s. -/
  backlog : ∀ c b es t, c ∈ s.listConnectClient → (s.chan c).buffer = some b →
    (∀ e ∈ es, e.quiet b) → exec (Server.step recvValuesFromString) s es = some t →
    ((s.chan c).inputEvbuffer.length + buffsize - 1) / buffsize ≤ es.countP Event.isFrame →
    delivered c t.log = delivered c s.log ++ (s.chan c).inputEvbuffer ∧
      (t.chan c).inputEvbuffer = []

/-- **Conservation of input.** In every state the server reaches with
`RecvValuesFromString` bound, `Conserves` holds. -/
theorem conservation_of_exec (N : ℕ) (es : List (Event α)) (s : Server α)
    (h : exec (Server.step recvValuesFromString) (Server.resourceInitialize N) es = some s) :
    Conserves s := by
  have h0 : Conserved (Server.resourceInitialize N : Server α) := by
    intro c
    rw [resourceInitialize_eq]
    dsimp only
    split_ifs <;> rfl
  obtain ⟨hp, hs⟩ := inv_of_exec (I := fun s => PoolInv N s ∧ Conserved s)
    (fun s e t hs ht => ⟨hs.1.step ht, hs.2.step hs.1 ht⟩) ⟨PoolInv.start N, h0⟩ h
  refine ⟨hs, frame_spec hp, fun c b fs t hc hb hfs hx hn => ?_⟩
  obtain ⟨b', hb'⟩ := hp.connected c hc
  obtain rfl : b' = b := Option.some.inj (hb'.buffer.symm.trans hb)
  obtain ⟨hdel, hin⟩ := quiet_run hp hb' hfs hx
  have hle : (s.chan c).inputEvbuffer.length ≤ buffsize * fs.countP Event.isFrame := by
    have hpos := buffsize_pos
    have := Nat.lt_succ_iff.mpr hn
    rw [Nat.div_lt_iff_lt_mul hpos] at this
    rw [Nat.succ_mul, Nat.mul_comm] at this
    omega
  rw [hdel, hin, List.take_of_length_le hle, List.drop_eq_nil_of_le hle]
  exact ⟨rfl, rfl⟩

/-- Bytes arrive, a frame delivers them. -/
def readAndFrame : List (Event UInt8) := [.listen 7 true, .recv 0 [1, 2, 3], .frame]

theorem conservation_readAndFrame :
    ∃ s, exec (Server.step recvValuesFromString) (Server.resourceInitialize 1) readAndFrame = some s ∧
      received 0 s.log = [1, 2, 3] ∧ Conserves s := by
  refine ⟨_, rfl, rfl, ?_⟩
  exact conservation_of_exec 1 readAndFrame _ rfl

end Ledger

end Syinx.Tcp
