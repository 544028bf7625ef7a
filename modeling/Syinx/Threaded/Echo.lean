import Syinx.Threaded.Machine

/-!
# What is echoed

With `RecvValuesFromString` bound, the server sends back to a connection what it has
received from it. In the single-threaded build a frame does so at once. In the
threaded one the bytes of a connection may be in three places: still in the input
buffer of its channel, with a worker that has taken them off, or sent.

## What is proved

* `Ledger.step` — the three places together hold what was received, in order, as long
  as every step is `Orderly`: a worker overtakes no other one of the same channel, and
  `Clear` finds no byte in the buffer or with a worker.
* `echoes_of_orderly` — in a run of such steps, what is sent to a connection is what was
  received from it, in order, and all of it once the queued tasks have run.
* `not_echoes_overtaken` — two workers of one channel send its bytes the wrong way round.
-/

namespace Syinx.Threaded

open Syinx.Library Syinx.Tcp
open Syinx.Pthread (SyPthreadPoolTask ThreadPool SyinxPthreadPool AddTaskResults Tid Ret)

variable {α : Type}

/-! ### What is recorded about a connection -/

/-- The bytes of connection `b` a recorded event moved into an input buffer. -/
def readFrom (b : BevId) : Ev α → List α
  | .recv _ e data => if e = b then data else []
  | _ => []

/-- The bytes a recorded event wrote to connection `b`. -/
def writtenTo (b : BevId) : Ev α → List α
  | .write (some e) data => if e = b then data else []
  | _ => []

/-- All bytes received from connection `b`. -/
def receivedFrom (b : BevId) (s : Server α) : List α := s.log.flatMap (readFrom b)

/-- All bytes sent to connection `b`. -/
def echoed (b : BevId) (s : Server α) : List α := s.log.flatMap (writtenTo b)

/-- The bytes an operation moves into the input buffer of channel `c`. -/
def arrives (op : Op α) (c : Ptr) : List α :=
  match op with
  | .readBuffer d _ data => if c = d then data else []
  | _ => []

/-- The bytes of connection `b` an operation moves into an input buffer. -/
def brings (op : Op α) (b : BevId) : List α :=
  match op with
  | .readBuffer _ e data => if b = e then data else []
  | _ => []

/-- What an operation does to the input buffers and to the record. -/
theorem traffic_run [Inhabited α] {P : ParseFunc α} {s t : Server α} {op : Op α}
    (hop : ∀ c, op ≠ .onStatusDoAction c) (h : Op.run P s op = some t) :
    (∀ c, (t.chan c).inputEvbuffer = (s.chan c).inputEvbuffer ++ arrives op c) ∧
      (∀ b, receivedFrom b t = receivedFrom b s ++ brings op b) ∧ ∀ b, echoed b t = echoed b s := by
  cases op with
  | onStatusDoAction d => exact absurd rfl (hop d)
  | freeBuffer d =>
    rw [Op.run] at h
    cases hd : (s.chan d).buffer <;> rw [hd] at h <;> cases h <;>
      exact ⟨fun _ => (List.append_nil _).symm, fun _ => (List.append_nil _).symm, fun _ => rfl⟩
  | login d | logout d =>
    cases h
    refine ⟨fun c => (List.append_nil _).symm, fun b => ?_, fun b => ?_⟩
    · simp [receivedFrom, Server.record, readFrom, brings]
    · simp [echoed, Server.record, writtenTo]
  | setSocket d fd | setBuffer d x | setStatus d st =>
    cases h
    refine ⟨fun c => ?_, fun b => (List.append_nil _).symm, fun b => rfl⟩
    by_cases hc : c = d
    · subst hc; simp [Server.setChan, arrives]
    · simp [Server.setChan, arrives, hc]
  | readBuffer d e data =>
    cases h
    refine ⟨fun c => ?_, fun b => ?_, fun b => ?_⟩
    · by_cases hc : c = d
      · subst hc; simp [Server.record, Server.setChan, IChannel.readBuffer, arrives]
      · simp [Server.record, Server.setChan, arrives, hc]
    · simp [receivedFrom, Server.record, Server.setChan, readFrom, brings, eq_comm]
    · simp [echoed, Server.record, Server.setChan, writtenTo]
  | _ =>
    cases h
    exact ⟨fun _ => (List.append_nil _).symm, fun _ => (List.append_nil _).symm, fun _ => rfl⟩

/-- Bytes are read from the open connection of their channel. -/
theorem arrives_eq_brings {s : Server α} (hs : s.Sound) {op : Op α} (hp : s.Proper op) {c : Ptr}
    {b : BevId} (hb : s.Open c b) : arrives op c = brings op b := by
  cases op with
  | readBuffer d e data =>
    have hiff : c = d ↔ b = e := by
      constructor
      · rintro rfl
        exact hb.unique hp.1
      · rintro rfl
        exact hs.uniq c d b hb.1 hp.1.1
    simp only [arrives, brings, hiff]
  | _ => rfl

/-- None come from a connection that is not open. -/
theorem brings_eq_nil {s : Server α} {op : Op α} (hp : s.Proper op) {b : BevId}
    (hb : ∀ c, ¬ s.Open c b) : brings op b = [] := by
  cases op with
  | readBuffer d e data =>
    apply if_neg
    rintro rfl
    exact hb d hp.1
  | _ => rfl

/-- None go to a channel that has no connection. -/
theorem arrives_eq_nil {s : Server α} {op : Op α} (hp : s.Proper op) {c : Ptr}
    (hc : ∀ b, ¬ s.Open c b) : arrives op c = [] := by
  cases op with
  | readBuffer d e data =>
    apply if_neg
    rintro rfl
    exact hc e hp.1
  | _ => rfl

/-! ### What the workers hold -/

/-- The packs of channel `c` a worker there has not written yet. -/
def Pc.unsent (c : Ptr) : Pc α → List (Pack α)
  | send d packs => if d = c then packs else []
  | load d p packs | write d _ p packs => if d = c then p :: packs else []
  | _ => []

/-- A worker there has taken bytes off the input buffer. -/
def Pc.sending : Pc α → Bool
  | send .. | load .. | write .. => true
  | _ => false

namespace Kernel

/-- The bytes of channel `c` the workers have not written yet, in the order they were
taken off its input buffer. -/
def inflight (s : Kernel α) (c : Ptr) : List α :=
  s.order.flatMap fun i => ((s.pc i).unsent c).flatMap Pack.data

/-- All queued tasks have run, and the main thread is between two callbacks. -/
structure Quiet (s : Kernel α) : Prop where
  todo : s.todo = []
  posting : s.posting = none
  queue : ∀ p, s.pool.pthPool = .live p → p.count = 0
  workers : ∀ i, (s.pc i).channel = none

/-- What is sent to a connection is what was received from it. -/
structure Echoes (s : Kernel α) : Prop where
  /-- In the order it was received, nothing being left out or repeated. -/
  order : ∀ b, echoed b s.srv <+: receivedFrom b s.srv
  /-- Once all queued tasks have run: all that is not in the input buffer any more. -/
  connected : s.Quiet → ∀ c b, s.srv.Open c b →
    echoed b s.srv ++ (s.srv.chan c).inputEvbuffer = receivedFrom b s.srv
  /-- And all, for a connection that has ended. -/
  ended : s.Quiet → ∀ b, (∀ c, ¬ s.srv.Open c b) → echoed b s.srv = receivedFrom b s.srv

/-- The condition on the next step of worker `i`, at `x`: the channel it is about to write
to is `CLIENT_LOGIN`, and no worker that took bytes of that channel before it still holds
some of them. -/
def InTurn (s : Kernel α) (i : ℕ) (x : Pc α) : Prop :=
  match x with
  | .send c (_ :: _) => (s.srv.chan c).ichStatus = .clientLogin
  | .write c _ _ _ => ∀ j ∈ s.order.takeWhile (· ≠ i), (s.pc j).unsent c = []
  | _ => True

/-- **The condition on a step**: a worker is in turn, and `Clear` frees the `m_buffer` of a
channel only when no byte of the channel is in its input buffer or with a worker. -/
def Orderly (s : Kernel α) (a : Act α) : Prop :=
  match a with
  | .main _ => ∀ c ∈ s.aboutToFree,
    (s.srv.chan c).inputEvbuffer = [] ∧ ∀ i ∈ s.order, (s.pc i).unsent c = []
  | .worker i => s.InTurn i (s.pc i)
  | _ => True

instance (s : Kernel α) (i : ℕ) : (x : Pc α) → Decidable (s.InTurn i x)
  | .send _ (_ :: _) => inferInstanceAs (Decidable (_ = _))
  | .write .. => inferInstanceAs (Decidable (∀ j ∈ _, _))
  | .send _ [] | .top | .stuck | .exited | .lock _ | .remove _ | .load .. =>
    inferInstanceAs (Decidable True)

instance (s : Kernel α) : (a : Act α) → Decidable (s.Orderly a)
  | .main _ => inferInstanceAs (Decidable (∀ c ∈ s.aboutToFree, _))
  | .worker i => inferInstanceAs (Decidable (s.InTurn i (s.pc i)))
  | .event _ | .close => inferInstanceAs (Decidable True)

/-- Where the bytes of the connections are. -/
structure Ledger (s : Kernel α) : Prop where
  /-- The bytes of an open connection: sent, with the workers, in the input buffer. -/
  connected : ∀ c b, s.srv.Open c b →
    receivedFrom b s.srv = echoed b s.srv ++ (s.inflight c ++ (s.srv.chan c).inputEvbuffer)
  /-- Those of another one have been sent. -/
  ended : ∀ b, (∀ c, ¬ s.srv.Open c b) → receivedFrom b s.srv = echoed b s.srv
  /-- A channel that has no connection holds no bytes. -/
  idle : ∀ c, (∀ b, ¬ s.srv.Open c b) →
    (s.srv.chan c).inputEvbuffer = [] ∧ ∀ i, (s.pc i).unsent c = []
  /-- A worker writes to the connection of its channel. -/
  loaded : ∀ i c b p packs, s.pc i = .write c b p packs → ∃ e, b = some e ∧ s.srv.Open c e
  nodup : s.order.Nodup
  /-- The workers in `order` are those that send. -/
  mem : ∀ i, i ∈ s.order ↔ (s.pc i).sending = true

/-- A worker that serves no channel holds no bytes. -/
theorem unsent_of_channel {x : Pc α} (h : x.channel = none) (c : Ptr) : x.unsent c = [] := by
  cases x with
  | top | stuck | exited => rfl
  | _ => cases h

theorem sending_of_unsent {x : Pc α} {c : Ptr} (h : x.unsent c ≠ []) : x.sending = true := by
  cases x with
  | send | load | write => rfl
  | _ => exact absurd rfl h

/-- A worker that holds nothing can be left out. -/
theorem flatMap_erase {β : Type} {f : ℕ → List β} {i : ℕ} (hf : f i = []) (l : List ℕ) :
    (l.erase i).flatMap f = l.flatMap f := by
  induction l with
  | nil => rfl
  | cons j l ih =>
    by_cases hj : j = i
    · subst hj; rw [List.erase_cons_head, List.flatMap_cons, hf, List.nil_append]
    · rw [List.erase_cons_tail (by simpa using hj), List.flatMap_cons, List.flatMap_cons, ih]

/-- The first worker that holds something parts with it. -/
theorem flatMap_first {β : Type} {f g : ℕ → List β} {i : ℕ} {x : List β} {l : List ℕ}
    (hnd : l.Nodup) (hi : i ∈ l) (hself : f i = x ++ g i) (hother : ∀ j ∈ l, j ≠ i → g j = f j)
    (hfirst : ∀ j ∈ l.takeWhile (· ≠ i), f j = []) : l.flatMap f = x ++ l.flatMap g := by
  induction l with
  | nil => cases hi
  | cons j l ih =>
    rw [List.nodup_cons] at hnd
    rw [List.flatMap_cons, List.flatMap_cons]
    by_cases hj : j = i
    · subst hj
      have hrest : l.flatMap g = l.flatMap f := by
        refine List.flatMap_congr fun k hk => hother k (List.mem_cons_of_mem j hk) ?_
        rintro rfl
        exact hnd.1 hk
      rw [hself, hrest, List.append_assoc]
    · rw [List.takeWhile_cons_of_pos (by simpa using hj)] at hfirst
      have hnone : f j = [] := hfirst j List.mem_cons_self
      rw [hother j List.mem_cons_self hj, hnone, List.nil_append, List.nil_append]
      exact ih hnd.2 ((List.mem_cons.mp hi).resolve_left (Ne.symm hj))
        (fun k hk => hother k (List.mem_cons_of_mem j hk))
        fun k hk => hfirst k (List.mem_cons_of_mem j hk)

/-- Worker `i` moves on, with what it had of channel `c`. -/
theorem unsent_update {s t : Kernel α} {i : ℕ} {x : Pc α} (hpc : t.pc = Function.update s.pc i x)
    {c : Ptr} (hx : x.unsent c = (s.pc i).unsent c) (j : ℕ) :
    (t.pc j).unsent c = (s.pc j).unsent c := by
  rw [hpc]
  by_cases hj : j = i
  · subst hj; rw [Function.update_self, hx]
  · rw [Function.update_of_ne hj]

namespace Ledger

variable {s t : Kernel α}

/-- The ledger gives what is promised. -/
theorem echoes (h : Ledger s) : s.Echoes := by
  refine ⟨fun b => ?_, fun hq c b hb => ?_, fun _ b hb => (h.ended b hb).symm⟩
  · by_cases hb : ∃ c, s.srv.Open c b
    · obtain ⟨c, hc⟩ := hb
      exact ⟨_, (h.connected c b hc).symm⟩
    · rw [h.ended b fun c hc => hb ⟨c, hc⟩]
  · have hflight : s.inflight c = [] := by
      apply List.flatMap_eq_nil_iff.mpr
      intro i _
      rw [unsent_of_channel (hq.workers i)]
      rfl
    rw [h.connected c b hb, hflight, List.nil_append]

theorem start (N : ℕ) (hasLock : Bool) (cells : ℤ → Task) (n q : UInt32) :
    Ledger (Kernel.start N hasLock cells n q : Kernel α) := by
  have hclosed : ∀ c b, ¬ (Server.resourceInitialize N : Server α).Open c b := by
    rintro c b ⟨hb, -⟩
    rw [resourceInitialize_eq] at hb
    simp only at hb
    split_ifs at hb <;> cases hb
  have hempty : ∀ c, ((Server.resourceInitialize N : Server α).chan c).inputEvbuffer = [] := by
    intro c
    rw [resourceInitialize_eq]
    simp only
    split_ifs <;> rfl
  refine ⟨fun c b hb => absurd hb (hclosed c b), fun b _ => ?_, fun c _ => ⟨hempty c, fun _ => rfl⟩,
    by simp [Kernel.start], List.nodup_nil, fun i => by simp [Kernel.start, Pc.sending]⟩
  show receivedFrom b (Server.resourceInitialize N) = echoed b (Server.resourceInitialize N)
  rw [resourceInitialize_eq]
  rfl

/-! ### The steps of the workers -/

/-- Worker `i` moves on: the others write to the connections they wrote to. -/
theorem loaded_update (h : Ledger s) {i : ℕ} {x : Pc α} (hpc : t.pc = Function.update s.pc i x)
    (hopen : ∀ c b, t.srv.Open c b ↔ s.srv.Open c b)
    (hx : ∀ c b p packs, x = .write c b p packs → ∃ e, b = some e ∧ s.srv.Open c e) :
    ∀ j c b p packs, t.pc j = .write c b p packs → ∃ e, b = some e ∧ t.srv.Open c e := by
  intro j c b p packs hj
  rw [hpc] at hj
  simp only [hopen]
  by_cases hji : j = i
  · subst hji
    rw [Function.update_self] at hj
    exact hx c b p packs hj
  · rw [Function.update_of_ne hji] at hj
    exact h.loaded j c b p packs hj

/-- A worker moves on without touching a byte. -/
theorem walk (h : Ledger s) {i : ℕ} {x : Pc α} (hsrv : t.srv = s.srv)
    (hpc : t.pc = Function.update s.pc i x) (horder : t.order = s.order)
    (hun : ∀ c, x.unsent c = (s.pc i).unsent c) (hsend : x.sending = (s.pc i).sending)
    (hload : ∀ c b p packs, x = .write c b p packs → ∃ e, b = some e ∧ s.srv.Open c e) :
    Ledger t := by
  have hunsent : ∀ j c, (t.pc j).unsent c = (s.pc j).unsent c :=
    fun j c => unsent_update hpc (hun c) j
  have hflight : ∀ c, t.inflight c = s.inflight c := by
    intro c
    simp only [inflight, horder, hunsent]
  refine ⟨?_, ?_, ?_, h.loaded_update hpc (by rw [hsrv]; exact fun _ _ => Iff.rfl) hload,
    by rw [horder]; exact h.nodup, fun j => ?_⟩
  · simpa only [hsrv, hflight] using h.connected
  · simpa only [hsrv] using h.ended
  · simpa only [hsrv, hunsent] using h.idle
  · rw [horder, h.mem j, hpc]
    by_cases hj : j = i
    · subst hj; rw [Function.update_self, hsend]
    · rw [Function.update_of_ne hj]

/-- A worker that holds bytes of a channel: the channel has a connection. -/
theorem open_of_unsent (h : Ledger s) {i : ℕ} {c : Ptr} (hi : (s.pc i).unsent c ≠ []) :
    ∃ b, s.srv.Open c b := by
  by_contra hno
  exact hi ((h.idle c fun b hb => hno ⟨b, hb⟩).2 i)

/-- A worker leaves its task, having written all. -/
theorem unlock (h : Ledger s) {i : ℕ} {c : Ptr} (hi : s.pc i = .send c []) (hsrv : t.srv = s.srv)
    (hpc : t.pc = Function.update s.pc i .top) (horder : t.order = s.order.erase i) : Ledger t := by
  have hnone : ∀ d, (s.pc i).unsent d = [] := by
    intro d
    rw [hi]
    exact ite_self _
  have hunsent : ∀ j d, (t.pc j).unsent d = (s.pc j).unsent d :=
    fun j d => unsent_update hpc (hnone d).symm j
  have hflight : ∀ d, t.inflight d = s.inflight d := by
    intro d
    simp only [inflight, horder, hunsent]
    exact flatMap_erase (by rw [hnone]; rfl) _
  refine ⟨?_, ?_, ?_, h.loaded_update hpc (by rw [hsrv]; exact fun _ _ => Iff.rfl) (by simp),
    by rw [horder]; exact h.nodup.erase i, fun j => ?_⟩
  · simpa only [hsrv, hflight] using h.connected
  · simpa only [hsrv] using h.ended
  · simpa only [hsrv, hunsent] using h.idle
  · rw [horder, h.nodup.mem_erase_iff, h.mem j, hpc]
    by_cases hj : j = i
    · subst hj; simp [Pc.sending]
    · simp [hj]

/-- A worker takes the first bytes off an input buffer. -/
theorem remove (h : Ledger s) {i : ℕ} {c : Ptr} {packs : List (Pack α)}
    (hi : s.pc i = .remove c) (hin : (s.srv.chan c).inputEvbuffer ≠ [])
    (hpacks : packs.flatMap Pack.data = (s.srv.chan c).inputEvbuffer.take buffsize)
    (hsrv : t.srv = s.srv.setChan c
      { s.srv.chan c with inputEvbuffer := (s.srv.chan c).inputEvbuffer.drop buffsize })
    (hpc : t.pc = Function.update s.pc i (.send c packs)) (horder : t.order = s.order ++ [i]) :
    Ledger t := by
  have hopen : ∀ d b, t.srv.Open d b ↔ s.srv.Open d b := by
    intro d b
    rw [hsrv]
    exact Server.open_congr (Server.core_setInput _ _ _) d b
  have hnot : i ∉ s.order := by
    intro hmem
    have hsend := (h.mem i).mp hmem
    rw [hi] at hsend
    cases hsend
  have hother : ∀ j, j ≠ i → t.pc j = s.pc j := fun j hj => by rw [hpc, Function.update_of_ne hj]
  have hself : t.pc i = .send c packs := by rw [hpc, Function.update_self]
  have hflight : ∀ d, t.inflight d =
      s.inflight d ++ if c = d then (s.srv.chan c).inputEvbuffer.take buffsize else [] := by
    intro d
    simp only [inflight, horder, List.flatMap_append]
    congr 1
    · apply List.flatMap_congr
      intro j hj
      rw [hother j fun hji => hnot (hji ▸ hj)]
    · rw [List.flatMap_singleton, hself]
      by_cases hcd : c = d
      · rw [Pc.unsent, if_pos hcd, if_pos hcd, hpacks]
      · rw [Pc.unsent, if_neg hcd, if_neg hcd]; rfl
  have hlog : t.srv.log = s.srv.log := by rw [hsrv]; rfl
  refine ⟨fun d b hb => ?_, fun b hb => ?_, fun d hd => ?_, h.loaded_update hpc hopen (by simp), ?_,
    fun j => ?_⟩
  · have hcon := h.connected d b ((hopen d b).mp hb)
    rw [receivedFrom, echoed, hlog, hflight]
    apply hcon.trans
    rw [echoed, hsrv]
    by_cases hcd : c = d
    · subst hcd
      simp [Server.setChan]
    · simp [Server.setChan, hcd, Ne.symm hcd]
  · have hend := h.ended b fun d hd => hb d ((hopen d b).mpr hd)
    rw [receivedFrom, echoed, hlog]
    exact hend
  · obtain ⟨hempty, hnone⟩ := h.idle d fun b hb => hd b ((hopen d b).mpr hb)
    have hcd : d ≠ c := by
      rintro rfl
      exact hin hempty
    refine ⟨by rw [hsrv]; simpa [Server.setChan, hcd] using hempty, fun j => ?_⟩
    rw [unsent_update hpc (by rw [hi]; exact if_neg hcd.symm)]
    exact hnone j
  · rw [horder]
    exact List.nodup_append.mpr ⟨h.nodup, List.nodup_singleton i, fun j hj k hk => by
      rintro rfl
      exact hnot (List.mem_singleton.mp hk ▸ hj)⟩
  · rw [horder, List.mem_append, List.mem_singleton, h.mem j]
    by_cases hj : j = i
    · subst hj; simp [hself, Pc.sending]
    · simp [hother j hj, hj]

/-- A worker writes a pack, overtaking no other worker of its channel. -/
theorem write (h : Ledger s) (hs : s.srv.Sound) {i : ℕ} {c : Ptr} {b : BevId} {p : Pack α}
    {packs : List (Pack α)} (hi : s.pc i = .write c (some b) p packs)
    (hfirst : ∀ j ∈ s.order.takeWhile (· ≠ i), (s.pc j).unsent c = [])
    (hsrv : t.srv = s.srv.record [.write (some b) p.data])
    (hpc : t.pc = Function.update s.pc i (.send c packs)) (horder : t.order = s.order) :
    Ledger t := by
  have hopen : ∀ d e, t.srv.Open d e ↔ s.srv.Open d e := by
    intro d e
    rw [hsrv]
    exact Iff.rfl
  obtain ⟨b', hb', hcb⟩ := h.loaded i c _ p packs hi
  cases hb'
  have hother : ∀ j, j ≠ i → t.pc j = s.pc j := fun j hj => by rw [hpc, Function.update_of_ne hj]
  have hself : t.pc i = .send c packs := by rw [hpc, Function.update_self]
  have hunsent : ∀ j d, d ≠ c → (t.pc j).unsent d = (s.pc j).unsent d := by
    intro j d hd
    refine unsent_update hpc ?_ j
    rw [hi, Pc.unsent, Pc.unsent, if_neg hd.symm, if_neg hd.symm]
  -- what the worker writes is the oldest of what the workers hold
  have hflight : s.inflight c = p.data ++ t.inflight c := by
    rw [inflight, inflight, horder]
    refine flatMap_first h.nodup ((h.mem i).mpr (by rw [hi]; rfl)) ?_ (fun j _ hj => ?_) fun j hj => ?_
    · rw [hi, hself, Pc.unsent, Pc.unsent, if_pos rfl, if_pos rfl, List.flatMap_cons]
    · rw [hother j hj]
    · rw [hfirst j hj]; rfl
  have hreceived : ∀ e, receivedFrom e t.srv = receivedFrom e s.srv := by
    intro e
    rw [hsrv]
    simp [receivedFrom, Server.record, readFrom]
  have hechoed : ∀ e, echoed e t.srv = echoed e s.srv ++ if b = e then p.data else [] := by
    intro e
    rw [hsrv]
    simp [echoed, Server.record, writtenTo]
  have hchan : t.srv.chan = s.srv.chan := by rw [hsrv]; rfl
  refine ⟨fun d e he => ?_, fun e he => ?_, fun d hd => ?_, h.loaded_update hpc hopen (by simp),
    by rw [horder]; exact h.nodup, fun j => ?_⟩
  · rw [hopen] at he
    have hcon := h.connected d e he
    rw [hreceived, hechoed, hchan, hcon]
    by_cases hd : d = c
    · subst hd
      obtain rfl := hcb.unique he
      rw [if_pos rfl, hflight]
      simp only [List.append_assoc]
    · have hbe : b ≠ e := by
        rintro rfl
        exact hd (hs.uniq d c b he.1 hcb.1)
      have hsame : t.inflight d = s.inflight d := by
        simp only [inflight, horder, hunsent _ d hd]
      rw [if_neg hbe, List.append_nil, hsame]
  · have hbe : b ≠ e := by
      rintro rfl
      exact he c ((hopen c b).mpr hcb)
    rw [hreceived, hechoed, if_neg hbe, List.append_nil]
    exact h.ended e fun d hd => he d ((hopen d e).mpr hd)
  · have hne : d ≠ c := by
      rintro rfl
      exact hd b ((hopen d b).mpr hcb)
    obtain ⟨hempty, hnone⟩ := h.idle d fun e he => hd e ((hopen d e).mpr he)
    exact ⟨by rw [hchan]; exact hempty, fun j => by rw [hunsent j d hne]; exact hnone j⟩
  · rw [horder, h.mem j]
    by_cases hj : j = i
    · subst hj; rw [hself, hi]; rfl
    · rw [hother j hj]

/-! ### The steps of the main thread -/

/-- No byte is touched, and no connection. -/
theorem congr (h : Ledger s) (hopen : ∀ c b, t.srv.Open c b ↔ s.srv.Open c b)
    (hinput : ∀ c, (t.srv.chan c).inputEvbuffer = (s.srv.chan c).inputEvbuffer)
    (hlog : t.srv.log = s.srv.log) (hpc : t.pc = s.pc) (horder : t.order = s.order) : Ledger t := by
  have hflight : ∀ c, t.inflight c = s.inflight c := fun c => by rw [inflight, inflight, horder, hpc]
  refine ⟨fun c b hb => ?_, fun b hb => ?_, fun c hc => ?_, fun i c b p packs hi => ?_,
    by rw [horder]; exact h.nodup, fun i => by rw [horder, hpc]; exact h.mem i⟩
  · rw [hinput, hflight, receivedFrom, echoed, hlog]
    exact h.connected c b ((hopen c b).mp hb)
  · rw [receivedFrom, echoed, hlog]
    exact h.ended b fun c hc => hb c ((hopen c b).mpr hc)
  · rw [hinput, hpc]
    exact h.idle c fun b hb => hc b ((hopen c b).mpr hb)
  · rw [hpc] at hi
    obtain ⟨e, he, ho⟩ := h.loaded i c b p packs hi
    exact ⟨e, he, (hopen c e).mpr ho⟩

/-- A turn of the event loop begins. -/
theorem turn (h : Ledger s) (hs : s.srv.Sound) {e : Event α} {r : Server α × List (Op α)}
    (hr : s.srv.turn e = some r) (hsrv : t.srv = r.1) (hpc : t.pc = s.pc)
    (horder : t.order = s.order) : Ledger t := by
  rcases Server.turn_fst hr with hr1 | ⟨fd, hr1⟩
  · refine h.congr ?_ ?_ ?_ hpc horder
    all_goals rw [hsrv, hr1]
    · exact fun c b => Iff.rfl
    · exact fun c => rfl
  · refine h.congr ?_ ?_ ?_ hpc horder
    all_goals rw [hsrv, hr1]
    · exact fun c b => hs.open_socketNew fd c b
    · exact fun c => rfl
    · rfl

variable [Inhabited α] {P : ParseFunc α}

/-- The main thread makes a proper operation, which finds no bytes to lose. -/
theorem op (h : Ledger s) (hs : s.srv.Sound) {o : Op α} (hp : s.srv.Proper o)
    (hop : ∀ c, o ≠ .onStatusDoAction c) (hrun : Op.run P s.srv o = some t.srv)
    (hfree : ∀ c, o = .freeBuffer c →
      (s.srv.chan c).inputEvbuffer = [] ∧ ∀ i ∈ s.order, (s.pc i).unsent c = [])
    (hpc : t.pc = s.pc) (horder : t.order = s.order) : Ledger t := by
  obtain ⟨hinput, hreceived, hechoed⟩ := traffic_run hop hrun
  have hflight : ∀ c, t.inflight c = s.inflight c := fun c => by rw [inflight, inflight, horder, hpc]
  have hnoflight : ∀ c, (∀ i ∈ s.order, (s.pc i).unsent c = []) → s.inflight c = [] :=
    fun c hc => List.flatMap_eq_nil_iff.mpr fun i hi => by rw [hc i hi]; rfl
  -- a connection that is closed leaves no bytes behind
  have hclosed : ∀ c b, s.srv.Open c b → ¬ t.srv.Open c b →
      (s.srv.chan c).inputEvbuffer = [] ∧ ∀ i, (s.pc i).unsent c = [] := by
    intro c b hb hn
    obtain ⟨hempty, hnone⟩ := hfree c (eq_freeBuffer_of_closed hs hp hrun hb hn)
    refine ⟨hempty, fun i => ?_⟩
    by_contra hi
    exact hi (hnone i ((h.mem i).mpr (sending_of_unsent hi)))
  refine ⟨fun c b hb => ?_, fun b hb => ?_, fun c hc => ?_, fun i c b p packs hi => ?_,
    by rw [horder]; exact h.nodup, fun i => by rw [horder, hpc]; exact h.mem i⟩
  · rw [hreceived, hechoed, hflight, hinput]
    by_cases hold : s.srv.Open c b
    · rw [h.connected c b hold, arrives_eq_brings hs hp hold]
      simp only [List.append_assoc]
    · -- a new connection: neither it nor its channel has any bytes
      obtain rfl := eq_setBuffer_of_opened hs hp hrun hold hb
      obtain ⟨-, -, hfresh, hnone⟩ := hp
      obtain ⟨hempty, hunsent⟩ := h.idle c hnone
      rw [h.ended b fun d hd => hfresh d hd.1, hempty, hnoflight c fun i _ => hunsent i]
      rfl
  · rw [hreceived, hechoed]
    by_cases hold : ∃ c, s.srv.Open c b
    · obtain ⟨c, hc⟩ := hold
      obtain ⟨hempty, hnone⟩ := hclosed c b hc (hb c)
      obtain rfl := eq_freeBuffer_of_closed hs hp hrun hc (hb c)
      rw [h.connected c b hc, hempty, hnoflight c fun i _ => hnone i]
      simp [brings]
    · have hclosed' : ∀ c, ¬ s.srv.Open c b := fun c hc => hold ⟨c, hc⟩
      rw [brings_eq_nil hp hclosed', List.append_nil]
      exact h.ended b hclosed'
  · rw [hinput, hpc]
    by_cases hold : ∃ b, s.srv.Open c b
    · obtain ⟨b, hb⟩ := hold
      obtain ⟨hempty, hnone⟩ := hclosed c b hb (hc b)
      obtain rfl := eq_freeBuffer_of_closed hs hp hrun hb (hc b)
      exact ⟨by rw [hempty]; rfl, hnone⟩
    · have hclosed' : ∀ b, ¬ s.srv.Open c b := fun b hb => hold ⟨b, hb⟩
      rw [arrives_eq_nil hp hclosed', List.append_nil]
      exact h.idle c hclosed'
  · rw [hpc] at hi
    obtain ⟨e, he, ho⟩ := h.loaded i c b p packs hi
    refine ⟨e, he, ?_⟩
    by_contra hno
    have hunsent := (hclosed c e ho hno).2 i
    rw [hi, Pc.unsent, if_pos rfl] at hunsent
    cases hunsent

end Ledger

/-! ### Every run -/

section Run

variable [Inhabited α] {N : ℕ} {s t : Kernel α} {a : Act α}

/-- **One step** keeps the ledger in balance, of whichever thread, if it is orderly. -/
theorem Ledger.step (h : Ledger s) (hset : s.Settled N) (hg : s.Orderly a)
    (hst : s.step recvValuesFromString a = some t) : Ledger t := by
  cases happens_of_step hst with
  | event _ _ _ hr => exact h.turn hset.sound hr rfl rfl rfl
  | op hpost htodo hop hrun =>
    have hproper := hset.proper
    rw [htodo] at hproper
    refine h.op hset.sound (hproper _ hrun).1 hop hrun (fun c hc => ?_) rfl rfl
    subst hc
    exact hg c (by rw [aboutToFree, hpost, htodo]; rfl)
  | stuck _ hi | exited _ hi =>
    exact h.walk (x := _) rfl rfl rfl (fun c => by rw [hi]; rfl) (by rw [hi]; rfl) (by simp)
  | take _ hi | lock hi | empty hi =>
    exact h.walk (x := _) rfl rfl rfl (fun c => by rw [hi]; rfl) (by rw [hi]; rfl) (by simp)
  | @remove i c ch packs hi hin hr hch =>
    subst hch
    refine h.remove hi hin ?_ rfl rfl rfl
    obtain ⟨packs', hr', hdata⟩ := (s.srv.chan c).onStatusDoAction_recvValues
    rw [hr'] at hr
    cases hr
    rw [List.flatMap_def]
    exact hdata
  | unlock hi => exact h.unlock hi rfl rfl rfl
  | test hi =>
    exact h.walk (x := _) rfl rfl rfl (fun c => by rw [hi]; rfl) (by rw [hi]; rfl) (by simp)
  | @drop i c p packs hi hne =>
    have hturn : s.InTurn i (s.pc i) := hg
    rw [hi] at hturn
    exact absurd hturn hne
  | @load i c p packs hi =>
    refine h.walk (x := _) rfl rfl rfl (fun c => by rw [hi]; rfl) (by rw [hi]; rfl) ?_
    rintro d b q qs ⟨⟩
    obtain ⟨e, he⟩ := h.open_of_unsent (i := i) (c := c) (by rw [hi, Pc.unsent, if_pos rfl]; simp)
    exact ⟨e, he.1, he⟩
  | @write i c b p packs hi =>
    have hturn : s.InTurn i (s.pc i) := hg
    rw [hi] at hturn
    exact h.write hset.sound hi hturn rfl rfl rfl
  | _ => exact h.congr (fun _ _ => Iff.rfl) (fun _ => rfl) rfl rfl rfl

/-- **What is echoed.** Let every step of a run be orderly: then in every state of the run
what has been sent to a connection is what was received from it, in the order received,
and all of it once the queued tasks have run. -/
theorem echoes_of_orderly (N : ℕ) (hasLock : Bool) (cells : ℤ → Task)
    (thread_count queue_size : UInt32) (as : List (Act α))
    (h : Guarded (step recvValuesFromString) Orderly
      (start N hasLock cells thread_count queue_size) as) :
    Along (step recvValuesFromString) Echoes
      (start N hasLock cells thread_count queue_size) as := by
  refine Along.of_guarded (I := fun s => Settled N s ∧ Ledger s) ?_ (fun s hs => hs.2.echoes)
    ⟨.start hasLock cells thread_count queue_size, .start N hasLock cells thread_count queue_size⟩ h
  rintro s a t ⟨hset, hledger⟩ hg hst
  exact ⟨hset.step hst, hledger.step hset hg hst⟩

end Run

/-- `k` steps of the main thread, its `pthread` calls succeeding. -/
def mains (k : ℕ) : List (Act α) := List.replicate k (.main Pthread.allOk)

/-- `k` steps of worker `i`. -/
def works (i k : ℕ) : List (Act α) := List.replicate k (.worker i)

/-- What `new` may have left in `Taskqueue`. -/
def noTask : ℤ → Task := fun _ => ⟨.pthreadFuncHandle, 0⟩

/-- One channel, two workers and a queue of eight tasks, as the server starts up. -/
def small : Kernel UInt8 := start 1 (lockInstalled (syinxKernelInitialize true)) noTask 2 8

/-- A client connects and sends a byte, which a frame queues. -/
def firstByte : List (Act UInt8) :=
  .event (.listen 7 true) :: mains 9 ++ .event (.recv 0 [1]) :: mains 1 ++ .event .frame :: mains 2

/-- The byte is echoed, the client hangs up, and another one gets its channel. -/
def oneAfterTheOther : List (Act UInt8) :=
  firstByte ++ works 0 7 ++ .event (.event 0 bevEventEof) :: mains 8 ++
    .event (.listen 8 true) :: mains 9

theorem echoes_oneAfterTheOther :
    (exec (step recvValuesFromString) small oneAfterTheOther).any
        (fun s => decide (echoed 0 s.srv = [1])) = true ∧
      Along (step recvValuesFromString) Echoes small oneAfterTheOther :=
  ⟨by decide +kernel, echoes_of_orderly 1 (lockInstalled (syinxKernelInitialize true)) noTask 2 8
    oneAfterTheOther (by decide +kernel)⟩

/-- A second byte follows while a worker has the first one in its hands, and a second worker
is done with it before the first one writes. -/
def overtaken : List (Act UInt8) :=
  firstByte ++ works 0 4 ++ .event (.recv 0 [2]) :: mains 1 ++ .event .frame :: mains 2 ++
    works 1 6 ++ works 0 2

theorem not_echoes_overtaken : ¬ Along (step recvValuesFromString) Echoes small overtaken := by
  have h : (exec (step recvValuesFromString) small overtaken).any
      (fun s => decide (echoed 0 s.srv = [2, 1] ∧ receivedFrom 0 s.srv = [1, 2])) = true := by
    decide +kernel
  obtain ⟨s, hs, hbytes⟩ := (Option.any_eq_true _ _).mp h
  obtain ⟨hechoed, hreceived⟩ := of_decide_eq_true hbytes
  intro halong
  have hprefix := (halong.last hs).order 0
  rw [hechoed, hreceived] at hprefix
  exact absurd hprefix (by decide)

end Kernel

end Syinx.Threaded
