import Syinx.Library.Runs
import Syinx.Tcp.Wire

/-!
# Packets and the cutting of the stream

A parse function bound with `BindParse` takes packets of some format off the chunk
it is given: from `Index` on it finds the next complete packet and moves `Index`
behind it, or it finds none and returns `false` (`Obeys`).

`OnStatusDoAction` removes a chunk from the input buffer before it is parsed, and
starts the next frame with the next chunk and `Index = 0`. What the parse function
has not consumed of a chunk is gone.

## What is proved

* `onStatusDoAction_spec` — the packets of a frame are those of its chunk.
* `session_spec` — the packets of a run are those of its chunks.
* `cutIndependent_iff` — chunks that end with a packet give the packets of the
  stream; and exactly which streams give the same packets however they are cut
  into reads and frames.
-/

namespace Syinx.Tcp

open Syinx.Library

variable {α : Type}

/-! ### Parse functions that obey a format -/

/-- The packet `RecvClientPack` was called with, if it was not empty. -/
def Pack.packet? (p : Pack α) : Option (Packet α) :=
  if p.data.isEmpty then none else some ⟨p.inType, p.data⟩

/-- The non-empty packets among the calls of `RecvClientPack`. -/
def nonEmptyPackets (packs : List (Pack α)) : List (Packet α) := packs.filterMap Pack.packet?

/-- The call for a packet. -/
theorem Pack.packet?_eq {p : Packet α} {outStr : List α}
    (h : outStr.take p.payload.length = p.payload) :
    (⟨p.payload.length, p.inType, outStr⟩ : Pack α).packet? =
      if p.nonEmpty then some p else none := by
  obtain ⟨inType, payload⟩ := p
  simp only [Pack.packet?, Pack.data, Int.toNat_natCast, h, Packet.nonEmpty]
  cases payload <;> rfl

section Contract

variable [Inhabited α]

/-- The parse function takes packets of the format `F` off the chunk: `size` bytes at the
front of the array. -/
structure Obeys (P : ParseFunc α) (F : Format α (Packet α)) : Prop where
  /-- A complete packet at `Index` is returned, and `Index` is behind it. -/
  complete : ∀ (strData : List α) (size index : ℕ) (p : Packet α), strData.length = buffsize →
    size ≤ buffsize → index ≤ size → F.next ((strData.take size).drop index) = some p →
    ∃ outStr, P strData size { index, outLen := 0, outType := 0, outStr := zeros } =
        (true, { index := index + F.width p, outLen := p.payload.length, outType := p.inType,
                 outStr }) ∧
      outStr.take p.payload.length = p.payload
  /-- Without one, the function returns `false`, the length `0` and `Index` as it was. -/
  incomplete : ∀ (strData : List α) (size index : ℕ), strData.length = buffsize →
    size ≤ buffsize → index ≤ size → F.next ((strData.take size).drop index) = none →
    ∃ outType outStr, P strData size { index, outLen := 0, outType := 0, outStr := zeros } =
      (false, { index, outLen := 0, outType, outStr })

/-- The parse function of a format: it copies the packet at `Index`, if there is one. -/
def parserOf (F : Format α (Packet α)) : ParseFunc α := fun inStr inSize io =>
  match F.next ((inStr.take inSize.toNat).drop io.index.toNat) with
  | none => (false, { io with outLen := 0 })
  | some p =>
    (true, {
      index := io.index + F.width p
      outLen := p.payload.length
      outType := p.inType
      outStr := memcpy io.outStr p.payload p.payload.length })

theorem obeys_parserOf (F : Format α (Packet α)) : Obeys (parserOf F) F where
  complete strData size index p _ _ _ hp := by
    refine ⟨memcpy zeros p.payload p.payload.length, ?_, ?_⟩
    · simp [parserOf, hp]
    · simp [memcpy]
  incomplete strData size index _ _ _ hp := ⟨0, zeros, by simp [parserOf, hp]⟩

variable {P : ParseFunc α} {F : Format α (Packet α)}

/-- The loop of a frame finds the packets of the chunk, from `Index` on. -/
theorem parseLoop_spec (h : Obeys P F) {strData : List α} {size : ℕ}
    (hlen : strData.length = buffsize) (hsize : size ≤ buffsize) (fuel index : ℕ)
    (hindex : index ≤ size) (hfuel : size - index < fuel) :
    ∃ packs, parseLoop P strData size fuel index = some packs ∧
      nonEmptyPackets packs = F.kept Packet.nonEmpty ((strData.take size).drop index) := by
  induction fuel generalizing index with
  | zero => omega
  | succ fuel ih =>
    cases hnext : F.next ((strData.take size).drop index) with
    | none =>
      obtain ⟨outType, outStr, hP⟩ := h.incomplete strData size index hlen hsize hindex hnext
      refine ⟨[⟨0, outType, outStr⟩], by simp [parseLoop, hP], ?_⟩
      simp [nonEmptyPackets, Pack.packet?, Pack.data, Format.kept, Format.packets_of_none hnext]
    | some p =>
      obtain ⟨outStr, hP, hout⟩ := h.complete strData size index p hlen hsize hindex hnext
      have hpos := F.pos hnext
      have hle := F.le hnext
      rw [List.length_drop, List.length_take, hlen, min_eq_left hsize] at hle
      obtain ⟨packs, hpacks, hkept⟩ := ih (index + F.width p) (by omega) (by omega)
      refine ⟨⟨p.payload.length, p.inType, outStr⟩ :: packs, ?_, ?_⟩
      · simp only [parseLoop, hP, if_true]
        rw [show ((index : ℤ) + F.width p) = ((index + F.width p : ℕ) : ℤ) by push_cast; rfl, hpacks]
        rfl
      · rw [nonEmptyPackets, List.filterMap_cons, Pack.packet?_eq hout, Format.kept, Format.packets_of_some hnext,
          List.filter_cons, List.drop_drop]
        split_ifs with hp
        · rw [← nonEmptyPackets, hkept]; rfl
        · rw [← nonEmptyPackets, hkept]; rfl

/-- **A frame** hands over the packets of its chunk. -/
theorem onStatusDoAction_spec (h : Obeys P F) (ch : IChannel α) :
    ∃ packs, ch.onStatusDoAction P =
        some ({ ch with inputEvbuffer := ch.inputEvbuffer.drop buffsize }, packs) ∧
      nonEmptyPackets packs = F.kept Packet.nonEmpty (ch.inputEvbuffer.take buffsize) := by
  by_cases hlen : ch.inputEvbuffer.length = 0
  · have hnil := List.eq_nil_of_length_eq_zero hlen
    refine ⟨[], ?_, by simp [hnil, nonEmptyPackets, Format.kept]⟩
    cases ch
    simp_all [IChannel.onStatusDoAction]
  · have hsize : (ch.inputEvbuffer.take buffsize).length ≤ buffsize := by
      rw [List.length_take]
      exact min_le_left _ _
    have hdata : ch.strData.length = buffsize := by
      rw [IChannel.strData_eq, List.length_append, List.length_replicate]
      omega
    obtain ⟨packs, hpacks, hkept⟩ := parseLoop_spec h hdata hsize (buffsize + 1) 0 (Nat.zero_le _)
      (by omega)
    refine ⟨packs, ?_, ?_⟩
    · simp only [IChannel.onStatusDoAction, if_neg hlen]
      rw [show parseLoop P ch.strData _ (buffsize + 1) 0 = some packs from hpacks]
      rfl
    · rw [hkept, List.drop_zero, IChannel.strData_eq, List.take_left]

end Contract

/-! ### Cutting the stream -/

/-- What happens to a connection: bytes are read, or a frame comes. -/
inductive Cut (α : Type) where
  | read (data : List α)
  | frame

/-- The stream that is read. -/
def stream (es : List (Cut α)) : List α :=
  es.flatMap fun
    | .read data => data
    | .frame => []

/-- The chunks of the frames, the input buffer holding `buf` at first. -/
def chunks : List α → List (Cut α) → List (List α)
  | _, [] => []
  | buf, .read data :: es => chunks (buf ++ data) es
  | buf, .frame :: es => buf.take buffsize :: chunks (buf.drop buffsize) es

/-- What is left in the input buffer. -/
def leftover : List α → List (Cut α) → List α
  | buf, [] => buf
  | buf, .read data :: es => leftover (buf ++ data) es
  | buf, .frame :: es => leftover (buf.drop buffsize) es

/-- The chunks are the stream, up to what is left. -/
theorem flatten_chunks (buf : List α) (es : List (Cut α)) :
    (chunks buf es).flatten ++ leftover buf es = buf ++ stream es := by
  fun_induction chunks buf es with
  | case1 buf => simp [leftover, stream]
  | case2 buf data es ih =>
    rw [leftover, ih, List.append_assoc]
    rfl
  | case3 buf es ih =>
    rw [leftover, List.flatten_cons, List.append_assoc, ih, ← List.append_assoc,
      List.take_append_drop]
    rfl

theorem length_chunks (buf : List α) (es : List (Cut α)) :
    ∀ w ∈ chunks buf es, w.length ≤ buffsize := by
  fun_induction chunks buf es with
  | case1 => simp
  | case2 buf data es ih => exact ih
  | case3 buf es ih =>
    intro w hw
    rcases List.mem_cons.mp hw with rfl | hw
    · rw [List.length_take]
      exact min_le_left _ _
    · exact ih w hw

/-- The cutting with the given chunks: each is read, and a frame follows. -/
def cutting (cs : List (List α)) : List (Cut α) := cs.flatMap fun w => [.read w, .frame]

theorem stream_cutting (cs : List (List α)) : stream (cutting cs) = cs.flatten := by
  induction cs with
  | nil => rfl
  | cons w cs ih =>
    rw [List.flatten_cons, ← ih]
    simp [cutting, stream]

theorem chunks_cutting (cs : List (List α)) (h : ∀ w ∈ cs, w.length ≤ buffsize) :
    chunks [] (cutting cs) = cs ∧ leftover [] (cutting cs) = [] := by
  induction cs with
  | nil => exact ⟨rfl, rfl⟩
  | cons w cs ih =>
    obtain ⟨hc, hl⟩ := ih fun v hv => h v (List.mem_cons_of_mem w hv)
    have hw := h w List.mem_cons_self
    have hcut : cutting (w :: cs) = .read w :: .frame :: cutting cs := rfl
    rw [hcut, chunks, chunks, leftover, leftover, List.nil_append, List.take_of_length_le hw,
      List.drop_of_length_le hw, hc, hl]
    exact ⟨rfl, rfl⟩

/-! ### What a channel makes of a cutting -/

section Session

variable [Inhabited α] {P : ParseFunc α} {F : Format α (Packet α)}

/-- A channel that serves one connection, with the packs it has handed over. -/
def Session.step (P : ParseFunc α) (s : IChannel α × List (Pack α)) :
    Cut α → Option (IChannel α × List (Pack α))
  | .read data => some (s.1.readBuffer data, s.2)
  | .frame => (s.1.onStatusDoAction P).map fun r => (r.1, s.2 ++ r.2)

/-- **A run** hands over the packets of its chunks, each chunk for itself. -/
theorem session_spec (h : Obeys P F) (es : List (Cut α)) (s : IChannel α × List (Pack α)) :
    ∃ t, exec (Session.step P) s es = some t ∧
      t.1.inputEvbuffer = leftover s.1.inputEvbuffer es ∧
      nonEmptyPackets t.2 = nonEmptyPackets s.2 ++
        (chunks s.1.inputEvbuffer es).flatMap (F.kept Packet.nonEmpty) := by
  induction es generalizing s with
  | nil => exact ⟨s, rfl, rfl, by simp [chunks]⟩
  | cons e es ih =>
    cases e with
    | read data =>
      obtain ⟨t, ht, hleft, hpacks⟩ := ih (s.1.readBuffer data, s.2)
      exact ⟨t, ht, hleft, hpacks⟩
    | frame =>
      obtain ⟨packs, hr, hkept⟩ := onStatusDoAction_spec h s.1
      have hstep : Session.step P s .frame =
          some ({ s.1 with inputEvbuffer := s.1.inputEvbuffer.drop buffsize }, s.2 ++ packs) := by
        simp only [Session.step, hr, Option.map_some]
      obtain ⟨t, ht, hleft, hpacks⟩ := ih
        ({ s.1 with inputEvbuffer := s.1.inputEvbuffer.drop buffsize }, s.2 ++ packs)
      refine ⟨t, exec_cons_eq_some.mpr ⟨_, hstep, ht⟩, hleft, ?_⟩
      rw [hpacks, nonEmptyPackets, List.filterMap_append, ← nonEmptyPackets, ← nonEmptyPackets, hkept,
        chunks, List.flatMap_cons, List.append_assoc]

/-- The channel has processed all of the stream `S`, cut as `es` says, and has handed
over `packs`. -/
def Processes (P : ParseFunc α) (ch : IChannel α) (S : List α) (es : List (Cut α))
    (packs : List (Pack α)) : Prop :=
  stream es = S ∧ ∃ ch', exec (Session.step P) (ch, []) es = some (ch', packs) ∧
    ch'.inputEvbuffer = []

/-- The packets of the stream do not depend on how it is cut. -/
def CutIndependent (P : ParseFunc α) (ch : IChannel α) (S : List α) : Prop :=
  ∀ es es' packs packs', Processes P ch S es packs → Processes P ch S es' packs' →
    nonEmptyPackets packs = nonEmptyPackets packs'

variable {ch : IChannel α} {S : List α} {es : List (Cut α)} {packs : List (Pack α)}

/-- A channel that has processed all of a stream has decoded its chunks. -/
theorem Processes.spec (h : Obeys P F) (hch : ch.inputEvbuffer = [])
    (hp : Processes P ch S es packs) :
    (chunks [] es).flatten = S ∧
      nonEmptyPackets packs = (chunks [] es).flatMap (F.kept Packet.nonEmpty) := by
  obtain ⟨rfl, ch', hx, hnil⟩ := hp
  obtain ⟨t, ht, hleft, hpacks⟩ := session_spec h es (ch, [])
  rw [hx] at ht
  cases ht
  rw [hnil, hch] at hleft
  rw [hch] at hpacks
  have hflat := flatten_chunks [] es
  rw [← hleft, List.append_nil, List.nil_append] at hflat
  exact ⟨hflat, by simpa [nonEmptyPackets] using hpacks⟩

/-- Every way of cutting a stream into chunks of at most `BUFFSIZE` bytes comes up. -/
theorem exists_processes (h : Obeys P F) (hch : ch.inputEvbuffer = []) {cs : List (List α)}
    (hcs : ∀ w ∈ cs, w.length ≤ buffsize) :
    ∃ packs, Processes P ch cs.flatten (cutting cs) packs ∧
      nonEmptyPackets packs = cs.flatMap (F.kept Packet.nonEmpty) := by
  obtain ⟨hc, hl⟩ := chunks_cutting cs hcs
  obtain ⟨t, ht, hleft, hpacks⟩ := session_spec h (cutting cs) (ch, [])
  rw [hch] at hleft hpacks
  rw [hc] at hpacks
  refine ⟨t.2, ⟨stream_cutting cs, t.1, ht, hleft.trans hl⟩, ?_⟩
  simpa [nonEmptyPackets] using hpacks

/-- **Packets and cutting.** For a parse function that obeys a format, every cutting of
a stream comes to an end; a cutting all of whose chunks end with a packet gives the
packets of the stream; and all cuttings of a stream give the same packets exactly if
in no stretch of `BUFFSIZE` bytes of it a non-empty packet can be cut or missed. -/
theorem cutIndependent_iff (P : ParseFunc α) (F : Format α (Packet α)) (h : Obeys P F)
    (ch : IChannel α) (hch : ch.inputEvbuffer = []) :
    (∀ es, ∃ t, exec (Session.step P) (ch, []) es = some t) ∧
      (∀ S es packs, Processes P ch S es packs → (∀ w ∈ chunks [] es, F.rest w = []) →
        nonEmptyPackets packs = F.kept Packet.nonEmpty S) ∧
      ∀ S, CutIndependent P ch S ↔ F.CutFree Packet.nonEmpty buffsize S := by
  refine ⟨fun es => ?_, fun S es packs hp hrest => ?_, fun S => ?_⟩
  · obtain ⟨t, ht, -⟩ := session_spec h es (ch, [])
    exact ⟨t, ht⟩
  · obtain ⟨rfl, hpacks⟩ := hp.spec h hch
    rw [hpacks, Format.kept, Format.packets_flatten hrest, List.filter_flatMap]
    rfl
  · rw [← Format.agree_iff_cutFree buffsize_pos]
    constructor
    · rintro hind cs ds hcs hds hcB hdB
      obtain ⟨packs, hp, hpacks⟩ := exists_processes h hch hcB
      obtain ⟨packs', hp', hpacks'⟩ := exists_processes h hch hdB
      rw [hcs] at hp
      rw [hds] at hp'
      rw [← hpacks, ← hpacks']
      exact hind _ _ _ _ hp hp'
    · intro hagree es es' packs packs' hp hp'
      obtain ⟨hS, hpacks⟩ := hp.spec h hch
      obtain ⟨hS', hpacks'⟩ := hp'.spec h hch
      rw [hpacks, hpacks']
      exact hagree _ _ hS hS' (length_chunks _ _) (length_chunks _ _)

end Session

/-! ### Packets that are cut, and packets that are not -/

/-- A packet with the one byte `65` and the type `9`. -/
def oneByte : List UInt8 := [1, 0, 0, 0, 9, 0, 0, 0, 65]

/-- A packet with the two bytes `66` and `67` and the type `10`. -/
def twoBytes : List UInt8 := [2, 0, 0, 0, 10, 0, 0, 0, 66, 67]

/-- A format in which each byte is a packet. -/
def byteFormat : Format UInt8 (Packet UInt8) where
  next
    | [] => none
    | b :: _ => some ⟨0, [b]⟩
  width _ := 1
  pos _ := Nat.one_pos
  le {xs _} h := by
    cases xs with
    | nil => cases h
    | cons b xs => exact Nat.succ_le_succ xs.length.zero_le
  ext {xs _} ys h := by
    cases xs with
    | nil => cases h
    | cons b xs => exact h
  cut {xs _} h := by
    cases xs with
    | nil => cases h
    | cons b xs => exact h

theorem byteFormat_rest (xs : List UInt8) : byteFormat.rest xs = [] := by
  have h := Format.next_rest (F := byteFormat) xs
  cases hr : byteFormat.rest xs with
  | nil => rfl
  | cons b ys =>
    rw [hr] at h
    cases h

/-- What a cutting of a stream gives, found out by running it. -/
theorem processes_of_run [Inhabited α] (P : ParseFunc α) {S : List α} (es : List (Cut α))
    (ps : List (Packet α)) (hS : stream es = S)
    (h : (exec (Session.step P) (IChannel.new, []) es).map
      (fun r => (nonEmptyPackets r.2, r.1.inputEvbuffer)) = some (ps, [])) :
    ∃ packs, Processes P IChannel.new S es packs ∧ nonEmptyPackets packs = ps := by
  obtain ⟨⟨ch, packs⟩, hx, he⟩ := Option.map_eq_some_iff.mp h
  obtain ⟨hps, hnil⟩ := Prod.mk.inj he
  exact ⟨packs, ⟨hS, ch, hx, hnil⟩, hps⟩

/-- Two packets, each read in a frame of its own, are handed over as they are; were the first of
them cut, it would be lost. Where each byte is a packet, nothing can be cut. -/
theorem cutIndependent_twoPackets :
    (∃ packs, Processes (parserOf wireFormat) IChannel.new (oneByte ++ twoBytes)
        [.read oneByte, .frame, .read twoBytes, .frame] packs ∧
      nonEmptyPackets packs = [⟨9, [65]⟩, ⟨10, [66, 67]⟩] ∧
      wireFormat.kept Packet.nonEmpty (oneByte ++ twoBytes) = [⟨9, [65]⟩, ⟨10, [66, 67]⟩]) ∧
      ¬ CutIndependent (parserOf wireFormat) IChannel.new (oneByte ++ twoBytes) ∧
      CutIndependent (parserOf byteFormat) IChannel.new [65, 66, 67] := by
  obtain ⟨-, hpackets, hind⟩ := cutIndependent_iff (parserOf wireFormat) wireFormat
    (obeys_parserOf wireFormat) IChannel.new rfl
  obtain ⟨-, -, hind'⟩ := cutIndependent_iff (parserOf byteFormat) byteFormat
    (obeys_parserOf byteFormat) IChannel.new rfl
  refine ⟨?_, fun h => ?_, (hind' _).mpr ⟨fun _ _ _ _ _ _ => rfl, fun v _ _ _ _ => byteFormat_rest v⟩⟩
  · obtain ⟨packs, hp, hps⟩ := processes_of_run (S := oneByte ++ twoBytes) (parserOf wireFormat)
      [.read oneByte, .frame, .read twoBytes, .frame] [⟨9, [65]⟩, ⟨10, [66, 67]⟩] rfl (by decide +kernel)
    have hone : wireFormat.rest oneByte = [] :=
      (Format.rest_of_some (p := ⟨9, [65]⟩) (by decide)).trans Format.rest_nil
    have htwo : wireFormat.rest twoBytes = [] :=
      (Format.rest_of_some (p := ⟨10, [66, 67]⟩) (by decide)).trans Format.rest_nil
    have hchunks : chunks [] [.read oneByte, .frame, .read twoBytes, .frame] = [oneByte, twoBytes] := by
      decide +kernel
    have hkept := hpackets _ _ packs hp (by
      rw [hchunks]
      exact List.forall_mem_cons.mpr ⟨hone, List.forall_mem_singleton.mpr htwo⟩)
    exact ⟨packs, hp, hps, hkept.symm.trans hps⟩
  · have hwidth := ((hind _).mp h).short (oneByte ++ twoBytes) ⟨9, [65]⟩ List.infix_rfl (by decide)
      (by decide) rfl
    exact absurd hwidth (by decide)

/-- Read at once, the packet is handed over; read in two pieces with a frame between
them, it is lost. -/
theorem not_cutIndependent_oneByte :
    Obeys (parserOf wireFormat) wireFormat ∧
      (∃ packs, Processes (parserOf wireFormat) IChannel.new oneByte [.read oneByte, .frame] packs ∧
        nonEmptyPackets packs = [⟨9, [65]⟩]) ∧
      (∃ packs, Processes (parserOf wireFormat) IChannel.new oneByte
          [.read (oneByte.take 5), .frame, .read (oneByte.drop 5), .frame] packs ∧
        nonEmptyPackets packs = []) ∧
      ¬ CutIndependent (parserOf wireFormat) IChannel.new oneByte := by
  obtain ⟨packs, hp, hps⟩ := processes_of_run (S := oneByte) (parserOf wireFormat)
    [.read oneByte, .frame] [⟨9, [65]⟩] rfl (by decide +kernel)
  obtain ⟨packs', hp', hps'⟩ := processes_of_run (S := oneByte) (parserOf wireFormat)
    [.read (oneByte.take 5), .frame, .read (oneByte.drop 5), .frame] [] rfl (by decide +kernel)
  refine ⟨obeys_parserOf wireFormat, ⟨packs, hp, hps⟩, ⟨packs', hp', hps'⟩, fun h => ?_⟩
  have := h _ _ _ _ hp hp'
  rw [hps, hps'] at this
  cases this

end Syinx.Tcp
