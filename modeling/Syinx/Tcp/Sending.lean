import Syinx.Tcp.Wire

/-!
# Sending packets

`IChannel::SendValuesToString` writes the length it is given, the type and the whole of the
string. Nothing makes the length that of the string.

A `bufferevent_write` that fails has added nothing to the buffer.

## What is proved

* `next_sendStr_iff` — what a call writes is the packet it was given exactly if the length
  is that of the string.
* `outgoingDecodable_iff` — which calls can be read back by the receiver.
-/

namespace Syinx.Tcp

open Syinx.Library

/-- A call of `SendValuesToString`. -/
structure SendCall where
  /-- `_InLen`. -/
  inLen : UInt32
  /-- `_InType`. -/
  inType : UInt32
  /-- `_InStr`. -/
  inStr : List UInt8
  /-- `bufferevent_write` succeeds. -/
  writes : Bool

/-- The four bytes of a number, as they are pushed. -/
def pushBytes (n : UInt32) : List UInt8 :=
  [(n &&& 0xff).toUInt8, ((n >>> 8) &&& 0xff).toUInt8, ((n >>> 16) &&& 0xff).toUInt8,
    ((n >>> 24) &&& 0xff).toUInt8]

/-- `_SendStr`. -/
def SendCall.sendStr (c : SendCall) : List UInt8 :=
  pushBytes c.inLen ++ pushBytes c.inType ++ c.inStr

/-- `bufferevent_write`, on what has been written before. -/
def buffereventWrite (ok : Bool) (output data : List UInt8) : ℤ × List UInt8 :=
  if ok then (0, output ++ data) else (-1, output)

/-- `SendValuesToString`, on what has been written before. -/
def sendValuesToString (output : List UInt8) (c : SendCall) : Bool × List UInt8 :=
  if 0 < c.inLen then
    let (iRet, output') := buffereventWrite c.writes output c.sendStr
    if iRet < 0 then (false, output') else (true, output')
  else (false, output)

/-- A connection: the bytes written, and the calls that have returned true. -/
structure Outgoing where
  output : List UInt8
  returnedTrue : List SendCall

/-- A call. -/
def Outgoing.send (o : Outgoing) (c : SendCall) : Outgoing :=
  let (ret, output) := sendValuesToString o.output c
  ⟨output, if ret then o.returnedTrue ++ [c] else o.returnedTrue⟩

/-- The calls of a connection, one after the other. -/
def Outgoing.run (cs : List SendCall) : Outgoing := cs.foldl Outgoing.send ⟨[], []⟩

/-- The packet a call is to send. -/
def SendCall.packet (c : SendCall) : Packet UInt8 := ⟨c.inType.toNat, c.inStr⟩

/-- What `SendValuesToString` is for: the receiver reads the packets of the calls that have
returned true, and nothing else. -/
structure OutgoingDecodable (cs : List SendCall) : Prop where
  packets : wireFormat.packets (Outgoing.run cs).output =
    (Outgoing.run cs).returnedTrue.map SendCall.packet
  rest : wireFormat.rest (Outgoing.run cs).output = []
  /-- A call that returns false writes nothing. -/
  refused : ∀ c ∈ cs, ∀ output, (sendValuesToString output c).1 = false →
    (sendValuesToString output c).2 = output

/-! ### A call -/

/-- A call that writes. -/
def SendCall.accepted (c : SendCall) : Bool := 0 < c.inLen && c.writes

theorem sendValuesToString_eq (output : List UInt8) (c : SendCall) :
    sendValuesToString output c =
      if c.accepted then (true, output ++ c.sendStr) else (false, output) := by
  unfold sendValuesToString SendCall.accepted buffereventWrite
  cases c.writes <;> by_cases h : 0 < c.inLen <;> simp [h]

theorem Outgoing.send_eq (o : Outgoing) (c : SendCall) :
    o.send c = if c.accepted then ⟨o.output ++ c.sendStr, o.returnedTrue ++ [c]⟩ else o := by
  unfold Outgoing.send
  rw [sendValuesToString_eq]
  cases c.accepted <;> rfl

/-- What has been written is what the calls that returned true have written. -/
theorem Outgoing.run_output (cs : List SendCall) :
    (Outgoing.run cs).output = (Outgoing.run cs).returnedTrue.flatMap SendCall.sendStr ∧
      (Outgoing.run cs).returnedTrue = cs.filter SendCall.accepted := by
  induction cs using List.reverseRecOn with
  | nil => exact ⟨rfl, rfl⟩
  | append_singleton cs c ih =>
    have hrun : Outgoing.run (cs ++ [c]) = (Outgoing.run cs).send c := by
      rw [Outgoing.run, List.foldl_append]
      rfl
    rw [hrun, Outgoing.send_eq, List.filter_append]
    cases hc : c.accepted with
    | false => simpa [hc] using ih
    | true => simp [hc, ih.1, ih.2]

/-! ### What is written -/

theorem littleEndian_pushBytes (n : UInt32) : littleEndian (pushBytes n) = n.toNat := by
  have hmask : ∀ m : ℕ, m &&& 255 = m % 256 := fun m => Nat.and_two_pow_sub_one_eq_mod m 8
  have hn : n.toNat < 2 ^ 32 := n.toNat_lt
  simp only [littleEndian, pushBytes, List.foldr_cons, List.foldr_nil, UInt32.toNat_toUInt8,
    UInt32.toNat_and, UInt32.toNat_shiftRight, UInt32.reduceToNat, Nat.reduceMod, Nat.reducePow,
    hmask, Nat.shiftRight_eq_div_pow]
  omega

theorem SendCall.length_sendStr (c : SendCall) : c.sendStr.length = 8 + c.inStr.length := by
  simp [SendCall.sendStr, pushBytes]
  omega

theorem SendCall.headerLen_sendStr (c : SendCall) : headerLen c.sendStr = c.inLen.toNat := by
  have htake : c.sendStr.take 4 = pushBytes c.inLen := rfl
  rw [headerLen, htake, littleEndian_pushBytes]

theorem SendCall.headerType_sendStr (c : SendCall) : headerType c.sendStr = c.inType.toNat := by
  have htake : (c.sendStr.drop 4).take 4 = pushBytes c.inType := rfl
  rw [headerType, htake, littleEndian_pushBytes]

/-- What is written is the packet exactly if the length is that of the string. -/
theorem next_sendStr_iff (c : SendCall) :
    wireFormat.next c.sendStr = some c.packet ↔ c.inLen.toNat = c.inStr.length := by
  rw [wireFormat_next]
  constructor
  · intro h
    have hlen := length_payload h
    rw [c.headerLen_sendStr] at hlen
    exact hlen.symm
  · intro h
    rw [wireNext_eq_some, c.headerLen_sendStr, c.headerType_sendStr, c.length_sendStr, h]
    refine ⟨by omega, by omega, ?_⟩
    rw [List.take_of_length_le (by rw [List.length_drop, c.length_sendStr]; omega)]
    rfl

/-- **Which calls can be read back**: those in which the length given is that of the string,
wherever something is written. -/
theorem outgoingDecodable_iff (cs : List SendCall) :
    OutgoingDecodable cs ↔
      ∀ c ∈ cs, 0 < c.inLen → c.writes = true → c.inLen.toNat = c.inStr.length := by
  obtain ⟨hout, htrue⟩ := Outgoing.run_output cs
  have hwidth : ∀ c : SendCall, wireFormat.width c.packet = c.sendStr.length := by
    intro c
    rw [c.length_sendStr]
    rfl
  have hread := wireFormat.decode_flatMap_iff hwidth (cs.filter SendCall.accepted)
  constructor
  · intro h c hc hlen hw
    have hpackets := h.packets
    have hrest := h.rest
    rw [hout, htrue] at hpackets hrest
    have hall := hread.mp ⟨hpackets, hrest⟩
    have hacc : c.accepted = true := by simp [SendCall.accepted, hlen, hw]
    exact (next_sendStr_iff c).mp (hall c (List.mem_filter.mpr ⟨hc, hacc⟩))
  · intro h
    have hall : ∀ c ∈ cs.filter SendCall.accepted, wireFormat.next c.sendStr = some c.packet := by
      intro c hc
      obtain ⟨hc, hacc⟩ := List.mem_filter.mp hc
      rw [SendCall.accepted, Bool.and_eq_true, decide_eq_true_eq] at hacc
      exact (next_sendStr_iff c).mpr (h c hc hacc.1 hacc.2)
    obtain ⟨hpackets, hrest⟩ := hread.mpr hall
    rw [← htrue, ← hout] at hpackets hrest
    constructor
    · exact hpackets
    · exact hrest
    · intro c _ output hret
      rw [sendValuesToString_eq] at hret ⊢
      cases hacc : c.accepted with
      | false => rfl
      | true => simp [hacc] at hret

/-- A call that says one byte and is given two. -/
theorem not_outgoingDecodable : ¬ OutgoingDecodable [⟨1, 0, [7, 8], true⟩] := by
  intro h
  have hrest : wireFormat.rest [1, 0, 0, 0, 0, 0, 0, 0, 7, 8] = [] := h.rest
  rw [Format.rest_of_some (p := ⟨0, [7]⟩) rfl] at hrest
  rw [Format.rest_of_none rfl] at hrest
  cases hrest

end Syinx.Tcp
