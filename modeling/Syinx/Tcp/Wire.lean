import Syinx.Library.Framing
import Syinx.Tcp.Channel

/-!
# Packets on the wire

The format in which `IChannel::SendValuesToString` writes a packet: four bytes of
length, four bytes of type, both with the low byte first, and then the bytes of the
packet.

## What is proved

* `wireFormat` — it is a format: a packet that has come in completely is recognised
  from its own bytes, whatever follows.
-/

namespace Syinx.Tcp

open Syinx.Library

/-- A packet: its type and its bytes. -/
structure Packet (α : Type) where
  /-- The type. -/
  inType : ℤ
  /-- The bytes. -/
  payload : List α
  deriving DecidableEq

/-- The packet is not empty. -/
def Packet.nonEmpty {α : Type} (p : Packet α) : Bool := !p.payload.isEmpty

/-- The number four bytes stand for, low byte first. -/
def littleEndian (xs : List UInt8) : ℕ := xs.foldr (fun b n => b.toNat + 256 * n) 0

/-- The length in the header of a packet. -/
def headerLen (xs : List UInt8) : ℕ := littleEndian (xs.take 4)

/-- The type in the header of a packet. -/
def headerType (xs : List UInt8) : ℕ := littleEndian ((xs.drop 4).take 4)

/-- The packet a stream begins with. -/
def wireNext (xs : List UInt8) : Option (Packet UInt8) :=
  if 8 ≤ xs.length ∧ 8 + headerLen xs ≤ xs.length then
    some { inType := headerType xs, payload := (xs.drop 8).take (headerLen xs) }
  else none

/-- The header of a stream is in its first eight bytes. -/
theorem header_append {xs : List UInt8} (h : 8 ≤ xs.length) (ys : List UInt8) :
    headerLen (xs ++ ys) = headerLen xs ∧ headerType (xs ++ ys) = headerType xs := by
  constructor
  · rw [headerLen, headerLen, List.take_append_of_le_length (by omega)]
  · rw [headerType, headerType, List.drop_append_of_le_length (by omega),
      List.take_append_of_le_length (by rw [List.length_drop]; omega)]

/-- What it means that a stream begins with a packet. -/
theorem wireNext_eq_some {xs : List UInt8} {p : Packet UInt8} :
    wireNext xs = some p ↔ 8 ≤ xs.length ∧ 8 + headerLen xs ≤ xs.length ∧
      p = { inType := headerType xs, payload := (xs.drop 8).take (headerLen xs) } := by
  unfold wireNext
  split_ifs with h
  · simp [h, eq_comm]
  · simp only [false_iff]
    exact fun h' => h ⟨h'.1, h'.2.1⟩

/-- A packet has the length its header says. -/
theorem length_payload {xs : List UInt8} {p : Packet UInt8} (h : wireNext xs = some p) :
    p.payload.length = headerLen xs := by
  obtain ⟨h8, hlen, rfl⟩ := wireNext_eq_some.mp h
  rw [List.length_take, List.length_drop]
  omega

/-- A complete packet stays what it is when the stream goes on. -/
theorem wireNext_append {xs : List UInt8} {p : Packet UInt8} (h : wireNext xs = some p)
    (ys : List UInt8) : wireNext (xs ++ ys) = some p := by
  obtain ⟨h8, hlen, rfl⟩ := wireNext_eq_some.mp h
  obtain ⟨hl, ht⟩ := header_append h8 ys
  rw [wireNext_eq_some, hl, ht, List.length_append, List.drop_append_of_le_length h8,
    List.take_append_of_le_length (by rw [List.length_drop]; omega)]
  exact ⟨by omega, by omega, rfl⟩

/-- The format of `SendValuesToString`. -/
def wireFormat : Format UInt8 (Packet UInt8) where
  next := wireNext
  width p := 8 + p.payload.length
  pos _ := by omega
  le h := by
    rw [length_payload h]
    exact (wireNext_eq_some.mp h).2.1
  ext ys h := wireNext_append h ys
  cut {xs p} h := by
    obtain ⟨h8, hlen, rfl⟩ := wireNext_eq_some.mp h
    rw [length_payload h]
    have htake : 8 ≤ (xs.take (8 + headerLen xs)).length := by
      rw [List.length_take]
      omega
    obtain ⟨hl, ht⟩ := header_append htake (xs.drop (8 + headerLen xs))
    rw [List.take_append_drop] at hl ht
    rw [wireNext_eq_some, ← hl, ← ht, List.length_take, List.drop_take, List.take_take]
    refine ⟨by omega, by omega, ?_⟩
    rw [Nat.add_sub_cancel_left, min_self]

theorem wireFormat_next (xs : List UInt8) : wireFormat.next xs = wireNext xs := rfl

end Syinx.Tcp
