import Mathlib.Algebra.Order.Group.Int
import Mathlib.Data.List.Basic

/-!
# A channel

`IChannel` of `SyTaskAdapter.cpp`: the session object a connected client is given.
What a client sends is moved into the channel's input buffer; once a frame,
`OnStatusDoAction` takes at most `BUFFSIZE` bytes off its front and lets the
bound parse function cut them into packs, which go to `RecvClientPack`.

The bytes are of any type `α` with a zero (`default`), so that a run can be
repeated with bytes that remember where they come from. An `evbuffer` is a list:
bytes are added at its end and removed at its front. A `char` array is the list
of its cells.

`OnStatusDoAction` is the one of the build without `SYINX_USE_PTHREAD`. Its
`do … while (true)` runs until the parse function returns `false`; a parse
function that returns `true` more often than the chunk can have bytes is taken
not to come to an end (`none`).

## What is proved

* `onStatusDoAction_recvValues` — with the parse function the repository binds, a
  frame hands over the first `BUFFSIZE` bytes of the input buffer, whatever they are.
-/

namespace Syinx.Tcp

variable {α : Type}

/-- `BUFFSIZE`. -/
def buffsize : ℕ := 4096

theorem buffsize_pos : 0 < buffsize := by decide

/-- A pointer to a channel. -/
abbrev Ptr := ℕ

/-- A pointer to a `bufferevent`. -/
abbrev BevId := ℕ

/-! ### Parse functions -/

/-- What a parse function is given by reference: `Index`, `_OutLen`, `_OutType` and
the array `_OutStr`. -/
structure ParseIO (α : Type) where
  /-- `Index`. -/
  index : ℤ
  /-- `_OutLen`. -/
  outLen : ℤ
  /-- `_OutType`. -/
  outType : ℤ
  /-- `_OutStr`. -/
  outStr : List α

/-- A function bound with `BindParse`, of `_Instr`, `_InSize` and what it is given by
reference. -/
abbrev ParseFunc (α : Type) := List α → ℤ → ParseIO α → Bool × ParseIO α

/-- What `RecvClientPack` is called with. -/
structure Pack (α : Type) where
  /-- `_InLen`. -/
  inLen : ℤ
  /-- `_InType`. -/
  inType : ℤ
  /-- `_InStr`. -/
  inStr : List α

/-- The bytes `SendDataToClient` is handed: `_InLen` bytes of `_InStr`. -/
def Pack.data (p : Pack α) : List α := p.inStr.take p.inLen.toNat

/-- `memcpy` of `n` cells from `src` to `dst`. -/
def memcpy (dst src : List α) (n : ℤ) : List α := src.take n.toNat ++ dst.drop n.toNat

/-- `IChannel::RecvValuesFromString`, the parse function `SetupFrameInputFunc` binds. -/
def recvValuesFromString : ParseFunc α := fun inStr inSize io =>
  (false, { index := 0, outLen := inSize, outType := 1, outStr := memcpy io.outStr inStr inSize })

section Loop

variable [Inhabited α]

/-- `char str[BUFFSIZE] = { 0 }`. -/
def zeros : List α := List.replicate buffsize default

/-- The packs of the `do … while (true)` of `OnStatusDoAction`, from `Index` on, for a
chunk of `size` bytes in `strData`. -/
def parseLoop (P : ParseFunc α) (strData : List α) (size : ℤ) : ℕ → ℤ → Option (List (Pack α))
  | 0, _ => none
  | fuel + 1, index =>
    let r := P strData size { index, outLen := 0, outType := 0, outStr := zeros }
    let pack : Pack α := { inLen := r.2.outLen, inType := r.2.outType, inStr := r.2.outStr }
    if r.1 then (parseLoop P strData size fuel r.2.index).map (pack :: ·) else some [pack]

end Loop

/-! ### Channels -/

/-- `ICNANNEL_LINK_STATUS`. -/
inductive IchannelLinkStatus where
  | clientLogout
  | clientLogin
  deriving DecidableEq

/-- `IChannel`, without its player and its parse function, which are the same for
every channel. -/
structure IChannel (α : Type) where
  /-- `m_Socket`. -/
  socket : ℤ
  /-- `m_IChannelID`. -/
  ichannelID : ℕ
  /-- `m_buffer`; `none` is the null pointer. -/
  buffer : Option BevId
  /-- `m_Inputevbuffer`. -/
  inputEvbuffer : List α
  /-- `IChStatus`. -/
  ichStatus : IchannelLinkStatus

namespace IChannel

/-- After the constructor and `Initialize`. -/
def new : IChannel α where
  socket := 0
  ichannelID := 0
  buffer := none
  inputEvbuffer := []
  ichStatus := .clientLogout

/-- `SetIChannelID`. -/
def setIChannelID (ch : IChannel α) (index : ℕ) : IChannel α :=
  if ch.ichannelID = 0 then { ch with ichannelID := index } else ch

/-- `bufferevent_read_buffer(bev, ICh->m_Inputevbuffer)`: the bytes that have arrived go
to the end of the input buffer. -/
def readBuffer (ch : IChannel α) (data : List α) : IChannel α :=
  { ch with inputEvbuffer := ch.inputEvbuffer ++ data }

variable [Inhabited α]

/-- The chunk of a frame, `evbuffer_remove(m_Inputevbuffer, strData, BUFFSIZE)`, in its
array. -/
def strData (ch : IChannel α) : List α :=
  memcpy zeros (ch.inputEvbuffer.take buffsize) (ch.inputEvbuffer.take buffsize).length

/-- `IChannel::OnStatusDoAction`, with the packs it hands to `RecvClientPack`. -/
def onStatusDoAction (P : ParseFunc α) (ch : IChannel α) : Option (IChannel α × List (Pack α)) :=
  if ch.inputEvbuffer.length = 0 then some (ch, [])
  else
    let size := (ch.inputEvbuffer.take buffsize).length
    (parseLoop P ch.strData size (buffsize + 1) 0).map fun packs =>
      ({ ch with inputEvbuffer := ch.inputEvbuffer.drop buffsize }, packs)

/-- A frame only takes bytes off the input buffer. -/
theorem onStatusDoAction_eq_some {P : ParseFunc α} {ch ch' : IChannel α} {packs : List (Pack α)}
    (h : ch.onStatusDoAction P = some (ch', packs)) :
    ch' = { ch with inputEvbuffer := ch.inputEvbuffer.drop buffsize } := by
  unfold onStatusDoAction at h
  split_ifs at h with hlen
  · cases h
    rw [List.eq_nil_of_length_eq_zero hlen, List.drop_nil]
    cases ch
    simp_all
  · obtain ⟨packs', -, hp⟩ := Option.map_eq_some_iff.mp h
    cases hp
    rfl

/-- The array holds the chunk, and zeros behind it. -/
theorem strData_eq (ch : IChannel α) :
    ch.strData = ch.inputEvbuffer.take buffsize ++
      List.replicate (buffsize - (ch.inputEvbuffer.take buffsize).length) default := by
  rw [strData, memcpy, zeros, Int.toNat_natCast, List.take_length, List.drop_replicate]

/-- With `RecvValuesFromString` a frame removes the first `BUFFSIZE` bytes of the input
buffer and hands over just these. -/
theorem onStatusDoAction_recvValues (ch : IChannel α) :
    ∃ packs, ch.onStatusDoAction recvValuesFromString =
        some ({ ch with inputEvbuffer := ch.inputEvbuffer.drop buffsize }, packs) ∧
      (packs.map Pack.data).flatten = ch.inputEvbuffer.take buffsize := by
  by_cases hlen : ch.inputEvbuffer.length = 0
  · have hnil := List.eq_nil_of_length_eq_zero hlen
    refine ⟨[], ?_, by simp [hnil]⟩
    cases ch
    simp_all [onStatusDoAction]
  · refine ⟨_, by simp only [onStatusDoAction, if_neg hlen, parseLoop, recvValuesFromString,
      Option.map_some, Bool.false_eq_true, if_false]; rfl, ?_⟩
    rw [List.map_singleton, List.flatten_cons, List.flatten_nil, List.append_nil, Pack.data, memcpy,
      Int.toNat_natCast, strData_eq, List.take_left, List.take_left]

end IChannel

end Syinx.Tcp
