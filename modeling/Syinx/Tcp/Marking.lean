import Syinx.Tcp.ChannelPool

/-!
# Marked bytes

The server does not look at the bytes it moves. So each byte that arrives may
carry the connection it was read from: the run of the server with marked bytes,
its marks forgotten, is the run of the server.

## What is proved

* `step_map` — a step of the server commutes with any map of bytes that keeps the
  zero byte.
* `exec_erase` — the marked run, its marks forgotten, is the run of the server.
-/

namespace Syinx.Tcp

open Syinx.Library

variable {α β : Type}

/-- A pack with its bytes mapped. -/
def Pack.map (f : α → β) (p : Pack α) : Pack β where
  inLen := p.inLen
  inType := p.inType
  inStr := p.inStr.map f

/-- A channel with its unread bytes mapped. -/
def IChannel.map (f : α → β) (ch : IChannel α) : IChannel β where
  socket := ch.socket
  ichannelID := ch.ichannelID
  buffer := ch.buffer
  inputEvbuffer := ch.inputEvbuffer.map f
  ichStatus := ch.ichStatus

/-- A recorded event with its bytes mapped. -/
def Ev.map (f : α → β) : Ev α → Ev β
  | .login c => .login c
  | .logout c => .logout c
  | .recv c b data => .recv c b (data.map f)
  | .pack c serving p => .pack c serving (p.map f)
  | .write b data => .write b (data.map f)

/-- An operation with its bytes mapped. -/
def Op.map (f : α → β) : Op α → Op β
  | .queuePop => .queuePop
  | .queuePush c => .queuePush c
  | .listPush c => .listPush c
  | .listRemove c => .listRemove c
  | .setcb b c => .setcb b c
  | .setwatermark b => .setwatermark b
  | .enable b => .enable b
  | .freeBev b => .freeBev b
  | .setSocket c fd => .setSocket c fd
  | .setBuffer c b => .setBuffer c b
  | .setStatus c st => .setStatus c st
  | .login c => .login c
  | .logout c => .logout c
  | .onStatusDoAction c => .onStatusDoAction c
  | .freeBuffer c => .freeBuffer c
  | .readBuffer c b data => .readBuffer c b (data.map f)
  | .evbufferFree c => .evbufferFree c
  | .delete c => .delete c

/-- A state of the server with all bytes mapped. -/
def Server.map (f : α → β) (s : Server α) : Server β where
  ichannelNum := s.ichannelNum
  queueILoop := s.queueILoop
  listConnectClient := s.listConnectClient
  chan := fun c => (s.chan c).map f
  bev := s.bev
  nbev := s.nbev
  evFreed := s.evFreed
  deleted := s.deleted
  log := s.log.map (Ev.map f)

/-- An event with its bytes mapped. -/
def Event.map (f : α → β) : Event α → Event β
  | .listen fd created => .listen fd created
  | .recv b data => .recv b (data.map f)
  | .event b what => .event b what
  | .frame => .frame

section Map

variable (f : α → β)

@[simp] theorem IChannel.map_buffer (ch : IChannel α) : (ch.map f).buffer = ch.buffer := rfl

@[simp] theorem IChannel.map_ichStatus (ch : IChannel α) : (ch.map f).ichStatus = ch.ichStatus := rfl

@[simp] theorem IChannel.map_inputEvbuffer (ch : IChannel α) :
    (ch.map f).inputEvbuffer = ch.inputEvbuffer.map f := rfl

@[simp] theorem Server.map_chan (s : Server α) (c : Ptr) : (s.map f).chan c = (s.chan c).map f := rfl

@[simp] theorem Server.map_live (s : Server α) (b : BevId) : (s.map f).live b = s.live b := rfl

theorem Server.map_setChan (s : Server α) (c : Ptr) (ch : IChannel α) :
    (s.setChan c ch).map f = (s.map f).setChan c (ch.map f) := by
  simp only [Server.map, Server.setChan, Server.mk.injEq, true_and, and_true]
  funext d
  by_cases hd : d = c
  · subst hd; simp
  · simp [hd]

theorem Server.map_record (s : Server α) (es : List (Ev α)) :
    (s.record es).map f = (s.map f).record (es.map (Ev.map f)) := by
  simp [Server.map, Server.record]

theorem Pack.data_map (p : Pack α) : (p.map f).data = p.data.map f := by
  simp [Pack.data, Pack.map]

theorem recvClientPack_map (c : Ptr) (ch : IChannel α) (p : Pack α) :
    (recvClientPack c ch p).map (Ev.map f) = recvClientPack c (ch.map f) (p.map f) := by
  unfold recvClientPack
  rw [IChannel.map_ichStatus, IChannel.map_buffer, Pack.data_map]
  split_ifs <;> rfl

variable [Inhabited α] [Inhabited β] (hf : f default = default)

include hf

theorem strData_map (ch : IChannel α) : (ch.map f).strData = ch.strData.map f := by
  rw [IChannel.strData_eq, IChannel.strData_eq]
  simp [hf]

/-- Serving a channel does not look at the bytes. -/
theorem onStatusDoAction_map (ch : IChannel α) :
    (ch.map f).onStatusDoAction recvValuesFromString =
      (ch.onStatusDoAction recvValuesFromString).map fun r => (r.1.map f, r.2.map (Pack.map f)) := by
  unfold IChannel.onStatusDoAction
  rw [strData_map f hf, IChannel.map_inputEvbuffer, List.length_map]
  split_ifs
  · rfl
  · simp [parseLoop, recvValuesFromString, IChannel.map, Pack.map, memcpy, zeros, hf, List.map_drop,
      List.map_take]

/-- An operation does not look at the bytes. -/
theorem run_map (s : Server α) (op : Op α) :
    Op.run recvValuesFromString (s.map f) (op.map f) =
      (Op.run recvValuesFromString s op).map (Server.map f) := by
  cases op with
  | queuePop | queuePush | listPush | listRemove | setcb | setwatermark | enable | freeBev
  | evbufferFree | delete => rfl
  | setSocket c fd | setBuffer c b | setStatus c st =>
    simp only [Op.map, Op.run, Option.map_some, Server.map_setChan]
    rfl
  | login | logout =>
    simp only [Op.map, Op.run, Option.map_some, Server.map_record]
    rfl
  | onStatusDoAction c =>
    simp only [Op.map, Op.run, Server.map_chan, onStatusDoAction_map f hf, Option.map_map]
    congr 1
    funext r
    simp [Server.map_setChan, Server.map_record, List.map_flatMap, List.flatMap_map,
      recvClientPack_map]
  | freeBuffer c =>
    simp only [Op.map, Op.run, Server.map_chan, IChannel.map_buffer]
    cases (s.chan c).buffer <;> rfl
  | readBuffer c b data =>
    simp only [Op.map, Op.run, Option.map_some, Server.map_setChan, Server.map_record]
    simp [IChannel.readBuffer, IChannel.map, Ev.map]

theorem exec_map (ops : List (Op α)) (s : Server α) :
    exec (Op.run recvValuesFromString) (s.map f) (ops.map (Op.map f)) =
      (exec (Op.run recvValuesFromString) s ops).map (Server.map f) := by
  induction ops generalizing s with
  | nil => rfl
  | cons op ops ih =>
    rw [List.map_cons, exec_cons, exec_cons, run_map f hf]
    cases Op.run recvValuesFromString s op with
    | none => rfl
    | some t => simpa using ih t

omit [Inhabited α] [Inhabited β] hf in
/-- A turn does not look at the bytes. -/
theorem turn_map (s : Server α) (e : Event α) :
    (s.map f).turn (e.map f) =
      (s.turn e).map fun r => (r.1.map f, r.2.map (Op.map f)) := by
  cases e with
  | listen fd created =>
    cases created with
    | false => rfl
    | true =>
      have hops : ((s.buffereventSocketNew fd).map f).allocationIChannel s.nbev fd =
          (((s.buffereventSocketNew fd).allocationIChannel s.nbev fd).1.map (Op.map f),
            ((s.buffereventSocketNew fd).allocationIChannel s.nbev fd).2) := by
        simp only [Server.allocationIChannel, Server.map]
        split <;> rfl
      exact congrArg (fun r => some ((s.buffereventSocketNew fd).map f, r.1)) hops
  | recv b data =>
    have hops : (s.map f).syinxKernelRecvCb b (data.map f) =
        (s.syinxKernelRecvCb b data).map (Op.map f) := by
      simp only [Server.syinxKernelRecvCb, Server.map]
      split <;> rfl
    simp only [Event.map, Server.turn, Server.map_live, hops]
    split_ifs <;> rfl
  | event b what =>
    have hops : (s.map f).syinxKernelEventCb b what =
        (s.syinxKernelEventCb b what).map (List.map (Op.map f)) := by
      simp only [Server.syinxKernelEventCb, Server.map]
      split_ifs
      · cases (s.bev b).ctx <;> rfl
      · rfl
    simp only [Event.map, Server.turn, Server.map_live, hops]
    split_ifs
    · rw [Option.map_map, Option.map_map]; rfl
    · rfl
  | frame =>
    have hops : (s.map f).gameServerDoAction = s.gameServerDoAction.map (Op.map f) := by
      simp [Server.gameServerDoAction, Server.map, Function.comp_def, Op.map]
    exact congrArg (fun ops => some (s.map f, ops)) hops

/-- **A step of the server does not look at the bytes.** -/
theorem step_map (s : Server α) (e : Event α) :
    (s.map f).step recvValuesFromString (e.map f) =
      (s.step recvValuesFromString e).map (Server.map f) := by
  rw [Server.step, Server.step, turn_map]
  cases s.turn e with
  | none => rfl
  | some r => exact exec_map f hf r.2 r.1

end Map

/-! ### Marks -/

/-- A byte and the connection it was read from, if any. -/
structure RByte where
  /-- The connection. -/
  src : Option BevId
  /-- The byte. -/
  val : UInt8
  deriving DecidableEq

instance : Inhabited RByte := ⟨⟨none, 0⟩⟩

/-- The bytes that arrive are marked. -/
def Event.mark : Event UInt8 → Event RByte
  | .listen fd created => .listen fd created
  | .recv b data => .recv b (data.map fun x => ⟨some b, x⟩)
  | .event b what => .event b what
  | .frame => .frame

/-- A step of the server with marked bytes, `RecvValuesFromString` being bound. -/
def markedStep (s : Server RByte) (e : Event UInt8) : Option (Server RByte) :=
  s.step recvValuesFromString e.mark

theorem Event.mark_erase (e : Event UInt8) : e.mark.map RByte.val = e := by
  cases e <;> simp [Event.mark, Event.map, Function.comp_def]

/-- **The marks change nothing**: the marked run, its marks forgotten, is the run of the
server. -/
theorem exec_erase (s : Server RByte) (es : List (Event UInt8)) :
    exec (Server.step recvValuesFromString) (s.map RByte.val) es =
      (exec markedStep s es).map (Server.map RByte.val) := by
  induction es generalizing s with
  | nil => rfl
  | cons e es ih =>
    have he := step_map RByte.val rfl s e.mark
    rw [Event.mark_erase] at he
    rw [exec_cons, exec_cons, he, markedStep]
    cases s.step recvValuesFromString e.mark with
    | none => rfl
    | some t => simpa using ih t

end Syinx.Tcp
