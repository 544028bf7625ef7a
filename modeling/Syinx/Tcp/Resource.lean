import Syinx.Library.Runs
import Syinx.Library.Recycle
import Syinx.Tcp.Channel

/-!
# The resource manager and its callbacks

`SyinxAdapterResource` owns the channels: the idle ones wait in `m_queueILoop`,
the connected ones are in `m_listConnectClient`. The libevent callbacks of
`Syinx.cpp` move them: `SyinxKernel_Listen_CB` through `AllocationIChannel`,
`SyinxKernel_Event_Cb` through `SocketFdDel`. Once a frame
`GameServerDoAction` serves every connected channel.

A function of the source is the list of its container operations, field
assignments and libevent calls (`Op`), in their order; what one of them does to
the state is `Op.run`. What happens between two turns of the event loop is a step
of the server (`step`): a callback or a frame, run to its end.

Of libevent: the callbacks of a `bufferevent` come between `bufferevent_enable`
and `bufferevent_free`. A `listen` brings a new connection, for which
`bufferevent_socket_new` may fail.

The `log` records what the properties are about: what `SyinxKernel_Recv_Cb` moved
into a channel's input buffer, the packs `RecvClientPack` was called with and for
which connection the channel then was, what was written to a `bufferevent`, and
the calls of the player's `Login` and `Logout`.
-/

namespace Syinx.Tcp

open Syinx.Library

variable {α : Type}

/-- A `bufferevent` of libevent. -/
structure Bufferevent where
  /-- Its socket. -/
  fd : ℤ
  /-- The argument `bufferevent_setcb` has given it for its callbacks. -/
  ctx : Option Ptr
  /-- `bufferevent_enable` has been called. -/
  enabled : Bool
  /-- How many times `bufferevent_free` has been called. -/
  freed : ℕ
  deriving DecidableEq

/-- What is recorded. -/
inductive Ev (α : Type) where
  /-- `CPlayer::Login` of channel `c`. -/
  | login (c : Ptr)
  /-- `CPlayer::Logout` of channel `c`. -/
  | logout (c : Ptr)
  /-- Bytes of connection `b` went to the input buffer of channel `c`. -/
  | recv (c : Ptr) (b : BevId) (data : List α)
  /-- `RecvClientPack` of channel `c`, whose `m_buffer` is `serving`. -/
  | pack (c : Ptr) (serving : Option BevId) (p : Pack α)
  /-- `bufferevent_write`. -/
  | write (b : Option BevId) (data : List α)

/-- `SyinxAdapterResource` with its channels, and the `bufferevent`s. -/
structure Server (α : Type) where
  /-- `m_IChannelNum`. -/
  ichannelNum : ℕ
  /-- `m_queueILoop`. -/
  queueILoop : List Ptr
  /-- `m_listConnectClient`. -/
  listConnectClient : List Ptr
  /-- The channels. -/
  chan : Ptr → IChannel α
  /-- The `bufferevent`s. -/
  bev : BevId → Bufferevent
  /-- How many there have been. -/
  nbev : ℕ
  /-- How many times a channel's `m_Inputevbuffer` has been freed. -/
  evFreed : Ptr → ℕ
  /-- How many times a channel has been deleted. -/
  deleted : Ptr → ℕ
  /-- What has happened. -/
  log : List (Ev α)

/-- A container operation, a field assignment or a call of libevent or of the player. -/
inductive Op (α : Type) where
  /-- `m_queueILoop.pop()`. -/
  | queuePop
  /-- `m_queueILoop.push(ICh)`. -/
  | queuePush (c : Ptr)
  /-- `m_listConnectClient.push_back(ICh)`. -/
  | listPush (c : Ptr)
  /-- `m_listConnectClient.remove(ICh)`. -/
  | listRemove (c : Ptr)
  /-- `bufferevent_setcb(buffer, …, ICh)`. -/
  | setcb (b : BevId) (c : Ptr)
  /-- `bufferevent_setwatermark(buffer, EV_READ, LIBEVENT_READ_WATERMARK, 0)`. -/
  | setwatermark (b : BevId)
  /-- `bufferevent_enable(buffer, …)`. -/
  | enable (b : BevId)
  /-- `bufferevent_free(buffer)`. -/
  | freeBev (b : BevId)
  /-- `m_Socket = …`. -/
  | setSocket (c : Ptr) (fd : ℤ)
  /-- `m_buffer = …`. -/
  | setBuffer (c : Ptr) (b : Option BevId)
  /-- `IChStatus = …`. -/
  | setStatus (c : Ptr) (st : IchannelLinkStatus)
  /-- `m_pPlayer->Login()`. -/
  | login (c : Ptr)
  /-- `m_pPlayer->Logout()`. -/
  | logout (c : Ptr)
  /-- `OnStatusDoAction()`. -/
  | onStatusDoAction (c : Ptr)
  /-- `if (nullptr != m_buffer) bufferevent_free(m_buffer)`. -/
  | freeBuffer (c : Ptr)
  /-- `bufferevent_read_buffer(bev, ICh->m_Inputevbuffer)`. -/
  | readBuffer (c : Ptr) (b : BevId) (data : List α)
  /-- `evbuffer_free(m_Inputevbuffer)`. -/
  | evbufferFree (c : Ptr)
  /-- `delete ICh`. -/
  | delete (c : Ptr)

/-! ### The functions of the source -/

/-- `IChannel::OnClientConnect`. -/
def onClientConnect (c : Ptr) (fd : ℤ) (b : BevId) : List (Op α) :=
  [.setSocket c fd, .setBuffer c (some b), .login c, .setStatus c .clientLogin]

/-- `IChannel::Clear`. -/
def clear (c : Ptr) : List (Op α) :=
  [.setSocket c 0, .onStatusDoAction c, .setStatus c .clientLogout, .freeBuffer c,
    .setBuffer c none, .logout c]

/-- `IChannel::Close`; what becomes of the player is left out. -/
def ichannelClose (c : Ptr) : List (Op α) := [.evbufferFree c]

/-- `SyinxAdapterResource::SocketFdAdd`. -/
def socketFdAdd (c : Ptr) : List (Op α) := [.listPush c]

/-- `SyinxAdapterResource::SocketFdDel`. -/
def socketFdDel (c : Ptr) : List (Op α) := .listRemove c :: (clear c ++ [.queuePush c])

namespace Server

/-- `SyinxAdapterResource::AllocationIChannel`, and what it returns. -/
def allocationIChannel (s : Server α) (b : BevId) (fd : ℤ) : List (Op α) × Bool :=
  match s.queueILoop with
  | [] => ([.freeBev b], false)
  | c :: _ =>
    ([.queuePop, .setcb b c, .setwatermark b, .enable b] ++ onClientConnect c fd b ++ socketFdAdd c, true)

/-- `SyinxAdapterResource::GameServerDoAction`. -/
def gameServerDoAction (s : Server α) : List (Op α) :=
  s.listConnectClient.map .onStatusDoAction

/-- `SyinxAdapterResource::Close`: the connected channels are pushed behind the idle ones,
then each is taken off the queue, cleared, closed and deleted. -/
def resourceClose (s : Server α) : List (Op α) :=
  s.listConnectClient.map .queuePush ++
    (s.queueILoop ++ s.listConnectClient).flatMap fun c =>
      .queuePop :: (clear c ++ ichannelClose c ++ [.delete c])

/-- `bufferevent_socket_new`: a new `bufferevent`. -/
def buffereventSocketNew (s : Server α) (fd : ℤ) : Server α :=
  { s with
    bev := Function.update s.bev s.nbev { fd, ctx := none, enabled := false, freed := 0 }
    nbev := s.nbev + 1 }

/-- Callbacks of `b` may come. -/
def live (s : Server α) (b : BevId) : Bool :=
  decide (b < s.nbev) && (s.bev b).enabled && (s.bev b).freed == 0

/-- A field of channel `c` changes. -/
def setChan (s : Server α) (c : Ptr) (ch : IChannel α) : Server α :=
  { s with chan := Function.update s.chan c ch }

/-- Something is recorded. -/
def record (s : Server α) (es : List (Ev α)) : Server α := { s with log := s.log ++ es }

/-- `b` is freed. -/
def buffereventFree (s : Server α) (b : BevId) : Server α :=
  { s with bev := Function.update s.bev b { s.bev b with freed := (s.bev b).freed + 1 } }

end Server

/-- `IChannel::RecvClientPack`, which calls `SendDataToClient`. -/
def recvClientPack (c : Ptr) (ch : IChannel α) (p : Pack α) : List (Ev α) :=
  .pack c ch.buffer p ::
    if ch.ichStatus = .clientLogin then [.write ch.buffer p.data] else []

section Run

variable [Inhabited α]

/-- What an operation does. -/
def Op.run (P : ParseFunc α) (s : Server α) : Op α → Option (Server α)
  | .queuePop => some { s with queueILoop := s.queueILoop.tail }
  | .queuePush c => some { s with queueILoop := s.queueILoop ++ [c] }
  | .listPush c => some { s with listConnectClient := s.listConnectClient ++ [c] }
  | .listRemove c => some { s with listConnectClient := s.listConnectClient.filter (· ≠ c) }
  | .setcb b c => some { s with bev := Function.update s.bev b { s.bev b with ctx := some c } }
  -- the watermark is `0`, as it is without the call
  | .setwatermark _ => some s
  | .enable b => some { s with bev := Function.update s.bev b { s.bev b with enabled := true } }
  | .freeBev b => some (s.buffereventFree b)
  | .setSocket c fd => some (s.setChan c { s.chan c with socket := fd })
  | .setBuffer c b => some (s.setChan c { s.chan c with buffer := b })
  | .setStatus c st => some (s.setChan c { s.chan c with ichStatus := st })
  | .login c => some (s.record [.login c])
  | .logout c => some (s.record [.logout c])
  | .onStatusDoAction c =>
    ((s.chan c).onStatusDoAction P).map fun r =>
      (s.setChan c r.1).record (r.2.flatMap (recvClientPack c (s.chan c)))
  | .freeBuffer c =>
    match (s.chan c).buffer with
    | none => some s
    | some b => some (s.buffereventFree b)
  | .readBuffer c b data =>
    some ((s.setChan c ((s.chan c).readBuffer data)).record [.recv c b data])
  | .evbufferFree c =>
    some { s with evFreed := Function.update s.evFreed c (s.evFreed c + 1) }
  | .delete c => some { s with deleted := Function.update s.deleted c (s.deleted c + 1) }

/-- What can happen between two turns of the event loop. -/
inductive Event (α : Type) where
  /-- A connection is accepted; `created`: `bufferevent_socket_new` succeeds. -/
  | listen (fd : ℤ) (created : Bool)
  /-- `SyinxKernel_Recv_Cb` for `b`, with `data` to be read. -/
  | recv (b : BevId) (data : List α)
  /-- `SyinxKernel_Event_Cb` for `b`. -/
  | event (b : BevId) (what : BitVec 16)
  /-- A frame. -/
  | frame

/-- `BEV_EVENT_EOF`. -/
def bevEventEof : BitVec 16 := 0x10

/-- `BEV_EVENT_ERROR`. -/
def bevEventError : BitVec 16 := 0x20

/-- `BEV_EVENT_TIMEOUT`. -/
def bevEventTimeout : BitVec 16 := 0x40

/-- `BEV_EVENT_CONNECTED`. -/
def bevEventConnected : BitVec 16 := 0x80

/-- The branches of `SyinxKernel_Event_Cb` that call `SocketFdDel`. -/
def hangsUp (what : BitVec 16) : Bool :=
  if what &&& bevEventConnected ≠ 0 then false
  else if what &&& bevEventError ≠ 0 then true
  else if what &&& bevEventTimeout ≠ 0 then false
  else decide (what &&& bevEventEof ≠ 0)

namespace Server

/-- `SyinxKernel_Recv_Cb`. -/
def syinxKernelRecvCb (s : Server α) (b : BevId) (data : List α) : List (Op α) :=
  match (s.bev b).ctx with
  | none => []
  | some c => [.readBuffer c b data]

/-- `SyinxKernel_Event_Cb`; `none`: it calls `SocketFdDel` with a null pointer. -/
def syinxKernelEventCb (s : Server α) (b : BevId) (what : BitVec 16) : Option (List (Op α)) :=
  if hangsUp what then (s.bev b).ctx.map socketFdDel else some []

/-- A turn of the event loop: what it begins with, and the operations of the callback or
the frame. -/
def turn (s : Server α) : Event α → Option (Server α × List (Op α))
  | .listen _ false => some (s, [])
  | .listen fd true =>
    let s' := s.buffereventSocketNew fd
    some (s', (s'.allocationIChannel s.nbev fd).1)
  | .recv b data => if s.live b then some (s, s.syinxKernelRecvCb b data) else none
  | .event b what =>
    if s.live b then (s.syinxKernelEventCb b what).map fun ops => (s, ops) else none
  | .frame => some (s, s.gameServerDoAction)

/-- A step of the server: a turn, run to its end. -/
def step (P : ParseFunc α) (s : Server α) (e : Event α) : Option (Server α) :=
  (s.turn e).bind fun r => exec (Op.run P) r.1 r.2

/-- The body of the loop of `SyinxAdapterResource::Initialize`; the channels made so far
are those in the queue, so the next pointer is their number. -/
def addIChannel (s : Server α) (index : ℕ) : Server α :=
  { s with
    chan := Function.update s.chan s.queueILoop.length (IChannel.new.setIChannelID index)
    queueILoop := s.queueILoop ++ [s.queueILoop.length] }

/-- `SyinxAdapterResource::Initialize`, with `N = m_IChannelNum`. -/
def resourceInitialize (N : ℕ) : Server α :=
  (List.range' 1 N).foldl addIChannel
    { ichannelNum := N
      queueILoop := []
      listConnectClient := []
      chan := fun _ => .new
      bev := fun _ => { fd := 0, ctx := none, enabled := false, freed := 0 }
      nbev := 0
      evFreed := fun _ => 0
      deleted := fun _ => 0
      log := [] }

/-! ### What a step does -/

/-- Channel `c`, the first of the queue, has been given to the new connection of `fd`. -/
def accepted (s : Server α) (c : Ptr) (fd : ℤ) : Server α :=
  { s with
    queueILoop := s.queueILoop.tail
    listConnectClient := s.listConnectClient ++ [c]
    chan := Function.update s.chan c
      { s.chan c with socket := fd, buffer := some s.nbev, ichStatus := .clientLogin }
    bev := Function.update s.bev s.nbev { fd, ctx := some c, enabled := true, freed := 0 }
    nbev := s.nbev + 1
    log := s.log ++ [.login c] }

/-- Channel `c` has been served, with these packs. -/
def served (s : Server α) (c : Ptr) (packs : List (Pack α)) : Server α :=
  (s.setChan c { s.chan c with inputEvbuffer := (s.chan c).inputEvbuffer.drop buffsize }).record
    (packs.flatMap (recvClientPack c (s.chan c)))

/-- The connection `b` of channel `c` has ended, after these packs. -/
def departed (s : Server α) (c : Ptr) (b : BevId) (packs : List (Pack α)) : Server α :=
  { s with
    queueILoop := s.queueILoop ++ [c]
    listConnectClient := s.listConnectClient.filter (· ≠ c)
    chan := Function.update s.chan c
      { s.chan c with
        socket := 0
        buffer := none
        inputEvbuffer := (s.chan c).inputEvbuffer.drop buffsize
        ichStatus := .clientLogout }
    bev := Function.update s.bev b { s.bev b with freed := (s.bev b).freed + 1 }
    log := s.log ++ packs.flatMap (recvClientPack c (s.chan c)) ++ [.logout c] }

/-- What serving a channel does. -/
theorem run_onStatusDoAction {P : ParseFunc α} {s t : Server α} {c : Ptr}
    (h : Op.run P s (.onStatusDoAction c) = some t) :
    ∃ packs, (s.chan c).onStatusDoAction P =
        some ({ s.chan c with inputEvbuffer := (s.chan c).inputEvbuffer.drop buffsize }, packs) ∧
      t = s.served c packs := by
  obtain ⟨⟨ch, packs⟩, hr, rfl⟩ := Option.map_eq_some_iff.mp h
  have hch := IChannel.onStatusDoAction_eq_some hr
  subst hch
  exact ⟨packs, hr, rfl⟩

/-- What serving the channels of a list keeps. -/
theorem inv_of_frame {P : ParseFunc α} {I : Server α → Prop} {l : List Ptr}
    (hI : ∀ u c packs, c ∈ l → I u → (u.chan c).onStatusDoAction P =
        some ({ u.chan c with inputEvbuffer := (u.chan c).inputEvbuffer.drop buffsize }, packs) →
      I (u.served c packs))
    {s t : Server α} (hs : I s) (h : exec (Op.run P) s (l.map .onStatusDoAction) = some t) : I t := by
  refine inv_of_exec_of_forall (P := fun op => ∃ c ∈ l, op = .onStatusDoAction c) ?_ hs ?_ h
  · rintro u _ v ⟨c, hc, rfl⟩ hu hrun
    obtain ⟨packs, hr, rfl⟩ := run_onStatusDoAction hrun
    exact hI u c packs hc hu hr
  · intro op hop
    obtain ⟨c, hc, rfl⟩ := List.mem_map.mp hop
    exact ⟨c, hc, rfl⟩

/-- What accepting a connection does. -/
theorem exec_allocationIChannel (P : ParseFunc α) {s : Server α} {c : Ptr} {q : List Ptr}
    (hq : s.queueILoop = c :: q) (fd : ℤ) :
    exec (Op.run P) (s.buffereventSocketNew fd)
        ((s.buffereventSocketNew fd).allocationIChannel s.nbev fd).1 = some (s.accepted c fd) := by
  simp [allocationIChannel, buffereventSocketNew, hq, onClientConnect, socketFdAdd, Op.run, setChan,
    record, accepted]

/-- The socket of a channel does not matter to what serving it does. -/
theorem onStatusDoAction_socket (P : ParseFunc α) (ch : IChannel α) (fd : ℤ) :
    ({ ch with socket := fd } : IChannel α).onStatusDoAction P =
      (ch.onStatusDoAction P).map fun r => ({ r.1 with socket := fd }, r.2) := by
  unfold IChannel.onStatusDoAction
  split_ifs
  · rfl
  · rw [Option.map_map]; rfl

/-- What the end of a connection does: the channel is served once more, then released. -/
theorem exec_socketFdDel_eq {P : ParseFunc α} {s : Server α} {c : Ptr} {b : BevId}
    {packs : List (Pack α)} (hb : (s.chan c).buffer = some b)
    (hr : (s.chan c).onStatusDoAction P =
      some ({ s.chan c with inputEvbuffer := (s.chan c).inputEvbuffer.drop buffsize }, packs)) :
    exec (Op.run P) s (socketFdDel c) = some (s.departed c b packs) := by
  have hpack : recvClientPack c { s.chan c with socket := 0, buffer := some b } =
      recvClientPack c (s.chan c) := by
    rw [← hb]; rfl
  simp [socketFdDel, clear, Op.run, setChan, record, onStatusDoAction_socket, hr, hb, buffereventFree,
    departed, hpack]

theorem exec_socketFdDel {P : ParseFunc α} {s t : Server α} {c : Ptr} {b : BevId}
    (hb : (s.chan c).buffer = some b) (h : exec (Op.run P) s (socketFdDel c) = some t) :
    ∃ packs, (s.chan c).onStatusDoAction P =
        some ({ s.chan c with inputEvbuffer := (s.chan c).inputEvbuffer.drop buffsize }, packs) ∧
      t = s.departed c b packs := by
  cases hr : (s.chan c).onStatusDoAction P with
  | none =>
    simp [socketFdDel, clear, Op.run, setChan, onStatusDoAction_socket, hr] at h
  | some r =>
    obtain ⟨ch, packs⟩ := r
    obtain rfl := IChannel.onStatusDoAction_eq_some hr
    refine ⟨packs, rfl, ?_⟩
    rw [exec_socketFdDel_eq hb hr] at h
    exact (Option.some.inj h).symm

/-- **All that can happen** to the server in a state `s`. -/
inductive Happens (P : ParseFunc α) (s : Server α) : Event α → Server α → Prop
  /-- No `bufferevent` could be created. -/
  | notCreated {fd} : Happens P s (.listen fd false) s
  /-- All channels are in use. -/
  | refused {fd} : s.queueILoop = [] →
      Happens P s (.listen fd true) ((s.buffereventSocketNew fd).buffereventFree s.nbev)
  /-- The first idle channel gets the connection. -/
  | accepted {fd c q} : s.queueILoop = c :: q → Happens P s (.listen fd true) (s.accepted c fd)
  /-- The callback has no channel. -/
  | recvNull {b data} : s.live b → (s.bev b).ctx = none → Happens P s (.recv b data) s
  /-- Bytes are read for a channel. -/
  | recv {b c data} : s.live b → (s.bev b).ctx = some c →
      Happens P s (.recv b data)
        ((s.setChan c ((s.chan c).readBuffer data)).record [.recv c b data])
  /-- An event that does not end a connection. -/
  | noHangup {b what} : s.live b → hangsUp what = false → Happens P s (.event b what) s
  /-- A connection ends. -/
  | hangup {b c what t} : s.live b → (s.bev b).ctx = some c → hangsUp what = true →
      exec (Op.run P) s (socketFdDel c) = some t → Happens P s (.event b what) t
  /-- A frame. -/
  | frame {t} : exec (Op.run P) s (s.listConnectClient.map .onStatusDoAction) = some t →
      Happens P s .frame t

/-- A step of the server is one of the cases. -/
theorem happens_of_step {P : ParseFunc α} {s t : Server α} {e : Event α}
    (h : s.step P e = some t) : Happens P s e t := by
  cases e with
  | listen fd created =>
    cases created with
    | false => cases h; exact .notCreated
    | true =>
      cases hq : s.queueILoop with
      | nil =>
        have hq' : (s.buffereventSocketNew fd).queueILoop = [] := hq
        simp only [step, turn, allocationIChannel, hq'] at h
        cases h
        exact .refused hq
      | cons c q =>
        have hx := exec_allocationIChannel P hq fd
        rw [show s.step P (.listen fd true) = _ from hx] at h
        cases h
        exact .accepted hq
  | recv b data =>
    simp only [step, turn, syinxKernelRecvCb] at h
    split_ifs at h with hl
    · cases hc : (s.bev b).ctx with
      | none => rw [hc] at h; cases h; exact .recvNull hl hc
      | some c => rw [hc] at h; cases h; exact .recv hl hc
    · cases h
  | event b what =>
    simp only [step, turn, syinxKernelEventCb] at h
    split_ifs at h with hl hw
    · cases hc : (s.bev b).ctx with
      | none => rw [hc] at h; cases h
      | some c => rw [hc] at h; exact .hangup hl hc hw h
    · cases h
      exact .noHangup hl (by simpa using hw)
    · cases h
  | frame => exact .frame h

end Server

end Run

end Syinx.Tcp
