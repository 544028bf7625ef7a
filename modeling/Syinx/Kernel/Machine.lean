import Syinx.Library.Interrupt
import Syinx.Tcp.Core

/-!
# The kernel

`SyinxKernel` as it runs: `TCPServer` or `HTTPServer` has set up what is needed, and from
then on libevent calls back, `GameServerDoAction` is called once a frame, and the program
connects to other servers (`SConnect`). It ends with `SyinxKernel::Close`, which `main`
calls when the loop is left and `SIG_HANDLE` calls from wherever the main thread happens
to be; `Close` calls `exit`, which destroys the kernel, which calls `Close` once more.

The operations of the channels and of their manager are those of `Syinx.Tcp.Resource`, and
a callback or a frame is the list of its operations; `OnStatusDoAction` is cut between
`evbuffer_remove`, the passes of its loop and each `bufferevent_write`. What `Close` does is
such a list too (`closeBody`). The test and the assignment of `m_nWorkStatus` at its beginning,
the stack of interrupted calls and the end of the program are those of
`Syinx.Library.Interrupt`: `m_nWorkStatus` is `SYINX_LINK_CLOSE` if the flag there is set. The
callbacks of an `SConnect` and `SConnect::Connect` are taken to be one operation each.

What is created, used and freed is recorded (`calls`), and so is what `Connect` was told and
what was reported to `ConnectEvent` (`history`). Of libevent, from `bufferevent_sock.c`,
`bufferevent.c` and `event.c`:

* a `bufferevent` reports `BEV_EVENT_CONNECTED` at most once;
* it takes its `ev_read` off the base with an event of `bufferevent_readcb`, and both of its
  events when the attempt to connect fails (`dropsRead`, `dropsWrite`); an `SConnect` never
  writes, so `ev_write` goes when it is connected;
* `event_base_free` takes off what is left, and knows nothing of the `bufferevent`s;
* `bufferevent_free` puts a finalizer into the queues of the base. If the base has been freed,
  that is where the program goes down (`crashed`): nothing is released any more. `evhttp_free`
  finds that its listener is on no base, and gets through.
-/

namespace Syinx.Kernel

open Syinx.Library Syinx.Tcp

variable {α : Type}

/-! ### Libevent -/

/-- What libevent creates. -/
inductive Obj where
  /-- The `bufferevent` of a client. -/
  | client (b : BevId)
  /-- `m_buffer` of an `SConnect`. -/
  | outbound (c : ℕ)
  /-- `m_Inputevbuffer` of an `SConnect`. -/
  | evbuffer (c : ℕ)
  /-- `mSyinxListen`. -/
  | listener
  /-- `mEvHttp`. -/
  | evhttp
  deriving DecidableEq

/-- It is created on `mSyinxBase`. -/
def Obj.onBase : Obj → Bool
  | .evbuffer _ => false
  | _ => true

/-- A call of libevent. -/
inductive Call where
  /-- It creates an object. -/
  | create (o : Obj)
  /-- It is given an object. -/
  | use (o : Obj)
  /-- It frees an object. -/
  | free (o : Obj)
  /-- `event_base_free(mSyinxBase)`. -/
  | baseFree
  deriving DecidableEq

/-! ### Links to other servers -/

/-- `m_Status` of an `SConnect`. -/
inductive ConnectStatus where
  /-- The `0` of the constructor. -/
  | initial
  | clientLogout
  | clientLogin
  deriving DecidableEq

/-- An `SConnect`, without its tag, and its `bufferevent`. -/
structure SConnect where
  /-- `m_Inputevbuffer` is not null. -/
  inputEvbuffer : Bool
  /-- `m_buffer` is not null. -/
  buffer : Bool
  /-- `m_Status`. -/
  status : ConnectStatus
  /-- `bufferevent_setcb` has given the `bufferevent` its callbacks and this object. -/
  ctx : Bool
  /-- The `bufferevent` has reported `BEV_EVENT_CONNECTED`. -/
  reported : Bool
  /-- `ev_read` of the `bufferevent` is on the base. -/
  evRead : Bool
  /-- `ev_write` of the `bufferevent` is on the base. -/
  evWrite : Bool
  deriving DecidableEq

/-- After the constructor. -/
def SConnect.new : SConnect := ⟨false, false, .initial, false, false, false, false⟩

/-- `BEV_EVENT_READING`. -/
def bevEventReading : BitVec 16 := 0x01

/-- `BEV_EVENT_WRITING`. -/
def bevEventWriting : BitVec 16 := 0x02

/-- `bufferevent_writecb` reports that the attempt to connect has failed. -/
def connectFails (what : BitVec 16) : Bool :=
  decide (what &&& bevEventError ≠ 0 ∧ what &&& (bevEventReading ||| bevEventWriting) = 0)

/-- With this event `ev_read` is taken off the base. -/
def dropsRead (what : BitVec 16) : Bool := decide (what &&& bevEventReading ≠ 0) || connectFails what

/-- With this event `ev_write` is taken off the base. -/
def dropsWrite (what : BitVec 16) : Bool :=
  decide (what &&& bevEventConnected ≠ 0) || connectFails what

/-- What libevent does to its `bufferevent` with an event. -/
def SConnect.told (l : SConnect) (what : BitVec 16) : SConnect :=
  { l with
    reported := l.reported || decide (what &&& bevEventConnected ≠ 0)
    evRead := l.evRead && !dropsRead what
    evWrite := l.evWrite && !dropsWrite what }

/-- What the calls in `SConnect::Connect` report. -/
structure ConnectResults where
  /-- `evbuffer_new` does not return null. -/
  evbufferNew : Bool
  /-- `bufferevent_socket_new` does not return null. -/
  socketNew : Bool
  /-- `bufferevent_socket_connect` does not return a negative number. -/
  socketConnect : Bool
  deriving DecidableEq

/-- What is recorded of the links. -/
inductive LinkEvent where
  /-- `SConnect::Connect` is called. -/
  | connect (o : ConnectResults)
  /-- `ConnectEvent` is called for an `SConnect`. -/
  | event (c : ℕ) (what : BitVec 16)
  deriving DecidableEq

/-! ### The state -/

/-- `m_SvModle`. -/
inductive ServerMode where
  | tcp
  | http
  deriving DecidableEq

/-- `SyinxKernel` with what it points to. -/
structure SyinxKernel (α : Type) where
  /-- `m_SvModle`. -/
  mode : ServerMode
  /-- The `SyinxAdapterResource`. -/
  srv : Server α
  /-- `mSyResource` is not null. -/
  resource : Bool
  /-- How many times the `SyinxAdapterResource` has been deleted. -/
  resourceDeleted : ℕ
  /-- `mSyinxBase` is not null. -/
  base : Bool
  /-- `mEvHttp` is not null. -/
  evHttp : Bool
  /-- The `SConnect`s. -/
  conn : ℕ → SConnect
  /-- How many there have been. -/
  nconn : ℕ
  /-- Those that `Connect` has deleted, to return null. -/
  refused : List ℕ
  /-- `m_AllConnect`. -/
  allConnect : List ℕ
  /-- `g_SyinxPthPool` has a pool. -/
  pthPool : Bool
  /-- `Close` has come to `g_SyinxPthPool.Close()`. -/
  released : Bool
  /-- `bufferevent_free` has been given a `bufferevent` whose base has been freed. -/
  crashed : Bool
  /-- `exit` has been called. -/
  exited : Bool
  /-- The calls of libevent. -/
  calls : List Call
  /-- What has happened to the links. -/
  history : List LinkEvent

/-- A part of what `Close` does, or of a turn. -/
inductive KOp (α : Type) where
  /-- An operation of the channels or of their manager. -/
  | srv (op : Op α)
  /-- A pass of the loop of `OnStatusDoAction`: the parse function and `RecvClientPack`. -/
  | parse (c : Ptr) (strData : List α) (size index : ℤ)
  /-- `bufferevent_write(m_buffer, …)`. -/
  | write (c : Ptr) (data : List α)
  /-- `if (mSyResource)`. -/
  | ifResource
  /-- `delete mSyResource`. -/
  | deleteResource
  /-- `mSyResource = nullptr`. -/
  | nullResource
  /-- `if (mSyinxBase != nullptr)`. -/
  | ifBase
  /-- `event_base_free(mSyinxBase)`. -/
  | freeBase
  /-- `mSyinxBase = nullptr`. -/
  | nullBase
  /-- `if (mEvHttp != nullptr)`. -/
  | ifEvHttp
  /-- `evhttp_free(mEvHttp)`. -/
  | freeEvHttp
  /-- `mEvHttp = nullptr`. -/
  | nullEvHttp
  /-- `for (auto Iter : m_AllConnect)`. -/
  | forAllConnect
  /-- `if (m_buffer) bufferevent_free(m_buffer)` of an `SConnect`. -/
  | freeOutbound (c : ℕ)
  /-- `bufferevent_free` goes on, with a base that has been freed. -/
  | crash
  /-- `if (m_Inputevbuffer) evbuffer_free(m_Inputevbuffer)` of an `SConnect`. -/
  | freeEvbuffer (c : ℕ)
  /-- `g_SyinxPthPool.Close()` is called. -/
  | poolClose
  /-- It returns. -/
  | poolReturn
  /-- `exit(0)`, and the assignments of `~SyinxKernel`. -/
  | exit

namespace SyinxKernel

/-- An `SConnect` changes. -/
def setConn (k : SyinxKernel α) (c : ℕ) (l : SConnect) : SyinxKernel α :=
  { k with conn := Function.update k.conn c l }

/-- Libevent is called. -/
def call (k : SyinxKernel α) (cs : List Call) : SyinxKernel α := { k with calls := k.calls ++ cs }

theorem call_nil (k : SyinxKernel α) : k.call [] = k := by
  rw [call, List.append_nil]

/-- `event_base_free` has been called. -/
def baseFreed (k : SyinxKernel α) : Bool := decide (Call.baseFree ∈ k.calls)

/-- `Close` has come as far as it comes: to `g_SyinxPthPool.Close()`, or to a crash before it. -/
def Finished (k : SyinxKernel α) : Prop := k.released = true ∨ k.crashed = true

/-! ### SConnect -/

/-- `delete NewServer`, at the end of `Connect`; what `NewServer` points to stays. -/
def deleteConn (k : SyinxKernel α) (c : ℕ) : SyinxKernel α :=
  { k.setConn c .new with refused := k.refused ++ [c] }

/-- `SConnect::Connect`. -/
def connect (k : SyinxKernel α) (o : ConnectResults) : SyinxKernel α :=
  let c := k.nconn
  let k := { k.setConn c .new with nconn := c + 1, history := k.history ++ [LinkEvent.connect o] }
  -- `Initialize`
  if o.evbufferNew = false then k.deleteConn c
  else
    let k := (k.setConn c { k.conn c with inputEvbuffer := true }).call [.create (.evbuffer c)]
    if k.base = false then k.deleteConn c
    else if o.socketNew = false then k.deleteConn c
    else
      let k := (k.setConn c { k.conn c with buffer := true }).call
        [.create (.outbound c), .use (.outbound c)]
      if o.socketConnect = false then k.deleteConn c
      else
        -- it waits for the connection with `ev_write`; then `bufferevent_setcb`,
        -- `bufferevent_enable` of `EV_READ` and `bufferevent_setwatermark`
        (k.setConn c { k.conn c with ctx := true, evRead := true, evWrite := true }).call
          [.use (.outbound c), .use (.outbound c), .use (.outbound c)]

/-- `SConnect::Finish`, with `SyinxKernel::ListenerConnect`. -/
def finish (k : SyinxKernel α) (c : ℕ) : SyinxKernel α :=
  { k.setConn c { k.conn c with status := .clientLogin } with allConnect := k.allConnect ++ [c] }

/-- `SConnect::DisConnect`, with `SyinxKernel::RemoveConnect`. -/
def disConnect (k : SyinxKernel α) (c : ℕ) : SyinxKernel α :=
  { k.setConn c { k.conn c with status := .clientLogout } with
    allConnect := k.allConnect.filter (· ≠ c) }

/-- `SConnect::TimeOut`. -/
def timeOut (k : SyinxKernel α) (_ : ℕ) : SyinxKernel α := k

/-- `ConnectEvent`, of an `SConnect`. -/
def connectEvent (k : SyinxKernel α) (c : ℕ) (what : BitVec 16) : SyinxKernel α :=
  if what &&& bevEventConnected ≠ 0 then k.finish c
  else if what &&& bevEventError ≠ 0 then (k.call [.use (.outbound c)]).disConnect c
  else if what &&& bevEventTimeout ≠ 0 then k.timeOut c
  else if what &&& bevEventEof ≠ 0 then k.disConnect c
  -- the branches for `BEV_EVENT_WRITING` and `BEV_EVENT_READING` only log
  else k

/-- `SConnect::Close`. -/
def sconnectClose (c : ℕ) : List (KOp α) := [.freeOutbound c, .freeEvbuffer c]

/-- `ConnectEvent` can be called for `c`. -/
def mayReport (k : SyinxKernel α) (c : ℕ) (what : BitVec 16) : Bool :=
  (k.conn c).ctx && (decide (what &&& bevEventConnected = 0) || !(k.conn c).reported)

/-- An event is reported to `c`. -/
def report (k : SyinxKernel α) (c : ℕ) (what : BitVec 16) : SyinxKernel α :=
  { k.setConn c ((k.conn c).told what) with history := k.history ++ [.event c what] }

/-! ### The start -/

/-- After `SyinxKernelInitAdapter`, for `N` channels; `pthPool`: a pool has been started. -/
def new (N : ℕ) (pthPool : Bool) : SyinxKernel α where
  mode := .tcp
  srv := .resourceInitialize N
  resource := true
  resourceDeleted := 0
  base := false
  evHttp := false
  conn := fun _ => .new
  nconn := 0
  refused := []
  allConnect := []
  pthPool := pthPool
  released := false
  crashed := false
  exited := false
  calls := []
  history := []

/-- `SyinxKernel::TCPServer`, which calls `OnStatusConnect` at its end. -/
def tcpServer (k : SyinxKernel α) (o : ConnectResults) : SyinxKernel α :=
  ({ k with mode := .tcp, base := true }.call [.create .listener]).connect o

/-- `SyinxKernel::HTTPServer`. -/
def httpServer (k : SyinxKernel α) : SyinxKernel α :=
  { k with mode := .http, base := true, evHttp := true }.call [.create .evhttp]

/-- The kernel when the loop of `Run` begins. -/
def start (N : ℕ) (pthPool : Bool) : Option ConnectResults → SyinxKernel α
  | some o => (new N pthPool).tcpServer o
  | none => (new N pthPool).httpServer

end SyinxKernel

/-- What `SyinxKernel::Close` does between the assignment of `m_nWorkStatus` and its end. -/
def closeBody : List (KOp α) :=
  [.ifResource, .ifBase, .ifEvHttp, .forAllConnect, .poolClose, .poolReturn, .exit]

/-- What can begin when nothing else runs. -/
inductive KEvent (α : Type) where
  /-- A callback of a client, or a frame. -/
  | server (e : Event α)
  /-- The program calls `SConnect::Connect`. -/
  | connect (o : ConnectResults)
  /-- `ConnectInput` of an `SConnect`. -/
  | input (c : ℕ)
  /-- `ConnectEvent` of an `SConnect`. -/
  | event (c : ℕ) (what : BitVec 16)

section Run

variable [Inhabited α]

/-- It is about a client, and creates nothing. -/
def Call.ofClient : Call → Bool
  | .use (.client _) | .free (.client _) => true
  | _ => false

/-- The calls of libevent in an operation, `OnStatusDoAction` apart. -/
def opCalls (s : Server α) : Op α → List Call
  | .setcb b _ | .setwatermark b | .enable b | .readBuffer _ b _ => [.use (.client b)]
  | .freeBev b => [.free (.client b)]
  | .freeBuffer c => (s.chan c).buffer.toList.map fun b => .free (.client b)
  | _ => []

namespace SyinxKernel

/-- `IChannel::OnStatusDoAction`, up to its loop. -/
def onStatusDoAction (k : SyinxKernel α) (c : Ptr) : SyinxKernel α × List (KOp α) :=
  let ch := k.srv.chan c
  if ch.inputEvbuffer.length = 0 then (k, [])
  else
    ({ k with
        srv := k.srv.setChan c { ch with inputEvbuffer := ch.inputEvbuffer.drop buffsize } },
      [.parse c ch.strData (ch.inputEvbuffer.take buffsize).length 0])

/-- A pass of its loop: what the parse function has found goes to `RecvClientPack`, which calls
`SendDataToClient`. -/
def parse (P : ParseFunc α) (k : SyinxKernel α) (c : Ptr) (strData : List α) (size index : ℤ) :
    SyinxKernel α × List (KOp α) :=
  let ch := k.srv.chan c
  let r := P strData size { index, outLen := 0, outType := 0, outStr := zeros }
  let pack : Pack α := { inLen := r.2.outLen, inType := r.2.outType, inStr := r.2.outStr }
  ({ k with srv := k.srv.record [.pack c ch.buffer pack] },
    (if ch.ichStatus = .clientLogin then [.write c pack.data] else []) ++
      if r.1 then [.parse c strData size r.2.index] else [])

/-- `bufferevent_write(m_buffer, …)`. -/
def write (k : SyinxKernel α) (c : Ptr) (data : List α) : SyinxKernel α :=
  let b := (k.srv.chan c).buffer
  { k with srv := k.srv.record [.write b data] }.call (b.toList.map fun b => .use (.client b))

/-- `if (m_buffer) bufferevent_free(m_buffer)` of an `SConnect`. -/
def freeOutbound (k : SyinxKernel α) (c : ℕ) : SyinxKernel α × List (KOp α) :=
  if (k.conn c).buffer = false then (k, [])
  else if k.baseFreed then ({ k.call [.use (.outbound c)] with crashed := true }, [.crash])
  else (k.call [.free (.outbound c)], [])

/-- What a part does: the new state, and what is to be done in its place. -/
def run (P : ParseFunc α) (k : SyinxKernel α) : KOp α → Option (SyinxKernel α × List (KOp α))
  | .srv (.onStatusDoAction c) => some (k.onStatusDoAction c)
  | .srv op => (Op.run P k.srv op).map fun s => ({ k with srv := s }.call (opCalls k.srv op), [])
  | .parse c strData size index => some (k.parse P c strData size index)
  | .write c data => some (k.write c data, [])
  | .ifResource =>
    some (k, if k.resource then k.srv.resourceClose.map .srv ++ [.deleteResource, .nullResource]
      else [])
  | .deleteResource => some ({ k with resourceDeleted := k.resourceDeleted + 1 }, [])
  | .nullResource => some ({ k with resource := false }, [])
  | .ifBase => some (k, if k.base then [.freeBase, .nullBase] else [])
  | .freeBase => some (k.call [.baseFree], [])
  | .nullBase => some ({ k with base := false }, [])
  | .ifEvHttp => some (k, if k.evHttp then [.freeEvHttp, .nullEvHttp] else [])
  | .freeEvHttp => some (k.call [.free .evhttp], [])
  | .nullEvHttp => some ({ k with evHttp := false }, [])
  | .forAllConnect => some (k, k.allConnect.flatMap sconnectClose)
  | .freeOutbound c => some (k.freeOutbound c)
  -- it does not return
  | .crash => none
  | .freeEvbuffer c => some (if (k.conn c).inputEvbuffer then k.call [.free (.evbuffer c)] else k, [])
  | .poolClose => some ({ k with released := true }, [])
  -- without a pool it does not return: it locks a mutex that is not there
  | .poolReturn => if k.pthPool then some (k, []) else none
  | .exit => some ({ k with exited := true, base := false, resource := false, allConnect := [] }, [])

/-- A turn: the new state, and its operations. -/
def turn (k : SyinxKernel α) : KEvent α → Option (SyinxKernel α × List (KOp α))
  | .server e =>
    if k.mode = .tcp then
      (k.srv.turn e).map fun r =>
        ({ k with srv := r.1 }.call
          (if k.srv.nbev < r.1.nbev then [.create (.client k.srv.nbev)] else []), r.2.map .srv)
    else none
  | .connect o => some (k.connect o, [])
  | .input c => if (k.conn c).ctx then some (k.call [.use (.outbound c)], []) else none
  | .event c what => if k.mayReport c what then some ((k.report c what).connectEvent c what, [])
    else none

end SyinxKernel

/-- The program: the kernel and the stack of calls. -/
abbrev Process (α : Type) := Interrupt.Proc (SyinxKernel α) (KOp α)

/-- A step of the program; the handler of `Syinx.Library.Interrupt` is `SyinxKernel::Close`. -/
def Process.step (P : ParseFunc α) (p : Process α) (a : Interrupt.Act (KEvent α)) :
    Option (Process α) :=
  Interrupt.Proc.step closeBody (SyinxKernel.run P) SyinxKernel.turn p a

/-- The program when the loop of `Run` begins. -/
def Process.start (N : ℕ) (pthPool : Bool) (o : Option ConnectResults) : Process α :=
  Interrupt.Proc.start (SyinxKernel.start N pthPool o)

end Run

/-! ### What Connect does -/

/-- `Connect` does not return null, if the kernel has its base. -/
def ConnectResults.ok (o : ConnectResults) : Bool := o.evbufferNew && o.socketNew && o.socketConnect

/-- The `SConnect` that `Connect` leaves. -/
def ConnectResults.conn (o : ConnectResults) : SConnect :=
  if o.ok then
    { SConnect.new with
      inputEvbuffer := true, buffer := true, ctx := true, evRead := true, evWrite := true }
  else .new

/-- The calls of libevent in `Connect`. -/
def ConnectResults.calls (o : ConnectResults) (c : ℕ) : List Call :=
  (if o.evbufferNew then [.create (.evbuffer c)] else []) ++
    (if o.evbufferNew && o.socketNew then [.create (.outbound c), .use (.outbound c)] else []) ++
    if o.ok then [.use (.outbound c), .use (.outbound c), .use (.outbound c)] else []

theorem SyinxKernel.connect_eq (k : SyinxKernel α) (hbase : k.base = true) (o : ConnectResults) :
    k.connect o = { k with
      conn := Function.update k.conn k.nconn o.conn
      nconn := k.nconn + 1
      refused := if o.ok then k.refused else k.refused ++ [k.nconn]
      calls := k.calls ++ o.calls k.nconn
      history := k.history ++ [LinkEvent.connect o] } := by
  obtain ⟨_ | _, _ | _, _ | _⟩ := o <;>
    simp [connect, setConn, call, deleteConn, hbase, ConnectResults.conn, ConnectResults.ok,
      ConnectResults.calls, SConnect.new]

/-! ### What ConnectEvent does -/

/-- The branch of `ConnectEvent` that calls `Finish`. -/
def finishes (what : BitVec 16) : Bool := decide (what &&& bevEventConnected ≠ 0)

/-- What `ConnectEvent` does to the links. -/
inductive Reported (k : SyinxKernel α) (c : ℕ) (what : BitVec 16) : SyinxKernel α → Prop
  /-- `Finish`. -/
  | finish : finishes what = true → (k.conn c).reported = false → Reported k c what
      { k with
        conn := Function.update k.conn c { (k.conn c).told what with status := .clientLogin }
        allConnect := k.allConnect ++ [c]
        history := k.history ++ [LinkEvent.event c what] }
  /-- `DisConnect`. -/
  | disConnect (cs : List Call) : finishes what = false → hangsUp what = true →
      (∀ x ∈ cs, x = .use (.outbound c)) → Reported k c what
      { k with
        conn := Function.update k.conn c { (k.conn c).told what with status := .clientLogout }
        allConnect := k.allConnect.filter (· ≠ c)
        calls := k.calls ++ cs
        history := k.history ++ [LinkEvent.event c what] }
  /-- Nothing. -/
  | nothing : finishes what = false → hangsUp what = false → Reported k c what
      { k with
        conn := Function.update k.conn c ((k.conn c).told what)
        history := k.history ++ [LinkEvent.event c what] }

/-- The branches of `ConnectEvent`. -/
theorem SyinxKernel.connectEvent_cases (k : SyinxKernel α) (c : ℕ) (what : BitVec 16) :
    (finishes what = true ∧ k.connectEvent c what = k.finish c) ∨
      (finishes what = false ∧ hangsUp what = true ∧ ∃ cs : List Call,
        (∀ x ∈ cs, x = .use (.outbound c)) ∧ k.connectEvent c what = (k.call cs).disConnect c) ∨
      (finishes what = false ∧ hangsUp what = false ∧ k.connectEvent c what = k) := by
  unfold finishes hangsUp connectEvent
  by_cases hcon : what &&& bevEventConnected ≠ 0
  · exact .inl ⟨decide_eq_true hcon, if_pos hcon⟩
  · rw [if_neg hcon, if_neg hcon, decide_eq_false hcon]
    by_cases herr : what &&& bevEventError ≠ 0
    · rw [if_pos herr, if_pos herr]
      exact .inr (.inl ⟨rfl, rfl, _, fun x hx => List.mem_singleton.mp hx, rfl⟩)
    · rw [if_neg herr, if_neg herr]
      by_cases htime : what &&& bevEventTimeout ≠ 0
      · rw [if_pos htime, if_pos htime]
        exact .inr (.inr ⟨rfl, rfl, rfl⟩)
      · rw [if_neg htime, if_neg htime]
        by_cases heof : what &&& bevEventEof ≠ 0
        · rw [if_pos heof]
          refine .inr (.inl ⟨rfl, decide_eq_true heof, [], List.forall_mem_nil _, ?_⟩)
          rw [call, List.append_nil]
        · rw [if_neg heof]
          exact .inr (.inr ⟨rfl, decide_eq_false heof, rfl⟩)

theorem SyinxKernel.reported_of_mayReport {k : SyinxKernel α} {c : ℕ} {what : BitVec 16}
    (h : k.mayReport c what = true) : Reported k c what ((k.report c what).connectEvent c what) := by
  obtain ⟨hf, he⟩ | ⟨hf, hh, cs, hcs, he⟩ | ⟨hf, hh, he⟩ := (k.report c what).connectEvent_cases c what
  · have hnew : (k.conn c).reported = false := by
      rw [mayReport, Bool.and_eq_true, Bool.or_eq_true, decide_eq_true_iff, Bool.not_eq_true'] at h
      exact h.2.resolve_left (of_decide_eq_true hf)
    rw [he]
    simpa [finish, report, setConn] using Reported.finish hf hnew
  · rw [he]
    simpa [disConnect, call, report, setConn] using Reported.disConnect cs hf hh hcs
  · rw [he]
    exact .nothing hf hh

/-! ### Before Close -/

/-- A part of the loop of `OnStatusDoAction`. -/
def KOp.ofLoop : KOp α → Bool
  | .parse .. | .write .. => true
  | _ => false

/-- Operations of the channels, and before them what is left of a loop of `OnStatusDoAction`. -/
def Serving (ops : List (KOp α)) : Prop :=
  ∃ (loop : List (KOp α)) (sops : List (Op α)), ops = loop ++ sops.map .srv ∧
    ∀ b ∈ loop, b.ofLoop = true

theorem Serving.of_srv (sops : List (Op α)) : Serving (sops.map .srv) :=
  ⟨[], sops, rfl, List.forall_mem_nil _⟩

/-- The kernel while it works, in a turn of which `ops` are left. -/
structure Working (k : SyinxKernel α) (ops : List (KOp α)) : Prop where
  base : k.base = true
  resource : k.resource = true
  resourceDeleted : k.resourceDeleted = 0
  evHttp : k.evHttp = decide (k.mode = .http)
  released : k.released = false
  crashed : k.crashed = false
  exited : k.exited = false
  /-- A turn is made of operations of the channels, of which the first may be in its loop. -/
  ops : Serving ops

theorem SyinxKernel.working_start (N : ℕ) (pthPool : Bool) (o : Option ConnectResults) :
    Working (start N pthPool o : SyinxKernel α) [] := by
  cases o with
  | none => exact ⟨rfl, rfl, rfl, rfl, rfl, rfl, rfl, .of_srv []⟩
  | some o =>
    have hstart : (start N pthPool (some o) : SyinxKernel α) = _ := connect_eq _ rfl o
    rw [hstart]
    exact ⟨rfl, rfl, rfl, rfl, rfl, rfl, rfl, .of_srv []⟩

variable {k t : SyinxKernel α} {ops : List (KOp α)}

theorem Working.not_finished (h : Working k ops) : ¬ k.Finished := by
  rintro (hr | hc)
  · rw [h.released] at hr
    cases hr
  · rw [h.crashed] at hc
    cases hc

/-- **What a turn does**: its effect at the start, and its operations. -/
inductive Turns (k : SyinxKernel α) : KEvent α → SyinxKernel α → List (KOp α) → Prop
  /-- A callback of a client, or a frame. -/
  | server {e : Event α} {s : Server α} {sops : List (Op α)} {cs : List Call} :
      k.srv.turn e = some (s, sops) → (∀ x ∈ cs, ∃ b, x = .create (.client b)) →
      Turns k (.server e) ({ k with srv := s }.call cs) (sops.map .srv)
  /-- `SConnect::Connect`. -/
  | connect (o : ConnectResults) : Turns k (.connect o) (k.connect o) []
  /-- `ConnectInput`. -/
  | input {c : ℕ} : Turns k (.input c) (k.call [.use (.outbound c)]) []
  /-- `ConnectEvent`. -/
  | event {c : ℕ} {what : BitVec 16} {t : SyinxKernel α} : (k.conn c).ctx = true →
      Reported k c what t → Turns k (.event c what) t []

theorem SyinxKernel.turns_of_turn {e : KEvent α} (h : k.turn e = some (t, ops)) :
    Turns k e t ops := by
  cases e with
  | server e =>
    simp only [turn] at h
    split_ifs at h
    obtain ⟨⟨s, sops⟩, hs, hr⟩ := Option.map_eq_some_iff.mp h
    cases hr
    refine .server hs fun x hx => ?_
    split_ifs at hx
    · exact ⟨_, List.mem_singleton.mp hx⟩
    · cases hx
  | connect o => cases h; exact .connect o
  | input c =>
    simp only [turn] at h
    split_ifs at h
    cases h
    exact .input
  | event c what =>
    simp only [turn] at h
    split_ifs at h with hrep
    have hr := reported_of_mayReport hrep
    rw [Option.some.injEq, Prod.mk.injEq] at h
    obtain ⟨ht, rfl⟩ := h
    rw [ht] at hr
    rw [mayReport, Bool.and_eq_true] at hrep
    exact .event hrep.1 hr

theorem Working.turns (h : Working k []) {e : KEvent α} (hst : Turns k e t ops) :
    Working t ops := by
  obtain ⟨hbase, hres, hdel, hhttp, hrel, hcrash, hex, -⟩ := h
  cases hst with
  | server => exact ⟨hbase, hres, hdel, hhttp, hrel, hcrash, hex, .of_srv _⟩
  | connect o =>
    rw [k.connect_eq hbase]
    exact ⟨hbase, hres, hdel, hhttp, hrel, hcrash, hex, .of_srv []⟩
  | input => exact ⟨hbase, hres, hdel, hhttp, hrel, hcrash, hex, .of_srv []⟩
  | event _ hr => cases hr <;> exact ⟨hbase, hres, hdel, hhttp, hrel, hcrash, hex, .of_srv []⟩

section Run

variable [Inhabited α] {P : ParseFunc α}

/-- **What a part of a turn does.** To the core of the channels `OnStatusDoAction` does nothing, so
that the parse function may be any that comes to an end. -/
inductive Runs (k : SyinxKernel α) : KOp α → SyinxKernel α → List (KOp α) → Prop
  /-- An operation of the channels. -/
  | srv {op : Op α} {s u : Server α} {cs : List Call} {bs : List (KOp α)} :
      Op.run recvValuesFromString k.srv op = some u → s.core = u.core →
      (∀ x ∈ cs, x.ofClient = true) → (∀ b ∈ bs, b.ofLoop = true) →
      Runs k (.srv op) ({ k with srv := s }.call cs) bs
  /-- A part of a loop of `OnStatusDoAction`. -/
  | loop {b : KOp α} {s : Server α} {cs : List Call} {bs : List (KOp α)} :
      b.ofLoop = true → s.core = k.srv.core →
      (∀ x ∈ cs, x.ofClient = true) → (∀ b ∈ bs, b.ofLoop = true) →
      Runs k b ({ k with srv := s }.call cs) bs

omit [Inhabited α] in
theorem Call.ofClient_use (x : Option BevId) :
    ∀ y ∈ x.toList.map fun b => Call.use (.client b), y.ofClient = true := by
  cases x <;> simp [ofClient]

omit [Inhabited α] in
theorem ofClient_opCalls (s : Server α) (op : Op α) : ∀ x ∈ opCalls s op, x.ofClient = true := by
  cases op with
  | freeBuffer c => cases h : (s.chan c).buffer <;> simp [opCalls, h, Call.ofClient]
  | _ => simp [opCalls, Call.ofClient]

theorem SyinxKernel.run_srv {op : Op α} (h : ∀ c, op ≠ .onStatusDoAction c) :
    k.run P (.srv op) =
      (Op.run P k.srv op).map fun s => ({ k with srv := s }.call (opCalls k.srv op), []) := by
  cases op with
  | onStatusDoAction c => exact absurd rfl (h c)
  | _ => rfl

/-- An operation of the channels. -/
theorem SyinxKernel.runs_of_srv {op : Op α} (h : k.run P (.srv op) = some (t, ops)) :
    Runs k (.srv op) t ops := by
  by_cases hop : ∃ c, op = .onStatusDoAction c
  · obtain ⟨c, rfl⟩ := hop
    obtain ⟨u, hu⟩ := run_isSome k.srv (.onStatusDoAction c)
    have hcore := core_onStatusDoAction hu
    rw [run, onStatusDoAction, Option.some.injEq] at h
    split_ifs at h with hlen
    · cases h
      have hr : Runs k (.srv (.onStatusDoAction c)) (k.call []) [] :=
        .srv hu hcore.symm (List.forall_mem_nil _) (List.forall_mem_nil _)
      rwa [call_nil] at hr
    · cases h
      have hdrop := k.srv.core_setInput c ((k.srv.chan c).inputEvbuffer.drop buffsize)
      rw [← call_nil { k with srv := _ }]
      exact .srv hu (hdrop.trans hcore.symm) (List.forall_mem_nil _) (by simp [KOp.ofLoop])
  · have hne : ∀ c, op ≠ .onStatusDoAction c := fun c hc => hop ⟨c, hc⟩
    rw [run_srv hne, run_parse recvValuesFromString hne] at h
    obtain ⟨u, hu, hr⟩ := Option.map_eq_some_iff.mp h
    cases hr
    exact .srv hu rfl (ofClient_opCalls k.srv op) (List.forall_mem_nil _)

/-- A part of a loop of `OnStatusDoAction`. -/
theorem SyinxKernel.runs_of_loop {b : KOp α} (hb : b.ofLoop = true)
    (h : k.run P b = some (t, ops)) : Runs k b t ops := by
  cases b with
  | parse c strData size index =>
    cases h
    rw [← call_nil { k with srv := _ }]
    refine .loop hb rfl (List.forall_mem_nil _) fun b hb => ?_
    rcases List.mem_append.mp hb with hb | hb <;> split_ifs at hb
    · rw [List.mem_singleton.mp hb]; rfl
    · cases hb
    · rw [List.mem_singleton.mp hb]; rfl
    · cases hb
  | write c data =>
    cases h
    exact .loop hb rfl (Call.ofClient_use _) (List.forall_mem_nil _)
  | _ => cases hb

/-- The links are as they were. -/
structure SameLinks (k t : SyinxKernel α) : Prop where
  mode : t.mode = k.mode
  conn : t.conn = k.conn
  nconn : t.nconn = k.nconn
  refused : t.refused = k.refused
  allConnect : t.allConnect = k.allConnect
  history : t.history = k.history

omit [Inhabited α] in
theorem SameLinks.refl (k : SyinxKernel α) : SameLinks k k := ⟨rfl, rfl, rfl, rfl, rfl, rfl⟩

omit [Inhabited α] in
theorem SameLinks.trans {u : SyinxKernel α} (h : SameLinks k t) (h' : SameLinks t u) :
    SameLinks k u where
  mode := h'.mode.trans h.mode
  conn := h'.conn.trans h.conn
  nconn := h'.nconn.trans h.nconn
  refused := h'.refused.trans h.refused
  allConnect := h'.allConnect.trans h.allConnect
  history := h'.history.trans h.history

omit [Inhabited α] in
theorem SameLinks.srv (k : SyinxKernel α) (s : Server α) (cs : List Call) :
    SameLinks k ({ k with srv := s }.call cs) := ⟨rfl, rfl, rfl, rfl, rfl, rfl⟩

/-- A part of a turn leaves the links alone. -/
theorem Runs.frame {b : KOp α} (h : Runs k b t ops) :
    SameLinks k t ∧ t.exited = k.exited ∧ ∀ c ∈ ops, c ≠ .exit := by
  have hne : ∀ bs : List (KOp α), (∀ b ∈ bs, b.ofLoop = true) → ∀ c ∈ bs, c ≠ .exit := by
    rintro bs hbs c hc rfl
    cases hbs _ hc
  cases h with
  | srv _ _ _ hbs => exact ⟨.srv .., rfl, hne _ hbs⟩
  | loop _ _ _ hbs => exact ⟨.srv .., rfl, hne _ hbs⟩

/-- What a part leaves alone: the links, and whether `exit` has been called. -/
theorem SyinxKernel.run_frame {b : KOp α} (hb : b ≠ .exit) (h : k.run P b = some (t, ops)) :
    SameLinks k t ∧ t.exited = k.exited ∧ ∀ c ∈ ops, c ≠ .exit := by
  cases b with
  | exit => exact absurd rfl hb
  | srv op => exact (runs_of_srv h).frame
  | parse | write => exact (runs_of_loop rfl h).frame
  | ifResource =>
    cases h
    refine ⟨.refl k, rfl, ?_⟩
    rintro c hc rfl
    split_ifs at hc <;> simp at hc
  | ifBase | ifEvHttp =>
    cases h
    refine ⟨.refl k, rfl, ?_⟩
    split_ifs <;> simp
  | forAllConnect =>
    cases h
    refine ⟨.refl k, rfl, ?_⟩
    rintro c hc rfl
    simp [sconnectClose] at hc
  | freeOutbound c =>
    rw [run, freeOutbound, Option.some.injEq] at h
    split_ifs at h <;> cases h <;> exact ⟨⟨rfl, rfl, rfl, rfl, rfl, rfl⟩, rfl, by simp⟩
  | freeEvbuffer c =>
    cases h
    split_ifs <;> exact ⟨⟨rfl, rfl, rfl, rfl, rfl, rfl⟩, rfl, List.forall_mem_nil _⟩
  | poolReturn =>
    simp only [run] at h
    split_ifs at h
    cases h
    exact ⟨.refl k, rfl, List.forall_mem_nil _⟩
  | crash => cases h
  | _ => cases h; exact ⟨⟨rfl, rfl, rfl, rfl, rfl, rfl⟩, rfl, List.forall_mem_nil _⟩

theorem Working.runs {b : KOp α} {bs cs : List (KOp α)} (h : Working k (b :: bs))
    (hst : Runs k b t cs) (hcs : Serving (cs ++ bs)) : Working t (cs ++ bs) := by
  cases hst with
  | srv =>
    exact ⟨h.base, h.resource, h.resourceDeleted, h.evHttp, h.released, h.crashed, h.exited, hcs⟩
  | loop =>
    exact ⟨h.base, h.resource, h.resourceDeleted, h.evHttp, h.released, h.crashed, h.exited, hcs⟩

theorem Runs.ofLoop {b : KOp α} (h : Runs k b t ops) : ∀ c ∈ ops, c.ofLoop = true := by
  cases h with
  | srv _ _ _ hbs => exact hbs
  | loop _ _ _ hbs => exact hbs

/-- In a turn the next part is one of the channels. -/
theorem Working.run {b : KOp α} {bs cs : List (KOp α)} (h : Working k (b :: bs))
    (hst : k.run P b = some (t, cs)) : Working t (cs ++ bs) ∧ Runs k b t cs := by
  obtain ⟨_ | ⟨b', loop⟩, sops, hops, hloop⟩ := h.ops
  · cases sops with
    | nil => cases hops
    | cons op sops =>
      rw [List.nil_append, List.map_cons, List.cons.injEq] at hops
      obtain ⟨rfl, rfl⟩ := hops
      have hr := SyinxKernel.runs_of_srv hst
      exact ⟨h.runs hr ⟨cs, sops, rfl, hr.ofLoop⟩, hr⟩
  · rw [List.cons_append, List.cons.injEq] at hops
    obtain ⟨rfl, rfl⟩ := hops
    obtain ⟨hb, hloop⟩ := List.forall_mem_cons.mp hloop
    have hr := SyinxKernel.runs_of_loop hb hst
    refine ⟨h.runs hr ⟨cs ++ loop, sops, (List.append_assoc ..).symm, fun c hc => ?_⟩, hr⟩
    exact (List.mem_append.mp hc).elim (hr.ofLoop c) (hloop c)

/-! ### An invariant of the turns -/

section Invariant

variable {I : SyinxKernel α → List (KOp α) → Prop}

omit [Inhabited α] in
theorem Working.inv_turn (hturn : ∀ k e t ops, Working k [] → I k [] → Turns k e t ops → I t ops)
    (k : SyinxKernel α) (e : KEvent α) (t : SyinxKernel α) (ops : List (KOp α))
    (h : Working k [] ∧ I k []) (hst : k.turn e = some (t, ops)) : Working t ops ∧ I t ops := by
  have ht := SyinxKernel.turns_of_turn hst
  exact ⟨h.1.turns ht, hturn k e t ops h.1 h.2 ht⟩

theorem Working.inv_run (hrun : ∀ k b t bs cs, I k (b :: bs) → Runs k b t cs → I t (cs ++ bs))
    (k : SyinxKernel α) (b : KOp α) (bs : List (KOp α)) (t : SyinxKernel α) (cs : List (KOp α))
    (h : Working k (b :: bs) ∧ I k (b :: bs)) (hst : k.run P b = some (t, cs)) :
    Working t (cs ++ bs) ∧ I t (cs ++ bs) := by
  obtain ⟨hw, hr⟩ := h.1.run hst
  exact ⟨hw, hrun k b t bs cs h.2 hr⟩

/-- **What is known of the stack**, with an invariant that turns and their parts keep. -/
theorem shape_step_of_inv
    (hturn : ∀ k e t ops, Working k [] → I k [] → Turns k e t ops → I t ops)
    (hrun : ∀ k b t bs cs, I k (b :: bs) → Runs k b t cs → I t (cs ++ bs))
    {p q : Process α} {a : Interrupt.Act (KEvent α)}
    (h : Interrupt.Shape closeBody (SyinxKernel.run P) (fun k ops => Working k ops ∧ I k ops) p)
    (hst : p.step P a = some q) :
    Interrupt.Shape closeBody (SyinxKernel.run P) (fun k ops => Working k ops ∧ I k ops) q :=
  h.step (Working.inv_turn hturn) (Working.inv_run hrun) hst

/-- The same after every run. -/
theorem shape_of_inv {N : ℕ} {pthPool : Bool} {o : Option ConnectResults}
    (hstart : I (.start N pthPool o) [])
    (hturn : ∀ k e t ops, Working k [] → I k [] → Turns k e t ops → I t ops)
    (hrun : ∀ k b t bs cs, I k (b :: bs) → Runs k b t cs → I t (cs ++ bs))
    {as : List (Interrupt.Act (KEvent α))} {p : Process α}
    (h : exec (Process.step P) (.start N pthPool o) as = some p) :
    Interrupt.Shape closeBody (SyinxKernel.run P) (fun k ops => Working k ops ∧ I k ops) p :=
  Interrupt.shape_of_exec (Working.inv_turn hturn) (Working.inv_run hrun)
    ⟨SyinxKernel.working_start N pthPool o, hstart⟩ h

end Invariant

end Run

end Syinx.Kernel
