import Syinx.Library.Parts
import Syinx.Kernel.ConfigFile
import Syinx.Kernel.Machine

/-!
# The start of the program

`main` up to the loop of `Run`: `Config`, then `Initialize` with `SyinxKernelInitAdapter`,
`RegisterSignal` and `TCPServer` or `HTTPServer`. A function that returns `false` makes `main`
return `-1`, and what has been taken until then is not given back: `~SyinxKernel` calls `Close`,
which returns at once as `m_nWorkStatus` is `SYINX_LINK_CLOSE`.

So does `SIG_HANDLE`, from `RegisterSignal` on; before, a signal ends the program. The last
thing `TCPServer` and `HTTPServer` do is to set `m_nWorkStatus`, so that a signal that comes
before is lost.

`new` does not return a null pointer: where there is no memory it throws `std::bad_alloc`, which
nothing catches. So the program ends with the first channel there is no memory for, and there
may be many of them: a `ConnectNum` of `-5` is accepted, and is `2 ^ 64 - 5` as a `size_t`. The
memory for the configuration and for the logger is taken to be there.

The logger's configuration, `m_endian`, which nothing reads, and the `event_config`, which is
not freed if there is no `event_base`, are left out. A signal that comes after the last part is
one for `Syinx.Kernel.Machine`.

## What is proved

* `eval_main_fst` — when `main` comes to the loop.
* `eval_main_aborted` — when it ends for want of memory.
* `launch_of_exec` — with signals between its parts, `main` comes to the loop with the kernel
  that `SyinxKernel.start` is, with what the configuration says; signals leave no trace.
-/

namespace Syinx.Kernel

open Syinx.Library Syinx.Tcp Syinx.Pthread
open Syinx.Ini (bytes)

/-! ### What is outside -/

/-- A signal of `RegisterSignal`. -/
inductive Signal where
  | sigint
  | sigquit
  deriving DecidableEq

/-- What the calls of the start report. -/
structure Outside where
  /-- `Config.ini`; `none` if it cannot be opened. -/
  file : Option (List UInt8)
  /-- The `pthread` calls of `SyinxPthreadPool::Initialize`. -/
  pool : InitResults
  /-- There is memory for the `threadpool_t` and its arrays. -/
  poolNew : Bool
  /-- There is memory for the `SyinxAdapterResource` (`0`), and for each of its channels, which are
  numbered from `1` on. -/
  resourceNew : ℕ → Bool
  /-- `event_config_new` does not return null. -/
  configNew : Bool
  /-- `event_base_new_with_config` does not return null. -/
  baseNew : Bool
  /-- `evconnlistener_new_bind` does not return null. -/
  listenerNew : Bool
  /-- The calls of `SConnect::Connect`, for `OnStatusConnect`. -/
  connect : ConnectResults
  /-- `evhttp_new` does not return null. -/
  evhttpNew : Bool
  /-- `evhttp_bind_socket_with_handle` does not return null. -/
  bind : Bool

/-- Where clients find the server. -/
structure Address where
  /-- `127.0.0.1` only, or all addresses. -/
  loopback : Bool
  port : UInt16
  deriving DecidableEq

/-! ### The program -/

variable {F A α : Type}

/-- The program while it starts. -/
structure Main (F A α : Type) where
  /-- The fields that `Config` sets. -/
  fields : Fields
  /-- `g_SyinxPthPool`. -/
  pthPool : SyinxPthreadPool F A
  /-- The kernel; its mode is of use from `TCPServer` or `HTTPServer` on. -/
  kernel : SyinxKernel α
  /-- The signals that have the handler `SIG_HANDLE`. -/
  handlers : List Signal
  /-- `m_nWorkStatus` is `SYINX_LINK_WORK`. -/
  work : Bool
  /-- Where the server listens. -/
  address : Option Address
  /-- `std::bad_alloc` has ended the program. -/
  aborted : Bool

namespace Main

/-- Before `main`. -/
def new : Main F A α where
  fields := .new
  pthPool := .new
  kernel := { SyinxKernel.new 0 false with resource := false }
  handlers := []
  work := false
  address := none
  aborted := false

/-- `new` throws `std::bad_alloc`. -/
def abort (m : Main F A α) : Bool × Main F A α := (false, { m with aborted := true })

/-- There is memory for all of `left` channels, from number `i` on. -/
def allocates (resourceNew : ℕ → Bool) (i : ℕ) : ℕ → Bool
  | 0 => true
  | left + 1 => resourceNew i && allocates resourceNew (i + 1) left

/-- `SyinxKernel::Config`. -/
def config (file : Option (List UInt8)) (m : Main F A α) : Bool × Main F A α :=
  let r := m.fields.configFile file
  (r.1, { m with fields := r.2 })

/-- `SyinxKernelInitAdapter`: the pool. If `Initialize` returns `NULL` it goes on. -/
def initPool (cells : ℤ → SyPthreadPoolTask F A) (o : InitResults) (poolNew : Bool)
    (m : Main F A α) : Bool × Main F A α :=
  if m.fields.pthPoolNum > 1 ∧ m.fields.usePthreadPool = true then
    if poolNew then
      (true, { m with
        pthPool := (m.pthPool.init (.ofInt m.fields.pthPoolNum.toInt)
          (.ofInt m.fields.taskNum.toInt) cells o).2
        kernel := { m.kernel with pthPool := true } })
    else m.abort
  else (true, m)

/-- `SyinxKernelInitAdapter`: the `SyinxAdapterResource`, and its `Initialize`, which makes the
channels one by one and does not return `false`. -/
def initResource (resourceNew : ℕ → Bool) (m : Main F A α) : Bool × Main F A α :=
  if resourceNew 0 && allocates resourceNew 1 m.fields.ichannelNum.toNat then
    (true, { m with
      kernel := { m.kernel with
        srv := .resourceInitialize m.fields.ichannelNum.toNat
        resource := true } })
  else m.abort

/-- `signal(sig, SIG_HANDLE)`. -/
def signal (sig : Signal) (m : Main F A α) : Bool × Main F A α :=
  (true, { m with handlers := sig :: m.handlers })

/-- `mSyinxBase`, in `TCPServer` and in `HTTPServer`. Without an `event_config` they go on. -/
def newBase (mode : ServerMode) (configNew baseNew : Bool) (m : Main F A α) : Bool × Main F A α :=
  if configNew then (baseNew, { m with kernel := { m.kernel with mode := mode, base := baseNew } })
  else (true, { m with kernel := { m.kernel with mode := mode } })

/-- `mSyinxListen`. -/
def listen (listenerNew : Bool) (m : Main F A α) : Bool × Main F A α :=
  if listenerNew then
    (true, { m with
      kernel := m.kernel.call [.create .listener]
      address := some ⟨false, m.fields.sinPort⟩ })
  else (false, m)

/-- `OnStatusConnect`. -/
def onStatusConnect (o : ConnectResults) (m : Main F A α) : Bool × Main F A α :=
  (true, { m with kernel := m.kernel.connect o })

/-- `mEvHttp`, with its callbacks. -/
def newEvhttp (evhttpNew : Bool) (m : Main F A α) : Bool × Main F A α :=
  if evhttpNew then
    (true, { m with kernel := { m.kernel with evHttp := true }.call [.create .evhttp] })
  else (false, m)

/-- `mBoundSket`. -/
def bindSocket (bind : Bool) (m : Main F A α) : Bool × Main F A α :=
  if bind then (true, { m with address := some ⟨true, m.fields.sinPort⟩ }) else (false, m)

/-- `m_nWorkStatus = SYINX_LINK_WORK`. -/
def setWork (m : Main F A α) : Bool × Main F A α := (true, { m with work := true })

/-- `SyinxKernel::TCPServer`. -/
def tcpServer (o : Outside) : Parts (Main F A α) :=
  .part (newBase .tcp o.configNew o.baseNew) <|
  .part (listen o.listenerNew) <|
  .part (onStatusConnect o.connect) <|
  .part setWork .done

/-- `SyinxKernel::HTTPServer`. -/
def httpServer (o : Outside) : Parts (Main F A α) :=
  .part (newBase .http o.configNew o.baseNew) <|
  .part (newEvhttp o.evhttpNew) <|
  .part (bindSocket o.bind) <|
  .part setWork .done

/-- `SyinxKernel::SyinxKernelInitAdapter`. -/
def syinxKernelInitAdapter (cells : ℤ → SyPthreadPoolTask F A) (o : Outside) : Parts (Main F A α) :=
  .part (initPool cells o.pool o.poolNew) <| .part (initResource o.resourceNew) .done

/-- `SyinxKernel::RegisterSignal`. -/
def registerSignal : Parts (Main F A α) := .part (signal .sigint) <| .part (signal .sigquit) .done

/-- `SyinxKernel::Initialize`. -/
def init (cells : ℤ → SyPthreadPoolTask F A) (o : Outside) : Parts (Main F A α) :=
  ((syinxKernelInitAdapter cells o).andThen registerSignal).andThen <|
    .branch (fun m => m.fields.svModle &&& serverModeTcp ≠ 0) (tcpServer o) <|
    .branch (fun m => m.fields.svModle &&& serverModeHttp ≠ 0) (httpServer o) .fail

/-- `main`, up to `Run`. -/
def main (cells : ℤ → SyPthreadPoolTask F A) (o : Outside) : Parts (Main F A α) :=
  (Parts.part (config o.file) .done).andThen (init cells o)

end Main

/-! ### With signals -/

/-- The program with what is left of its start. -/
structure Launch (F A α : Type) where
  st : Main F A α
  rest : Parts (Main F A α)
  /-- A signal has ended it. -/
  killed : Bool

/-- What can happen. -/
inductive LaunchAct where
  /-- The next part is run. -/
  | go
  /-- A signal arrives. -/
  | signal (sig : Signal)
  deriving DecidableEq

namespace Launch

/-- When `main` begins. -/
def start (cells : ℤ → SyPthreadPoolTask F A) (o : Outside) : Launch F A α :=
  ⟨.new, Main.main cells o, false⟩

/-- A step, up to the loop of `Run`. -/
def step (l : Launch F A α) : LaunchAct → Option (Launch F A α)
  | .go =>
    if l.killed then none else (l.rest.step l.st).map fun r => { l with st := r.2, rest := r.1 }
  | .signal sig =>
    if l.killed || l.rest.ended || l.st.work then none
    -- `SIG_HANDLE` calls `Close`, which returns as `m_nWorkStatus` is `SYINX_LINK_CLOSE`
    else if sig ∈ l.st.handlers then some l
    else some { l with killed := true }

end Launch

/-! ### When the server serves -/

namespace Outside

/-- What `Config` leaves. -/
def fields (o : Outside) : Fields := (Fields.new.configFile o.file).2

/-- The configuration asks for a pool. -/
def asksPool (o : Outside) : Bool := decide (o.fields.pthPoolNum > 1 ∧ o.fields.usePthreadPool = true)

/-- `g_SyinxPthPool` then. -/
def poolAfter (o : Outside) (cells : ℤ → SyPthreadPoolTask F A) : SyinxPthreadPool F A :=
  if o.asksPool then
    (SyinxPthreadPool.new.init (.ofInt o.fields.pthPoolNum.toInt) (.ofInt o.fields.taskNum.toInt)
      cells o.pool).2
  else .new

/-- The kernel with what `SyinxKernelInitAdapter` has set up. -/
def adapted (o : Outside) : SyinxKernel α := .new o.fields.ichannelNum.toNat o.asksPool

/-- There is memory for what the configuration asks for. -/
structure Enough (o : Outside) : Prop where
  pool : o.asksPool = true → o.poolNew = true
  resource : ∀ i ≤ o.fields.ichannelNum.toNat, o.resourceNew i = true

/-- The calls of the start succeed, as far as they are looked at. -/
structure Serves (o : Outside) : Prop where
  config : (Fields.new.configFile o.file).1 = true
  memory : o.Enough
  base : o.configNew = true → o.baseNew = true
  server : o.fields.svModle = serverModeTcp ∧ o.listenerNew = true ∨
    o.fields.svModle = serverModeHttp ∧ o.evhttpNew = true ∧ o.bind = true

end Outside

/-! ### What main does -/

section Eval

variable {m : Main F A α} {o : Outside} {cells : ℤ → SyPthreadPoolTask F A}

/-- The modes that `Config` knows. -/
theorem svModle_cases (h : (Fields.new.configFile o.file).1 = true) :
    o.fields.svModle = serverModeTcp ∨ o.fields.svModle = serverModeHttp ∨ o.fields.svModle = 0 := by
  have hsnd := config_snd h
  have hmode := congrArg Fields.svModle hsnd
  rw [Outside.fields, Fields.configFile, hmode]
  split_ifs
  · exact .inl rfl
  · exact .inr (.inl rfl)
  · exact .inr (.inr rfl)

theorem eval_tcpServer_fst :
    ((Main.tcpServer o).eval m).1 = true ↔
      (o.configNew = true → o.baseNew = true) ∧ o.listenerNew = true := by
  obtain ⟨-, -, -, -, configNew, baseNew, listenerNew, -, -, -⟩ := o
  cases configNew <;> cases baseNew <;> cases listenerNew <;>
    simp [Main.tcpServer, Parts.eval, Main.newBase, Main.listen, Main.onStatusConnect, Main.setWork]

theorem eval_tcpServer_snd (hc : o.configNew = true) (hb : o.baseNew = true)
    (hl : o.listenerNew = true) :
    ((Main.tcpServer o).eval m).2 = { m with
      kernel := m.kernel.tcpServer o.connect
      work := true
      address := some ⟨false, m.fields.sinPort⟩ } := by
  simp [Main.tcpServer, Parts.eval, Main.newBase, Main.listen, Main.onStatusConnect, Main.setWork,
    hc, hb, hl, SyinxKernel.tcpServer]

theorem eval_httpServer_fst :
    ((Main.httpServer o).eval m).1 = true ↔
      (o.configNew = true → o.baseNew = true) ∧ o.evhttpNew = true ∧ o.bind = true := by
  obtain ⟨-, -, -, -, configNew, baseNew, -, -, evhttpNew, bind⟩ := o
  cases configNew <;> cases baseNew <;> cases evhttpNew <;> cases bind <;>
    simp [Main.httpServer, Parts.eval, Main.newBase, Main.newEvhttp, Main.bindSocket, Main.setWork]

theorem eval_httpServer_snd (hc : o.configNew = true) (hb : o.baseNew = true)
    (he : o.evhttpNew = true) (hbind : o.bind = true) :
    ((Main.httpServer o).eval m).2 = { m with
      kernel := m.kernel.httpServer
      work := true
      address := some ⟨true, m.fields.sinPort⟩ } := by
  simp [Main.httpServer, Parts.eval, Main.newBase, Main.newEvhttp, Main.bindSocket, Main.setWork,
    hc, hb, he, hbind, SyinxKernel.httpServer, SyinxKernel.call]

/-- The server's own parts do without `new`. -/
theorem eval_tcpServer_aborted : ((Main.tcpServer o).eval m).2.aborted = m.aborted := by
  obtain ⟨-, -, -, -, configNew, baseNew, listenerNew, -, -, -⟩ := o
  cases configNew <;> cases baseNew <;> cases listenerNew <;>
    simp [Main.tcpServer, Parts.eval, Main.newBase, Main.listen, Main.onStatusConnect, Main.setWork]

theorem eval_httpServer_aborted : ((Main.httpServer o).eval m).2.aborted = m.aborted := by
  obtain ⟨-, -, -, -, configNew, baseNew, -, -, evhttpNew, bind⟩ := o
  cases configNew <;> cases baseNew <;> cases evhttpNew <;> cases bind <;>
    simp [Main.httpServer, Parts.eval, Main.newBase, Main.newEvhttp, Main.bindSocket, Main.setWork]

/-- The program when `Config` has been read, the pool and the channels are there and the signals
have their handlers. -/
def Outside.ready (o : Outside) (cells : ℤ → SyPthreadPoolTask F A) : Main F A α :=
  ⟨o.fields, o.poolAfter cells, o.adapted, [.sigquit, .sigint], false, none, false⟩

theorem eval_config : (Parts.part (Main.config o.file) .done).eval (Main.new : Main F A α) =
    ((Fields.new.configFile o.file).1, { (Main.new : Main F A α) with fields := o.fields }) := by
  cases h : (Fields.new.configFile o.file).1 <;>
    simp [Parts.eval, Main.config, Main.new, Outside.fields, h]

theorem allocates_iff (resourceNew : ℕ → Bool) (i left : ℕ) :
    Main.allocates resourceNew i left = true ↔ ∀ j < left, resourceNew (i + j) = true := by
  induction left generalizing i with
  | zero => simp [Main.allocates]
  | succ left ih =>
    rw [Main.allocates, Bool.and_eq_true, ih, Nat.forall_lt_succ_left]
    simp only [Nat.add_zero, Nat.add_right_comm i 1, ← Nat.add_assoc]

theorem enough_iff : o.Enough ↔ (o.asksPool = true → o.poolNew = true) ∧
    (o.resourceNew 0 && Main.allocates o.resourceNew 1 o.fields.ichannelNum.toNat) = true := by
  rw [Bool.and_eq_true, allocates_iff]
  constructor
  · rintro ⟨hpool, hres⟩
    exact ⟨hpool, hres 0 (Nat.zero_le _), fun j hj => hres (1 + j) (by omega)⟩
  · rintro ⟨hpool, h0, hres⟩
    refine ⟨hpool, fun i hi => ?_⟩
    cases i with
    | zero => exact h0
    | succ i => exact Nat.add_comm 1 i ▸ hres i hi

/-- The pool and the channels, with memory for them. -/
theorem eval_syinxKernelInitAdapter (h : o.Enough) :
    ((Main.syinxKernelInitAdapter cells o).andThen Main.registerSignal).eval
        { (Main.new : Main F A α) with fields := o.fields } = (true, o.ready cells) := by
  obtain ⟨hpool, hres⟩ := enough_iff.mp h
  by_cases hask : o.fields.pthPoolNum > 1 ∧ o.fields.usePthreadPool = true
  · have hnew := hpool (decide_eq_true hask)
    simp [Main.syinxKernelInitAdapter, Main.registerSignal, Parts.andThen, Parts.eval,
      Main.initPool, Main.initResource, Main.signal, Main.new, Outside.ready, Outside.poolAfter,
      Outside.adapted, Outside.asksPool, SyinxKernel.new, hask, hnew, hres]
  · simp [Main.syinxKernelInitAdapter, Main.registerSignal, Parts.andThen, Parts.eval,
      Main.initPool, Main.initResource, Main.signal, Main.new, Outside.ready, Outside.poolAfter,
      Outside.adapted, Outside.asksPool, SyinxKernel.new, hask, hres]

/-- Without it the program ends there. -/
theorem eval_syinxKernelInitAdapter_aborted (h : ¬ o.Enough) :
    (((Main.syinxKernelInitAdapter cells o).andThen Main.registerSignal).eval
        { (Main.new : Main F A α) with fields := o.fields }).1 = false ∧
      (((Main.syinxKernelInitAdapter cells o).andThen Main.registerSignal).eval
        { (Main.new : Main F A α) with fields := o.fields }).2.aborted = true := by
  rw [enough_iff, not_and_or] at h
  by_cases hask : o.fields.pthPoolNum > 1 ∧ o.fields.usePthreadPool = true
  · by_cases hnew : o.poolNew = true
    · have hres := h.resolve_left (not_not_intro fun _ => hnew)
      simp [Main.syinxKernelInitAdapter, Parts.andThen, Parts.eval, Main.initPool,
        Main.initResource, Main.abort, hask, hnew, hres]
    · simp [Main.syinxKernelInitAdapter, Parts.andThen, Parts.eval, Main.initPool, Main.abort, hask,
        hnew]
  · have hres := h.resolve_left (not_not_intro fun h' => absurd (of_decide_eq_true h') hask)
    simp [Main.syinxKernelInitAdapter, Parts.andThen, Parts.eval, Main.initPool, Main.initResource,
      Main.abort, hask, hres]

/-- The program at the loop of `Run`, when it serves and has an `event_config`. -/
def Outside.served (o : Outside) (cells : ℤ → SyPthreadPoolTask F A) : Main F A α where
  fields := o.fields
  pthPool := o.poolAfter cells
  kernel := .start o.fields.ichannelNum.toNat o.asksPool
    (if o.fields.svModle = serverModeTcp then some o.connect else none)
  handlers := [.sigquit, .sigint]
  work := true
  address := some ⟨decide (o.fields.svModle ≠ serverModeTcp), o.fields.sinPort⟩
  aborted := false

/-- A configuration that is refused. -/
theorem eval_main_refused (hconfig : ¬ (Fields.new.configFile o.file).1 = true) :
    (Main.main cells o).eval (Main.new : Main F A α) =
      (false, { (Main.new : Main F A α) with fields := o.fields }) := by
  rw [Main.main, Parts.eval_andThen, eval_config, if_neg hconfig, eq_false_of_ne_true hconfig]

/-- A configuration that there is memory for. -/
theorem eval_main (hconfig : (Fields.new.configFile o.file).1 = true) (h : o.Enough) :
    (Main.main cells o).eval (Main.new : Main F A α) =
      if o.fields.svModle = serverModeTcp then (Main.tcpServer o).eval (o.ready cells)
      else if o.fields.svModle = serverModeHttp then (Main.httpServer o).eval (o.ready cells)
      else (false, o.ready cells) := by
  rw [Main.main, Parts.eval_andThen, eval_config, if_pos hconfig, Main.init, Parts.eval_andThen,
    eval_syinxKernelInitAdapter h, if_pos rfl]
  rcases svModle_cases hconfig with hmode | hmode | hmode
  · have htcp : serverModeTcp ≠ 0 := by decide
    simp [Parts.eval, Outside.ready, hmode, htcp]
  · have htcp : serverModeHttp &&& serverModeTcp = 0 := by decide
    have hhttp : serverModeHttp ≠ 0 := by decide
    have hne : serverModeHttp ≠ serverModeTcp := by decide
    simp [Parts.eval, Outside.ready, hmode, htcp, hhttp, hne]
  · have htcp : 0 ≠ serverModeTcp := by decide
    have hhttp : 0 ≠ serverModeHttp := by decide
    simp [Parts.eval, Outside.ready, hmode, htcp, hhttp]

/-- A configuration that there is no memory for. -/
theorem eval_main_starved (hconfig : (Fields.new.configFile o.file).1 = true) (h : ¬ o.Enough) :
    ((Main.main cells o).eval (Main.new : Main F A α)).1 = false ∧
      ((Main.main cells o).eval (Main.new : Main F A α)).2.aborted = true := by
  let r := ((Main.syinxKernelInitAdapter cells o).andThen Main.registerSignal).eval
    { (Main.new : Main F A α) with fields := o.fields }
  obtain ⟨hfst, hsnd⟩ : r.1 = false ∧ r.2.aborted = true := eval_syinxKernelInitAdapter_aborted h
  have hne : ¬ r.1 = true := by
    rw [hfst]
    exact Bool.false_ne_true
  rw [Main.main, Parts.eval_andThen, eval_config, if_pos hconfig, Main.init, Parts.eval_andThen,
    if_neg hne]
  exact ⟨hfst, hsnd⟩

/-- **When `main` comes to the loop.** -/
theorem eval_main_fst :
    ((Main.main cells o).eval (Main.new : Main F A α)).1 = true ↔ o.Serves := by
  by_cases hconfig : (Fields.new.configFile o.file).1 = true
  swap
  · rw [eval_main_refused hconfig]
    exact iff_of_false Bool.false_ne_true fun h => hconfig h.config
  by_cases hmem : o.Enough
  swap
  · rw [(eval_main_starved hconfig hmem).1]
    exact iff_of_false Bool.false_ne_true fun h => hmem h.memory
  rw [eval_main hconfig hmem]
  split_ifs with htcp hhttp
  · rw [eval_tcpServer_fst]
    constructor
    · rintro ⟨hbase, hlisten⟩
      exact ⟨hconfig, hmem, hbase, .inl ⟨htcp, hlisten⟩⟩
    · rintro ⟨-, -, hbase, ⟨-, hlisten⟩ | ⟨hhttp, -⟩⟩
      · exact ⟨hbase, hlisten⟩
      · exact absurd (htcp.symm.trans hhttp) (by decide)
  · rw [eval_httpServer_fst]
    constructor
    · rintro ⟨hbase, hnew, hbind⟩
      exact ⟨hconfig, hmem, hbase, .inr ⟨hhttp, hnew, hbind⟩⟩
    · rintro ⟨-, -, hbase, ⟨htcp', -⟩ | ⟨-, hserver⟩⟩
      · exact absurd htcp' htcp
      · exact ⟨hbase, hserver⟩
  · refine iff_of_false not_false fun h => ?_
    exact h.server.elim (fun h => htcp h.1) fun h => hhttp h.1

/-- **When it ends for want of memory.** -/
theorem eval_main_aborted :
    ((Main.main cells o).eval (Main.new : Main F A α)).2.aborted = true ↔
      (Fields.new.configFile o.file).1 = true ∧ ¬ o.Enough := by
  by_cases hconfig : (Fields.new.configFile o.file).1 = true
  swap
  · rw [eval_main_refused hconfig]
    exact iff_of_false Bool.false_ne_true fun h => hconfig h.1
  by_cases hmem : o.Enough
  swap
  · exact iff_of_true (eval_main_starved hconfig hmem).2 ⟨hconfig, hmem⟩
  refine iff_of_false ?_ fun h => h.2 hmem
  rw [eval_main hconfig hmem]
  split_ifs
  · rw [eval_tcpServer_aborted]
    exact Bool.false_ne_true
  · rw [eval_httpServer_aborted]
    exact Bool.false_ne_true
  · exact Bool.false_ne_true

theorem eval_main_snd (h : o.Serves) (hc : o.configNew = true) :
    ((Main.main cells o).eval (Main.new : Main F A α)).2 = o.served cells := by
  have hb := h.base hc
  rw [eval_main h.config h.memory]
  obtain ⟨htcp, hlisten⟩ | ⟨hhttp, hnew, hbind⟩ := h.server
  · rw [if_pos htcp, eval_tcpServer_snd hc hb hlisten]
    simp [Outside.served, Outside.ready, htcp, SyinxKernel.start, Outside.adapted]
  · have htcp : o.fields.svModle ≠ serverModeTcp := by
      rw [hhttp]
      decide
    rw [if_neg htcp, if_pos hhttp, eval_httpServer_snd hc hb hnew hbind]
    simp [Outside.served, Outside.ready, htcp, SyinxKernel.start, Outside.adapted]

end Eval

/-! ### Signals -/

namespace Launch

variable {l l' : Launch F A α}

/-- A step keeps what `main` will have done. -/
theorem eval_of_step {a : LaunchAct} (h : l.step a = some l') :
    l'.rest.eval l'.st = l.rest.eval l.st := by
  cases a with
  | go =>
    simp only [step] at h
    split_ifs at h with hk
    obtain ⟨r, hr, rfl⟩ := Option.map_eq_some_iff.mp h
    exact Parts.eval_of_step hr
  | signal sig =>
    simp only [step] at h
    split_ifs at h with hk hs <;> cases h <;> rfl

/-- A step, as it is without signals. -/
theorem alive_of_step {a : LaunchAct} (h : l.step a = some l') :
    exec step { l with killed := false } (Option.guard (· = .go) a).toList =
      some { l' with killed := false } := by
  cases a with
  | go =>
    simp only [step] at h
    split_ifs at h with hk
    obtain ⟨r, hr, rfl⟩ := Option.map_eq_some_iff.mp h
    simp [step, hr]
  | signal sig =>
    simp only [step] at h
    split_ifs at h with hk hs <;> cases h <;> rfl

/-- What `main` will have done in the end, and what it has done without the signals. -/
theorem of_exec {cells : ℤ → SyPthreadPoolTask F A} {o : Outside} {as : List LaunchAct}
    (h : exec step (start cells o) as = some l) :
    l.rest.eval l.st = (Main.main cells o).eval .new ∧
      exec step (start cells o) (as.filter (· = .go)) = some { l with killed := false } := by
  rw [← List.filterMap_eq_filter]
  exact exec_filterMap (I := fun u => u.rest.eval u.st = (Main.main cells o).eval .new)
    (f := fun u => { u with killed := false })
    (fun _ _ _ hs ht => ⟨(eval_of_step ht).trans hs, alive_of_step ht⟩) rfl h

/-- If no signals arrive, `main` gets through what is left. -/
theorem exists_ended (l : Launch F A α) (hk : l.killed = false) :
    ∃ n ≤ l.rest.length, ∃ l', exec step l (List.replicate n .go) = some l' ∧
      l'.rest.ended = true ∧ l'.killed = false := by
  induction hn : l.rest.length using Nat.strong_induction_on generalizing l with
  | _ n ih =>
    cases hr : l.rest.step l.st with
    | none => exact ⟨0, Nat.zero_le n, l, rfl, Parts.ended_iff.mpr hr, hk⟩
    | some r =>
      have hlt : r.1.length < n := hn ▸ Parts.length_of_step hr
      obtain ⟨i, hi, l', hrun, hend⟩ := ih r.1.length hlt ⟨r.2, r.1, false⟩ rfl rfl
      refine ⟨i + 1, by omega, l', exec_cons_eq_some.mpr ⟨⟨r.2, r.1, false⟩, ?_, hrun⟩, hend⟩
      simp [step, hk, hr]

end Launch

/-- A short `Config.ini`. -/
def shortFile : List UInt8 := bytes
  "[ServerConfig]\nPort=80\nConnectNum=2\nSetModel=tcp\nLogConfigPath=x\n[PthreadSetting]\nSetThreadNum=0\nSetTaskNum=0\n"

/-- Every call succeeds. -/
def allWell : Outside :=
  ⟨some shortFile, ⟨true, true, true, fun _ => true⟩, true, fun _ => true, true, true, true,
    ⟨true, true, true⟩, true, true⟩

/-- With a `ConnectNum` of `-5` memory runs out, here with the third channel. -/
example : (exec Launch.step (Launch.start (fun _ => ⟨0, 0⟩) { allWell with
      file := some (bytes
        "[ServerConfig]\nPort=80\nConnectNum=-5\nSetModel=tcp\nLogConfigPath=x\n[PthreadSetting]\nSetThreadNum=0\nSetTaskNum=0\n")
      resourceNew := (· < 3) } : Launch ℕ ℕ UInt8)
    (List.replicate 3 .go)).map (fun l => (l.rest.ended, l.st.aborted)) = some (true, true) := by
  decide +kernel

end Syinx.Kernel
