import Syinx.Ini.Text
import Syinx.Kernel.FrameLoop

/-!
# The HTTP server

`HTTPRun` lets libevent wait for events and calls back, `HttpServerHandle` for each request. It
prints what it has been asked, the body in chunks of 128 bytes, and replies with an empty page:
the page it writes goes to the buffer the request's body came in, and `evhttp_send_reply` is
given no buffer.

`evbuffer_remove` and `fwrite` take all they are given room or bytes for. A string is the bytes
before its zero.

## What is proved

* `printInput_eq` — the whole body is printed, however long it is.
* `served_of_exec` — every request that was handled has got the same reply, and its text is
  printed behind those of the requests before it.
-/

namespace Syinx.Kernel

open Syinx.Library
open Syinx.Ini (bytes)

/-! ### A request -/

/-- `evhttp_cmd_type`. -/
inductive EvhttpCmdType where
  | get
  | post
  | head
  | put
  | delete
  | options
  | trace
  | connect
  | patch
  /-- Any other value. -/
  | other
  deriving DecidableEq

/-- An `evhttp_request`. -/
structure HttpRequest where
  command : EvhttpCmdType
  uri : List UInt8
  /-- `evhttp_request_get_input_headers`, by key and value. -/
  headers : List (List UInt8 × List UInt8)
  /-- `evhttp_request_get_input_buffer`. -/
  input : List UInt8

/-- What `evhttp_send_reply` is given. -/
structure HttpReply where
  code : ℕ
  reason : List UInt8
  /-- The buffer; `none` is a null pointer. -/
  databuf : Option (List UInt8)
  deriving DecidableEq

/-- `cmdtype`. -/
def EvhttpCmdType.cmdtype : EvhttpCmdType → List UInt8
  | .get => bytes "GET"
  | .post => bytes "POST"
  | .head => bytes "HEAD"
  | .put => bytes "PUT"
  | .delete => bytes "DELETE"
  | .options => bytes "OPTIONS"
  | .trace => bytes "TRACE"
  | .connect => bytes "CONNECT"
  | .patch => bytes "PATCH"
  | .other => bytes "unknown"

/-- The size of `cbuf`. -/
def cbufSize : ℕ := 128

/-- The bytes that `evbuffer_remove` leaves are fewer. -/
theorem length_drop_lt {buf : List UInt8} (h : 0 < buf.length) :
    (buf.drop cbufSize).length < buf.length := by
  have hsize : 0 < cbufSize := Nat.succ_pos 127
  rw [List.length_drop]
  omega

/-- The loop that prints the buffer and empties it, on what has been printed before. -/
def printInput (buf out : List UInt8) : List UInt8 :=
  if 0 < buf.length then printInput (buf.drop cbufSize) (out ++ buf.take cbufSize) else out
  termination_by buf.length
  decreasing_by exact length_drop_lt ‹_›

/-- The loop over the headers. -/
def printHeaders (headers : List (List UInt8 × List UInt8)) (out : List UInt8) : List UInt8 :=
  headers.foldl (fun out h => out ++ (bytes "  " ++ h.1 ++ bytes ": " ++ h.2 ++ bytes "\n")) out

/-- The page. -/
def page : List UInt8 :=
  bytes "<html>" ++ bytes "<head><title>MyHttpServer</title></head>" ++ bytes "<body>" ++
    bytes "</body>" ++ bytes "</html>"

/-- `HttpServerHandle`, on what has been printed before: what has been printed after it, the
input buffer, and the reply. -/
def httpServerHandle (r : HttpRequest) (out : List UInt8) : List UInt8 × List UInt8 × HttpReply :=
  let out := out ++ (bytes "Received a " ++ r.command.cmdtype ++ bytes " request for " ++ r.uri ++
    bytes "\nHeaders:\n")
  let out := printHeaders r.headers out
  let buf := r.input ++ (bytes "Server Responsed. Requested: " ++ r.uri ++ bytes "\n")
  let out := printInput buf (out ++ bytes "Input data: <<<\n") ++ bytes ">>>\n"
  (out, page, ⟨200, bytes "OK", none⟩)

/-! ### What is printed -/

/-- The whole body is printed. -/
theorem printInput_eq (buf out : List UInt8) : printInput buf out = out ++ buf := by
  induction buf, out using printInput.induct with
  | case1 buf out h ih => rw [printInput, if_pos h, ih, List.append_assoc, List.take_append_drop]
  | case2 buf out h =>
    have hnil : buf = [] := List.eq_nil_of_length_eq_zero (Nat.eq_zero_of_not_pos h)
    rw [printInput, if_neg h, hnil, List.append_nil]

theorem printHeaders_eq (headers : List (List UInt8 × List UInt8)) (out : List UInt8) :
    printHeaders headers out =
      out ++ headers.flatMap fun h => bytes "  " ++ h.1 ++ bytes ": " ++ h.2 ++ bytes "\n" := by
  induction headers generalizing out with
  | nil => exact (List.append_nil out).symm
  | cons h headers ih =>
    rw [List.flatMap_cons, ← List.append_assoc, ← ih]
    rfl

/-- The text of a request. -/
def HttpRequest.text (r : HttpRequest) : List UInt8 :=
  bytes "Received a " ++ r.command.cmdtype ++ bytes " request for " ++ r.uri ++
    bytes "\nHeaders:\n" ++
    (r.headers.flatMap fun h => bytes "  " ++ h.1 ++ bytes ": " ++ h.2 ++ bytes "\n") ++
    bytes "Input data: <<<\n" ++ r.input ++ bytes "Server Responsed. Requested: " ++ r.uri ++
    bytes "\n" ++ bytes ">>>\n"

/-- What the handler does. -/
theorem httpServerHandle_eq (r : HttpRequest) (out : List UInt8) :
    httpServerHandle r out = (out ++ r.text, page, ⟨200, bytes "OK", none⟩) := by
  unfold httpServerHandle HttpRequest.text
  simp only [printInput_eq, printHeaders_eq, List.append_assoc]

/-! ### The loop -/

/-- A pass of `HTTPRun`. -/
structure HttpPass where
  /-- The requests that are handled in `event_base_loop`. -/
  requests : List HttpRequest
  /-- `event_base_loop` does not return `-1`. -/
  ok : Bool
  /-- `m_nWorkStatus` after it. -/
  nWorkStatus : LinkStatus

/-- `HTTPRun`, at the beginning of a pass. -/
structure HttpLoop where
  nWorkStatus : LinkStatus
  /-- It has returned, because of `event_base_loop`. -/
  returned : Bool
  /-- What has been printed. -/
  out : List UInt8
  /-- The replies, each with what is left in the input buffer of the request. -/
  replies : List (List UInt8 × HttpReply)

/-- `HTTPRun` is called. -/
def HttpLoop.start (w : LinkStatus) : HttpLoop := ⟨w, false, [], []⟩

/-- A request is handled. -/
def HttpLoop.handle (l : HttpLoop) (r : HttpRequest) : HttpLoop :=
  let x := httpServerHandle r l.out
  { l with out := x.1, replies := l.replies ++ [x.2] }

/-- A pass of the loop. -/
def HttpLoop.iterate (l : HttpLoop) (p : HttpPass) : Option HttpLoop :=
  if l.returned = true ∨ l.nWorkStatus = .close then none
  else some { p.requests.foldl HttpLoop.handle l with
    nWorkStatus := p.nWorkStatus
    returned := !p.ok }

theorem HttpLoop.foldl_handle (l : HttpLoop) (rs : List HttpRequest) :
    (rs.foldl HttpLoop.handle l).out = l.out ++ rs.flatMap HttpRequest.text ∧
      (rs.foldl HttpLoop.handle l).replies =
        l.replies ++ rs.map fun _ => (page, ⟨200, bytes "OK", none⟩) := by
  induction rs generalizing l with
  | nil => simp
  | cons r rs ih =>
    obtain ⟨hout, hreplies⟩ := ih (l.handle r)
    rw [List.foldl_cons, hout, hreplies]
    simp [HttpLoop.handle, httpServerHandle_eq]

/-- **What the HTTP server prints and replies**, in any run from any state. -/
theorem served_of_exec {l l' : HttpLoop} {ps : List HttpPass}
    (h : exec HttpLoop.iterate l ps = some l') :
    l'.out = l.out ++ (ps.flatMap HttpPass.requests).flatMap HttpRequest.text ∧
      l'.replies = l.replies ++
        (ps.flatMap HttpPass.requests).map fun _ => (page, ⟨200, bytes "OK", none⟩) := by
  induction ps generalizing l with
  | nil =>
    cases h
    simp
  | cons p ps ih =>
    obtain ⟨u, hu, h⟩ := exec_cons_eq_some.mp h
    unfold HttpLoop.iterate at hu
    split_ifs at hu
    cases hu
    obtain ⟨hout, hreplies⟩ := ih h
    obtain ⟨hout', hreplies'⟩ := l.foldl_handle p.requests
    dsimp only at hout hreplies
    rw [hout, hreplies, hout', hreplies']
    simp

/-- A request with a body that does not fit into `cbuf`. -/
def postRequest : HttpRequest :=
  ⟨.post, bytes "/form", [(bytes "Host", bytes "localhost")], List.replicate 300 65⟩

/-- All of it is printed, and the reply is empty. -/
theorem served_postRequest :
    ∃ l, exec HttpLoop.iterate (HttpLoop.start .work) [⟨[postRequest], true, .work⟩] = some l ∧
      l.out = postRequest.text ∧ l.replies = [(page, ⟨200, bytes "OK", none⟩)] := by
  refine ⟨_, rfl, ?_⟩
  obtain ⟨hout, hreplies⟩ :=
    served_of_exec (rfl : exec HttpLoop.iterate (HttpLoop.start .work)
      [⟨[postRequest], true, .work⟩] = some _)
  exact ⟨hout.trans (by simp [HttpLoop.start]), hreplies⟩

end Syinx.Kernel
