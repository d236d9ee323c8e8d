import SyncRtc.Net.MediaSignalClient

/-!
# The send side of MediaServer

`Session.cpp` of MediaServer: room workers queue whole frames under the send lock, and a thread of the session's
own writes them one by one. `Stop` may come from a worker whose frame was refused, from either side of the
socket, or from `Close`, which then waits for the sending thread and closes the socket.

A section under the lock is one step. What lies between two sections of one call is a place of its own: the
frame the sending thread holds, a worker that goes on to `Stop`, a `Close` on its way.
-/

set_option autoImplicit false

namespace SyncRtc.MediaServer

open Net (Bytes linkFrame sizeAdd sizeSub)

/-- `kMaxPendingBytes`. -/
def maxPendingBytes : Nat := 4 * 1024 * 1024

/-- `kMaxPendingFrames`. -/
def maxPendingFrames : Nat := 1024

/-- Where the sending thread stands in `SendLoop`. -/
inductive SendLoop where
  /-- At `m_send_condition.wait`. -/
  | waiting
  /-- In `SendAll`, with so much of the frame taken by the socket. -/
  | sending (frame : Bytes) (sentLength : Nat)
  /-- `SendAll` has returned true, and the accounting comes next. -/
  | sent (frame : Bytes)
  /-- `SendAll` has returned false, and `Stop` comes next. -/
  | failed (frame : Bytes) (sentLength : Nat)
  | returned
deriving DecidableEq

/-- Where the one `Close` that holds `m_close_mutex` stands. -/
inductive CloseStage where
  | stop
  | join
  | closeFd
deriving DecidableEq

/-- The part of `Session` its send side is made of. -/
structure Session where
  sendQueue : List Bytes := []
  pendingBytes : Nat := 0
  pendingFrames : Nat := 0
  stopping : Bool := false
  sendLoop : SendLoop := .waiting
  /-- `m_send_thread.joinable()`. -/
  joinable : Bool := true
  /-- `m_fd != -1`. -/
  isOpen : Bool := true
  closing : Option CloseStage := none
  /-- The calls of `Send` that have met a limit and go on to `Stop`. -/
  overflowing : Nat := 0
  /-- The frames of the calls of `Send` that return true. -/
  accepted : List Bytes := []
  /-- How many frames had been accepted when the first one met a limit. -/
  refusedAt : Option Nat := none
  /-- What the socket has taken. -/
  wire : Bytes := []
deriving DecidableEq

namespace Session

variable (s : Session)

/-- Whether a frame would exceed a limit. -/
def overLimit (payload : Bytes) : Bool :=
  decide (payload.length > maxPendingBytes - 4) ||
    decide (payload.length + 4 > sizeSub maxPendingBytes s.pendingBytes) ||
      decide (s.pendingFrames ≥ maxPendingFrames)

/-- The section of `Session::Send`: a call that meets a limit has given the lock back before it calls `Stop`. -/
def send (payload : Bytes) : Bool × Session :=
  if s.stopping then (false, s)
  else if s.overLimit payload then
    (false, { s with
      overflowing := s.overflowing + 1
      refusedAt := some (s.refusedAt.getD s.accepted.length) })
  else
    let frame := linkFrame payload
    (true, { s with
      sendQueue := s.sendQueue ++ [frame]
      pendingBytes := sizeAdd s.pendingBytes frame.length
      pendingFrames := sizeAdd s.pendingFrames 1
      accepted := s.accepted ++ [frame] })

/-- `Session::Stop`. -/
def stop : Session :=
  if s.stopping then s
  else { s with stopping := true, sendQueue := [], pendingBytes := 0, pendingFrames := 0 }

/-- The first section of a round of `Session::SendLoop`. -/
def takeFrame : Option Session :=
  match s.sendLoop with
  | .waiting =>
    if s.stopping then some { s with sendLoop := .returned }
    else
      match s.sendQueue with
      | [] => none
      | frame :: rest => some { s with sendQueue := rest, sendLoop := .sending frame 0 }
  | _ => none

/-- What `::send` answers. -/
inductive Sent where
  | count (n : Nat)
  | interrupted
  | failed
deriving DecidableEq

/-- A round of the loop of `SendAll`. -/
def sendSome (sent : Sent) : Option Session :=
  match s.sendLoop with
  | .sending frame sentLength =>
    match sent with
    | .count n =>
      if 0 < n ∧ n ≤ frame.length - sentLength then
        some { s with
          wire := s.wire ++ (frame.drop sentLength).take n
          sendLoop := if sentLength + n = frame.length then .sent frame else .sending frame (sentLength + n) }
      else none
    | .interrupted => some s
    | .failed => some { s with sendLoop := .failed frame sentLength }
  | _ => none

/-- The last section of a round of `Session::SendLoop`, and `Stop` where `SendAll` has failed. -/
def settle : Option Session :=
  match s.sendLoop with
  | .sent frame =>
    if s.stopping then some { s with sendLoop := .returned }
    else
      some { s with
        pendingBytes := sizeSub s.pendingBytes frame.length
        pendingFrames := sizeSub s.pendingFrames 1
        sendLoop := .waiting }
  | .failed _ _ => some { s.stop with sendLoop := .returned }
  | _ => none

/-- `Session::Close`, from one lock to the next. -/
def close : Option Session :=
  match s.closing with
  | none => some { s with closing := some .stop }
  | some .stop => some { s.stop with closing := some .join }
  | some .join =>
    if s.joinable = false ∨ s.sendLoop = .returned then some { s with joinable := false, closing := some .closeFd }
    else none
  | some .closeFd => some { s with isOpen := false, closing := none }

/-! ## Steps -/

/-- What can happen to a session: `send`, `overflow`, `stop` and `close` on any thread, the rest on the sending
thread. -/
inductive Event where
  | send (payload : Bytes)
  /-- A call of `Send` that met a limit comes to its `Stop`. -/
  | overflow
  /-- `HandleRead` has failed. -/
  | stop
  | takeFrame
  | sendSome (sent : Sent)
  | settle
  /-- A `Close` goes on; the others wait for `m_close_mutex`. -/
  | close

def step : Event → Option Session
  | .send payload => some (s.send payload).2
  | .overflow => if 0 < s.overflowing then some { s.stop with overflowing := s.overflowing - 1 } else none
  | .stop => some s.stop
  | .takeFrame => s.takeFrame
  | .sendSome sent => s.sendSome sent
  | .settle => s.settle
  | .close => s.close

end Session

end SyncRtc.MediaServer
