import SyncRtc.Net.Frame
import SyncRtc.Lib.Transition

/-!
# The send side of a connection

`Session.cpp`: any thread submits complete frames under the send lock; the I/O thread writes them. It takes
the submitted frames over in one swap, writes outside the lock, and takes the lock again for the accounting of
each frame it has written. Between any two of these steps other threads may submit or ask for a close.

A section under the lock is one step: everything it touches is touched under that lock only.
-/

set_option autoImplicit false

namespace SyncRtc.Net

/-- `kIoBudget`. -/
def ioBudget : Nat := 64 * 1024

/-- `kMaxPendingBytes`. -/
def maxPendingBytes : Nat := 4 * 1024 * 1024

/-- `kMaxPendingFrames`. -/
def maxPendingFrames : Nat := 1024

/-! ## `std::size_t` -/

def sizeAdd (a b : Nat) : Nat := (a + b) % 2 ^ 64

def sizeSub (a b : Nat) : Nat := (a + 2 ^ 64 - b) % 2 ^ 64

theorem sizeAdd_eq {a b : Nat} (h : a + b < 2 ^ 64) : sizeAdd a b = a + b := Nat.mod_eq_of_lt h

theorem sizeSub_eq {a b : Nat} (h : b ≤ a) (ha : a < 2 ^ 64) : sizeSub a b = a - b := by
  unfold sizeSub
  omega

/-! ## The session -/

/-- Where the I/O thread stands in `HandleWrite`. -/
inductive Writer where
  | idle
  /-- In the loop, with so many bytes written in this call. -/
  | writing (written : Nat)
  /-- The front frame has been written, and its accounting comes next. -/
  | settling (written : Nat)
  | returned (alive : Bool)
  deriving DecidableEq

/-- The part of `Session` its send side is made of. -/
structure Session where
  pending : List Bytes := []
  pendingBytes : Nat := 0
  pendingFrames : Nat := 0
  closed : Bool := false
  closeRequested : Bool := false
  sendQueue : List Bytes := []
  sendOffset : Nat := 0
  writer : Writer := .idle
  /-- The frames of the calls of `Send` that have returned true. -/
  accepted : List Bytes := []
  /-- The frame of a call that has queued it and returned false, because its wake-up was refused. -/
  unannounced : List Bytes := []
  /-- What the socket has taken. -/
  wire : Bytes := []
  deriving DecidableEq

namespace Session

/-- `Session::IsClosed`. -/
def isClosed (s : Session) : Bool := s.closed || s.closeRequested

/-- Whether a frame would exceed a limit. -/
def overLimit (s : Session) (message : Bytes) : Bool :=
  decide (message.length > sizeSub maxPendingBytes s.pendingBytes) || decide (s.pendingFrames ≥ maxPendingFrames)

/-- `Session::RequestClose`. -/
def requestClose (s : Session) : Session := { s with closeRequested := true }

/-- `Session::Send`. The wake-up answers `notified`; a session without one goes on as if it had said yes. -/
def send (s : Session) (requestId : UInt16) (payload : Bytes) (notified : Bool) : Bool × Session :=
  if payload.length > 65535 then (false, s)
  else
    let message := sessionFrame requestId payload
    if s.isClosed then (false, s)
    else if s.overLimit message then (false, s.requestClose)
    else
      let s := { s with
        pendingBytes := sizeAdd s.pendingBytes message.length
        pendingFrames := sizeAdd s.pendingFrames 1
        pending := s.pending ++ [message] }
      if notified then (true, { s with accepted := s.accepted ++ [message] })
      else (false, { s.requestClose with unannounced := s.unannounced ++ [message] })

/-- Whether `Send` comes to its `Notify`. -/
def notifies (s : Session) (payload : Bytes) : Bool := decide (payload.length ≤ 65535) && !s.isClosed

/-- The first section of `Session::HandleWrite`. -/
def beginWrite (s : Session) : Session :=
  if s.isClosed then { s with writer := .returned false }
  else if s.sendQueue.isEmpty then { s with sendQueue := s.pending, pending := s.sendQueue, writer := .writing 0 }
  else { s with writer := .writing 0 }

/-- What `::send` answers. -/
inductive Sent where
  | count (n : Nat)
  | interrupted
  | again
  | failed
  deriving DecidableEq

/-- A round of the loop of `HandleWrite`: `::send` takes at most what it is offered. -/
def writeSome (s : Session) (sent : Sent) : Option Session :=
  match s.writer, s.sendQueue with
  | .writing written, message :: _ =>
    if written < ioBudget then
      match sent with
      | .count n =>
        let offered := min (ioBudget - written) (message.length - s.sendOffset)
        if 0 < n ∧ n ≤ offered then
          some { s with
            sendOffset := s.sendOffset + n
            wire := s.wire ++ (message.drop s.sendOffset).take n
            writer := if s.sendOffset + n = message.length then .settling (written + n) else .writing (written + n) }
        else none
      | .interrupted => some s
      | .again => some { s with writer := .returned true }
      | .failed => some { s with writer := .returned false }
    else none
  | _, _ => none

/-- The accounting of a frame that has been written. -/
def settle (s : Session) : Option Session :=
  match s.writer, s.sendQueue with
  | .settling written, message :: rest =>
    some { s with
      pendingBytes := sizeSub s.pendingBytes message.length
      pendingFrames := sizeSub s.pendingFrames 1
      sendQueue := rest
      sendOffset := 0
      writer := .writing written }
  | _, _ => none

/-- The end of the loop of `HandleWrite`. -/
def endWrite (s : Session) : Option Session :=
  match s.writer with
  | .writing written =>
    if s.sendQueue.isEmpty || decide (written ≥ ioBudget) then some { s with writer := .returned true } else none
  | _ => none

/-- `Session::HasPendingWrite`. -/
def hasPendingWrite (s : Session) : Bool := s.closeRequested || s.pendingFrames != 0

/-- `Session::Close`. -/
def close (s : Session) : Session :=
  { s with closed := true, pending := [], sendQueue := [], pendingBytes := 0, pendingFrames := 0, sendOffset := 0 }

/-- The I/O thread is not inside `HandleWrite`. -/
def Resting (s : Session) : Prop := s.writer = .idle ∨ ∃ alive, s.writer = .returned alive

instance (s : Session) : Decidable s.Resting :=
  match h : s.writer with
  | .idle => .isTrue (.inl h)
  | .returned alive => .isTrue (.inr ⟨alive, h⟩)
  | .writing _ => .isFalse fun hr => by rcases hr with hr | ⟨_, hr⟩ <;> rw [h] at hr <;> cases hr
  | .settling _ => .isFalse fun hr => by rcases hr with hr | ⟨_, hr⟩ <;> rw [h] at hr <;> cases hr

/-! ## Steps -/

/-- What can happen to a session: `send` and `requestClose` from any thread, the rest from the I/O thread. -/
inductive Event where
  | send (requestId : UInt16) (payload : Bytes) (notified : Bool)
  | requestClose
  | beginWrite
  | writeSome (sent : Sent)
  | settle
  | endWrite
  | close

def step (s : Session) : Event → Option Session
  | .send requestId payload notified => some (s.send requestId payload notified).2
  | .requestClose => some s.requestClose
  | .beginWrite => if s.Resting then some s.beginWrite else none
  | .writeSome sent => s.writeSome sent
  | .settle => s.settle
  | .endWrite => s.endWrite
  | .close => if s.Resting then some s.close else none

/-- The states of a session, whatever the threads do and the socket answers. -/
def Reachable (s : Session) : Prop := Reach step (fun _ _ => True) {} s

end Session

end SyncRtc.Net
