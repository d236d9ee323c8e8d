import SyncRtc.Net.Frame

/-!
# The receive side of a connection

`Session::ParseFrames` takes complete frames off the front of the receive buffer, and `Session::HandleRead`
calls it after each piece it has read. What becomes of a frame is not decided here: a heartbeat is answered, any
other frame is posted to the business layer. Both may close the session.
-/

set_option autoImplicit false

namespace SyncRtc.Net

/-- `ID_HEARTBEAT_REQUEST`. -/
def heartbeatRequest : UInt16 := 1048

/-- The first of the ids that are internal events, which no client may send. -/
def firstInternalId : UInt16 := 0xFFF0

/-- What a session does with its frames. -/
structure Receiver (S : Type) where
  /-- `Session::HandleHeartbeat`. -/
  handleHeartbeat : Bytes → S → S
  /-- `LogicSystem::PostMsgToQue`. -/
  postMsgToQue : UInt16 → Bytes → S → S
  requestClose : S → S
  isClosed : S → Bool

namespace Receiver

variable {S : Type} (r : Receiver S)

/-- `Session::ParseFrames`: what is left of the buffer, and the session after it. -/
def parseFrames (buffer : Bytes) (s : S) : Bytes × S :=
  match buffer with
  | h₀ :: h₁ :: h₂ :: h₃ :: rest =>
    let requestId := shiftedValue h₀ h₁
    if requestId ≥ firstInternalId then (buffer, r.requestClose s)
    else
      let payloadLength := (shiftedValue h₂ h₃).toNat
      if rest.length < payloadLength then (buffer, s)
      else if requestId = heartbeatRequest then
        let s := r.handleHeartbeat (rest.take payloadLength) s
        if r.isClosed s then (rest.drop payloadLength, s) else parseFrames (rest.drop payloadLength) s
      else parseFrames (rest.drop payloadLength) (r.postMsgToQue requestId (rest.take payloadLength) s)
  | _ => (buffer, s)
termination_by buffer.length
decreasing_by
  all_goals
    simp only [List.length_cons, List.length_drop]
    omega

/-- `Session::HandleRead`, over the pieces the socket hands out. A session that is closed reads no more. -/
def handleRead : List Bytes → Bytes → S → Bytes × S
  | [], buffer, s => (buffer, s)
  | piece :: pieces, buffer, s =>
    let (buffer, s) := r.parseFrames (buffer ++ piece) s
    if r.isClosed s then (buffer, s) else handleRead pieces buffer s

end Receiver

/-- The receiver that takes down what is posted, and closes for an internal id only. -/
structure Posted where
  messages : List (UInt16 × Bytes) := []
  closed : Bool := false
  deriving DecidableEq

def recorder : Receiver Posted where
  handleHeartbeat _ s := s
  postMsgToQue id payload s := { s with messages := s.messages ++ [(id, payload)] }
  requestClose s := { s with closed := true }
  isClosed s := s.closed

end SyncRtc.Net
