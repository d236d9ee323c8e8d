import SyncRtc.Net.Session
import SyncRtc.Client.TcpMgr
import SyncRtc.Json

/-!
# The heartbeat of a session

`Session.cpp`: a heartbeat frame is answered before any request is, and what it renews is looked at by the
scan of `CServer::CheckHeartbeats`. The clock is the steady clock, in nanoseconds. The text of a frame is
read by jsoncpp, which is a parameter: it answers with a value, or finds the text malformed.
-/

set_option autoImplicit false

namespace SyncRtc.Net

/-- `std::chrono::seconds`. -/
def seconds (n : Int) : Int := n * 10 ^ 9

/-- The bytes of a text. -/
def text (s : String) : Bytes := s.toByteArray.data.toList

/-- `std::from_chars` to a `uint64_t`: the value of the leading digits, and what is behind them. -/
def fromChars (chars : List Char) : Option (Nat × List Char) :=
  let digits := chars.takeWhile Char.isDigit
  if digits.isEmpty ∨ Nat.ofDigitChars 10 digits 0 ≥ 2 ^ 64 then none
  else some (Nat.ofDigitChars 10 digits 0, chars.dropWhile Char.isDigit)

/-- The part of `Session` its liveness is made of, over the send side of the session. -/
structure LiveSession where
  session : Session := {}
  userId : Int := 0
  createdAt : Int := 0
  heartbeatEnabled : Bool := false
  sequencedHeartbeat : Bool := false
  heartbeatSequence : Nat := 0
  lastHeartbeat : Int := 0
  heartbeatWindow : Int := 0
  heartbeatCount : Nat := 0
  recheckUsed : Bool := false
  recheckUntil : Int := 0

namespace LiveSession

/-- `Session::RequestClose`. -/
def requestClose (s : LiveSession) : LiveSession := { s with session := s.session.requestClose }

/-- The first test of `ConnectionExpired`. -/
def overdue (s : LiveSession) (now : Int) : Bool :=
  if s.userId ≤ 0 then decide (now - s.createdAt ≥ seconds 30)
  else s.heartbeatEnabled && decide (now - s.lastHeartbeat ≥ seconds 20)

/-- `Session::ConnectionExpired`. -/
def connectionExpired (s : LiveSession) (now : Int) (allowRecheck : Bool) : Bool × LiveSession :=
  if s.overdue now = false then (false, s)
  else
    let s := if allowRecheck && !s.recheckUsed then
      { s with recheckUsed := true, recheckUntil := now + seconds 3 } else s
    (!s.recheckUsed || decide (now ≥ s.recheckUntil), s)

/-- The sequence number of a heartbeat, as `HandleHeartbeat` checks it. -/
def sequenceNumber (sequence : String) : Option Nat :=
  match fromChars sequence.toList with
  | none => none
  | some (number, rest) =>
    if sequence.isEmpty ∨ sequence.utf8ByteSize > 20 ∨ sequence.toList.head? = some '0' ∨ rest ≠ [] then none
    else some number

/-- The last lines of `HandleHeartbeat`. `notified` is what the wake-up of `Send` answers. -/
def renew (s : LiveSession) (now : Int) (reply : String) (notified : Bool) : LiveSession :=
  let s := { s with heartbeatEnabled := true, lastHeartbeat := now, recheckUsed := false }
  let sent := s.session.send heartbeatResponse (text reply) notified
  let s := { s with session := sent.2 }
  if sent.1 then s else s.requestClose

/-- The rate limit of `HandleHeartbeat`: a window opens a second after the one before it, or later. -/
def countFrame (s : LiveSession) (now : Int) : LiveSession :=
  let s := if now - s.heartbeatWindow ≥ seconds 1 then { s with heartbeatWindow := now, heartbeatCount := 0 } else s
  { s with heartbeatCount := s.heartbeatCount + 1 }

/-- `Session::HandleHeartbeat`. -/
def handleHeartbeat (parse : Bytes → Option Json) (s : LiveSession) (payload : Bytes) (now : Int)
    (notified : Bool) : LiveSession :=
  if s.userId ≤ 0 ∨ payload.length > 96 then s.requestClose
  else
    let s := s.countFrame now
    if s.heartbeatCount > 4 then s.requestClose
    else
      match parse payload with
      | some (.obj fields) =>
        -- an empty object is the first protocol, and no way back from the second
        if fields.isEmpty && !s.sequencedHeartbeat then s.renew now "\x7b\x7d" notified
        else if fields.length ≠ 1 then s.requestClose
        else
          match (Json.obj fields).get "seq" with
          | .str sequence =>
            match sequenceNumber sequence with
            | none => s.requestClose
            | some number =>
              if number ≤ s.heartbeatSequence then s
              else
                { s with sequencedHeartbeat := true, heartbeatSequence := number }.renew now
                  ("\x7b\"seq\":\"" ++ sequence ++ "\"\x7d") notified
          | _ => s.requestClose
      | _ => s.requestClose

/-- One session in `CServer::CheckHeartbeats`: whether it is closed. What `HandleRead` finds is the heartbeat
frames `frames`, each with the time it is handled at, and `alive` is what it answers otherwise. -/
def checkHeartbeat (parse : Bytes → Option Json) (s : LiveSession) (now : Int) (recheck : Bool)
    (frames : List (Bytes × Int)) (alive : Bool) : Bool × LiveSession :=
  let first := s.connectionExpired now false
  if first.1 = false then first
  else
    let s := frames.foldl (fun s frame => s.handleHeartbeat parse frame.1 frame.2 true) first.2
    if alive = false ∨ s.session.isClosed then (true, s)
    else s.connectionExpired now recheck

end LiveSession

end SyncRtc.Net
