import SyncRtc.Client.ChatController

/-!
# The meeting the client is in

`MeetingController`, as far as a recovery reads it: which meeting it is, by what ticket it can be resumed, and what has
been asked of the server and not been answered. The lists it shows (recent meetings, history, members) are left out;
a snapshot of a resumed meeting is checked as a whole before it takes their place.
-/

set_option autoImplicit false

namespace SyncRtc.Client

/-- `QChar::isSpace`. -/
def isSpace (c : Char) : Bool :=
  (9 ≤ c.toNat && c.toNat ≤ 13) || c = ' ' || c.toNat = 0x85 || c.toNat = 0xA0 || c.toNat = 0x1680 ||
    (0x2000 ≤ c.toNat && c.toNat ≤ 0x200A) || c.toNat = 0x2028 || c.toNat = 0x2029 || c.toNat = 0x202F ||
    c.toNat = 0x205F || c.toNat = 0x3000

/-- `QString::trimmed`. -/
def trimmed (text : String) : String :=
  String.ofList ((text.toList.dropWhile isSpace).reverse.dropWhile isSpace).reverse

/-- `QString::toULongLong(&ok)`. -/
def validULongLong (text : String) : Option Nat :=
  let digits := text.toList
  let value := Nat.ofDigitChars 10 digits 0
  if digits ≠ [] ∧ digits.all Char.isDigit ∧ value < 2 ^ 64 then some value else none

/-- `ErrorCodes`, those that are told apart here. -/
def success : Int := 0
def errorJson : Int := 1
def errorRedis : Int := 2
def errorMysql : Int := 3
def errorNetwork : Int := 101

/-- `response.value("error").toInt(ErrorCodes::ERROR_JSON)`. -/
def errorOf (json : Json) : Int :=
  match (json.get "error").integral? with
  | some error => if -2 ^ 31 ≤ error ∧ error < 2 ^ 31 then error else errorJson
  | none => errorJson

/-- `QJsonValue::isArray`. -/
def isArray : Json → Bool
  | .arr _ => true
  | _ => false

/-- `QJsonValue::toArray`. -/
def toArray : Json → List Json
  | .arr items => items
  | _ => []

/-- `RequestID`, those a recovery tells apart. -/
def authLoginRequest : UInt16 := 1010
def authLoginResponse : UInt16 := 1011
def joinMeetingRequest : UInt16 := 1016
def joinMeetingResponse : UInt16 := 1017
def leaveMeetingRequest : UInt16 := 1021
def leaveMeetingResponse : UInt16 := 1022
def endMeetingRequest : UInt16 := 1023
def endMeetingResponse : UInt16 := 1024
def meetingEnded : UInt16 := 1025
def resumeMeetingRequest : UInt16 := 1046
def resumeMeetingResponse : UInt16 := 1047
def heartbeatRequest : UInt16 := 1048

structure MeetingController where
  currentMeetingId : String := ""
  currentMeetingCode : String := ""
  resumeTicket : String := ""
  membershipGeneration : String := ""
  pendingJoinMeetingCode : String := ""
  pendingLeaveMeetingId : String := ""
  pendingEndMeetingId : String := ""
  connectionRecovering : Bool := false

namespace MeetingController

/-- `MeetingController::abandonCurrentMeeting`. The page it tells stops the media; what it would send then is refused,
for the connection is not ready wherever this is called. -/
def abandonCurrentMeeting (m : MeetingController) : MeetingController :=
  { m with
    currentMeetingId := ""
    currentMeetingCode := ""
    resumeTicket := ""
    membershipGeneration := ""
    pendingJoinMeetingCode := ""
    pendingLeaveMeetingId := ""
    pendingEndMeetingId := "" }

/-- `MeetingController::connectionInterrupted`: a leave that was asked for is not undone by a recovery. -/
def connectionInterrupted (m : MeetingController) : MeetingController :=
  let m := { m with pendingJoinMeetingCode := "", pendingEndMeetingId := "" }
  if m.pendingLeaveMeetingId ≠ "" then m.abandonCurrentMeeting else m

/-- `MeetingController::applyJoinMeetingResponse`. -/
def applyJoinMeetingResponse (m : MeetingController) (json : Json) : MeetingController :=
  if errorOf json ≠ success then { m with pendingJoinMeetingCode := "" }
  else if m.pendingJoinMeetingCode = "" then m
  else
    let meetingId := trimmed (json.get "meeting_id").variantText
    let meetingCode := trimmed (json.get "meeting_code").text
    let status := (trimmed (json.get "status").text).toLower
    let role := (trimmed (json.get "role").text).toLower
    if meetingId = "" ∨ meetingCode ≠ m.pendingJoinMeetingCode ∨
        (status ≠ "scheduled" ∧ status ≠ "in_progress" ∧ status ≠ "ended") ∨
        (role ≠ "host" ∧ role ≠ "participant") ∨ ¬ isArray (json.get "members") then
      { m with pendingJoinMeetingCode := "" }
    else
      { m with
        pendingJoinMeetingCode := ""
        currentMeetingId := meetingId
        currentMeetingCode := meetingCode
        resumeTicket := (json.get "resume_ticket").text
        membershipGeneration := (json.get "membership_generation").text }

/-- `MeetingController::applyResumeMeetingResponse`: the snapshot is of this meeting, for this ticket, no older than
what is known, and whole. -/
def applyResumeMeetingResponse (m : MeetingController) (json : Json) : Option MeetingController :=
  let status := (json.get "status").text
  let role := (json.get "role").text
  match validULongLong (json.get "membership_generation").text with
  | none => none
  | some generation =>
    if m.currentMeetingId = "" ∨ (json.get "meeting_id").text ≠ m.currentMeetingId ∨
        (json.get "meeting_code").text ≠ m.currentMeetingCode ∨
        (json.get "resume_ticket").text ≠ m.resumeTicket ∨ m.resumeTicket = "" ∨
        generation < toULongLong m.membershipGeneration ∨
        (status ≠ "scheduled" ∧ status ≠ "in_progress") ∨ (role ≠ "host" ∧ role ≠ "participant") then none
    else
      match json.get "members" with
      | .arr members =>
        if members.all fun member => member.isObject && (member.get "user_id").variantText ≠ "" then
          some { m with membershipGeneration := toString generation }
        else none
      | _ => none

/-- `MeetingController::applyLeaveMeetingResponse`. -/
def applyLeaveMeetingResponse (m : MeetingController) (json : Json) : MeetingController :=
  let answered := { m with pendingLeaveMeetingId := "" }
  let meetingId := trimmed (json.get "meeting_id").variantText
  if errorOf json ≠ success then answered
  else if m.pendingLeaveMeetingId = "" ∨ meetingId ≠ m.pendingLeaveMeetingId then answered
  else if m.currentMeetingId = meetingId then
    { answered with currentMeetingId := "", currentMeetingCode := "", resumeTicket := "", membershipGeneration := "" }
  else answered

/-- `MeetingController::applyEndMeetingResponse`. -/
def applyEndMeetingResponse (m : MeetingController) (json : Json) : MeetingController :=
  let answered := { m with pendingEndMeetingId := "" }
  let meetingId := trimmed (json.get "meeting_id").variantText
  let status := (trimmed (json.get "status").text).toLower
  if errorOf json ≠ success then answered
  else if m.pendingEndMeetingId = "" ∨ meetingId ≠ m.pendingEndMeetingId ∨ status ≠ "ended" then answered
  else if meetingId = m.currentMeetingId then { answered with resumeTicket := "", membershipGeneration := "" }
  else answered

/-- `MeetingController::applyMeetingEnded`. -/
def applyMeetingEnded (m : MeetingController) (json : Json) : MeetingController :=
  let meetingId := trimmed (json.get "meeting_id").variantText
  let status := (trimmed (json.get "status").text).toLower
  if meetingId = "" ∨ status ≠ "ended" then m
  else if meetingId = m.currentMeetingId then { m with resumeTicket := "", membershipGeneration := "" }
  else m

/-- `MeetingController::applyRecentMeeting` returns true: every item has an id or a code, and a title. -/
def acceptsRecentMeetings (meetings : List Json) : Bool :=
  meetings.all fun object =>
    let byId := trimmed (object.get "meeting_id").variantText
    let meetingId := if byId = "" then trimmed (object.get "meeting_code").text else byId
    object.isObject && meetingId ≠ "" && trimmed (object.get "title").text ≠ ""

/-- `RealtimeController::m_handlers`, those that change what is kept here. -/
def handle (m : MeetingController) (id : UInt16) (json : Json) : MeetingController :=
  if id = joinMeetingResponse then m.applyJoinMeetingResponse json
  else if id = leaveMeetingResponse then m.applyLeaveMeetingResponse json
  else if id = endMeetingResponse then m.applyEndMeetingResponse json
  else if id = meetingEnded then m.applyMeetingEnded json
  else m

end MeetingController

end SyncRtc.Client
