import SyncRtc.Realtime.Common

/-!
# START, LEAVE and END

`LogicSystem::StartMeetingHandler`, `LeaveMeetingHandler` and `EndMeetingHandler`. The lifecycle of a
meeting is MySQL's; the room's records are cleared before or after it without a common transaction,
so each handler is the sequence of its writes.
-/

set_option autoImplicit false

namespace SyncRtc

/-! ## START -/

/-- The body of `LogicSystem::StartMeetingHandler`. -/
def startBody (room : MeetingId) (s : SessionId) (body : Payload) : Op Reply := do
  let session ← getSession s
  match meetingRequest body session with
  | .error code => return Reply.error code
  | .ok meeting =>
    let uid := session.userId
    match ← query .startInfo (.getMeetingInfoById meeting) with
    | .missing => return Reply.error .meetingNotFound
    | .unavailable => return Reply.error .meetingNotFound
    | .found info =>
      if info.creatorUserId ≠ uid then return Reply.error .meetingAccess
      if info.status ≠ .kScheduled then return Reply.error .meetingStatus
      let started : Bool ← query .startMeeting (.startMeeting meeting uid)
      if !started then return Reply.error .mysql
      broadcast room .meetingStarted [("meeting_id", idText meeting), ("status", .str "in_progress")]
        fun _ => true
      return [("error", .int ErrorCode.success.toInt), ("meeting_id", idText meeting),
        ("status", .str "in_progress")]

def startMeetingHandler (room : MeetingId) (s : SessionId) (body : Payload) : Op Unit := do
  let value ← startBody room s body
  let _ ← send s .startMeetingResponse value

/-! ## LEAVE -/

/-- The five writes of LEAVE: a chain that stops at the first failure. -/
def leaveStore (meeting : MeetingId) (uid : Uid) : Op Bool := do
  let removed : Bool ← query .leaveRemove (.sRem meeting uid)
  if !removed then return false
  let hash : Bool ← query .leaveHash (.delMember meeting uid)
  if !hash then return false
  let index : Bool ← query .leaveIndex (.zRem meeting uid)
  if !index then return false
  let status : Bool ← query .leavePresenceStatus (.hSetPresenceStatus uid .online)
  if !status then return false
  query .leavePresenceMeeting (.hSetPresenceMeeting uid none)

/-- The notification of LEAVE, in a room that has sessions. -/
def leaveNotice (room : MeetingId) (s : SessionId) (uid : Uid) (meeting : MeetingId) : Op Unit := do
  let data ← getRoom room
  if data.sessions.isEmpty then .pure ()
  else do
    pruneSessions room (notThis s)
    let count : Nat ← query .leaveCount (.sCard meeting)
    broadcast room .meetingMemberLeft
      [("meeting_id", idText meeting), ("user_id", .int uid), ("current_participants", .int count)]
      (fun u => decide (u ≠ uid))

/-- What LEAVE does in memory once the stores are written. -/
def leaveRoom (room : MeetingId) (s : SessionId) (uid : Uid) (meeting : MeetingId) : Op Unit := do
  leaveNotice room s uid meeting
  releaseMediaSession s
  let data ← getRoom room
  setRoom room { data with
    members := Function.update data.members uid none, history := .left uid :: data.history }
  call (.releaseUser uid meeting)
  setMeetingId s 0

/-- LEAVE of a session that is in another meeting, or in none: END empties the session's meeting id
first, and an old client still sends its LEAVE. -/
def leaveAfterEnd (meeting : MeetingId) : Op Reply := do
  match ← query .leaveInfo (.getMeetingInfoById meeting) with
  | .found info =>
    return if info.status = .kEnded then
      [("error", .int ErrorCode.success.toInt), ("meeting_id", idText meeting)]
    else Reply.error .meetingAccess
  | _ => return Reply.error .meetingAccess

/-- LEAVE of a session that is in the meeting. -/
def leaveMember (room : MeetingId) (s : SessionId) (uid : Uid) (meeting : MeetingId) : Op Reply := do
  let stored ← leaveStore meeting uid
  if stored then do
    leaveRoom room s uid meeting
    return [("error", .int ErrorCode.success.toInt), ("meeting_id", idText meeting)]
  else return Reply.error .redis

/-- The body of `LogicSystem::LeaveMeetingHandler`. -/
def leaveBody (room : MeetingId) (s : SessionId) (body : Payload) : Op Reply := do
  let session ← getSession s
  match meetingRequest body session with
  | .error code => return Reply.error code
  | .ok meeting =>
    let uid := session.userId
    let session ← getSession s
    if session.meetingId = meeting then leaveMember room s uid meeting else leaveAfterEnd meeting

def leaveMeetingHandler (room : MeetingId) (s : SessionId) (body : Payload) : Op Unit := do
  let value ← leaveBody room s body
  let _ ← send s .leaveMeetingResponse value

/-! ## END -/

/-- The records of one member END clears; a failure does not stop it. -/
def endMember (meeting : MeetingId) (uid : Uid) : Op Bool := do
  let hash : Bool ← query .endHash (.delMember meeting uid)
  let index : Bool ← query .endIndex (.zRem meeting uid)
  let status : Bool ← query .endPresenceStatus (.hSetPresenceStatus uid .online)
  let presence : Bool ← query .endPresenceMeeting (.hSetPresenceMeeting uid none)
  return hash && index && status && presence

/-- The clean-up of Redis after END: nothing when the member set cannot be read. -/
def endStore (meeting : MeetingId) : Op Bool := do
  let found : Option (List Uid) ← query .endMembers (.sMembers meeting)
  match found with
  | none => return false
  | some members =>
    let oks ← Prog.collect (endMember meeting) members
    let removed : Bool ← query .endRoom (.delMembers meeting)
    return oks.all id && removed

/-- One round of the loop that tells the sessions of an ended room. -/
def endSession (meeting : MeetingId) (item : SessionId) : Op Unit := do
  match ← lock item with
  | none => return
  | some s =>
    let _ ← send s .meetingEnded [("meeting_id", idText meeting), ("status", .str "ended")]
    releaseMediaSession s
    setMeetingId s 0

/-- What END does in memory. -/
def endRoom (room meeting : MeetingId) : Op Unit := do
  let data ← getRoom room
  setRoom room { data with members := fun _ => none, history := .ended :: data.history }
  call (.releaseRoomUsers meeting)
  let data ← getRoom room
  Prog.each (endSession meeting) data.sessions
  let data ← getRoom room
  setRoom room { data with sessions := [] }

/-- The body of `LogicSystem::EndMeetingHandler`. -/
def endBody (room : MeetingId) (s : SessionId) (body : Payload) : Op Reply := do
  let session ← getSession s
  match meetingRequest body session with
  | .error code => return Reply.error code
  | .ok meeting =>
    let uid := session.userId
    match ← query .endInfo (.getMeetingInfoById meeting) with
    | .missing => return Reply.error .meetingNotFound
    | .unavailable => return Reply.error .meetingNotFound
    | .found info =>
      if info.creatorUserId ≠ uid then return Reply.error .meetingAccess
      if info.status ≠ .kInProgress then return Reply.error .meetingStatus
      let ended : Bool ← query .endMeeting (.endMeeting meeting uid)
      if !ended then return Reply.error .mysql
      let cleaned ← endStore meeting
      endRoom room meeting
      return [("error", .int ErrorCode.success.toInt), ("meeting_id", idText meeting),
        ("status", .str "ended"), ("cleanup_sync", .bool cleaned)]

def endMeetingHandler (room : MeetingId) (s : SessionId) (body : Payload) : Op Unit := do
  let value ← endBody room s body
  let _ ← send s .endMeetingResponse value

end SyncRtc
