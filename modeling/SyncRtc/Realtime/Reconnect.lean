import SyncRtc.Realtime.Join

/-!
# Disconnect, deadline scan and expiry

`LogicSystem::SessionDisconnectedHandler`, `ReconnectTimeoutCheckHandler` and `ExpireMemberHandler`.
A lost connection keeps its place for `kReconnectGraceSeconds`: its member is marked in Redis under
the wall clock and in the room under the steady one. The timer only looks for candidates; each is
checked again in its room's own queue.
-/

set_option autoImplicit false

namespace SyncRtc

/-! ## Disconnect -/

/-- The sessions of the list whose objects are left. -/
def lockAll : List SessionId → Op (List SessionId) :=
  Prog.select fun item => do
    match ← lock item with
    | none => return false
    | some _ => return true

/-- Whether a session is another connection of the uid. -/
def isOtherConnection (s : SessionId) (uid : Uid) (active : SessionId) : Op Bool := do
  if active = s then return false
  let session ← getSession active
  return session.userId = uid

/-- The steady deadline of the member, when the lost session is the one it is bound to. -/
def stampDeadline (room : MeetingId) (s : SessionId) (uid : Uid) : Op Unit := do
  let data ← getRoom room
  match data.members uid with
  | none => pure ()
  | some member =>
    if member.session = s then
      let now ← steadyNow
      setRoom room { data with
        members := Function.update data.members uid
          (some { member with deadline := some (now + reconnectGraceSeconds) })
        history := .disconnected uid s now :: data.history }

/-- The three writes that mark a member as reconnecting: a chain that stops at the first failure. -/
def markStore (meeting : MeetingId) (uid : Uid) (deadline : Nat) : Op Bool := do
  let state : Bool ← query .lostSetState (.hSetRoomState meeting uid .reconnecting)
  if !state then return false
  let stamped : Bool ← query .lostSetDeadline (.hSetDeadline meeting uid (some deadline))
  if !stamped then return false
  query .lostIndex (.zAdd meeting uid deadline)

/-- What a failure of the three writes undoes, whichever of them it was. -/
def markUndo (meeting : MeetingId) (uid : Uid) : Op Unit := do
  let _ : Bool ← query .lostUndoState (.hSetRoomState meeting uid .active)
  let _ : Bool ← query .lostUndoDeadline (.hSetDeadline meeting uid none)
  let _ : Bool ← query .lostUndoIndex (.zRem meeting uid)

/-- Mark a member as reconnecting. The answer is the notification to broadcast. -/
def markReconnecting (meeting : MeetingId) (uid : Uid) : Op (Option Reply) := do
  let now ← wallNow
  let deadline := now + reconnectGraceSeconds
  let marked ← markStore meeting uid deadline
  if marked then do
    let count : Nat ← query .lostCount (.sCard meeting)
    return some [("meeting_id", idText meeting), ("user_id", .int uid), ("room_state", .str "reconnecting"),
      ("reconnect_deadline_at", .int deadline), ("current_participants", .int count)]
  else do
    markUndo meeting uid
    return none

/-- The Redis part of a disconnect: a member that is not waiting already is marked. -/
def loseMember (meeting : MeetingId) (uid : Uid) : Op (Option Reply) := do
  let isMember : Bool ← query .lostMember (.sIsMember meeting uid)
  if !isMember then return none
  let state : Option RoomState ← query .lostState (.hGetRoomState meeting uid)
  if state = some .reconnecting then return none
  markReconnecting meeting uid

/-- The Redis part where it applies: the lost session was in the list, and its user has no other. -/
def loseIf (lost : Bool) (meeting : MeetingId) (uid : Uid) : Op (Option Reply) :=
  if lost then loseMember meeting uid else .pure none

/-- The broadcast of a disconnect. -/
def lostNotice (room : MeetingId) (uid : Uid) : Option Reply → Op Unit
  | some notification => broadcast room .meetingMemberReconnecting notification fun u => decide (u ≠ uid)
  | none => .pure ()

/-- The end of a disconnect: the session gives up its media association and its meeting. -/
def leaveSession (s : SessionId) : Op Unit := do
  releaseMediaSession s
  setMeetingId s 0

/-- A disconnect in a room that lists sessions. -/
def lostInRoom (room : MeetingId) (s : SessionId) (uid : Uid) (meeting : MeetingId)
    (sessions : List SessionId) : Op Unit := do
  let active ← lockAll sessions
  let others ← Prog.select (isOtherConnection s uid) active
  pruneSessions room (notThis s)
  stampDeadline room s uid
  let notification ← loseIf (decide (s ∈ active) && others.isEmpty && decide (uid ≠ 0)) meeting uid
  lostNotice room uid notification
  leaveSession s

/-- `LogicSystem::SessionDisconnectedHandler`. -/
def sessionDisconnectedHandler (room : MeetingId) (s : SessionId) : Op Unit := do
  let session ← getSession s
  let meeting := session.meetingId
  if meeting = 0 then .pure ()
  else do
    let session ← getSession s
    let data ← getRoom room
    if data.sessions.isEmpty then leaveSession s
    else lostInRoom room s session.userId meeting data.sessions

/-! ## The scan -/

/-- One candidate of a scan: handed to its room, or dropped when its meeting is no number. -/
def scanOne (candidate : MeetingId × Uid) : Op Unit := do
  if candidate.1 = 0 then
    let _ : Bool ← query .scanDrop (.zRem candidate.1 candidate.2)
  else
    let _ ← submitRoom candidate.1 (.expire candidate.2)

/-- `LogicSystem::ReconnectTimeoutCheckHandler`. -/
def reconnectTimeoutCheckHandler : Op Unit := do
  let reserved ← reservePool false
  if !reserved then return
  let now ← wallNow
  let due : Option (List (MeetingId × Uid)) ← query .scanDue (.zRangeByScore now)
  match due with
  | none => return
  | some due => Prog.each scanOne due

/-! ## Expiry -/

/-- Whether the deadline of the member has passed by the steady clock: a member this process knows
keeps its place until then, whatever the wall clock says. The answer carries the time of the check. -/
def graceOver (room : MeetingId) (uid : Uid) : Op (Option Nat) := do
  let data ← getRoom room
  match data.members uid with
  | none => return some 0
  | some member =>
    let now ← steadyNow
    match member.deadline with
    | none => return some now
    | some deadline => return if now < deadline then none else some now

/-- The last check before a removal: the member hash still waits, and its deadline has passed by the
wall clock. A candidate whose hash does not wait any more is dropped from the index. -/
def expiryDue (meeting : MeetingId) (uid : Uid) (now : Nat) : Op Bool := do
  let deadline : Option Nat ← query .expireDeadline (.hGetDeadline meeting uid)
  match deadline.filter (· ≠ 0) with
  | none =>
    let _ : Bool ← query .expireDropMissing (.zRem meeting uid)
    return false
  | some deadline =>
    if now < deadline then return false
    let state : Option RoomState ← query .expireState (.hGetRoomState meeting uid)
    if state = some .reconnecting then return true
    let _ : Bool ← query .expireDropStale (.zRem meeting uid)
    return false

/-- What expiry does in memory: the member is forgotten. -/
def forgetMember (room : MeetingId) (uid : Uid) (checkedAt : Nat) : Op Unit := do
  let data ← getRoom room
  let history := if (data.members uid).isSome then .expired uid checkedAt :: data.history else data.history
  setRoom room { data with members := Function.update data.members uid none, history := history }
  call (.releaseUser uid room)

/-- `LogicSystem::ExpireMemberHandler` of the candidate `(room, uid)`. -/
def expireMemberHandler (room : MeetingId) (uid : Uid) : Op Unit := do
  let reserved ← reservePool false
  if !reserved then return
  let now ← wallNow
  if uid = 0 then
    let _ : Bool ← query .expireBad (.zRem room uid)
    return
  match ← graceOver room uid with
  | none => return
  | some checkedAt =>
    let due ← expiryDue room uid now
    if !due then return
    let removed : Bool ← query .expireRemove (.sRem room uid)
    if !removed then return
    let dropped : Bool ← query .expireIndex (.zRem room uid)
    if !dropped then return
    let _ : Bool ← query .expireHash (.delMember room uid)
    let _ : Bool ← query .expirePresenceStatus (.hSetPresenceStatus uid .online)
    let _ : Bool ← query .expirePresenceMeeting (.hSetPresenceMeeting uid none)
    forgetMember room uid checkedAt
    let count : Nat ← query .expireCount (.sCard room)
    broadcast room .meetingMemberTimeoutLeft
      [("meeting_id", idText room), ("user_id", .int uid), ("current_participants", .int count)]
      fun _ => true

end SyncRtc
