import SyncRtc.Realtime.Server

/-!
# What the handlers share

One operation for each call, under the name the source has for it; the loops over a room's session
list; the release of a session's media association; and the JSON the answers are made of.
-/

set_option autoImplicit false

namespace SyncRtc

/-! ## Calls by name -/

def getRoom (m : MeetingId) : Op RoomData := call (.getRoom m)

def setRoom (m : MeetingId) (data : RoomData) : Op Unit := call (.setRoom m data)

def getSession (s : SessionId) : Op Session := call (.getSession s)

/-- `weak_ptr::lock`. -/
def lock (s : SessionId) : Op (Option SessionId) := call (.lock s)

def setMeetingId (s : SessionId) (m : MeetingId) : Op Unit := call (.setMeetingId s m)

def requestClose (s : SessionId) : Op Unit := call (.requestClose s)

/-- `op.Await(m_storage_pool, ..)` of an operation that has reserved its place in the pool. -/
def query (site : Site) (q : Query) : Op q.Res := call (.query site q)

def steadyNow : Op Nat := call .steadyNow

def wallNow : Op Nat := call .wallNow

def send (s : SessionId) (id : RequestID) (payload : Reply) : Op Bool := call (.send s id payload)

def findSignal (id : Nat) : Op (Option Signal) := call (.findSignal id)

def removeSignal (id : Nat) : Op Unit := call (.removeSignal id)

def sendMediaSignal (epoch : Nat) (message : Reply) : Op Bool := call (.sendMediaSignal epoch message)

/-- `op.Reserve(m_storage_pool)`: the end of a connection waits for a place, everything else is
refused when the pool is full. -/
def reservePool (terminal : Bool) : Op Bool := call (.reservePool terminal)

def submitRoom (m : MeetingId) (task : Task) : Op Bool := call (.submitRoom m task)

/-! ## The session list of a room -/

/-- `meeting_sessions.erase(std::remove_if(..))`: keep the sessions `keep` says yes to. -/
def pruneSessions (m : MeetingId) (keep : SessionId → Op Bool) : Op Unit := do
  let data ← getRoom m
  let kept ← Prog.select keep data.sessions
  let data ← getRoom m
  setRoom m { data with sessions := kept }

/-- One round of a broadcast: a session that is gone is dropped from the list, the others are sent
the notification when their user is among those it is for. -/
def notifyOne (id : RequestID) (notification : Reply) (isFor : Uid → Bool) (item : SessionId) :
    Op Bool := do
  match ← lock item with
  | none => return false
  | some s =>
    let session ← getSession s
    if isFor session.userId then
      let _ ← send s id notification
    return true

/-- The loop over `room.sessions` that every broadcast is. -/
def broadcast (m : MeetingId) (id : RequestID) (notification : Reply) (isFor : Uid → Bool) : Op Unit :=
  pruneSessions m (notifyOne id notification isFor)

/-- The sessions of the list that `session` is not, and that are not gone. -/
def notThis (session item : SessionId) : Op Bool := do
  match ← lock item with
  | none => return false
  | some s => return s ≠ session

/-! ## The media association of a session -/

/-- `LogicSystem::ReleaseMediaSession`: tell MediaServer under the association's own epoch, then
drop the association. -/
def releaseMediaSession (s : SessionId) : Op Unit := do
  let session ← getSession s
  let id := session.mediaSignalId
  if id = 0 then return
  match ← findSignal id with
  | some binding =>
    if binding.epoch ≠ 0 ∧ binding.session = s then
      let session ← getSession s
      let _ ← sendMediaSignal binding.epoch
        [("signal_id", .int id), ("meeting_id", .int binding.meeting), ("uid", .int session.userId),
         ("signal_type", .str "leave")]
  | none => pure ()
  removeSignal id
  call (.clearMediaSignalId s id)

/-! ## JSON -/

/-- `std::to_string`. -/
def idText (n : Nat) : Json := .str (toString n)

/-- `MeetingStatusText`. -/
def meetingStatusText : MeetingStatus → String
  | .kInProgress => "in_progress"
  | .kEnded => "ended"
  | .kScheduled => "scheduled"
  | .kCancelled => "scheduled"

/-- The text of a member's `room_state`; none reads as active. -/
def roomStateText : Option RoomState → String
  | some .reconnecting => "reconnecting"
  | some .active => "active"
  | none => "active"

/-- `MeetingMessageToJson`. -/
def meetingMessageToJson (message : MeetingMessageInfo) (senderName : String) (isMine : Bool) : Reply :=
  [("message_id", idText message.messageId),
   ("client_msg_id", .str message.clientMsgId),
   ("meeting_id", idText message.meetingId),
   ("chat_type", .str (if message.receiverUserId.isSome then "private" else "group")),
   ("sender_user_id", .int message.senderUserId),
   ("sender_name", .str senderName),
   ("receiver_user_id", message.receiverUserId.elim .null fun u => .int u),
   ("content", .str message.content),
   ("created_at", .str message.createdAt),
   ("is_mine", .bool isMine)]

/-- The meeting id of a request that names it as a text, and its sender: what START, LEAVE and END
check first. -/
def meetingRequest (body : Payload) (session : Session) : Except ErrorCode MeetingId :=
  match body.root with
  | .error code => .error code
  | .ok root =>
    match root.meetingIdText with
    | none => .error .json
    | some meeting => if session.userId = 0 then .error .token else .ok meeting

end SyncRtc
