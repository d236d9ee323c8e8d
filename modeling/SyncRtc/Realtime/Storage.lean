import SyncRtc.Lib.Collection
import SyncRtc.Protocol

/-!
# What RealtimeServer stores

Redis holds who is in a room now, MySQL what outlives it. The module models the records the
handlers use and every storage call they make, one constructor of `Query` a call of `RedisMgr` or
`MysqlMgr`.

A call either takes effect or fails. A failing call returns the value its wrapper returns when it
catches an exception or finds no connection (`Query.failed`), and changes nothing; for the two
reading calls of Redis that value is also what a missing field reads as, and for
`GetMeetingInfoByCode` what a missing row reads as. `SaveMeetingMessage` is two statements: its
insert may take effect and its read-back fail (`Oracle.late`).

Redis keys are modelled by what they are built from: `room:M:members` by `M`, `room:M:member:U` by
the pair, and the text `M:U` of the deadline set by the pair `(M, U)`. A missing hash field and an
empty text read alike (`HGet` returns "" for both), so a field is an `Option`.
-/

set_option autoImplicit false

namespace SyncRtc

/-- `meetings.id`, a `uint64`. Zero is no meeting. -/
abbrev MeetingId := Nat

/-- A user id. Zero, the id of a connection that has not logged in, is no user. -/
abbrev Uid := Nat

/-! ## Redis -/

/-- `room_state` of a member hash. -/
inductive RoomState where
  | active
  | reconnecting
  deriving DecidableEq

/-- The hash `room:M:member:U`. The deadline is the text of a time in seconds. -/
structure MemberHash where
  roomState : Option RoomState := none
  reconnectDeadlineAt : Option Nat := none
  deriving DecidableEq

/-- `status` of a presence hash. -/
inductive PresenceStatus where
  | online
  | inMeeting
  deriving DecidableEq

/-- The hash `presence:U`. -/
structure Presence where
  status : Option PresenceStatus := none
  meetingId : Option MeetingId := none
  deriving DecidableEq

/-- The part of Redis the server reads and writes. -/
structure Redis where
  members : MeetingId → KeySet Uid
  member : MeetingId → Uid → MemberHash
  presence : Uid → Presence
  deadlines : SortedSet (MeetingId × Uid)
  /-- `auth::session:<token>`, written by GateServer. -/
  auth : String → Option Payload

/-! ## MySQL -/

inductive MeetingStatus where
  | kScheduled
  | kInProgress
  | kEnded
  | kCancelled
  deriving DecidableEq

inductive MeetingVisibility where
  | kPublic
  | kPrivate
  deriving DecidableEq

/-- What a query of the `meetings` table returns: the columns, and whether there is a password. -/
structure MeetingInfo where
  meetingId : MeetingId
  meetingCode : String
  title : String
  creatorUserId : Uid
  status : MeetingStatus
  visibility : MeetingVisibility
  requiresPassword : Bool
  maxParticipants : Nat

/-- A row of `meetings`. The key is AUTO_INCREMENT and never zero. -/
structure MeetingRow where
  id : MeetingId
  idPos : id ≠ 0
  meetingCode : String
  title : String
  creatorUserId : Uid
  status : MeetingStatus
  visibility : MeetingVisibility
  passwordHash : Option String
  maxParticipants : Nat

def MeetingRow.info (r : MeetingRow) : MeetingInfo where
  meetingId := r.id
  meetingCode := r.meetingCode
  title := r.title
  creatorUserId := r.creatorUserId
  status := r.status
  visibility := r.visibility
  requiresPassword := r.passwordHash.isSome
  maxParticipants := r.maxParticipants

/-- The table `meetings`: its rows, and the next key. Every key in use is below the next one. -/
structure MeetingTable where
  rows : List MeetingRow
  next : MeetingId
  below : ∀ r ∈ rows, r.id < next
  nodup : (rows.map MeetingRow.id).Nodup

/-- `MeetingMessageInfo`, a row of `meeting_messages`. A message without receiver is a group
message. -/
structure MeetingMessageInfo where
  messageId : Nat := 0
  meetingId : MeetingId := 0
  senderUserId : Uid := 0
  receiverUserId : Option Uid := none
  clientMsgId : String := ""
  content : String := ""
  contentType : Nat := 0
  createdAt : String := ""
  deriving DecidableEq

/-- `UserInfo`. -/
structure UserInfo where
  uid : Uid
  username : String
  email : String

/-- The part of MySQL the server reads and writes. -/
structure MySql where
  meetings : MeetingTable
  /-- `participation_status` of a row of `meeting_participants`. -/
  participation : MeetingId → Uid → Option Nat
  messages : List MeetingMessageInfo
  nextMessageId : Nat
  /-- The collation the unique key compares `client_msg_id` under. -/
  collation : String → String
  /-- `COALESCE(NULLIF(display_name, ''), username)`. -/
  displayName : Uid → Option String
  userByEmail : String → Option UserInfo

/-- The two stores. -/
structure Storage where
  redis : Redis
  mysql : MySql

/-! ## The outside's choices -/

/-- What AIServer answers. -/
inductive AiOutcome where
  | failed
  | answered (error : Int) (answer errorMessage : String)

/-- What one call leaves to the outside: whether a storage call fails, whether an admission limit
refuses, and the values that come from a clock, a random source or another server. -/
structure Oracle where
  fail : Bool := false
  late : Bool := false
  refuse : Bool := false
  text : String := ""
  rows : List Json := []
  flag : Bool := false
  ai : AiOutcome := .failed

/-! ## Lookups -/

/-- A lookup that tells a missing record from an unavailable store. -/
inductive Lookup (α : Type) where
  | found (a : α)
  | missing
  | unavailable

/-- What a lookup found, for a caller to whom "missing" and "unavailable" are the same. -/
def Lookup.toOption {α : Type} : Lookup α → Option α
  | .found a => some a
  | _ => none

namespace MeetingTable

def byId (t : MeetingTable) (id : MeetingId) : Option MeetingRow := t.rows.find? fun r => r.id = id

def byCode (t : MeetingTable) (code : String) : Option MeetingRow :=
  t.rows.find? fun r => r.meetingCode = code

/-- `UPDATE meetings SET status = after WHERE id = ? AND creator_user_id = ? AND status = before`:
the rows after the update, and whether one row was updated. -/
def transition (t : MeetingTable) (id : MeetingId) (user : Uid) (before after : MeetingStatus) :
    Bool × MeetingTable :=
  let hit : MeetingRow → Bool := fun r => decide (r.id = id ∧ r.creatorUserId = user ∧ r.status = before)
  let set : MeetingRow → MeetingRow := fun r => if hit r then { r with status := after } else r
  have hid : ∀ r, (set r).id = r.id := fun r => by simp only [set]; split <;> rfl
  (t.rows.any hit,
    { rows := t.rows.map set
      next := t.next
      below := fun r hr => by
        obtain ⟨r', hr', rfl⟩ := List.mem_map.mp hr
        exact hid r' ▸ t.below r' hr'
      nodup := by
        have : (t.rows.map set).map MeetingRow.id = t.rows.map MeetingRow.id := by
          rw [List.map_map]; exact List.map_congr_left fun r _ => hid r
        exact this ▸ t.nodup })

/-- The row `INSERT INTO meetings` makes: public, scheduled, at most 30 participants, the next key. -/
def newRow (t : MeetingTable) (code title : String) (creator : Uid) (passwordHash : Option String) :
    MeetingRow where
  id := t.next + 1
  idPos := Nat.succ_ne_zero _
  meetingCode := code
  title := title
  creatorUserId := creator
  status := .kScheduled
  visibility := .kPublic
  passwordHash := passwordHash
  maxParticipants := 30

/-- The table with one more row, whose key is above every key in use. -/
def push (t : MeetingTable) (row : MeetingRow) (h : t.next < row.id) : MeetingTable where
  rows := t.rows ++ [row]
  next := row.id + 1
  below := fun r hr => by
    rcases List.mem_append.mp hr with hold | hnew
    · exact Nat.lt_succ_of_lt ((t.below r hold).trans h)
    · rw [List.mem_singleton.mp hnew]
      exact Nat.lt_succ_self _
  nodup := by
    rw [List.map_append, List.nodup_append]
    refine ⟨t.nodup, List.nodup_singleton _, fun a ha b hb => ?_⟩
    obtain ⟨r, hr, rfl⟩ := List.mem_map.mp ha
    rw [List.mem_singleton.mp hb]
    exact Nat.ne_of_lt ((t.below r hr).trans h)

/-- `INSERT INTO meetings`. A code in use is refused by its unique key. -/
def insert (t : MeetingTable) (code title : String) (creator : Uid) (passwordHash : Option String) :
    Option (MeetingId × MeetingTable) :=
  if (t.byCode code).isSome then none
  else some (t.next + 1, t.push (t.newRow code title creator passwordHash) (Nat.lt_succ_self _))

end MeetingTable

/-- `NormalizeMessageLimit`. -/
def normalizeMessageLimit (limit : Nat) : Nat := if limit = 0 then 50 else if limit > 100 then 100 else limit

namespace MySql

/-- The row the unique key `(meeting, sender, client_msg_id)` finds. -/
def messageByUniqueKey (m : MySql) (key : MeetingMessageInfo) : Option MeetingMessageInfo :=
  m.messages.find? fun r => decide (r.meetingId = key.meetingId ∧ r.senderUserId = key.senderUserId ∧
    m.collation r.clientMsgId = m.collation key.clientMsgId)

/-- The newest `limit` messages below `before` (all of them when it is zero) that `keep` selects,
oldest first. -/
def page (m : MySql) (keep : MeetingMessageInfo → Bool) (before limit : Nat) : List MeetingMessageInfo :=
  let hits := m.messages.filter fun r => keep r && (before == 0 || decide (r.messageId < before))
  hits.drop (hits.length - normalizeMessageLimit limit)

end MySql

/-! ## Storage calls -/

/-- The calls of `RedisMgr` and `MysqlMgr` the handlers make, and the bcrypt check that runs in the
same pool. -/
inductive Query where
  -- Redis
  | sMembers (meeting : MeetingId)
  | sAdd (meeting : MeetingId) (uid : Uid)
  | sRem (meeting : MeetingId) (uid : Uid)
  | sIsMember (meeting : MeetingId) (uid : Uid)
  | sCard (meeting : MeetingId)
  | delMembers (meeting : MeetingId)
  | hGetRoomState (meeting : MeetingId) (uid : Uid)
  | hGetDeadline (meeting : MeetingId) (uid : Uid)
  | hSetRoomState (meeting : MeetingId) (uid : Uid) (state : RoomState)
  | hSetDeadline (meeting : MeetingId) (uid : Uid) (deadline : Option Nat)
  | delMember (meeting : MeetingId) (uid : Uid)
  | hSetPresenceStatus (uid : Uid) (status : PresenceStatus)
  | hSetPresenceMeeting (uid : Uid) (meeting : Option MeetingId)
  | activateMember (meeting : MeetingId) (uid : Uid)
  | zAdd (meeting : MeetingId) (uid : Uid) (score : Nat)
  | zRem (meeting : MeetingId) (uid : Uid)
  | zRangeByScore (bound : Nat)
  | lookupAuth (token : String)
  -- MySQL
  | getMeetingInfoByCode (code : String)
  | getMeetingInfoById (meeting : MeetingId)
  | getMeetingPasswordHash (meeting : MeetingId)
  | checkMeetingPassword (password hash : String)
  | hashMeetingPassword (password : String)
  | updateMeetingPart (info : MeetingInfo) (uid : Uid)
  | getUserDisplayNameById (uid : Uid)
  | startMeeting (meeting : MeetingId) (uid : Uid)
  | endMeeting (meeting : MeetingId) (uid : Uid)
  | saveMeetingMessage (message : MeetingMessageInfo)
  | getMeetingGroupMessages (meeting : MeetingId) (before limit : Nat)
  | getMeetingPrivateMessages (meeting : MeetingId) (user peer : Uid) (before limit : Nat)
  | getUserInfo (email : String)
  | getMeetingRecently (uid : Uid)
  | getHistoryMeeting (uid : Uid)
  | createMeeting (title : String) (creator : Uid) (passwordHash : Option String)

namespace Query

/-- What a call returns. `none` is the `false` of a call with an output parameter. -/
@[reducible] def Res : Query → Type
  | .sMembers _ => Option (List Uid)
  | .sCard _ => Nat
  | .hGetRoomState _ _ => Option RoomState
  | .hGetDeadline _ _ => Option Nat
  | .zRangeByScore _ => Option (List (MeetingId × Uid))
  | .lookupAuth _ => Lookup Payload
  | .getMeetingInfoByCode _ => Option MeetingInfo
  | .getMeetingInfoById _ => Lookup MeetingInfo
  | .getMeetingPasswordHash _ => Option String
  | .hashMeetingPassword _ => Option String
  | .getUserDisplayNameById _ => Option String
  | .saveMeetingMessage _ => Option MeetingMessageInfo
  | .getMeetingGroupMessages _ _ _ => Option (List MeetingMessageInfo)
  | .getMeetingPrivateMessages _ _ _ _ _ => Option (List MeetingMessageInfo)
  | .getUserInfo _ => Option UserInfo
  | .getMeetingRecently _ => Option (List Json)
  | .getHistoryMeeting _ => Option (List Json)
  | _ => Bool

/-- What the wrapper returns for a call that failed. -/
def failed : (q : Query) → q.Res
  | .sMembers _ => (none : Option (List Uid))
  | .sAdd _ _ => false
  | .sRem _ _ => false
  | .sIsMember _ _ => false
  | .sCard _ => (0 : Nat)
  | .delMembers _ => false
  | .hGetRoomState _ _ => (none : Option RoomState)
  | .hGetDeadline _ _ => (none : Option Nat)
  | .hSetRoomState _ _ _ => false
  | .hSetDeadline _ _ _ => false
  | .delMember _ _ => false
  | .hSetPresenceStatus _ _ => false
  | .hSetPresenceMeeting _ _ => false
  | .activateMember _ _ => false
  | .zAdd _ _ _ => false
  | .zRem _ _ => false
  | .zRangeByScore _ => (none : Option (List (MeetingId × Uid)))
  | .lookupAuth _ => (Lookup.unavailable : Lookup Payload)
  | .getMeetingInfoByCode _ => (none : Option MeetingInfo)
  | .getMeetingInfoById _ => (Lookup.unavailable : Lookup MeetingInfo)
  | .getMeetingPasswordHash _ => (none : Option String)
  | .checkMeetingPassword _ _ => false
  | .hashMeetingPassword _ => (none : Option String)
  | .updateMeetingPart _ _ => false
  | .getUserDisplayNameById _ => (none : Option String)
  | .startMeeting _ _ => false
  | .endMeeting _ _ => false
  | .saveMeetingMessage _ => (none : Option MeetingMessageInfo)
  | .getMeetingGroupMessages _ _ _ => (none : Option (List MeetingMessageInfo))
  | .getMeetingPrivateMessages _ _ _ _ _ => (none : Option (List MeetingMessageInfo))
  | .getUserInfo _ => (none : Option UserInfo)
  | .getMeetingRecently _ => (none : Option (List Json))
  | .getHistoryMeeting _ => (none : Option (List Json))
  | .createMeeting _ _ _ => false

end Query

/-! ## Their effects -/

namespace Redis

def setMembers (r : Redis) (m : MeetingId) (s : KeySet Uid) : Redis :=
  { r with members := Function.update r.members m s }

def setMember (r : Redis) (m : MeetingId) (u : Uid) (h : MemberHash) : Redis :=
  { r with member := Function.update r.member m (Function.update (r.member m) u h) }

def setPresence (r : Redis) (u : Uid) (p : Presence) : Redis :=
  { r with presence := Function.update r.presence u p }

def setDeadlines (r : Redis) (z : SortedSet (MeetingId × Uid)) : Redis := { r with deadlines := z }

/-- The script of `RedisMgr::ActivateMember`: nothing for a uid that is not in the member set,
otherwise the member is active, without a deadline, and off the deadline set, in one step. -/
def activate (r : Redis) (m : MeetingId) (u : Uid) : Bool × Redis :=
  if u ∈ r.members m then
    (true, (r.setMember m u { roomState := some .active, reconnectDeadlineAt := none }).setDeadlines
      (r.deadlines.remove (m, u)))
  else (false, r)

end Redis

namespace MySql

def setParticipation (m : MySql) (meeting : MeetingId) (uid : Uid) (status : Nat) : MySql :=
  { m with
    participation := Function.update m.participation meeting
      (Function.update (m.participation meeting) uid (some status)) }

/-- `MysqlMgr::UpdateMeetingPart`: a private meeting admits its creator and those who already have a
row that is not removed (`participation_status` 2); any other meeting admits everyone. -/
def updateMeetingPart (m : MySql) (info : MeetingInfo) (uid : Uid) : Bool × MySql :=
  let joined := m.setParticipation info.meetingId uid 1
  if info.meetingId = 0 ∨ uid = 0 then (false, m)
  else if info.visibility = .kPrivate ∧ info.creatorUserId ≠ uid then
    match m.participation info.meetingId uid with
    | some status => if status ≠ 2 then (true, joined) else (false, m)
    | none => (false, m)
  else (true, joined)

/-- `MysqlMgr::SaveMeetingMessage`: insert and read the new row back, or, when the unique key is
taken, read the row that has it. -/
def saveMeetingMessage (m : MySql) (o : Oracle) (message : MeetingMessageInfo) :
    Option MeetingMessageInfo × MySql :=
  if message.meetingId = 0 ∨ message.senderUserId = 0 ∨ message.clientMsgId.isEmpty ∨
      message.clientMsgId.utf8ByteSize > 128 ∨ message.content.isEmpty ∨
      message.content.utf8ByteSize > 65535 ∨ message.receiverUserId = some 0 then (none, m)
  else
    match m.messageByUniqueKey message with
    | some row => (if o.late then none else some row, m)
    | none =>
      let row := { message with messageId := m.nextMessageId, createdAt := o.text }
      (if o.late then none else some row,
        { m with messages := m.messages ++ [row], nextMessageId := m.nextMessageId + 1 })

end MySql

/-- What a storage call that does not fail answers, and what it leaves behind. -/
def Query.apply (o : Oracle) : (q : Query) → Storage → q.Res × Storage
  | .sMembers m, st => (some (st.redis.members m).elems, st)
  | .sAdd m u, st => (true, { st with redis := st.redis.setMembers m ((st.redis.members m).add u) })
  | .sRem m u, st => (true, { st with redis := st.redis.setMembers m ((st.redis.members m).remove u) })
  | .sIsMember m u, st => (decide (u ∈ st.redis.members m), st)
  | .sCard m, st => ((st.redis.members m).card, st)
  | .delMembers m, st => (true, { st with redis := st.redis.setMembers m .empty })
  | .hGetRoomState m u, st => ((st.redis.member m u).roomState, st)
  | .hGetDeadline m u, st => ((st.redis.member m u).reconnectDeadlineAt, st)
  | .hSetRoomState m u v, st =>
    (true, { st with redis := st.redis.setMember m u { st.redis.member m u with roomState := some v } })
  | .hSetDeadline m u v, st =>
    (true, { st with redis := st.redis.setMember m u { st.redis.member m u with reconnectDeadlineAt := v } })
  | .delMember m u, st => (true, { st with redis := st.redis.setMember m u {} })
  | .hSetPresenceStatus u v, st =>
    (true, { st with redis := st.redis.setPresence u { st.redis.presence u with status := some v } })
  | .hSetPresenceMeeting u v, st =>
    (true, { st with redis := st.redis.setPresence u { st.redis.presence u with meetingId := v } })
  | .activateMember m u, st =>
    ((st.redis.activate m u).1, { st with redis := (st.redis.activate m u).2 })
  | .zAdd m u n, st => (true, { st with redis := st.redis.setDeadlines (st.redis.deadlines.add (m, u) n) })
  | .zRem m u, st => (true, { st with redis := st.redis.setDeadlines (st.redis.deadlines.remove (m, u)) })
  | .zRangeByScore n, st => (some (st.redis.deadlines.upTo n), st)
  | .lookupAuth t, st => (match st.redis.auth t with | some p => .found p | none => .missing, st)
  | .getMeetingInfoByCode c, st => ((st.mysql.meetings.byCode c).map MeetingRow.info, st)
  | .getMeetingInfoById m, st =>
    (match st.mysql.meetings.byId m with | some r => .found r.info | none => .missing, st)
  | .getMeetingPasswordHash m, st => ((st.mysql.meetings.byId m).bind MeetingRow.passwordHash, st)
  | .checkMeetingPassword p h, st => (!p.isEmpty && !h.isEmpty && o.flag, st)
  | .hashMeetingPassword _, st => (if o.text.isEmpty then none else some o.text, st)
  | .updateMeetingPart info u, st =>
    ((st.mysql.updateMeetingPart info u).1, { st with mysql := (st.mysql.updateMeetingPart info u).2 })
  | .getUserDisplayNameById u, st => ((st.mysql.displayName u).filter fun n => !n.isEmpty, st)
  | .startMeeting m u, st =>
    let t := st.mysql.meetings.transition m u .kScheduled .kInProgress
    (t.1, { st with mysql := { st.mysql with meetings := t.2 } })
  | .endMeeting m u, st =>
    let t := st.mysql.meetings.transition m u .kInProgress .kEnded
    (t.1, { st with mysql := { st.mysql with meetings := t.2 } })
  | .saveMeetingMessage msg, st =>
    ((st.mysql.saveMeetingMessage o msg).1, { st with mysql := (st.mysql.saveMeetingMessage o msg).2 })
  | .getMeetingGroupMessages m before limit, st =>
    (some (st.mysql.page (fun r => decide (r.meetingId = m) && r.receiverUserId.isNone) before limit), st)
  | .getMeetingPrivateMessages m user peer before limit, st =>
    (some (st.mysql.page (fun r => decide (r.meetingId = m) &&
      (decide (r.senderUserId = user ∧ r.receiverUserId = some peer) ||
        decide (r.senderUserId = peer ∧ r.receiverUserId = some user))) before limit), st)
  | .getUserInfo e, st => (st.mysql.userByEmail e, st)
  | .getMeetingRecently _, st => (some o.rows, st)
  | .getHistoryMeeting _, st => (some o.rows, st)
  | .createMeeting title creator hash, st =>
    match st.mysql.meetings.insert o.text title creator hash with
    | none => (false, st)
    | some (id, t) =>
      (true, { st with mysql := { st.mysql.setParticipation id creator 0 with meetings := t } })

/-- A storage call: it fails, or it takes effect. -/
def Query.run (o : Oracle) (q : Query) (st : Storage) : q.Res × Storage :=
  if o.fail then (q.failed, st) else q.apply o st

end SyncRtc
