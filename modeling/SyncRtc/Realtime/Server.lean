import SyncRtc.Lib.Prog
import SyncRtc.Realtime.Storage

/-!
# The state of RealtimeServer and its atomic steps

A business operation of the server is a coroutine that gives up its thread at every storage call,
and four threads run different operations at once. What two operations share (the atomics of a
session, the reservation table, the signal table, a room queue, the two stores) is guarded so that
one access is atomic. The module lists these accesses (`Call`) and gives each its effect (`exec`);
an operation is a program over them (`Prog calls`), and any two operations may interleave between
two calls.

The maps and the session list of a room are touched by the room's own serial queue alone, so reading
and writing them whole (`getRoom`, `setRoom`) loses nothing. Room 0 is the room an operation outside
any meeting is handed: a local variable, empty at first and gone with the operation.

`RoomData.history` and `Server.issued` are ghosts: they record, in the order the code made them, the
membership changes of a room and the tickets drawn. No program reads them.
-/

set_option autoImplicit false

namespace SyncRtc

/-- The token `CServer` gives a connection: increasing, never used twice. -/
abbrev SessionId := Nat

/-! ## Sessions -/

/-- What the business threads see of a `Session`. -/
structure Session where
  userId : Uid := 0
  authToken : String := ""
  meetingId : MeetingId := 0
  mediaSignalId : Nat := 0
  /-- `IsClosed`: closed by the I/O thread, or a close has been requested. -/
  closed : Bool := false
  /-- A `shared_ptr` to the object is left, so a `weak_ptr` can be locked. -/
  alive : Bool := true
  deriving DecidableEq

/-! ## Commands and tasks -/

/-- What a connection's queue holds: a client's frame, or the event `CServer` posts once when it has
closed the connection (`kDisconnected`). -/
inductive Command where
  | request (r : Request)
  | disconnected

/-- What a room's queue holds: a command routed to it, one expiry candidate, one message of
MediaServer. -/
inductive Task where
  | dispatch (session : SessionId) (command : Command)
  | expire (uid : Uid)
  | mediaReply (epoch signal : Nat) (registered : SessionId) (message : Payload)

/-- `MediaSignalClient::Event`. -/
inductive MediaEvent where
  | connected
  | disconnected
  | message
  deriving DecidableEq

/-! ## Rooms -/

/-- `LogicSystem::Membership`. The unset `time_point` of `deadline` is `none`. -/
structure Membership where
  ticket : String
  authToken : String
  lastRequest : String
  generation : Nat := 1
  session : SessionId
  deadline : Option Nat := none
  deriving DecidableEq

/-- A membership change, as the ghost history of a room records it. Times are readings of the steady
clock, and `token` is the login token of the session at that moment. -/
inductive RoomEvent where
  /-- A JOIN bound `session`. -/
  | joined (uid : Uid) (session : SessionId) (token ticket : String)
  /-- A RESUME bound `session`; its credentials were checked at `checkedAt`, if the member had a
  deadline. -/
  | resumed (uid : Uid) (session : SessionId) (token ticket request : String) (known : Nat)
      (checkedAt : Option Nat)
  /-- The disconnect of the bound session was processed. -/
  | disconnected (uid : Uid) (session : SessionId) (time : Nat)
  /-- The timer removed the member; its deadline was checked at `checkedAt`. -/
  | expired (uid : Uid) (checkedAt : Nat)
  | left (uid : Uid)
  | ended
  deriving DecidableEq

/-- The two containers of a `Room`, and the ghost history, newest event first. -/
structure RoomData where
  members : Uid → Option Membership := fun _ => none
  sessions : List SessionId := []
  history : List RoomEvent := []

/-- `LogicSystem::UserPresence`, an entry of the reservation table. -/
structure UserPresence where
  meeting : MeetingId
  joining : Nat := 0
  joined : Bool := false
  deriving DecidableEq

/-! ## Media signalling -/

/-- `LogicSystem::Signal`. -/
structure Signal where
  session : SessionId
  meeting : MeetingId
  epoch : Nat
  deriving DecidableEq

/-- `MediaSignalClient`, as far as the business threads depend on it. -/
structure MediaLink where
  epoch : Nat := 0
  /-- `m_active_epoch`: the epoch the I/O thread serves, 0 without a socket. -/
  active : Nat := 0
  connected : Bool := false
  deriving DecidableEq

/-- `MediaSignalClient::IsCurrent`. -/
def MediaLink.isCurrent (l : MediaLink) (epoch : Nat) : Bool := l.connected && l.epoch == epoch

/-- `MediaSignalClient::Invalidate`. -/
def MediaLink.invalidate (l : MediaLink) (epoch : Nat) : MediaLink :=
  if l.epoch = epoch then { l with connected := false } else l

/-! ## Calls -/

/-- Which storage call of which operation: the source has one `Await` for each. -/
inductive Site where
  | routeCode
  | loginAuth | loginUser | loginRecent
  | createHash | createMeeting | createRecent
  | pastHistory
  | joinInfo | joinPasswordHash | joinPassword | joinSnapshot | joinState | joinDeadline | joinAdd
  | joinParticipation | joinUndo | joinPresenceStatus | joinPresenceMeeting | joinRoomState
  | joinActivate | joinMembers | joinMemberState | joinMemberName
  | startInfo | startMeeting
  | leaveInfo | leaveRemove | leaveHash | leaveIndex | leavePresenceStatus | leavePresenceMeeting
  | leaveCount
  | endInfo | endMeeting | endMembers | endHash | endIndex | endPresenceStatus | endPresenceMeeting
  | endRoom
  | messageSender | messageTarget | messageInfo | messageName | messageSave
  | groupMember | groupPage | groupName
  | privateMember | privatePeer | privatePage | privateName
  | offerMember | offerInfo | answerMember | candidateMember | candidateInfo
  | lostMember | lostState | lostSetState | lostSetDeadline | lostIndex | lostCount
  | lostUndoState | lostUndoDeadline | lostUndoIndex
  | scanDue | scanDrop
  | expireBad | expireDeadline | expireDropMissing | expireState | expireDropStale | expireRemove
  | expireIndex | expireHash | expirePresenceStatus | expirePresenceMeeting | expireCount
  deriving DecidableEq

/-- What asking AIServer comes to. -/
inductive AiReply where
  /-- The pool for these calls has no room left: the operation ends by an exception. -/
  | busy
  | done (outcome : AiOutcome)

/-- The atomic accesses to what operations share. -/
inductive Call where
  | getRoom (meeting : MeetingId)
  | setRoom (meeting : MeetingId) (data : RoomData)
  | getSession (session : SessionId)
  | lock (session : SessionId)
  | setMeetingId (session : SessionId) (meeting : MeetingId)
  | requestClose (session : SessionId)
  | setUser (session : SessionId) (uid : Uid) (token : String)
  | reserveUser (uid : Uid) (meeting : MeetingId)
  | finishJoin (uid : Uid) (meeting : MeetingId) (joined : Bool)
  | releaseUser (uid : Uid) (meeting : MeetingId)
  | releaseRoomUsers (meeting : MeetingId)
  | reservePool (terminal : Bool)
  | query (site : Site) (q : Query)
  | askAi (question : String)
  | steadyNow
  | wallNow
  | newResumeTicket
  | send (session : SessionId) (id : RequestID) (payload : Reply)
  | nextSignalId
  | registerSignal (id : Nat) (session : SessionId) (meeting : MeetingId)
  | findSignal (id : Nat)
  | removeSignal (id : Nat)
  | setMediaSignalId (session : SessionId) (id : Nat)
  | clearMediaSignalId (session : SessionId) (expected : Nat)
  | mediaEpoch
  | acceptMediaEvent (event : MediaEvent) (epoch : Nat)
  | isCurrent (epoch : Nat)
  | invalidate (epoch : Nat)
  | sendMediaSignal (epoch : Nat) (message : Reply)
  | submitRoom (meeting : MeetingId) (task : Task)

/-- What a call answers. -/
@[reducible] def Call.Res : Call → Type
  | .getRoom _ => RoomData
  | .getSession _ => Session
  | .lock _ => Option SessionId
  | .reserveUser _ _ => Bool
  | .reservePool _ => Bool
  | .query _ q => q.Res
  | .askAi _ => AiReply
  | .steadyNow => Nat
  | .wallNow => Nat
  | .newResumeTicket => Option String
  | .send _ _ _ => Bool
  | .nextSignalId => Nat
  | .registerSignal _ _ _ => Nat
  | .findSignal _ => Option Signal
  | .mediaEpoch => Nat
  | .acceptMediaEvent _ _ => Bool
  | .isCurrent _ => Bool
  | .sendMediaSignal _ _ => Bool
  | .submitRoom _ _ => Bool
  | _ => Unit

/-- The signature of the server's operations. -/
abbrev calls : Signature := ⟨Call, Call.Res⟩

/-- An operation, or a part of one. -/
abbrev Op (α : Type) := Prog calls α

/-- The operation that makes one call. -/
abbrev call (c : Call) : Op c.Res := Prog.perform (S := calls) c

/-! ## The server -/

/-- A room: its containers, its queue, and the operation that runs. -/
structure Room where
  data : RoomData := {}
  queue : List Task := []
  active : Option (Task × Op Unit) := none

/-- What a connection's queue is doing. An operation of a connection that a room has accepted waits
for the room to finish it. -/
inductive ConnState where
  | idle
  | running (command : Command) (op : Op (Option MeetingId))
  | waiting (command : Command) (meeting : MeetingId)

/-- A connection: its queue, and whether `CServer` still serves its socket. -/
structure Conn where
  queue : List Command := []
  state : ConnState := .idle
  isOpen : Bool := false

/-- A frame a session's send queue has accepted. -/
structure Frame where
  session : SessionId
  id : RequestID
  payload : Reply

/-- RealtimeServer, its two stores and its link to MediaServer. -/
structure Server where
  sessions : SessionId → Session := fun _ => {}
  conns : SessionId → Conn := fun _ => {}
  nextSession : SessionId := 0
  rooms : MeetingId → Room := fun _ => {}
  users : Uid → Option UserPresence := fun _ => none
  storage : Storage
  /-- The scan the timer started, if it has not ended. -/
  timer : Option (Op Unit) := none
  control : List (MediaEvent × Nat × Payload) := []
  controlOp : Option (Op Unit) := none
  signals : Nat → Option Signal := fun _ => none
  nextSignal : Nat := 1
  mediaEpoch : Nat := 0
  link : MediaLink := {}
  /-- The frames accepted for MediaServer, with their epochs. -/
  forwarded : List (Nat × Reply) := []
  /-- The frames accepted for clients. -/
  sent : List Frame := []
  wall : Nat := 0
  steady : Nat := 0
  /-- The size in bytes of `toStyledString`, which is jsoncpp's. -/
  styledSize : Reply → Nat
  issued : List String := []

namespace Server

def setSession (σ : Server) (s : SessionId) (v : Session) : Server :=
  { σ with sessions := Function.update σ.sessions s v }

def setConn (σ : Server) (s : SessionId) (v : Conn) : Server :=
  { σ with conns := Function.update σ.conns s v }

def setRoom (σ : Server) (m : MeetingId) (v : Room) : Server :=
  { σ with rooms := Function.update σ.rooms m v }

def setUsers (σ : Server) (u : Uid) (v : Option UserPresence) : Server :=
  { σ with users := Function.update σ.users u v }

/-- The containers of a room. Room 0 is the empty one every operation outside a meeting gets. -/
def roomData (σ : Server) (m : MeetingId) : RoomData := if m = 0 then {} else (σ.rooms m).data

/-- `LogicSystem::ReserveUser`. -/
def reserveUser (σ : Server) (u : Uid) (m : MeetingId) : Bool × Server :=
  match σ.users u with
  | none => (true, σ.setUsers u (some { meeting := m, joining := 1 }))
  | some e =>
    if e.meeting ≠ m then (false, σ)
    else (true, σ.setUsers u (some { e with joining := e.joining + 1 }))

/-- `LogicSystem::FinishJoin`. -/
def finishJoin (σ : Server) (u : Uid) (m : MeetingId) (joined : Bool) : Server :=
  match σ.users u with
  | none => σ
  | some e =>
    if e.meeting ≠ m then σ
    else
      let e' := { e with joining := e.joining - 1, joined := e.joined || joined }
      σ.setUsers u (if !e'.joined && e'.joining == 0 then none else some e')

/-- `LogicSystem::ReleaseUser`. -/
def releaseUser (σ : Server) (u : Uid) (m : MeetingId) : Server :=
  if (σ.users u).any (fun e => e.meeting == m) then σ.setUsers u none else σ

/-- `LogicSystem::ReleaseRoomUsers`. -/
def releaseRoomUsers (σ : Server) (m : MeetingId) : Server :=
  { σ with users := fun u => if (σ.users u).any (fun e => e.meeting == m) then none else σ.users u }

/-- `Session::Send`: the length field holds 65535 at most, a closed session accepts nothing, and a
session whose peer does not read is closed (`Oracle.refuse`). -/
def send (σ : Server) (o : Oracle) (s : SessionId) (id : RequestID) (payload : Reply) : Bool × Server :=
  if σ.styledSize payload > 65535 then (false, σ)
  else if (σ.sessions s).closed then (false, σ)
  else if o.refuse then (false, σ.setSession s { σ.sessions s with closed := true })
  else (true, { σ with sent := σ.sent ++ [{ session := s, id := id, payload := payload }] })

/-- `LogicSystem::AcceptMediaEvent`. A message is accepted under the current epoch; the other two
events only move the epoch, and drop every association of the one before. -/
def acceptMediaEvent (σ : Server) (event : MediaEvent) (epoch : Nat) : Bool × Server :=
  if event = .message then (epoch == σ.mediaEpoch && σ.link.isCurrent σ.mediaEpoch, σ)
  else if epoch < σ.mediaEpoch ∨ (event = .connected ∧ epoch = σ.mediaEpoch) then (false, σ)
  else
    (false, { σ with
      sessions := fun s =>
        let v := σ.sessions s
        if v.alive ∧ (σ.signals v.mediaSignalId).any (fun b => b.session == s) then
          { v with mediaSignalId := 0 }
        else v
      signals := fun _ => none
      mediaEpoch := epoch })

/-- `MediaSignalClient::Send`: a frame of another epoch is refused, and one that finds the queue full
(`Oracle.refuse`) gives the connection up. -/
def sendMediaSignal (σ : Server) (o : Oracle) (epoch : Nat) (message : Reply) : Bool × Server :=
  if !σ.link.isCurrent epoch then (false, σ)
  else if o.refuse then (false, { σ with link := { σ.link with connected := false } })
  else (true, { σ with forwarded := σ.forwarded ++ [(epoch, message)] })

/-- A room's queue takes a task unless it is full (`Oracle.refuse`); for the end of a connection it
always has room. -/
def submitRoom (σ : Server) (o : Oracle) (m : MeetingId) (task : Task) : Bool × Server :=
  let terminal := match task with
    | .dispatch _ .disconnected => true
    | _ => false
  if o.refuse && !terminal then (false, σ)
  else (true, σ.setRoom m { σ.rooms m with queue := (σ.rooms m).queue ++ [task] })

end Server

/-- One call: what it answers and what it leaves behind, given the outside's choices. -/
def exec : (c : Call) → Oracle → Server → c.Res × Server
  | .getRoom m, _, σ => (σ.roomData m, σ)
  | .setRoom m d, _, σ =>
    ((), if m = 0 then σ else σ.setRoom m { σ.rooms m with data := d })
  | .getSession s, _, σ => (σ.sessions s, σ)
  | .lock s, _, σ => (if (σ.sessions s).alive then some s else none, σ)
  | .setMeetingId s m, _, σ => ((), σ.setSession s { σ.sessions s with meetingId := m })
  | .requestClose s, _, σ => ((), σ.setSession s { σ.sessions s with closed := true })
  | .setUser s u token, _, σ =>
    ((), σ.setSession s { σ.sessions s with userId := u, authToken := token })
  | .reserveUser u m, _, σ => σ.reserveUser u m
  | .finishJoin u m joined, _, σ => ((), σ.finishJoin u m joined)
  | .releaseUser u m, _, σ => ((), σ.releaseUser u m)
  | .releaseRoomUsers m, _, σ => ((), σ.releaseRoomUsers m)
  | .reservePool terminal, o, σ => (terminal || !o.refuse, σ)
  | .query _ q, o, σ => ((q.run o σ.storage).1, { σ with storage := (q.run o σ.storage).2 })
  | .askAi _, o, σ => (if o.refuse then .busy else .done o.ai, σ)
  | .steadyNow, _, σ => (σ.steady, σ)
  | .wallNow, _, σ => (σ.wall, σ)
  | .newResumeTicket, o, σ =>
    if o.fail then ((none : Option String), σ)
    else (some o.text, { σ with issued := o.text :: σ.issued })
  | .send s id payload, o, σ => σ.send o s id payload
  | .nextSignalId, _, σ => (σ.nextSignal, { σ with nextSignal := σ.nextSignal + 1 })
  | .registerSignal id s m, _, σ =>
    (σ.mediaEpoch, { σ with signals := Function.update σ.signals id (some ⟨s, m, σ.mediaEpoch⟩) })
  | .findSignal id, _, σ => (σ.signals id, σ)
  | .removeSignal id, _, σ => ((), { σ with signals := Function.update σ.signals id none })
  | .setMediaSignalId s id, _, σ => ((), σ.setSession s { σ.sessions s with mediaSignalId := id })
  | .clearMediaSignalId s expected, _, σ =>
    ((), if (σ.sessions s).mediaSignalId = expected then
      σ.setSession s { σ.sessions s with mediaSignalId := 0 } else σ)
  | .mediaEpoch, _, σ => (σ.mediaEpoch, σ)
  | .acceptMediaEvent event epoch, _, σ => σ.acceptMediaEvent event epoch
  | .isCurrent epoch, _, σ => (σ.link.isCurrent epoch, σ)
  | .invalidate epoch, _, σ => ((), { σ with link := σ.link.invalidate epoch })
  | .sendMediaSignal epoch message, o, σ => σ.sendMediaSignal o epoch message
  | .submitRoom m task, o, σ => σ.submitRoom o m task

end SyncRtc
