import SyncRtc.Client.MeetingController
import SyncRtc.Client.TcpMgr

/-!
# Recovering the connection

`RecoveryController` with the timers, the signals and the heartbeat of `TcpMgr`, the part of `LoginController` that
listens to them, and `RealtimeController`, which hands messages on. All of it runs on the main thread: a step is what
one event of the Qt loop does, with every slot that is called on the way.

A timer is the time it is due. What the outside decides during an event is its `Chance`: the random numbers, what the
socket takes, and whether `connectToHost` fails before it returns. The bytes of a connection and its receive buffer
are not modelled here: `messages` are the whole frames of the connection that a call of `readIncoming` finds.

What a page or another controller sends is an event of its own (`business`): where one is sent from a slot, nothing
follows it there.
-/

set_option autoImplicit false

namespace SyncRtc.Client

open Net (Bytes SocketState heartbeatResponse)

/-- `ServerInfo`. -/
structure ServerInfo where
  uid : Int := 0
  email : String := ""
  host : String := ""
  port : String := ""
  sessionToken : String := ""

/-- `QTimer`: when it is due, if it is active. -/
abbrev Timer := Option Nat

/-- What the socket does with a frame. -/
structure Wire where
  bytesToWrite : Nat := 0
  /-- `write` takes the whole frame. -/
  takes : Bool := true

/-- What is not up to the client during an event. -/
structure Chance where
  createUuid : String := ""
  bounded : Fin 251 := 0
  /-- `connectToHost` signals an error before it returns. -/
  refused : Bool := false
  heartbeat : Wire := {}
  request : Wire := {}

/-- `TcpMgr::Probe`. -/
structure Probe where
  sequence : String
  sentAt : Nat

structure TcpMgr where
  socket : Option SocketState := none
  generation : Nat := 0
  connectTimer : Timer := none
  businessReady : Bool := false
  heartbeatTimer : Timer := none
  /-- When `m_heartbeatClock` was started. -/
  heartbeatClock : Nat := 0
  probes : List Probe := []
  heartbeatSequence : UInt64 := 0
  sequencedHeartbeat : Bool := false
  pauseReprobeUsed : Bool := false
  lastHeartbeatAck : Nat := 0
  lastHeartbeatSent : Nat := 0
  lastHeartbeatTick : Nat := 0
  reprobeUntil : Nat := 0
  heartbeatRtt : Int := -1

/-- `TcpMgr::closeConnection`. -/
def TcpMgr.closeConnection (t : TcpMgr) : TcpMgr :=
  { t with
    generation := t.generation + 1
    connectTimer := none
    heartbeatTimer := none
    probes := []
    heartbeatRtt := -1
    businessReady := false
    socket := none }

/-- `RecoveryController::State`. -/
inductive State where
  | idle
  | ready
  | waiting
  | connecting
  | authenticating
  | resuming
  | failed
  deriving DecidableEq

/-- `RecoveryController::recovering`. -/
def State.recovering : State → Bool
  | .waiting => true
  | .connecting => true
  | .authenticating => true
  | .resuming => true
  | _ => false

structure RecoveryController where
  server : ServerInfo := {}
  state : State := .idle
  retryTimer : Timer := none
  stageTimer : Timer := none
  budgetTimer : Timer := none
  failures : Nat := 0
  authenticated : Bool := false
  resumeSupported : Bool := false
  requestId : String := ""

/-- A loss of the connection that has begun a recovery: its request id, when it was, and what the controller was. -/
structure Interruption where
  requestId : String
  time : Nat
  state : State

/-- A snapshot that was applied, and what the controller was then. -/
structure Restored where
  state : State
  requestId : String
  response : Json

/-- The client, and what is noted of its runs. -/
structure RealtimeClient where
  now : Nat := 0
  tcp : TcpMgr := {}
  recovery : RecoveryController := {}
  meeting : MeetingController := {}
  /-- `LoginController::m_connectPending` and `m_server`. -/
  connectPending : Bool := false
  loginServer : ServerInfo := {}
  interruptions : List Interruption := []
  /-- The frames given to a socket, with the state of the controller. -/
  frames : List (State × UInt16) := []
  restored : List Restored := []

/-- A frame `readIncoming` finds. -/
structure Incoming where
  id : UInt16
  size : Nat := 0
  /-- The payload, if it is a JSON object. -/
  document : Option Json
  chance : Chance := {}

namespace RealtimeClient

/-! ## Closing -/

def closeConnection (c : RealtimeClient) : RealtimeClient := { c with tcp := c.tcp.closeConnection }

/-- `RecoveryController::setState`. -/
def setState (c : RealtimeClient) (state : State) : RealtimeClient :=
  { c with
    recovery := { c.recovery with state }
    tcp := { c.tcp with businessReady := state = .ready }
    meeting := { c.meeting with connectionRecovering := state.recovering || state = .failed } }

def stopTimers (c : RealtimeClient) : RealtimeClient :=
  { c with recovery := { c.recovery with retryTimer := none, stageTimer := none, budgetTimer := none } }

/-- `RecoveryController::stop`. -/
def stop (c : RealtimeClient) : RealtimeClient :=
  let c := c.stopTimers
  let c := { c with recovery := { c.recovery with authenticated := false, server := {}, requestId := "" } }
  let c := c.closeConnection.setState .idle
  { c with meeting := c.meeting.abandonCurrentMeeting }

/-- `RecoveryController::fail`. -/
def fail (c : RealtimeClient) : RealtimeClient := c.stop.setState .failed

/-- `RecoveryController::finish`. -/
def finish (c : RealtimeClient) : RealtimeClient :=
  let c := c.stopTimers
  { c with recovery := { c.recovery with failures := 0 } }.setState .ready

/-- The delays of `RecoveryController::retry`, by the failures so far. -/
def retryDelay : Nat → Nat
  | 0 => 1000
  | 1 => 2000
  | 2 => 4000
  | 3 => 8000
  | _ => 10000

/-- `RecoveryController::retry`. -/
def retry (chance : Chance) (c : RealtimeClient) : RealtimeClient :=
  if ¬ c.recovery.state.recovering then c
  else
    let c := { c with recovery := { c.recovery with stageTimer := none } }.closeConnection
    if c.recovery.retryTimer.isSome then c
    else
      let delay := retryDelay c.recovery.failures
      let c := { c with recovery := { c.recovery with failures := c.recovery.failures + 1 } }.setState .waiting
      { c with recovery := { c.recovery with retryTimer := some (c.now + (delay + chance.bounded)) } }

/-- `RecoveryController::disconnected`. -/
def disconnected (chance : Chance) (c : RealtimeClient) : RealtimeClient :=
  if ¬ c.recovery.authenticated ∨ c.recovery.state = .idle ∨ c.recovery.state = .failed then c
  else
    let c :=
      if c.recovery.state = .ready then
        let c := { c with
          recovery := { c.recovery with
            failures := 0
            requestId := chance.createUuid
            budgetTimer := some (c.now + 45000) }
          interruptions := c.interruptions ++ [Interruption.mk chance.createUuid c.now c.recovery.state] }
        let c := c.setState .waiting
        { c with meeting := c.meeting.connectionInterrupted }
      else c
    c.retry chance

/-- `TcpMgr::connectionLost`, with the slots of its two signals. -/
def connectionLost (chance : Chance) (c : RealtimeClient) : RealtimeClient :=
  match c.tcp.socket with
  | none => c
  | some _ =>
    let c := c.closeConnection
    let c := { c with connectPending := false }
    c.disconnected chance

/-! ## Sending -/

/-- `TcpMgr::slot_send_data`. A request that is rejected changes nothing but the chat. -/
def sendData (chance : Chance) (wire : Wire) (id : UInt16) (data : Bytes) (c : RealtimeClient) : RealtimeClient :=
  let recoveryRequest := id = authLoginRequest ∨ id = resumeMeetingRequest ∨ id = heartbeatRequest
  if c.tcp.socket ≠ some .connected ∨ (¬ c.tcp.businessReady ∧ ¬ recoveryRequest) ∨ 65535 < data.length then c
  else if wire.bytesToWrite + data.length + 4 > 4 * 1024 * 1024 then c.connectionLost chance
  else
    let c := { c with frames := c.frames ++ [(c.recovery.state, id)] }
    if wire.takes then c else c.connectionLost chance

section

variable (toJson : Json → Bytes)

/-- `RecoveryController::send`. -/
def send (chance : Chance) (id : UInt16) (request : List (String × Json)) (c : RealtimeClient) : RealtimeClient :=
  c.sendData chance chance.request id (toJson (.obj request))

/-- `TcpMgr::sendHeartbeat`. -/
def sendHeartbeat (chance : Chance) (now : Nat) (c : RealtimeClient) : RealtimeClient :=
  let probes := c.tcp.probes.dropWhile fun probe => now - probe.sentAt ≥ 15000
  let probes := if probes.length ≥ 4 then probes.drop 1 else probes
  let sequence := toString (c.tcp.heartbeatSequence + 1).toNat
  let c := { c with tcp := { c.tcp with
    probes := probes ++ [({ sequence, sentAt := now } : Probe)]
    heartbeatSequence := c.tcp.heartbeatSequence + 1
    lastHeartbeatSent := now } }
  let request := if c.tcp.sequencedHeartbeat then [("seq", Json.str sequence)] else []
  c.sendData chance chance.heartbeat heartbeatRequest (toJson (.obj request))

/-- `TcpMgr::startHeartbeat`. -/
def startHeartbeat (chance : Chance) (sequenced : Bool) (c : RealtimeClient) : RealtimeClient :=
  if c.tcp.socket ≠ some .connected then c
  else
    let c := { c with tcp := { c.tcp with
      sequencedHeartbeat := sequenced
      probes := []
      pauseReprobeUsed := false
      reprobeUntil := 0
      heartbeatRtt := -1
      lastHeartbeatAck := 0
      lastHeartbeatTick := 0
      heartbeatClock := c.now
      heartbeatTimer := some (c.now + 1000) } }
    c.sendHeartbeat toJson chance 0

/-- Both places that start the heartbeat ask the server's capabilities. -/
def startHeartbeatIfCapable (chance : Chance) (capabilities : List String) (c : RealtimeClient) : RealtimeClient :=
  if "heartbeat_v1" ∈ capabilities ∨ "heartbeat_v2" ∈ capabilities then
    c.startHeartbeat toJson chance (decide ("heartbeat_v2" ∈ capabilities))
  else c

/-! ## Messages -/

/-- The texts of `response.value("capabilities").toArray()`. -/
def capabilitiesOf (response : Json) : List String :=
  (toArray (response.get "capabilities")).filterMap fun
    | .str capability => some capability
    | _ => none

/-- `RecoveryController::authenticated`. -/
def authenticated (chance : Chance) (response : Json) (c : RealtimeClient) : RealtimeClient :=
  let capabilities := capabilitiesOf response
  let c := { c with recovery := { c.recovery with
    authenticated := true
    resumeSupported := decide ("meeting_resume_v1" ∈ capabilities) } }
  c.finish.startHeartbeatIfCapable toJson chance capabilities

/-- The answers after which `RecoveryController` tries again. -/
def isTransient (error : Int) : Bool := error = errorRedis || error = errorMysql || error = errorNetwork

/-- What `RecoveryController::handleMessage` does with the answer to its login. -/
def handleAuth (chance : Chance) (response : Json) (c : RealtimeClient) : RealtimeClient :=
  if c.recovery.state ≠ .authenticating then c
  else
    let c := { c with recovery := { c.recovery with stageTimer := none } }
    let error := errorOf response
    if isTransient error then c.retry chance
    else if error ≠ success then c.fail
    else
      let capabilities := capabilitiesOf response
      let c := { c with recovery := { c.recovery with
        resumeSupported := decide ("meeting_resume_v1" ∈ capabilities) } }
      let c := c.startHeartbeatIfCapable toJson chance capabilities
      if c.recovery.state ≠ .authenticating then c
      else if c.meeting.currentMeetingId = "" then c.finish
      else if ¬ c.recovery.resumeSupported ∨ c.meeting.resumeTicket = "" then
        { c with meeting := c.meeting.abandonCurrentMeeting }.finish
      else
        let c := c.setState .resuming
        let c := { c with recovery := { c.recovery with stageTimer := some (c.now + 5000) } }
        c.send toJson chance resumeMeetingRequest
          [("meeting_id", .str c.meeting.currentMeetingId), ("request_id", .str c.recovery.requestId),
            ("resume_ticket", .str c.meeting.resumeTicket),
            ("membership_generation", .str c.meeting.membershipGeneration)]

/-- What `RecoveryController::handleMessage` does with the answer to its request to resume the meeting. -/
def handleResume (chance : Chance) (response : Json) (c : RealtimeClient) : RealtimeClient :=
  if c.recovery.state ≠ .resuming then c
  else
    let error := errorOf response
    if response.isMember "request_id" ∧ (response.get "request_id").text ≠ c.recovery.requestId then c
    else
      let c := { c with recovery := { c.recovery with stageTimer := none } }
      if isTransient error then c.retry chance
      else if error ≠ success then { c with meeting := c.meeting.abandonCurrentMeeting }.finish
      else if (response.get "request_id").text ≠ c.recovery.requestId then c.fail
      else
        match c.meeting.applyResumeMeetingResponse response with
        | none => c.fail
        | some meeting =>
          let restored := { state := c.recovery.state, requestId := c.recovery.requestId, response }
          { c with meeting, restored := c.restored ++ [restored] }.finish

/-- `RecoveryController::handleMessage`, and whether it has taken the message. -/
def handleMessage (chance : Chance) (id : UInt16) (response : Json) (c : RealtimeClient) : RealtimeClient × Bool :=
  if id = authLoginResponse ∧ c.recovery.state.recovering then (c.handleAuth toJson chance response, true)
  else if id = resumeMeetingResponse then (c.handleResume chance response, true)
  else (c, c.recovery.state.recovering || c.recovery.state = .failed)

/-- The handler of a first login in `RealtimeController::initHandlers`. -/
def loginAnswered (chance : Chance) (json : Json) (c : RealtimeClient) : RealtimeClient :=
  let profile := if json.isMember "profile" then json.get "profile" else json
  if errorOf json ≠ success then c
  else if trimmed (profile.get "email").text = "" ∨ trimmed (profile.get "username").text = "" then c
  else if ¬ MeetingController.acceptsRecentMeetings (toArray (json.get "meetings")) then c
  else c.authenticated toJson chance json

/-- `RealtimeController::slot_message_recv`. -/
def messageRecv (chance : Chance) (id : UInt16) (json : Json) (c : RealtimeClient) : RealtimeClient :=
  match c.handleMessage toJson chance id json with
  | (c, true) => c
  | (c, false) =>
    if id = authLoginResponse then c.loginAnswered toJson chance json
    else { c with meeting := c.meeting.handle id json }

/-- `TcpMgr::acceptHeartbeat`. -/
def acceptHeartbeat (response : Json) (c : RealtimeClient) : RealtimeClient :=
  if c.tcp.heartbeatTimer.isNone ∨ c.tcp.probes = [] then c
  else
    let now := c.now - c.tcp.heartbeatClock
    let fields := match response with
      | .obj fields => fields
      | _ => []
    let rest? :=
      if c.tcp.sequencedHeartbeat then
        match fields with
        | [("seq", .str sequence)] => some (c.tcp.probes.dropWhile fun probe => probe.sequence ≠ sequence)
        | _ => none
      else if fields = [] then some c.tcp.probes
      else none
    match rest? with
    | some (probe :: rest) =>
      if now - probe.sentAt ≥ 15000 then c
      else { c with tcp := { c.tcp with
        heartbeatRtt := now - probe.sentAt
        lastHeartbeatAck := now
        pauseReprobeUsed := false
        reprobeUntil := 0
        probes := rest } }
    | _ => c

/-- `TcpMgr::readIncoming`. -/
def readIncoming (generation : Nat) : List Incoming → RealtimeClient → RealtimeClient
  | [], c => c
  | message :: messages, c =>
    if generation ≠ c.tcp.generation then c
    else if message.id = heartbeatResponse ∧ message.size > 96 then readIncoming generation messages c
    else
      match message.document with
      | none => c.connectionLost message.chance
      | some object =>
        if message.id = heartbeatResponse then readIncoming generation messages (c.acceptHeartbeat object)
        else readIncoming generation messages (c.messageRecv toJson message.chance message.id object)

/-- `TcpMgr::heartbeatTick`. -/
def heartbeatTick (chance : Chance) (messages : List Incoming) (c : RealtimeClient) : RealtimeClient :=
  let generation := c.tcp.generation
  let now := c.now - c.tcp.heartbeatClock
  let delayed := now - c.tcp.lastHeartbeatTick > 5000
  let c := { c with tcp := { c.tcp with lastHeartbeatTick := now } }
  let c := c.readIncoming toJson generation messages
  if generation ≠ c.tcp.generation ∨ c.tcp.heartbeatTimer.isNone then c
  else if now - c.tcp.lastHeartbeatAck ≥ 15000 ∧ delayed ∧ ¬ c.tcp.pauseReprobeUsed then
    let c := { c with tcp := { c.tcp with pauseReprobeUsed := true, reprobeUntil := now + 5000, probes := [] } }
    c.sendHeartbeat toJson chance now
  else if now - c.tcp.lastHeartbeatAck ≥ 15000 ∧ now ≥ c.tcp.reprobeUntil then c.connectionLost chance
  else if now - c.tcp.lastHeartbeatSent ≥ 5000 then c.sendHeartbeat toJson chance now
  else c

/-! ## Connecting -/

/-- `TcpMgr::slot_tcp_connect`. -/
def tcpConnect (chance : Chance) (c : RealtimeClient) : RealtimeClient :=
  let c := c.closeConnection
  let c := { c with tcp := { c.tcp with socket := some .connecting, connectTimer := some (c.now + 5000) } }
  if chance.refused then c.connectionLost chance else c

/-- `RecoveryController::connectNow`. -/
def connectNow (chance : Chance) (c : RealtimeClient) : RealtimeClient :=
  if c.recovery.state ≠ .waiting then c else (c.setState .connecting).tcpConnect chance

def authRequest (server : ServerInfo) : List (String × Json) :=
  [("uid", .int server.uid), ("email", .str server.email), ("token", .str server.sessionToken)]

/-- The slots of `signal_connect_success(true)`: `LoginController` listens first. -/
def connectSucceeded (chance : Chance) (c : RealtimeClient) : RealtimeClient :=
  let c :=
    if c.connectPending then
      { c with connectPending := false }.send toJson chance authLoginRequest (authRequest c.loginServer)
    else c
  if c.recovery.state ≠ .connecting then c
  else
    let c := c.setState .authenticating
    let c := { c with recovery := { c.recovery with stageTimer := some (c.now + 5000) } }
    c.send toJson chance authLoginRequest (authRequest c.recovery.server)

/-- `serverPrepared` and `signal_connect_tcp`, after a login over HTTP. -/
def loginPrepared (chance : Chance) (server : ServerInfo) (c : RealtimeClient) : RealtimeClient :=
  let c := { c with loginServer := server }.stop
  let c := { c with recovery := { c.recovery with server }, connectPending := true }
  c.tcpConnect chance

/-- `MeetingController::requestLeaveMeeting`, with `RecoveryController::cancelMeeting`. -/
def requestLeaveMeeting (chance : Chance) (meetingId : String) (c : RealtimeClient) : RealtimeClient :=
  if c.meeting.connectionRecovering ∧ meetingId = c.meeting.currentMeetingId then
    let c := { c with meeting := c.meeting.abandonCurrentMeeting }
    if c.recovery.state = .resuming then c.retry chance else c
  else if trimmed meetingId = "" then c
  else
    let c := { c with meeting := { c.meeting with pendingLeaveMeetingId := trimmed meetingId } }
    c.send toJson chance leaveMeetingRequest [("meeting_id", .str (trimmed meetingId))]

/-- `MeetingController::requestEndMeeting`. -/
def requestEndMeeting (chance : Chance) (meetingId : String) (c : RealtimeClient) : RealtimeClient :=
  if trimmed meetingId = "" then c
  else
    let c := { c with meeting := { c.meeting with pendingEndMeetingId := trimmed meetingId } }
    c.send toJson chance endMeetingRequest [("meeting_id", .str (trimmed meetingId))]

/-- `MeetingController::requestJoinMeeting`. -/
def requestJoinMeeting (chance : Chance) (meetingCode : String) (c : RealtimeClient) : RealtimeClient :=
  if trimmed meetingCode = "" then c
  else
    let c := { c with meeting := { c.meeting with pendingJoinMeetingCode := trimmed meetingCode } }
    c.send toJson chance joinMeetingRequest [("meeting_code", .str (trimmed meetingCode))]

end

end RealtimeClient

/-! ## Events -/

/-- What happens at the main thread. -/
inductive ClientEvent where
  | loginPrepared (chance : Chance) (server : ServerInfo)
  | connected (chance : Chance)
  /-- `errorOccurred` or `disconnected` of the socket. -/
  | socketFailed (chance : Chance)
  | readyRead (messages : List Incoming)
  | connectTimeout (chance : Chance)
  | heartbeatTimeout (chance : Chance) (messages : List Incoming)
  | retryTimeout (chance : Chance)
  | stageTimeout (chance : Chance)
  | budgetTimeout
  | requestLeaveMeeting (chance : Chance) (meetingId : String)
  | requestEndMeeting (chance : Chance) (meetingId : String)
  | requestJoinMeeting (chance : Chance) (meetingCode : String)
  /-- Anything else that is sent. -/
  | business (chance : Chance) (id : UInt16) (data : Bytes)
  /-- Logging out, or quitting. -/
  | stop
  /-- Time passes. -/
  | elapse (ms : Nat)

namespace RealtimeClient

/-- A timer that is due. -/
def isDue (timer : Timer) (now : Nat) : Bool :=
  match timer with
  | some due => due ≤ now
  | none => false

def step (toJson : Json → Bytes) (c : RealtimeClient) : ClientEvent → Option RealtimeClient
  | .loginPrepared chance server => some (c.loginPrepared chance server)
  | .connected chance =>
    if c.tcp.socket = some .connecting then
      some ({ c with tcp := { c.tcp with socket := some .connected, connectTimer := none } }.connectSucceeded
        toJson chance)
    else none
  | .socketFailed chance => if c.tcp.socket.isSome then some (c.connectionLost chance) else none
  | .readyRead messages =>
    if c.tcp.socket = some .connected then some (c.readIncoming toJson c.tcp.generation messages) else none
  | .connectTimeout chance =>
    if isDue c.tcp.connectTimer c.now then
      some ({ c with tcp := { c.tcp with connectTimer := none } }.connectionLost chance)
    else none
  | .heartbeatTimeout chance messages =>
    if isDue c.tcp.heartbeatTimer c.now then
      some ({ c with tcp := { c.tcp with heartbeatTimer := some (c.now + 1000) } }.heartbeatTick toJson chance messages)
    else none
  | .retryTimeout chance =>
    if isDue c.recovery.retryTimer c.now then
      some ({ c with recovery := { c.recovery with retryTimer := none } }.connectNow chance)
    else none
  | .stageTimeout chance =>
    if isDue c.recovery.stageTimer c.now then
      some ({ c with recovery := { c.recovery with stageTimer := none } }.retry chance)
    else none
  | .budgetTimeout =>
    if isDue c.recovery.budgetTimer c.now then
      some { c with recovery := { c.recovery with budgetTimer := none } }.fail
    else none
  | .requestLeaveMeeting chance meetingId => some (c.requestLeaveMeeting toJson chance meetingId)
  | .requestEndMeeting chance meetingId => some (c.requestEndMeeting toJson chance meetingId)
  | .requestJoinMeeting chance meetingCode => some (c.requestJoinMeeting toJson chance meetingCode)
  | .business chance id data => some (c.sendData chance chance.request id data)
  | .stop => some c.stop
  | .elapse ms => some { c with now := c.now + ms }

end RealtimeClient

end SyncRtc.Client
