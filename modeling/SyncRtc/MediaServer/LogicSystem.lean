import SyncRtc.Lib.Prog
import SyncRtc.MediaServer.MediaRoom

/-!
# The signalling of MediaServer

`LogicSystem.cpp`: the messages and callbacks of one meeting are handled one after the other by a room worker; those of
different meetings, the threads of libdatachannel and the connections to RealtimeServer go on meanwhile. A handler is
a program whose calls are the sections it runs under a lock, or on objects only its worker uses; anything may happen
between two calls.

An exception ends a handler after what its `catch` does.
-/

set_option autoImplicit false

namespace SyncRtc.MediaServer

open Net (Bytes)

/-! ## Messages -/

inductive MediaSignal where
  | offer (sdp : String)
  | answer (sdp : String)
  | candidate (candidate mid : String)
  | leave
  deriving DecidableEq

structure MediaSignalRequest where
  signalId : Nat
  meetingId : Nat
  uid : Int
  signal : MediaSignal
  deriving DecidableEq

structure MediaSignalResponse where
  signalId : Nat
  meetingId : Nat
  uid : Int
  signalType : String := ""
  sdp : String := ""
  candidate : String := ""
  mid : String := ""
  deriving DecidableEq

/-- The ids every response of a session carries. -/
def SessionInfo.response (info : SessionInfo) : MediaSignalResponse :=
  { signalId := info.signalId, meetingId := info.meetingId, uid := info.uid }

/-- What a room worker is given. -/
inductive MediaRoomEvent where
  | signal (session : Nat) (request : MediaSignalRequest)
  | trackReady (meetingId : Nat) (publisherUid : Int) (sessionId : Nat) (media : Media)
  | localSignal (session sessionId : Nat) (response : MediaSignalResponse)
  | disconnected (meetingId session : Nat)
  deriving DecidableEq

/-- The room an event is posted to. -/
def MediaRoomEvent.meetingId : MediaRoomEvent → Nat
  | .signal _ request => request.meetingId
  | .trackReady meetingId _ _ _ => meetingId
  | .localSignal _ _ response => response.meetingId
  | .disconnected meetingId _ => meetingId

/-! ## Sections -/

inductive Section where
  | findRoom (meetingId : Nat)
  | findOrAddRoom (meetingId : Nat)
  /-- The end of `RemoveSession`: an empty room is taken out of `m_rooms`, if it is the one there. -/
  | dropRoom (room : Nat)
  | isStopped (session : Nat)
  | getPeer (room : Nat) (uid : Int)
  | addPeer (room : Nat) (peer : MediaPeer)
  | removePeer (room : Nat) (uid : Int) (expectedSessionId : Nat)
  | peerCount (room : Nat)
  | getSessionsForConnection (room connection : Nat)
  | registerPublisherTrack (room : Nat) (publisherUid : Int) (media : Media)
  /-- The constructor of `MediaSession`. -/
  | createSession (room : Nat) (request : MediaSignalRequest) (session : Nat)
  | setRemoteOffer (session : SessionInfo) (sdp : String)
  | setRemoteAnswer (session : SessionInfo) (sdp : String)
  | addRemoteCandidate (session : SessionInfo) (candidate mid : String)
  | requestRenegotiation (session : SessionInfo)
  | addOutgoingTrack (binding : OutgoingTrackBinding)
  | removeOutgoingTracks (session : SessionInfo) (publisherUid : Int)
  | send (session : Nat) (response : MediaSignalResponse)

/-- What a section answers. A call of a media session says whether it has thrown. -/
def Section.Res : Section → Type
  | .findRoom _ => Option Nat
  | .findOrAddRoom _ => Nat
  | .isStopped _ => Bool
  | .getPeer _ _ => Option MediaPeer
  | .removePeer _ _ _ => Option (List SessionInfo)
  | .peerCount _ => Nat
  | .getSessionsForConnection _ _ => List SessionInfo
  | .registerPublisherTrack _ _ _ => Option (List OutgoingTrackBinding × List SessionInfo)
  | .createSession _ _ _ => Option SessionInfo
  | .setRemoteOffer _ _ => Bool
  | .setRemoteAnswer _ _ => Bool
  | .addRemoteCandidate _ _ _ => Bool
  | .requestRenegotiation _ => Bool
  | .addOutgoingTrack _ => Bool
  | .dropRoom _ => Unit
  | .addPeer _ _ => Unit
  | .removeOutgoingTracks _ _ => Unit
  | .send _ _ => Unit

def sections : Signature := ⟨Section, Section.Res⟩

/-- A handler, or what is left of it. -/
abbrev Handler := Prog sections Unit

def call (c : Section) : Prog sections c.Res := Prog.perform (S := sections) c

/-! ## `MediaRoom`, outside its lock -/

/-- `MediaRoom::RemovePeer`. -/
def removePeer (room : Nat) (uid : Int) (expectedSessionId : Nat) : Handler := do
  let remaining : Option (List SessionInfo) ← call (.removePeer room uid expectedSessionId)
  Prog.each (fun session => call (.removeOutgoingTracks session uid)) (remaining.getD [])

/-- A binding of `MediaRoom::RegisterPublisherTrack`. -/
def addBinding (room : Nat) (binding : OutgoingTrackBinding) : Handler := do
  let target : Option MediaPeer ← call (.getPeer room binding.session.uid)
  let source : Option MediaPeer ← call (.getPeer room binding.publisherUid)
  if target.bind MediaPeer.session ≠ some binding.session ∨
      (source.bind MediaPeer.session).map SessionInfo.instanceId ≠ some binding.publisherSessionId then pure ()
  else
    let threw : Bool ← call (.addOutgoingTrack binding)
    if threw then removePeer room binding.session.uid binding.session.instanceId else pure ()

/-- A session `MediaRoom::RegisterPublisherTrack` negotiates with. -/
def negotiate (room : Nat) (session : SessionInfo) : Handler := do
  let peer : Option MediaPeer ← call (.getPeer room session.uid)
  if peer.bind MediaPeer.session ≠ some session then pure ()
  else
    let threw : Bool ← call (.requestRenegotiation session)
    if threw then removePeer room session.uid session.instanceId else pure ()

/-- `MediaRoom::RegisterPublisherTrack`. Whether it throws. -/
def registerPublisherTrack (room : Nat) (publisherUid : Int) (media : Media) : Prog sections Bool := do
  let result : Option (List OutgoingTrackBinding × List SessionInfo) ←
    call (.registerPublisherTrack room publisherUid media)
  match result with
  | none => pure true
  | some (tracksToAdd, sessionsToNegotiate) =>
    Prog.each (addBinding room) tracksToAdd
    Prog.each (negotiate room) sessionsToNegotiate
    pure false

/-! ## Handlers -/

/-- `LogicSystem::RemoveSession`. -/
def removeSession (room : Nat) (session : Option SessionInfo) : Handler := do
  match session with
  | some session => removePeer room session.uid session.instanceId
  | none => pure ()
  let count : Nat ← call (.peerCount room)
  if count ≠ 0 then pure () else call (.dropRoom room)

/-- `LogicSystem::HandlePublisherTrackReady`. -/
def handlePublisherTrackReady (meetingId : Nat) (publisherUid : Int) (sessionId : Nat) (media : Media) : Handler := do
  let found : Option Nat ← call (.findRoom meetingId)
  match found with
  | none => pure ()
  | some room =>
    let peer : Option MediaPeer ← call (.getPeer room publisherUid)
    match peer.bind MediaPeer.session with
    | none => pure ()
    | some session =>
      if session.instanceId ≠ sessionId then pure ()
      else
        let stopped : Bool ← call (.isStopped session.signalSession)
        if stopped then pure ()
        else
          let threw ← registerPublisherTrack room publisherUid media
          if threw then pure () else removeSession room none

/-- `LogicSystem::HandleLocalMediaSignal`. -/
def handleLocalMediaSignal (session sessionId : Nat) (response : MediaSignalResponse) : Handler := do
  let found : Option Nat ← call (.findRoom response.meetingId)
  match found with
  | none => pure ()
  | some room =>
    let peer : Option MediaPeer ← call (.getPeer room response.uid)
    match peer.bind MediaPeer.session with
    | none => pure ()
    | some mediaSession =>
      if mediaSession.instanceId ≠ sessionId ∨ mediaSession.signalId ≠ response.signalId then pure ()
      else
        let stopped : Bool ← call (.isStopped session)
        if stopped ∨ mediaSession.signalSession ≠ session then pure () else call (.send session response)

/-- The session a request of this connection is for, as the handlers of an answer, a candidate and a leave find it. -/
def forSession (session : Nat) (request : MediaSignalRequest) (body : Nat → SessionInfo → Handler) : Handler := do
  let found : Option Nat ← call (.findRoom request.meetingId)
  match found with
  | none => pure ()
  | some room =>
    let peer : Option MediaPeer ← call (.getPeer room request.uid)
    match peer.bind MediaPeer.session with
    | none => pure ()
    | some mediaSession =>
      if mediaSession.signalId ≠ request.signalId ∨ mediaSession.signalSession ≠ session then pure ()
      else body room mediaSession

/-- A call of a session, with the `catch` around it: a session that throws is removed. -/
def orRemove (room : Nat) (session : SessionInfo) (c : Prog sections Bool) : Handler := do
  let threw ← c
  if threw then removeSession room (some session) else pure ()

/-- The session an offer is for. One that has another signal or connection is removed. -/
def existingSession (room session : Nat) (request : MediaSignalRequest) : Prog sections (Option SessionInfo) := do
  let peer : Option MediaPeer ← call (.getPeer room request.uid)
  match peer.bind MediaPeer.session with
  | none => pure none
  | some existing =>
    if existing.signalId ≠ request.signalId ∨ existing.signalSession ≠ session then do
      removePeer room request.uid 0
      pure none
    else pure (some existing)

/-- `LogicSystem::HandleOffer`. -/
def handleOffer (session : Nat) (request : MediaSignalRequest) (sdp : String) : Handler := do
  let room : Nat ← call (.findOrAddRoom request.meetingId)
  let existing ← existingSession room session request
  match existing with
  | some existing => orRemove room existing (call (.setRemoteOffer existing sdp))
  | none =>
    let created : Option SessionInfo ← call (.createSession room request session)
    match created with
    | none => removeSession room none
    | some created =>
      call (.addPeer room ⟨request.uid, some created⟩)
      orRemove room created (call (.setRemoteOffer created sdp))

/-- `LogicSystem::HandleAnswer`. -/
def handleAnswer (session : Nat) (request : MediaSignalRequest) (sdp : String) : Handler :=
  forSession session request fun room mediaSession =>
    orRemove room mediaSession (call (.setRemoteAnswer mediaSession sdp))

/-- `LogicSystem::HandleCandidate`. -/
def handleCandidate (session : Nat) (request : MediaSignalRequest) (candidate mid : String) : Handler :=
  forSession session request fun room mediaSession =>
    orRemove room mediaSession (call (.addRemoteCandidate mediaSession candidate mid))

/-- `LogicSystem::HandleLeave`. -/
def handleLeave (session : Nat) (request : MediaSignalRequest) : Handler :=
  forSession session request fun room mediaSession => removeSession room (some mediaSession)

/-- `LogicSystem::HandleSignal`. -/
def handleSignal (session : Nat) (request : MediaSignalRequest) : Handler := do
  let stopped : Bool ← call (.isStopped session)
  if stopped then pure ()
  else match request.signal with
    | .offer sdp => handleOffer session request sdp
    | .answer sdp => handleAnswer session request sdp
    | .candidate candidate mid => handleCandidate session request candidate mid
    | .leave => handleLeave session request

/-- `LogicSystem::HandleSignalDisconnected`. -/
def handleSignalDisconnected (meetingId session : Nat) : Handler := do
  let stopped : Bool ← call (.isStopped session)
  if !stopped then pure ()
  else
    let found : Option Nat ← call (.findRoom meetingId)
    match found with
    | none => pure ()
    | some room =>
      let sessions : List SessionInfo ← call (.getSessionsForConnection room session)
      Prog.each (fun mediaSession => removeSession room (some mediaSession)) sessions
      removeSession room none

/-- `LogicSystem::HandleRoomEvent`. -/
def handleRoomEvent : MediaRoomEvent → Handler
  | .signal session request => handleSignal session request
  | .trackReady meetingId publisherUid sessionId media =>
    handlePublisherTrackReady meetingId publisherUid sessionId media
  | .localSignal session sessionId response => handleLocalMediaSignal session sessionId response
  | .disconnected meetingId session => handleSignalDisconnected meetingId session

/-! ## What the sections do -/

/-- What the threads share. Objects are kept under their address, sessions under their instance id. -/
structure Memory (P : Type) where
  nextSessionId : Nat := 1
  /-- `m_rooms`. -/
  meetings : Nat → Option Nat := fun _ => none
  rooms : Nat → Option MediaRoom := fun _ => none
  nextRoom : Nat := 0
  sessions : Nat → Option (SessionInfo × MediaSession P) := fun _ => none
  /-- Connections to RealtimeServer that have stopped. -/
  stopped : Nat → Bool := fun _ => false
  /-- `m_meeting_ids` of each connection. -/
  meetingIds : Nat → List Nat := fun _ => []
  /-- What is posted to the worker of each room. -/
  queues : Nat → List MediaRoomEvent := fun _ => []
  /-- What has been sent on each connection. -/
  sent : Nat → List MediaSignalResponse := fun _ => []

namespace Memory

variable {P : Type} (rtc : Rtc P)

def setRoom (m : Memory P) (room : Nat) (r : MediaRoom) : Memory P :=
  { m with rooms := Function.update m.rooms room (some r) }

/-- `RoomThreadPool::Post`. -/
def post (m : Memory P) (event : MediaRoomEvent) : Memory P :=
  { m with queues := Function.update m.queues event.meetingId (m.queues event.meetingId ++ [event]) }

/-- A section of a room. -/
def onRoom {α : Type} (m : Memory P) (room : Nat) (missing : α) (f : MediaRoom → α × MediaRoom) : α × Memory P :=
  match m.rooms room with
  | none => (missing, m)
  | some r => ((f r).1, m.setRoom room (f r).2)

/-- What a session notifies is posted under the ids it has had from the start. -/
def notify (m : Memory P) (session : SessionInfo) : Notice → Memory P
  | .trackReady media => m.post (.trackReady session.meetingId session.uid session.instanceId media)
  | .localDescription _ => m

/-- A call of a media session. -/
def onSession (m : Memory P) (session : SessionInfo) (f : MediaSession P → Outcome P) : Bool × Memory P :=
  match m.sessions session.instanceId with
  | none => (true, m)
  | some (info, s) =>
    let o := f s
    let m := { m with sessions := Function.update m.sessions session.instanceId (some (info, o.session)) }
    (o.threw, o.notices.foldl (fun m notice => m.notify info notice) m)

/-- What a section does. -/
def answer (m : Memory P) : (c : Section) → c.Res × Memory P
  | .findRoom meetingId => (m.meetings meetingId, m)
  | .findOrAddRoom meetingId =>
    match m.meetings meetingId with
    | some room => (room, m)
    | none =>
      let m' := m.setRoom m.nextRoom { meetingId := meetingId }
      (m.nextRoom, { m' with
        meetings := Function.update m.meetings meetingId (some m.nextRoom)
        nextRoom := m.nextRoom + 1 })
  | .dropRoom room =>
    match m.rooms room with
    | none => ((), m)
    | some r =>
      if m.meetings r.meetingId = some room ∧ r.peerCount = 0 then
        ((), { m with meetings := Function.update m.meetings r.meetingId none })
      else ((), m)
  | .isStopped session => (m.stopped session, m)
  | .getPeer room uid => m.onRoom room none fun r => (r.getPeer uid, r)
  | .addPeer room peer => m.onRoom room () fun r => ((), r.addPeer peer)
  | .removePeer room uid expectedSessionId => m.onRoom room none fun r =>
    match r.removePeer uid expectedSessionId with
    | none => (none, r)
    | some (remaining, r) => (some remaining, r)
  | .peerCount room => m.onRoom room (0 : Nat) fun r => (r.peerCount, r)
  | .getSessionsForConnection room connection =>
    m.onRoom room [] fun r => (r.getSessionsForConnection connection, r)
  | .registerPublisherTrack room publisherUid media =>
    m.onRoom room none fun r => r.registerPublisherTrack publisherUid media
  | .createSession room request session =>
    -- The number is taken before anything can fail.
    let instanceId := m.nextSessionId
    let m := { m with nextSessionId := instanceId + 1 }
    match rtc.create instanceId with
    | none => (none, m)
    | some connection =>
      let info : SessionInfo := ⟨instanceId, request.meetingId, request.uid, request.signalId, session, room⟩
      (some info,
        { m with sessions := Function.update m.sessions instanceId (some (info, { connection := connection })) })
  | .setRemoteOffer session sdp => m.onSession session fun s => s.setRemoteOffer rtc sdp
  | .setRemoteAnswer session sdp => m.onSession session fun s => s.setRemoteAnswer rtc sdp
  | .addRemoteCandidate session candidate mid => m.onSession session fun s => s.addRemoteCandidate rtc candidate mid
  | .requestRenegotiation session => m.onSession session fun s => s.requestRenegotiation rtc
  | .addOutgoingTrack b => m.onSession b.session fun s =>
    s.addOutgoingTrack rtc b.session.instanceId b.publisherUid b.publisherSessionId b.media b.ssrc
  | .removeOutgoingTracks session publisherUid =>
    ((), (m.onSession session fun s => ⟨s.removeOutgoingTracks publisherUid, [], false⟩).2)
  | .send session response =>
    ((), { m with sent := Function.update m.sent session (m.sent session ++ [response]) })

end Memory

/-! ## The server -/

/-- Where a thread of libdatachannel stands with a packet. -/
inductive Forwarding where
  | idle
  /-- In the loop of `MediaRoom::ForwardRtp`. -/
  | choosing (publisher : SessionInfo) (media : Media) (packet : Bytes) (targets : List SessionInfo)
  /-- In `MediaSession::ForwardRtp`, behind its lock. -/
  | sending (publisher : SessionInfo) (media : Media) (packet : Bytes) (targets : List SessionInfo)
      (subscriber : SessionInfo) (track : OutgoingTrack)

/-- A packet that has been sent. -/
structure Sent where
  publisher : SessionInfo
  media : Media
  packet : Bytes
  subscriber : SessionInfo
  track : OutgoingTrack
  forwarded : Bytes

structure System (P : Type) where
  memory : Memory P := {}
  /-- What is left of the handler that runs for each meeting. -/
  workers : Nat → Handler := fun _ => .pure ()
  threads : Nat → Forwarding := fun _ => .idle
  /-- The request that the thread of a connection has let in and not posted yet. -/
  posting : Nat → Option MediaSignalRequest := fun _ => none
  forwards : List Sent := []

/-- `sizeof(rtc::RtpHeader)`. -/
def rtpHeaderSize : Nat := 12

inductive ServerEvent where
  /-- `PostMsgToQue`, for a request that could be parsed: up to `IsStopped`, and from there. -/
  | request (session : Nat) (request : MediaSignalRequest)
  | post (session : Nat)
  | stop (session : Nat)
  /-- `PostSignalDisconnected`. -/
  | signalDisconnected (session : Nat)
  /-- `onLocalDescription` and `onLocalCandidate`. -/
  | localDescription (instanceId : Nat) (description : Description)
  | localCandidate (instanceId : Nat) (candidate mid : String)
  /-- A room worker takes its next event, or goes on to its next section. -/
  | take (meetingId : Nat)
  | run (meetingId : Nat)
  /-- `onMessage` of the incoming track of a session, up to the choice of the targets. -/
  | packet (thread instanceId : Nat) (media : Media) (packet : Bytes)
  /-- `MediaSession::ForwardRtp` of the next target: under its lock, and behind it. -/
  | choose (thread : Nat)
  | send (thread : Nat) (isOpen : Bool)

namespace System

variable {P : Type} (rtc : Rtc P)

/-- `DescriptionType` as text: `description.typeString()`. -/
def typeString : DescriptionType → String
  | .offer => "offer"
  | .answer => "answer"

def setThread (σ : System P) (thread : Nat) (f : Forwarding) : System P :=
  { σ with threads := Function.update σ.threads thread f }

def step (σ : System P) : ServerEvent → Option (System P)
  | .request session request =>
    if σ.memory.stopped session ∨ (σ.posting session).isSome then none
    else some { σ with posting := Function.update σ.posting session (some request) }
  | .post session =>
    (σ.posting session).map fun request =>
      let m := { σ.memory with
        meetingIds := Function.update σ.memory.meetingIds session (request.meetingId :: σ.memory.meetingIds session) }
      { σ with
        memory := m.post (.signal session request)
        posting := Function.update σ.posting session none }
  | .stop session => some { σ with memory := { σ.memory with stopped := Function.update σ.memory.stopped session true } }
  | .signalDisconnected session =>
    -- By the thread that posts the requests of the connection.
    if σ.memory.stopped session ∧ σ.posting session = none then
      let events := (σ.memory.meetingIds session).map (MediaRoomEvent.disconnected · session)
      some { σ with memory := events.foldl Memory.post σ.memory }
    else none
  | .localDescription instanceId description =>
    (σ.memory.sessions instanceId).map fun (info, _) =>
      let response : MediaSignalResponse := { info.response with
        signalType := typeString description.type, sdp := description.sdp }
      { σ with memory := σ.memory.post (.localSignal info.signalSession instanceId response) }
  | .localCandidate instanceId candidate mid =>
    (σ.memory.sessions instanceId).map fun (info, _) =>
      let response : MediaSignalResponse := { info.response with
        signalType := "candidate", candidate := candidate, mid := mid }
      { σ with memory := σ.memory.post (.localSignal info.signalSession instanceId response) }
  | .take meetingId =>
    match σ.workers meetingId, σ.memory.queues meetingId with
    | .pure (), event :: events =>
      some { σ with
        memory := { σ.memory with queues := Function.update σ.memory.queues meetingId events }
        workers := Function.update σ.workers meetingId (handleRoomEvent event) }
    | _, _ => none
  | .run meetingId =>
    match σ.workers meetingId with
    | .call c k =>
      let (result, m) := σ.memory.answer rtc c
      some { σ with memory := m, workers := Function.update σ.workers meetingId (k result) }
    | .pure () => none
  | .packet thread instanceId media packet =>
    match σ.threads thread, σ.memory.sessions instanceId with
    | .idle, some (publisher, _) =>
      if rtpHeaderSize ≤ packet.length then
        let targets := ((σ.memory.rooms publisher.room).map (·.targetSessions publisher.uid instanceId)).getD []
        some (σ.setThread thread (.choosing publisher media packet targets))
      else none
    | _, _ => none
  | .choose thread =>
    match σ.threads thread with
    | .choosing publisher media packet targets =>
      match targets with
      | [] => some (σ.setThread thread .idle)
      | subscriber :: targets =>
        let track := (σ.memory.sessions subscriber.instanceId).bind fun (_, s) =>
          s.outgoingTrack publisher.uid publisher.instanceId media
        match track with
        | none => some (σ.setThread thread (.choosing publisher media packet targets))
        | some track => some (σ.setThread thread (.sending publisher media packet targets subscriber track))
    | _ => none
  | .send thread isOpen =>
    match σ.threads thread with
    | .sending publisher media packet targets subscriber track =>
      let σ := σ.setThread thread (.choosing publisher media packet targets)
      if isOpen then
        some { σ with forwards :=
          ⟨publisher, media, packet, subscriber, track, rtc.setSsrc packet track.ssrc⟩ :: σ.forwards }
      else some σ
    | _ => none

/-- The states of the server, whatever its clients, RealtimeServer and libdatachannel do. -/
def Reachable (σ : System P) : Prop := Reach (step rtc) (fun _ _ => True) {} σ

end System

end SyncRtc.MediaServer
