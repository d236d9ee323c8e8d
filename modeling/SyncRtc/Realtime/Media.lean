import SyncRtc.Realtime.Common

/-!
# Media signalling

`LogicSystem::MediaOfferHandler`, `MediaAnswerHandler`, `MediaCandidateHandler` and
`MediaSignalResponseHandler`. RealtimeServer checks who may signal and passes the contents on;
a request that reached MediaServer is answered by MediaServer, or not at all.
-/

set_option autoImplicit false

namespace SyncRtc

/-- The meeting id of a media request, a number or the text of one. -/
def mediaMeeting (root : Json) : Option MeetingId :=
  if root.isMember "meeting_id" then (readUInt64Value (root.get "meeting_id")).filter (· ≠ 0) else none

/-- A session description of the given kind: its meeting and its text. -/
def description (kind : String) (root : Json) : Option (MeetingId × String) :=
  match mediaMeeting root, root.get "type", root.get "sdp" with
  | some meeting, .str type, .str sdp => if type ≠ kind ∨ sdp.isEmpty then none else some (meeting, sdp)
  | _, _, _ => none

/-- A candidate: its meeting, its text and its media id. -/
def candidate (root : Json) : Option (MeetingId × String × String) :=
  match mediaMeeting root, root.get "candidate", root.get "mid" with
  | some meeting, .str text, .str mid => if text.isEmpty ∨ mid.isEmpty then none else some (meeting, text, mid)
  | _, _, _ => none

/-- Who may publish: a user in the meeting, by the session and by Redis, while the meeting runs. -/
def publishChecks (member info : Site) (s : SessionId) (uid : Uid) (meeting : MeetingId) :
    Op (Except ErrorCode Unit) := do
  if uid = 0 then return .error .token
  let session ← getSession s
  if session.meetingId ≠ meeting then return .error .meetingAccess
  let isMember : Bool ← query member (.sIsMember meeting uid)
  if !isMember then return .error .meetingAccess
  match ← query info (.getMeetingInfoById meeting) with
  | .missing => return .error .meetingNotFound
  | .unavailable => return .error .meetingNotFound
  | .found info => return if info.status ≠ .kInProgress then .error .meetingStatus else .ok ()

/-- The request every signal to MediaServer carries. -/
def mediaRequest (signal : Nat) (meeting : MeetingId) (uid : Uid) (type : String) (rest : Reply) : Reply :=
  [("signal_id", .int signal), ("meeting_id", .int meeting), ("uid", .int uid), ("signal_type", .str type)] ++ rest

/-- The association a session may signal under: its own, of the current epoch. -/
def currentSignal (s : SessionId) : Op (Option (Nat × Signal)) := do
  let session ← getSession s
  let id := session.mediaSignalId
  let binding ← findSignal id
  match binding with
  | none => return none
  | some signal =>
    let epoch : Nat ← call .mediaEpoch
    return if id = 0 ∨ signal.session ≠ s ∨ signal.epoch ≠ epoch then none else some (id, signal)

/-- The body of `LogicSystem::MediaOfferHandler`; `none` when MediaServer will answer. -/
def mediaOfferBody (s : SessionId) (body : Payload) : Op (Option Reply) := do
  match body.root with
  | .error code => return some (Reply.error code)
  | .ok root =>
    match description "offer" root with
    | none => return some (Reply.error .json)
    | some (meeting, sdp) =>
      let session ← getSession s
      let uid := session.userId
      match ← publishChecks .offerMember .offerInfo s uid meeting with
      | .error code => return some (Reply.error code)
      | .ok _ =>
        let session ← getSession s
        if session.mediaSignalId ≠ 0 then removeSignal session.mediaSignalId
        let id : Nat ← call .nextSignalId
        call (.setMediaSignalId s id)
        let epoch : Nat ← call (.registerSignal id s meeting)
        let accepted ← sendMediaSignal epoch (mediaRequest id meeting uid "offer" [("sdp", .str sdp)])
        if accepted then return none
        removeSignal id
        call (.setMediaSignalId s 0)
        return some (Reply.error .network)

def mediaOfferHandler (s : SessionId) (body : Payload) : Op Unit := do
  match ← mediaOfferBody s body with
  | some value =>
    let _ ← send s .mediaAnswerResponse value
  | none => pure ()

/-- `LogicSystem::MediaAnswerHandler`: the answer to an offer of MediaServer's own, never answered. -/
def mediaAnswerHandler (s : SessionId) (body : Payload) : Op Unit := do
  match body.root with
  | .error _ => return
  | .ok root =>
    match description "answer" root with
    | none => return
    | some (meeting, sdp) =>
      let session ← getSession s
      let uid := session.userId
      if uid = 0 then return
      let session ← getSession s
      if session.meetingId ≠ meeting then return
      let isMember : Bool ← query .answerMember (.sIsMember meeting uid)
      if !isMember then return
      match ← currentSignal s with
      | none => return
      | some (id, signal) =>
        let _ ← sendMediaSignal signal.epoch (mediaRequest id meeting uid "answer" [("sdp", .str sdp)])

/-- The body of `LogicSystem::MediaCandidateHandler`; `none` when MediaServer has taken it. -/
def mediaCandidateBody (s : SessionId) (body : Payload) : Op (Option Reply) := do
  match body.root with
  | .error code => return some (Reply.error code)
  | .ok root =>
    match candidate root with
    | none => return some (Reply.error .json)
    | some (meeting, text, mid) =>
      let session ← getSession s
      let uid := session.userId
      match ← publishChecks .candidateMember .candidateInfo s uid meeting with
      | .error code => return some (Reply.error code)
      | .ok _ =>
        match ← currentSignal s with
        | none => return some (Reply.error .network)
        | some (id, signal) =>
          let accepted ← sendMediaSignal signal.epoch
            (mediaRequest id meeting uid "candidate" [("candidate", .str text), ("mid", .str mid)])
          return if accepted then none else some (Reply.error .network)

def mediaCandidateHandler (s : SessionId) (body : Payload) : Op Unit := do
  match ← mediaCandidateBody s body with
  | some value =>
    let _ ← send s .mediaCandidateResponse value
  | none => pure ()

/-- What a message of MediaServer is for its client: the id and the contents of the frame. -/
def mediaFrame (root : Json) : Option (RequestID × Reply) :=
  match root.get "signal_type", root.get "sdp", root.get "candidate", root.get "mid" with
  | .str "offer", .str sdp, _, _ =>
    some (.mediaRenegotiationOffer,
      [("error", .int ErrorCode.success.toInt), ("type", .str "offer"), ("sdp", .str sdp)])
  | .str "answer", .str sdp, _, _ =>
    some (.mediaAnswerResponse,
      [("error", .int ErrorCode.success.toInt), ("type", .str "answer"), ("sdp", .str sdp)])
  | .str "candidate", _, .str text, .str mid =>
    some (.mediaCandidateResponse,
      [("error", .int ErrorCode.success.toInt), ("candidate", .str text), ("mid", .str mid)])
  | _, _, _, _ => none

/-- `LogicSystem::MediaSignalResponseHandler`: a message of MediaServer goes to the session that
registered its association, while that session is in this room under this association. -/
def mediaSignalResponseHandler (room : MeetingId) (message : Payload) : Op Unit := do
  match message.root with
  | .error _ => return
  | .ok root =>
    if !root.isMember "signal_id" || !(root.get "signal_type").isString then return
    match readUInt64Value (root.get "signal_id") with
    | none => return
    | some id =>
      match ← findSignal id with
      | none => return
      | some signal =>
        let epoch : Nat ← call .mediaEpoch
        if signal.epoch = 0 ∨ signal.epoch ≠ epoch then return
        match ← lock signal.session with
        | none => removeSignal id
        | some client =>
          let session ← getSession client
          if session.closed then return
          let session ← getSession client
          if session.meetingId ≠ room then return
          let session ← getSession client
          if session.mediaSignalId ≠ id then return
          let current : Bool ← call (.isCurrent signal.epoch)
          if !current then return
          match mediaFrame root with
          | none => return
          | some (frame, value) =>
            let _ ← send client frame value

end SyncRtc
