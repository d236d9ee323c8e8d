import SyncRtc.Lib.Transition
import SyncRtc.Net.Frame

/-!
# A media session

`MediaSession.cpp`: the `PeerConnection` of one member, the tracks it publishes, and one outgoing track for each
publisher and media type it listens to. The session is driven by the worker of its room; only its outgoing tracks
are read by other threads.

libdatachannel is a parameter: `Rtc` lists what the code calls. A call that throws answers `none`.
-/

set_option autoImplicit false

namespace SyncRtc.MediaServer

open Net (Bytes)

inductive Media where
  | video
  | audio
  deriving DecidableEq

def Media.name : Media → String
  | .video => "video"
  | .audio => "audio"

/-! ## libdatachannel -/

inductive SignalingState where
  | stable
  | haveLocalOffer
  | haveRemoteOffer
  deriving DecidableEq

inductive DescriptionType where
  | offer
  | answer
  deriving DecidableEq

/-- `rtc::Description`, as `onLocalDescription` gets it. -/
structure Description where
  type : DescriptionType
  sdp : String
  deriving DecidableEq

/-- What is called of libdatachannel, over its peer connections. -/
structure Rtc (P : Type) where
  /-- The connection a session with this instance id gets. -/
  create : Nat → Option P
  signalingState : P → SignalingState
  /-- The mids of the tracks that have been added. -/
  tracks : P → List String
  /-- The mids an SDP describes. -/
  mids : String → List String
  /-- Also the types of the tracks that `onTrack` reports meanwhile. -/
  setRemoteDescription : P → DescriptionType → String → Option (P × List String)
  /-- Also what `onLocalDescription` reports. -/
  setLocalDescription : P → Option (P × Description)
  addTrack : P → Media → String → UInt32 → Option P
  addRemoteCandidate : P → String → String → Option P
  /-- `RtpHeader::setSsrc`, on a packet. -/
  setSsrc : Bytes → UInt32 → Bytes

/-! ## The session -/

/-- The members of a `MediaSession` that never change. They stand for the pointer to it. -/
structure SessionInfo where
  instanceId : Nat
  meetingId : Nat
  uid : Int
  signalId : Nat
  /-- `m_signal_session`. -/
  signalSession : Nat
  /-- The room that `m_media_packet_callback` forwards to. -/
  room : Nat
  deriving DecidableEq

/-- A track of a peer connection: that of its session for its mid. -/
structure Track where
  owner : Nat
  mid : String
  deriving DecidableEq

structure OutgoingTrack where
  track : Track
  ssrc : UInt32
  publisherSessionId : Nat
  deriving DecidableEq

structure MediaSession (P : Type) where
  connection : P
  /-- `m_incoming_video_track` and `m_incoming_audio_track` are set. -/
  incoming : Media → Bool := fun _ => false
  /-- `m_outgoing_video_tracks` and `m_outgoing_audio_tracks`. -/
  outgoing : Media → Int → Option OutgoingTrack := fun _ _ => none
  initialAnswerCreated : Bool := false
  waitingRemoteAnswer : Bool := false
  negotiationPending : Bool := false
  /-- Every outgoing track there has ever been. -/
  bindings : List (Media × Int × OutgoingTrack) := []

/-- What a session tells the room workers. -/
inductive Notice where
  | localDescription (description : Description)
  | trackReady (media : Media)
  deriving DecidableEq

/-- What a call does. After it has thrown the session is as far as it came. -/
structure Outcome (P : Type) where
  session : MediaSession P
  notices : List Notice
  threw : Bool

/-- Go on unless it has thrown. -/
def Outcome.andThen {P : Type} (o : Outcome P) (f : MediaSession P → Outcome P) : Outcome P :=
  if o.threw then o
  else
    let r := f o.session
    ⟨r.session, o.notices ++ r.notices, r.threw⟩

/-- The mid of an outgoing track. -/
def trackMid (media : Media) (ssrc : UInt32) (publisherUid : Int) : String :=
  media.name ++ "-" ++ toString ssrc.toNat ++ "-" ++ toString publisherUid

namespace MediaSession

variable {P : Type} (rtc : Rtc P)

def setLocalDescription (s : MediaSession P) : Outcome P :=
  match rtc.setLocalDescription s.connection with
  | none => ⟨s, [], true⟩
  | some (connection, description) => ⟨{ s with connection := connection }, [.localDescription description], false⟩

/-- `MediaSession::SetRemoteOffer`. -/
def setRemoteOffer (s : MediaSession P) (sdp : String) : Outcome P :=
  match rtc.setRemoteDescription s.connection .offer sdp with
  | none => ⟨s, [], true⟩
  | some (connection, types) =>
    let incoming := fun media => s.incoming media || types.contains media.name
    let ready := [Media.video, .audio].filter incoming
    let o : Outcome P := ⟨{ s with connection := connection, incoming := incoming }, ready.map .trackReady, false⟩
    o.andThen fun s => (s.setLocalDescription rtc).andThen fun s =>
      let s := { s with initialAnswerCreated := true }
      if s.negotiationPending then
        { s with negotiationPending := false, waitingRemoteAnswer := true }.setLocalDescription rtc
      else ⟨s, [], false⟩

/-- `MediaSession::SetRemoteAnswer`. -/
def setRemoteAnswer (s : MediaSession P) (sdp : String) : Outcome P :=
  match rtc.setRemoteDescription s.connection .answer sdp with
  | none => ⟨s, [], true⟩
  | some (connection, types) =>
    let s := { s with
      connection := connection
      incoming := fun media => s.incoming media || types.contains media.name
      waitingRemoteAnswer := false }
    if s.negotiationPending then
      { s with negotiationPending := false, waitingRemoteAnswer := true }.setLocalDescription rtc
    else ⟨s, [], false⟩

/-- `MediaSession::AddRemoteCandidate`. -/
def addRemoteCandidate (s : MediaSession P) (candidate mid : String) : Outcome P :=
  match rtc.addRemoteCandidate s.connection candidate mid with
  | none => ⟨s, [], true⟩
  | some connection => ⟨{ s with connection := connection }, [], false⟩

/-- `MediaSession::RequestRenegotiation`. -/
def requestRenegotiation (s : MediaSession P) : Outcome P :=
  if !s.initialAnswerCreated || s.waitingRemoteAnswer then ⟨{ s with negotiationPending := true }, [], false⟩
  else { s with waitingRemoteAnswer := true }.setLocalDescription rtc

/-- `MediaSession::AddOutgoingTrack`, of the session with this instance id. -/
def addOutgoingTrack (s : MediaSession P) (instanceId : Nat) (publisherUid : Int) (publisherSessionId : Nat)
    (media : Media) (ssrc : UInt32) : Outcome P :=
  if (s.outgoing media publisherUid).isSome then ⟨s, [], false⟩
  else
    let mid := trackMid media ssrc publisherUid
    match rtc.addTrack s.connection media mid ssrc with
    | none => ⟨s, [], true⟩
    | some connection =>
      let track : OutgoingTrack := ⟨⟨instanceId, mid⟩, ssrc, publisherSessionId⟩
      let outgoing := Function.update s.outgoing media (Function.update (s.outgoing media) publisherUid (some track))
      let bindings := (media, publisherUid, track) :: s.bindings
      ⟨{ s with connection := connection, outgoing := outgoing, bindings := bindings }, [], false⟩

/-- `MediaSession::RemoveOutgoingTracks`. -/
def removeOutgoingTracks (s : MediaSession P) (publisherUid : Int) : MediaSession P :=
  { s with outgoing := fun media => Function.update (s.outgoing media) publisherUid none }

/-- The section of `MediaSession::ForwardRtp` under `m_track_mutex`. -/
def outgoingTrack (s : MediaSession P) (publisherUid : Int) (publisherSessionId : Nat) (media : Media) :
    Option OutgoingTrack :=
  (s.outgoing media publisherUid).filter fun track => decide (track.publisherSessionId = publisherSessionId)

end MediaSession

/-! ## The calls of one session -/

/-- What happens to the description of a session. -/
inductive Happening where
  | track (mid : String)
  | request
  /-- The answer to the offer of the client. -/
  | answer
  | offer (sdp : String)
  /-- The answer of the client to an offer of the server. -/
  | answered
  deriving DecidableEq

def Notice.happening : Notice → Option Happening
  | .localDescription ⟨.offer, sdp⟩ => some (.offer sdp)
  | .localDescription ⟨.answer, _⟩ => some .answer
  | .trackReady _ => none

/-- A session, until a call throws and it is removed. -/
structure Negotiation (P : Type) where
  instanceId : Nat
  session : MediaSession P
  removed : Bool := false
  /-- What has happened, the latest first. -/
  log : List Happening := []

namespace Negotiation

variable {P : Type} (rtc : Rtc P)

inductive Event where
  | addOutgoingTrack (publisherUid : Int) (publisherSessionId : Nat) (media : Media) (ssrc : UInt32)
  | requestRenegotiation
  | setRemoteOffer (sdp : String)
  | setRemoteAnswer (sdp : String)
  | addRemoteCandidate (candidate mid : String)

/-- The session after a call, with what the call itself adds to the log. -/
def after (n : Negotiation P) (o : Outcome P) (called : List Happening) : Negotiation P :=
  if o.threw then { n with session := o.session, removed := true }
  else { n with session := o.session, log := (o.notices.filterMap Notice.happening).reverse ++ called ++ n.log }

def step (n : Negotiation P) (e : Event) : Option (Negotiation P) :=
  if n.removed then none
  else match e with
    | .addOutgoingTrack uid sessionId media ssrc =>
      some (n.after (n.session.addOutgoingTrack rtc n.instanceId uid sessionId media ssrc)
        (if (n.session.outgoing media uid).isSome then [] else [.track (trackMid media ssrc uid)]))
    | .requestRenegotiation => some (n.after (n.session.requestRenegotiation rtc) [.request])
    | .setRemoteOffer sdp => some (n.after (n.session.setRemoteOffer rtc sdp) [])
    | .setRemoteAnswer sdp => some (n.after (n.session.setRemoteAnswer rtc sdp) [.answered])
    | .addRemoteCandidate candidate mid => some (n.after (n.session.addRemoteCandidate rtc candidate mid) [])

/-- The client makes one offer. -/
def OneOffer (n : Negotiation P) : Event → Prop
  | .setRemoteOffer _ => n.session.initialAnswerCreated = false
  | _ => True

/-- What the calls can make of a session over the connection it was created with. -/
def Reachable (n : Negotiation P) : Prop :=
  ∃ connection, rtc.create n.instanceId = some connection ∧
    Reach (step rtc) OneOffer { instanceId := n.instanceId, session := { connection := connection } } n

end Negotiation

end SyncRtc.MediaServer
