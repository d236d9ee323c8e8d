import Mathlib.Data.List.AList
import SyncRtc.MediaServer.MediaSession

/-!
# A media room

`MediaRoom.cpp`: the members of a meeting that have a media session, and the SSRCs of those that publish. What is
done under the lock of the room is a function here; `LogicSystem` calls it as one step.
-/

set_option autoImplicit false

namespace SyncRtc.MediaServer

/-- `MediaPeer`. -/
structure MediaPeer where
  uid : Int
  session : Option SessionInfo
  deriving DecidableEq

/-- A track that is to be added to a session. -/
structure OutgoingTrackBinding where
  session : SessionInfo
  publisherUid : Int
  publisherSessionId : Nat
  media : Media
  ssrc : UInt32
  deriving DecidableEq

structure MediaRoom where
  meetingId : Nat
  nextSsrc : UInt32 := 100000
  peers : AList fun _ : Int => MediaPeer := ∅
  /-- `m_video_publishers` and `m_audio_publishers`. -/
  publishers : Media → AList fun _ : Int => UInt32 := fun _ => ∅
  /-- The SSRCs that have been given to instances, the latest first. -/
  registered : List (Nat × Media × UInt32) := []

namespace MediaRoom

/-- `MediaRoom::AddPeer`. -/
def addPeer (r : MediaRoom) (peer : MediaPeer) : MediaRoom := { r with peers := r.peers.insert peer.uid peer }

/-- `MediaRoom::GetPeer`. -/
def getPeer (r : MediaRoom) (uid : Int) : Option MediaPeer := r.peers.lookup uid

/-- `MediaRoom::PeerCount`. -/
def peerCount (r : MediaRoom) : Nat := r.peers.entries.length

/-- The session of a member. -/
def sessionOf (r : MediaRoom) (uid : Int) : Option SessionInfo := (r.getPeer uid).bind MediaPeer.session

/-- The sessions of the members, each with the key of its member. -/
def memberSessions (r : MediaRoom) : List (Int × SessionInfo) :=
  r.peers.entries.filterMap fun ⟨uid, peer⟩ => peer.session.map (uid, ·)

/-- The section of `MediaRoom::RemovePeer`: the sessions that remain, unless another instance is expected. -/
def removePeer (r : MediaRoom) (uid : Int) (expectedSessionId : Nat) : Option (List SessionInfo × MediaRoom) :=
  if expectedSessionId ≠ 0 ∧ (r.sessionOf uid).map SessionInfo.instanceId ≠ some expectedSessionId then none
  else
    let r := { r with peers := r.peers.erase uid, publishers := fun media => (r.publishers media).erase uid }
    some (r.memberSessions.map Prod.snd, r)

/-- `MediaRoom::GetSessionsForConnection`. -/
def getSessionsForConnection (r : MediaRoom) (connection : Nat) : List SessionInfo :=
  (r.memberSessions.map Prod.snd).filter fun session => decide (session.signalSession = connection)

/-- The two bindings by which a session gets a publisher. -/
def bindingsOf (session : SessionInfo) (publisherUid : Int) (publisherSessionId : Nat) (video audio : UInt32) :
    List OutgoingTrackBinding :=
  [⟨session, publisherUid, publisherSessionId, .video, video⟩, ⟨session, publisherUid, publisherSessionId, .audio, audio⟩]

/-- What a new publisher gets of those there are. `none` where `m_peers.at` fails, or the session is missing. -/
def existingBindings (r : MediaRoom) (publisherUid : Int) (session : SessionInfo) :
    List (Sigma fun _ : Int => UInt32) → Option (List OutgoingTrackBinding)
  | [] => some []
  | ⟨uid, video⟩ :: publishers =>
    if uid = publisherUid then r.existingBindings publisherUid session publishers
    else match (r.publishers .audio).lookup uid with
      | none => r.existingBindings publisherUid session publishers
      | some audio =>
        (r.sessionOf uid).bind fun existing =>
          (r.existingBindings publisherUid session publishers).map
            (bindingsOf session uid existing.instanceId video audio ++ ·)

/-- A track of a publisher gets the next SSRC. -/
def withTrack (r : MediaRoom) (session : SessionInfo) (publisherUid : Int) (media : Media) : MediaRoom :=
  { r with
    nextSsrc := r.nextSsrc + 1
    publishers := Function.update r.publishers media ((r.publishers media).insert publisherUid r.nextSsrc)
    registered := (session.instanceId, media, r.nextSsrc) :: r.registered }

/-- The tracks to add and the sessions to negotiate for a publisher, once it publishes both media. -/
def tracksToAdd (r : MediaRoom) (session : SessionInfo) (publisherUid : Int) :
    Option (List OutgoingTrackBinding × List SessionInfo) :=
  match (r.publishers .video).lookup publisherUid, (r.publishers .audio).lookup publisherUid with
  | some video, some audio =>
    let others := (r.memberSessions.filter fun member => decide (member.1 ≠ publisherUid)).map Prod.snd
    let forOthers := others.flatMap fun target => bindingsOf target publisherUid session.instanceId video audio
    (r.existingBindings publisherUid session (r.publishers .video).entries).map fun forPublisher =>
      (forOthers ++ forPublisher, others ++ if forPublisher.isEmpty then [] else [session])
  | _, _ => some ([], [])

/-- The section of `MediaRoom::RegisterPublisherTrack`: what is to be added and negotiated, or `none` for an
exception. -/
def registerPublisherTrack (r : MediaRoom) (publisherUid : Int) (media : Media) :
    Option (List OutgoingTrackBinding × List SessionInfo) × MediaRoom :=
  match r.sessionOf publisherUid with
  | none => (some ([], []), r)
  | some session =>
    if ((r.publishers media).lookup publisherUid).isSome then (some ([], []), r)
    else
      let r := r.withTrack session publisherUid media
      (r.tracksToAdd session publisherUid, r)

/-- The section of `MediaRoom::ForwardRtp`. -/
def targetSessions (r : MediaRoom) (publisherUid : Int) (publisherSessionId : Nat) : List SessionInfo :=
  if (r.sessionOf publisherUid).map SessionInfo.instanceId = some publisherSessionId then
    (r.memberSessions.filter fun member => decide (member.1 ≠ publisherUid)).map Prod.snd
  else []

end MediaRoom

end SyncRtc.MediaServer
