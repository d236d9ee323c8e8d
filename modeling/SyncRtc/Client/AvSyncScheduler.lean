import Mathlib.Algebra.Group.Int.Defs
import Mathlib.Data.List.Basic
import Mathlib.Logic.Function.Basic
import Mathlib.Order.Basic

/-!
# When a remote participant's frames are shown

`avsyncscheduler.cpp`: the PCM of one publisher is played through a sound output, and its video frames are shown when
the clock in use has come to them. The clock is what the output has played, or the local clock when there is no
sound.

`QAudioSink` is Qt's. It is kept as the bytes it was given and how many of them it has played, in the order given, as
its documentation has it; when it plays and when it turns idle is not said. What Qt answers in one call, the
monotonic clock among it, is an input of the call.
-/

set_option autoImplicit false

namespace SyncRtc.Client

/-- `AudioSampleRate`. -/
def audioSampleRate : Nat := 48000

/-- `AudioBytesPerSample`. -/
def audioBytesPerSample : Nat := 2

/-- `AudioBytesPerSecond`. -/
def audioBytesPerSecond : Nat := audioSampleRate * audioBytesPerSample

/-- `AudioPrebufferBytes`. -/
def audioPrebufferBytes : Nat := audioBytesPerSecond * 40 / 1000

/-- `MaxPendingAudioBytes`. -/
def maxPendingAudioBytes : Nat := audioBytesPerSecond * 120 / 1000

/-- `VideoClockRate`. -/
def videoClockRate : Nat := 90000

/-- `MaxPendingVideoFrames`. -/
def maxPendingVideoFrames : Nat := 3

/-- `VideoEarlyToleranceUs`. -/
def videoEarlyToleranceUs : Int := 10 * 1000

/-- `VideoLateThresholdUs`. -/
def videoLateThresholdUs : Int := 100 * 1000

/-- `AudioMissingThresholdUs`. -/
def audioMissingThresholdUs : Int := 200 * 1000

/-- The RTP timestamp of a media time, in ticks of its clock. -/
def stamp (time : Int) : UInt32 := UInt32.ofNat (time % 2 ^ 32).toNat

/-- `rtpDurationUs`. -/
def rtpDurationUs (timestampDelta : UInt32) (clockRate : Nat) : Int :=
  (timestampDelta.toNat * 1000 * 1000 / clockRate : Nat)

/-- A `QAudioSink` that was started. -/
structure AudioSink (Byte : Type) where
  /-- What was written to it. -/
  written : List Byte := []
  /-- How many bytes it has played. -/
  played : Nat := 0
  /-- Whether its state is `IdleState`. -/
  idle : Bool := true

/-- `QAudioSink::processedUSecs`. -/
def AudioSink.processedUSecs {Byte : Type} (sink : AudioSink Byte) : Int :=
  (sink.played / audioBytesPerSample * 1000000 / audioSampleRate : Nat)

/-- `PendingVideoFrame`. -/
structure PendingVideoFrame (Frame : Type) where
  frame : Frame
  rtpTimestamp : UInt32

/-- `AvSyncScheduler`. The output device is there when the sink is: `startAudioPlayback` keeps both or neither. -/
structure AvSyncScheduler (Frame Byte : Type) where
  audioSink : Option (AudioSink Byte) := none
  pendingAudio : List Byte := []
  pendingVideoFrames : List (PendingVideoFrame Frame) := []
  firstAudioTimestamp : UInt32 := 0
  firstVideoTimestamp : UInt32 := 0
  firstAudioArrivalUs : Int := 0
  firstVideoArrivalUs : Int := 0
  lastAudioArrivalUs : Int := 0
  hasAudioTimestamp : Bool := false
  hasVideoTimestamp : Bool := false
  audioPlaybackUnavailable : Bool := false

/-- What Qt answers during one call. -/
structure Answers where
  /-- `currentLocalTimeUs`. -/
  currentLocalTimeUs : Int
  /-- Whether there is a default output device that supports the format and starts. -/
  outputStarts : Bool := true
  /-- `QAudioSink::bytesFree`. -/
  bytesFree : Int := 0
  /-- What `QIODevice::write` answers. -/
  write : Int := 0

namespace AvSyncScheduler

variable {Frame Byte : Type}

/-- The first video frame anchors the video. -/
def noteVideo (s : AvSyncScheduler Frame Byte) (qt : Answers) (rtpTimestamp : UInt32) : AvSyncScheduler Frame Byte :=
  if s.hasVideoTimestamp then s
  else { s with
    firstVideoTimestamp := rtpTimestamp
    firstVideoArrivalUs := qt.currentLocalTimeUs
    hasVideoTimestamp := true }

/-- The end of `queueVideoFrame`: three frames are kept at most. -/
def pushVideo (s : AvSyncScheduler Frame Byte) (videoFrame : PendingVideoFrame Frame) : AvSyncScheduler Frame Byte :=
  let kept := if s.pendingVideoFrames.length ≥ maxPendingVideoFrames then s.pendingVideoFrames.tail
    else s.pendingVideoFrames
  { s with pendingVideoFrames := kept ++ [videoFrame] }

/-- `AvSyncScheduler::queueVideoFrame`. -/
def queueVideoFrame (s : AvSyncScheduler Frame Byte) (qt : Answers) (frame : Frame) (rtpTimestamp : UInt32) :
    AvSyncScheduler Frame Byte :=
  (s.noteVideo qt rtpTimestamp).pushVideo ⟨frame, rtpTimestamp⟩

/-- `AvSyncScheduler::startAudioPlayback`. -/
def startAudioPlayback (s : AvSyncScheduler Frame Byte) (qt : Answers) : AvSyncScheduler Frame Byte :=
  if qt.outputStarts then { s with audioSink := some {} }
  else { s with audioPlaybackUnavailable := true, pendingAudio := [] }

/-- `AvSyncScheduler::writePendingAudio`. A write takes no more than it was offered. -/
def writePendingAudio (s : AvSyncScheduler Frame Byte) (qt : Answers) : AvSyncScheduler Frame Byte :=
  match s.audioSink with
  | none => s
  | some sink =>
    let bytesToWrite := min qt.bytesFree s.pendingAudio.length
    let bytesWritten := (min qt.write bytesToWrite).toNat
    { s with
      audioSink := some { sink with written := sink.written ++ s.pendingAudio.take bytesWritten }
      pendingAudio := s.pendingAudio.drop bytesWritten }

/-- The first PCM anchors the sound. -/
def noteAudio (s : AvSyncScheduler Frame Byte) (qt : Answers) (rtpTimestamp : UInt32) : AvSyncScheduler Frame Byte :=
  if s.hasAudioTimestamp then s
  else { s with
    firstAudioTimestamp := rtpTimestamp
    firstAudioArrivalUs := qt.currentLocalTimeUs
    hasAudioTimestamp := true }

/-- PCM joins what is pending, and the oldest beyond 120 ms goes. -/
def pushAudio (s : AvSyncScheduler Frame Byte) (qt : Answers) (pcmData : List Byte) : AvSyncScheduler Frame Byte :=
  let pending := s.pendingAudio ++ pcmData
  { s with
    lastAudioArrivalUs := qt.currentLocalTimeUs
    pendingAudio := pending.drop (pending.length - maxPendingAudioBytes) }

/-- `AvSyncScheduler::queueAudioPcm`. -/
def queueAudioPcm (s : AvSyncScheduler Frame Byte) (qt : Answers) (pcmData : List Byte) (rtpTimestamp : UInt32) :
    AvSyncScheduler Frame Byte :=
  if s.audioPlaybackUnavailable then s
  else
    let s := (s.noteAudio qt rtpTimestamp).pushAudio qt pcmData
    if s.audioSink.isNone ∧ s.pendingAudio.length ≥ audioPrebufferBytes then
      (s.startAudioPlayback qt).writePendingAudio qt
    else s.writePendingAudio qt

/-- `AvSyncScheduler::usesAudioClock`. -/
def usesAudioClock (s : AvSyncScheduler Frame Byte) (qt : Answers) : Bool :=
  match s.audioSink with
  | none => false
  | some sink =>
    let audioRecentlyArrived := qt.currentLocalTimeUs - s.lastAudioArrivalUs < audioMissingThresholdUs
    !sink.idle || audioRecentlyArrived || !s.pendingAudio.isEmpty

/-- `AvSyncScheduler::audioClockUs`. -/
def audioClockUs (s : AvSyncScheduler Frame Byte) (qt : Answers) : Int :=
  match s.audioSink with
  | some sink =>
    if s.usesAudioClock qt then rtpDurationUs s.firstAudioTimestamp audioSampleRate + sink.processedUSecs
    else qt.currentLocalTimeUs
  | none => qt.currentLocalTimeUs

/-- `AvSyncScheduler::videoPresentationTimeUs`. -/
def videoPresentationTimeUs (s : AvSyncScheduler Frame Byte) (qt : Answers) (rtpTimestamp : UInt32) : Int :=
  let timestampDelta := rtpTimestamp - s.firstVideoTimestamp
  let videoElapsedUs := rtpDurationUs timestampDelta videoClockRate
  if s.usesAudioClock qt then
    let firstAudioTimeUs := rtpDurationUs s.firstAudioTimestamp audioSampleRate
    let firstFrameArrivalDifference := s.firstVideoArrivalUs - s.firstAudioArrivalUs
    firstAudioTimeUs + firstFrameArrivalDifference + videoElapsedUs
  else s.firstVideoArrivalUs + videoElapsedUs

/-- What `updatePlayback` calls `difference`: how far a frame is ahead of the clock. -/
def difference (s : AvSyncScheduler Frame Byte) (qt : Answers) (rtpTimestamp : UInt32) : Int :=
  s.videoPresentationTimeUs qt rtpTimestamp - s.audioClockUs qt

/-- The loop of `AvSyncScheduler::updatePlayback`: the frame it shows, if any, and those it leaves pending. -/
def playFrames (difference : UInt32 → Int) :
    List (PendingVideoFrame Frame) → Option Frame × List (PendingVideoFrame Frame)
  | [] => (none, [])
  | videoFrame :: rest =>
    if difference videoFrame.rtpTimestamp > videoEarlyToleranceUs then (none, videoFrame :: rest)
    else if difference videoFrame.rtpTimestamp < -videoLateThresholdUs then playFrames difference rest
    else (some videoFrame.frame, rest)

/-- Sound has begun to come in and is not yet enough to be played. -/
def waitsForAudio (s : AvSyncScheduler Frame Byte) (qt : Answers) : Bool :=
  s.hasAudioTimestamp && !s.audioPlaybackUnavailable && s.audioSink.isNone
    && qt.currentLocalTimeUs - s.lastAudioArrivalUs < audioMissingThresholdUs

/-- `AvSyncScheduler::updatePlayback`. -/
def updatePlayback (s : AvSyncScheduler Frame Byte) (qt : Answers) : AvSyncScheduler Frame Byte :=
  let s := s.writePendingAudio qt
  if s.waitsForAudio qt then s
  else { s with pendingVideoFrames := (playFrames (s.difference qt) s.pendingVideoFrames).2 }

/-- The frame `updatePlayback` emits `videoFrameReady` with. -/
def videoFrameReady (s : AvSyncScheduler Frame Byte) (qt : Answers) : Option Frame :=
  let s := s.writePendingAudio qt
  if s.waitsForAudio qt then none else (playFrames (s.difference qt) s.pendingVideoFrames).1

/-- The output plays some of what it has, and may turn idle or active. -/
def soundPlays (s : AvSyncScheduler Frame Byte) (bytes : Nat) (idle : Bool) : AvSyncScheduler Frame Byte :=
  { s with audioSink := s.audioSink.map fun sink =>
      { sink with played := min (sink.played + bytes) sink.written.length, idle := idle } }

end AvSyncScheduler

/-! ## Runs -/

/-- What happens to a scheduler. -/
inductive PlaybackEvent (Frame Byte : Type) where
  | queueVideoFrame (qt : Answers) (frame : Frame) (rtpTimestamp : UInt32)
  | queueAudioPcm (qt : Answers) (pcmData : List Byte) (rtpTimestamp : UInt32)
  | updatePlayback (qt : Answers)
  | soundPlays (bytes : Nat) (idle : Bool)

namespace PlaybackEvent

variable {Frame Byte : Type}

/-- The timestamp of the video frame an event brings, and when it brings it. -/
def videoArrival : PlaybackEvent Frame Byte → Option (UInt32 × Int)
  | .queueVideoFrame qt _ rtpTimestamp => some (rtpTimestamp, qt.currentLocalTimeUs)
  | _ => none

def step (s : AvSyncScheduler Frame Byte) : PlaybackEvent Frame Byte → AvSyncScheduler Frame Byte
  | .queueVideoFrame qt frame rtpTimestamp => s.queueVideoFrame qt frame rtpTimestamp
  | .queueAudioPcm qt pcmData rtpTimestamp => s.queueAudioPcm qt pcmData rtpTimestamp
  | .updatePlayback qt => s.updatePlayback qt
  | .soundPlays bytes idle => s.soundPlays bytes idle

/-- The scheduler after some events, from its construction. -/
def run (events : List (PlaybackEvent Frame Byte)) : AvSyncScheduler Frame Byte := events.foldl step {}

/-- The video frames received. -/
def videoArrivals (events : List (PlaybackEvent Frame Byte)) : List (UInt32 × Int) := events.filterMap videoArrival

/-- Their timestamps. -/
def videoTimestamps (events : List (PlaybackEvent Frame Byte)) : List UInt32 := (videoArrivals events).map Prod.fst

end PlaybackEvent

/-! ## The receivers of a participant -/

/-- The receiving side of `MediaController`. A receiver is there for each publisher a frame has come of; the decoders
of `RemoteMediaReceiver` hand on what they are given. -/
structure RemoteReceivers (Frame Byte : Type) where
  mediaStopped : Bool := true
  remoteReceivers : Int → Option (AvSyncScheduler Frame Byte) := fun _ => none

namespace RemoteReceivers

variable {Frame Byte : Type}

/-- `MediaController::receiverFor`. -/
def receiverFor (c : RemoteReceivers Frame Byte) (publisherUid : Int) : AvSyncScheduler Frame Byte :=
  (c.remoteReceivers publisherUid).getD {}

/-- What happens to the receiver of a publisher. Frames make one where there is none
(`slotRemoteVideoEncodedFrameReady`, `slotRemoteAudioEncodedFrameReady`). -/
def receive (c : RemoteReceivers Frame Byte) (publisherUid : Int) (e : PlaybackEvent Frame Byte) :
    RemoteReceivers Frame Byte :=
  match e with
  | .queueVideoFrame .. | .queueAudioPcm .. =>
    if c.mediaStopped then c
    else { c with
      remoteReceivers := Function.update c.remoteReceivers publisherUid
        (some (PlaybackEvent.step (c.receiverFor publisherUid) e)) }
  | .updatePlayback _ | .soundPlays .. =>
    { c with
      remoteReceivers := Function.update c.remoteReceivers publisherUid
        ((c.remoteReceivers publisherUid).map fun s => PlaybackEvent.step s e) }

/-- `MediaController::requestStopAll`. -/
def requestStopAll (c : RemoteReceivers Frame Byte) : RemoteReceivers Frame Byte :=
  { c with mediaStopped := true, remoteReceivers := fun _ => none }

end RemoteReceivers

end SyncRtc.Client
