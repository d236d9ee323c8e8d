import SyncRtc.Client.AvSyncScheduler
import SyncRtc.Lib.Transition

/-!
# The sound of a remote participant

`audioreceivepipeline.cpp`, and of `remotemediareceiver.cpp` what leads from it to the scheduler. A packet is known by
the samples it holds, counted on the publisher's clock; its PCM is their bytes, each byte known by its place. So what the
output plays says which moment of the publisher's time is heard. Whether a packet can be decoded is an answer of FFmpeg.
-/

set_option autoImplicit false

namespace SyncRtc.Client

/-- An Opus packet: `samples` of them from the sample `start` of the publisher's clock on. -/
structure AudioPacket where
  start : Int
  samples : Nat

/-- The place after the packet's last byte. -/
def AudioPacket.finish (packet : AudioPacket) : Int := 2 * packet.start + (2 * packet.samples : Nat)

/-- What the packet decodes to, two bytes a sample. -/
def AudioPacket.pcm (packet : AudioPacket) : List Int :=
  (List.range (2 * packet.samples)).map fun i : Nat => 2 * packet.start + i

/-- `MaxEncodedAudioFrames`. -/
def maxEncodedAudioFrames : Nat := 3

/-- The audio side of `RemoteMediaReceiver`, with the scheduler it feeds. -/
structure SoundReceiver (Frame : Type) where
  encodedFrames : List AudioPacket := []
  syncScheduler : AvSyncScheduler Frame Int := {}
  /-- The first sample that was handed to the scheduler. -/
  firstSample : Int := 0
  /-- The place after the last byte that was handed to it. -/
  handed : Option Int := none
  /-- The place after the last byte that has come in. -/
  arrived : Option Int := none
  /-- How many bytes of the publisher's time, since the first sample, were not handed on or have gone from the pending
  ones. -/
  lost : Int := 0

namespace SoundReceiver

variable {Frame : Type}

/-- `AudioReceivePipeline::receiveEncodedFrame`. -/
def receiveEncodedFrame (r : SoundReceiver Frame) (packet : AudioPacket) : SoundReceiver Frame :=
  let kept := if r.encodedFrames.length ≥ maxEncodedAudioFrames then r.encodedFrames.tail else r.encodedFrames
  { r with encodedFrames := kept ++ [packet], arrived := some packet.finish }

/-- The bytes that go when a packet is handed on: those between the last one and it, and those beyond 120 ms. -/
def lostBy (r : SoundReceiver Frame) (packet : AudioPacket) : Int :=
  2 * packet.start - r.handed.getD (2 * packet.start) +
    ((r.syncScheduler.pendingAudio ++ packet.pcm).length - maxPendingAudioBytes : Nat)

/-- `pcmDecoded`, which comes to `AvSyncScheduler::queueAudioPcm`. -/
def pcmDecoded (r : SoundReceiver Frame) (qt : Answers) (packet : AudioPacket) : SoundReceiver Frame :=
  { r with
    syncScheduler := r.syncScheduler.queueAudioPcm qt packet.pcm (stamp packet.start)
    firstSample := if r.handed.isNone then packet.start else r.firstSample
    handed := some packet.finish
    lost := r.lost + r.lostBy packet }

/-- What can happen. -/
inductive Event (Frame : Type) where
  | receiveEncodedFrame (packet : AudioPacket)
  /-- The decoder's thread takes the oldest packet, and decodes it or fails. -/
  | decodeFrame (decodes : Bool) (qt : Answers)
  | queueVideoFrame (qt : Answers) (frame : Frame) (rtpTimestamp : UInt32)
  | updatePlayback (qt : Answers)
  | soundPlays (bytes : Nat) (idle : Bool)

def step (r : SoundReceiver Frame) : Event Frame → Option (SoundReceiver Frame)
  | .receiveEncodedFrame packet => some (r.receiveEncodedFrame packet)
  | .decodeFrame decodes qt =>
    match r.encodedFrames with
    | [] => none
    | packet :: rest =>
      let r := { r with encodedFrames := rest }
      some (if decodes then r.pcmDecoded qt packet else r)
  | .queueVideoFrame qt frame rtpTimestamp =>
    some { r with syncScheduler := r.syncScheduler.queueVideoFrame qt frame rtpTimestamp }
  | .updatePlayback qt => some { r with syncScheduler := r.syncScheduler.updatePlayback qt }
  | .soundPlays bytes idle => some { r with syncScheduler := r.syncScheduler.soundPlays bytes idle }

/-- Packets come in as they were sent, those that come at all. -/
def InOrder (r : SoundReceiver Frame) : Event Frame → Prop
  | .receiveEncodedFrame packet => ∀ place ∈ r.arrived, place ≤ 2 * packet.start
  | _ => True

/-- The states of a receiver, whatever is lost on the way to it and in it. -/
def Reachable (r : SoundReceiver Frame) : Prop := Reach step InOrder {} r

end SoundReceiver

end SyncRtc.Client
