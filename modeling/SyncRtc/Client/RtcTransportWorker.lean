import SyncRtc.Lib.Transition
import SyncRtc.Lib.Wakeup

/-!
# What a client's RTC thread sends

`rtctransportworker.cpp`, and of `mediasession.cpp` what writes a packet to a track. The encoding threads hand over
whole video frames and single audio packets; the RTC thread takes them off the two queues, audio first, and hands what
it takes to the media session. The commands of the main thread run on the RTC thread, between two of its events.

A track opens and closes on the threads of libdatachannel: whether it is open is asked anew with each packet.
-/

set_option autoImplicit false

namespace SyncRtc.Client

/-- `MaxQueuedVideoFrames`. -/
def maxQueuedVideoFrames : Nat := 2

/-- `MaxQueuedAudioPackets`. -/
def maxQueuedAudioPackets : Nat := 3

/-- `QByteArray::isEmpty` of a packet. -/
structure PacketChecks (Audio Video : Type) where
  emptyAudio : Audio → Bool
  emptyVideo : Video → Bool

/-- What the RTC thread has taken off the queues in `processPendingRtp`. -/
inductive SendCall (Audio Video : Type) where
  /-- Nothing: it is at its lock, or in no call. -/
  | idle
  | audio (packet : Audio)
  | video (packets : List Video)
  /-- The packets of a frame its loop has still to hand over. -/
  | sending (packets : List Video)

/-- `RtcTransportWorker`. `process` is `m_sendScheduled` with the events it stands for. -/
structure RtcTransportWorker (Audio Video : Type) where
  videoSendingEnabled : Bool := false
  audioSendingEnabled : Bool := false
  mediaSessionStarted : Bool := false
  videoRtpFrames : List (List Video) := []
  audioRtpPackets : List Audio := []
  process : Wakeup := {}
  call : SendCall Audio Video := .idle

/-- The commands that run on the RTC thread and bear on what is sent. -/
inductive TransportCommand where
  | startMediaSession
  | stopMediaSession
  | setVideoSendingEnabled (enabled : Bool)
  | setAudioSendingEnabled (enabled : Bool)

namespace RtcTransportWorker

variable {Audio Video : Type}

/-- `RtcTransportWorker::enqueueVideoRtpPackets`, under its lock. -/
def enqueueVideoRtpPackets (w : RtcTransportWorker Audio Video) (packets : List Video) : RtcTransportWorker Audio Video :=
  if packets.isEmpty then w
  else
    let kept := if w.videoRtpFrames.length ≥ maxQueuedVideoFrames then w.videoRtpFrames.tail else w.videoRtpFrames
    { w with videoRtpFrames := kept ++ [packets], process := w.process.request }

/-- `RtcTransportWorker::enqueueAudioRtpPacket`, under its lock. -/
def enqueueAudioRtpPacket (checks : PacketChecks Audio Video) (w : RtcTransportWorker Audio Video) (packet : Audio) :
    RtcTransportWorker Audio Video :=
  if checks.emptyAudio packet then w
  else
    let kept := if w.audioRtpPackets.length ≥ maxQueuedAudioPackets then w.audioRtpPackets.tail else w.audioRtpPackets
    { w with audioRtpPackets := kept ++ [packet], process := w.process.request }

/-- An event that one of the two has to post. -/
def post (w : RtcTransportWorker Audio Video) : Option (RtcTransportWorker Audio Video) :=
  w.process.post.map fun process => { w with process := process }

/-! ## The RTC thread -/

/-- The RTC thread is in no call. -/
def Free (w : RtcTransportWorker Audio Video) : Prop := w.process.entered = false

instance (w : RtcTransportWorker Audio Video) : Decidable w.Free := inferInstanceAs (Decidable (_ = false))

/-- `RtcTransportWorker::setVideoSendingEnabled`. -/
def setVideoSendingEnabled (w : RtcTransportWorker Audio Video) (enabled : Bool) : RtcTransportWorker Audio Video :=
  { w with
    videoSendingEnabled := enabled
    videoRtpFrames := if !enabled then [] else w.videoRtpFrames }

/-- `RtcTransportWorker::setAudioSendingEnabled`. -/
def setAudioSendingEnabled (w : RtcTransportWorker Audio Video) (enabled : Bool) : RtcTransportWorker Audio Video :=
  { w with
    audioSendingEnabled := enabled
    audioRtpPackets := if !enabled then [] else w.audioRtpPackets }

/-- `RtcTransportWorker::startMediaSession`. -/
def startMediaSession (w : RtcTransportWorker Audio Video) : RtcTransportWorker Audio Video :=
  if w.mediaSessionStarted then w else { w with mediaSessionStarted := true }

theorem startMediaSession_eq (w : RtcTransportWorker Audio Video) :
    w.startMediaSession = { w with mediaSessionStarted := true } := by
  unfold startMediaSession
  split
  · next h =>
    cases w
    cases h
    rfl
  · rfl

/-- `RtcTransportWorker::stopMediaSession`. -/
def stopMediaSession (w : RtcTransportWorker Audio Video) : RtcTransportWorker Audio Video :=
  { w with
    videoSendingEnabled := false
    audioSendingEnabled := false
    videoRtpFrames := []
    audioRtpPackets := []
    mediaSessionStarted := false }

def command (w : RtcTransportWorker Audio Video) : TransportCommand → RtcTransportWorker Audio Video
  | .startMediaSession => w.startMediaSession
  | .stopMediaSession => w.stopMediaSession
  | .setVideoSendingEnabled enabled => w.setVideoSendingEnabled enabled
  | .setAudioSendingEnabled enabled => w.setAudioSendingEnabled enabled

/-- The thread takes an event. -/
def enter (w : RtcTransportWorker Audio Video) : Option (RtcTransportWorker Audio Video) :=
  w.process.enter.map fun process => { w with process := process }

/-- A round of `processPendingRtp`, under its lock: audio first, and the end when there is nothing. -/
def dequeue (checks : PacketChecks Audio Video) (w : RtcTransportWorker Audio Video) : Option (RtcTransportWorker Audio Video) :=
  if w.process.entered = false then none
  else
    match w.call with
    | .idle =>
      match w.audioRtpPackets, w.videoRtpFrames with
      | packet :: rest, _ =>
        some { w with audioRtpPackets := rest, call := if checks.emptyAudio packet then .video [] else .audio packet }
      | [], packets :: rest => some { w with videoRtpFrames := rest, call := .video packets }
      | [], [] => some { w with process := w.process.answer }
    | _ => none

/-- The audio packet is handed to the media session, if audio may be sent. -/
def sendAudio (w : RtcTransportWorker Audio Video) : Option (RtcTransportWorker Audio Video × Option Audio) :=
  match w.call with
  | .audio packet => some ({ w with call := .idle }, if w.audioSendingEnabled then some packet else none)
  | _ => none

/-- The frame is handed over if video may be sent: this is asked once. -/
def beginVideo (w : RtcTransportWorker Audio Video) : Option (RtcTransportWorker Audio Video) :=
  match w.call with
  | .video packets => some { w with call := if w.videoSendingEnabled then .sending packets else .idle }
  | _ => none

/-- The next packet of the frame is handed to the media session; after the last one the loop ends. -/
def sendVideo (w : RtcTransportWorker Audio Video) : Option (RtcTransportWorker Audio Video × Option Video) :=
  match w.call with
  | .sending (packet :: packets) => some ({ w with call := .sending packets }, some packet)
  | .sending [] => some ({ w with call := .idle }, none)
  | _ => none

/-- `MediaSession::sendVideoRtp`: whether the packet is written to the track. The session has tracks while it is
started; `isOpen` is what the track says. -/
def sendVideoRtp (checks : PacketChecks Audio Video) (w : RtcTransportWorker Audio Video) (isOpen : Bool) (packet : Video) : Bool :=
  !checks.emptyVideo packet && w.mediaSessionStarted && isOpen

/-- `MediaSession::sendAudioRtp`. -/
def sendAudioRtp (checks : PacketChecks Audio Video) (w : RtcTransportWorker Audio Video) (isOpen : Bool) (packet : Audio) : Bool :=
  !checks.emptyAudio packet && w.mediaSessionStarted && isOpen

end RtcTransportWorker

/-! ## Its runs -/

/-- A run of the worker: what came in, what was handed to the media session, and what of it was written. -/
structure TransportRun (Audio Video : Type) where
  worker : RtcTransportWorker Audio Video := {}
  frames : List (List Video) := []
  packets : List Audio := []
  handed : List Video := []
  written : List Video := []

namespace TransportRun

variable {Audio Video : Type}

/-- What can happen: the encoding threads hand something over and post, the RTC thread works, a command runs. -/
inductive Event (Audio Video : Type) where
  | enqueueVideo (packets : List Video)
  | enqueueAudio (packet : Audio)
  | post
  | enter
  | dequeue
  | sendAudio
  | beginVideo
  | sendVideo (isOpen : Bool)
  | command (c : TransportCommand)

def step (checks : PacketChecks Audio Video) (r : TransportRun Audio Video) : Event Audio Video → Option (TransportRun Audio Video)
  | .enqueueVideo packets =>
    some { r with worker := r.worker.enqueueVideoRtpPackets packets, frames := r.frames ++ [packets] }
  | .enqueueAudio packet =>
    some { r with worker := r.worker.enqueueAudioRtpPacket checks packet, packets := r.packets ++ [packet] }
  | .post => r.worker.post.map fun worker => { r with worker := worker }
  | .enter => r.worker.enter.map fun worker => { r with worker := worker }
  | .dequeue => (r.worker.dequeue checks).map fun worker => { r with worker := worker }
  | .sendAudio => r.worker.sendAudio.map fun next => { r with worker := next.1 }
  | .beginVideo => r.worker.beginVideo.map fun worker => { r with worker := worker }
  | .sendVideo isOpen =>
    r.worker.sendVideo.map fun next =>
      { r with
        worker := next.1
        handed := r.handed ++ next.2.toList
        written := r.written ++ next.2.toList.filter (r.worker.sendVideoRtp checks isOpen) }
  | .command c => if r.worker.Free then some { r with worker := r.worker.command c } else none

def Reachable (checks : PacketChecks Audio Video) (r : TransportRun Audio Video) : Prop :=
  Reach (step checks) (fun _ _ => True) {} r

end TransportRun

end SyncRtc.Client
