import SyncRtc.Client.AudioEncodeWorker
import SyncRtc.Client.RtcTransportWorker
import SyncRtc.Client.VideoThread

/-!
# Opening and closing a client's microphone and camera

`mediacontroller.cpp`, over the workers of the three media threads. The main thread takes what the devices capture, and
makes its requests as blocking calls: each runs on the thread of its worker, between two of the events there.

Every chunk of PCM and every frame is numbered as it is captured, and its samples and pictures bear the number. The
workers do not look at it. `log` is what is seen of a run, the oldest first.
-/

set_option autoImplicit false

namespace SyncRtc.Client

/-- A request, with whether the device it starts did start. A call that is answered at once is a request too. -/
inductive MediaRequest where
  | openCamera (started : Bool)
  | closeCamera
  | openMicrophone (started : Bool)
  | closeMicrophone
  | stopAll

/-- A `Qt::BlockingQueuedConnection`. -/
inductive BlockingCall where
  | startVideo
  | stopVideo
  | startAudio
  | stopAudio
  | transport (commands : List TransportCommand)

/-- The blocking calls of a request, in turn. -/
def MediaRequest.calls : MediaRequest → List BlockingCall
  | .openCamera true => [.startVideo, .transport [.startMediaSession, .setVideoSendingEnabled true]]
  | .openCamera false => [.startVideo, .stopVideo]
  | .closeCamera => [.stopVideo, .transport [.setVideoSendingEnabled false]]
  | .openMicrophone true => [.startAudio, .transport [.setAudioSendingEnabled true]]
  | .openMicrophone false => [.startAudio, .stopAudio]
  | .closeMicrophone => [.stopAudio, .transport [.setAudioSendingEnabled false]]
  | .stopAll => [.stopVideo, .stopAudio, .transport [.stopMediaSession]]

/-- Whether PCM may come in while the request is made: not from a microphone that does not start. Between its calls the
main thread starts and stops devices. -/
def MediaRequest.givesPcm : MediaRequest → Bool
  | .openMicrophone started => started
  | _ => true

def MediaRequest.givesFrames : MediaRequest → Bool
  | .openCamera started => started
  | _ => true

/-- A chunk of PCM or a frame, with its number. -/
abbrev Tagged (α : Type) := Nat × α

/-- What is seen of a run. -/
inductive MediaEntry (Byte Frame : Type) where
  | pcmCaptured (n : Nat)
  | frameCaptured (n : Nat)
  | requested (request : MediaRequest)
  | returned (request : MediaRequest)
  /-- A packet was written to the audio track. -/
  | audioRtp (packet : StampedAudio (Tagged Byte))
  | videoRtp (packet : StampedVideo (Tagged Frame))

/-- The libraries: the encoders, and what is asked of frames and packets. -/
structure MediaLibraries (Byte Frame : Type) where
  opus : AudioEncoder (Tagged Byte)
  codec : VideoCodec (Tagged Frame)
  qt : FrameChecks (Tagged Frame)
  checks : PacketChecks (StampedAudio (Tagged Byte)) (StampedVideo (Tagged Frame))

/-- `MediaController`, with its workers. -/
structure MediaController (Byte Frame : Type) where
  cameraEnabled : Bool := false
  microphoneEnabled : Bool := false
  audioEncodeWorker : AudioEncodeWorker (Tagged Byte) := {}
  /-- The packets `encodeAudioFrame` has still to hand over. -/
  audioMessages : List (StampedAudio (Tagged Byte)) := []
  videoEncodeWorker : VideoThread (Tagged Frame) := {}
  rtcTransportWorker : RtcTransportWorker (StampedAudio (Tagged Byte)) (StampedVideo (Tagged Frame)) := {}
  /-- The request the main thread is at, with the calls it has still to make. -/
  request : Option (MediaRequest × List BlockingCall) := none
  pcmChunks : Nat := 0
  videoFrames : Nat := 0
  log : List (MediaEntry Byte Frame) := []

namespace MediaController

variable {Byte Frame : Type}

/-! ## The main thread -/

/-- `slotAudioPcmDataCaptured` and `AudioEncodeWorker::enqueueAudioPcmData`. -/
def slotAudioPcmDataCaptured (s : MediaController Byte Frame) (pcmData : List Byte) : MediaController Byte Frame :=
  let chunk := pcmData.map fun byte => (s.pcmChunks, byte)
  { s with
    audioEncodeWorker :=
      if !s.audioEncodeWorker.acceptingPcm || pcmData.isEmpty then s.audioEncodeWorker else s.audioEncodeWorker.append chunk
    pcmChunks := s.pcmChunks + 1
    log := s.log ++ [.pcmCaptured s.pcmChunks] }

/-- `slotVideoFrameCaptured` and `VideoEncodeWorker::enqueueVideoFrame`. -/
def slotVideoFrameCaptured (lib : MediaLibraries Byte Frame) (s : MediaController Byte Frame) (frame : Frame) :
    MediaController Byte Frame :=
  { s with
    videoEncodeWorker :=
      if !s.videoEncodeWorker.acceptingFrames || !lib.qt.isValid (s.videoFrames, frame) then s.videoEncodeWorker
      else s.videoEncodeWorker.keep (s.videoFrames, frame)
    videoFrames := s.videoFrames + 1
    log := s.log ++ [.frameCaptured s.videoFrames] }

/-- Whether the request returns at its first line. -/
def answersAtOnce (s : MediaController Byte Frame) : MediaRequest → Bool
  | .openCamera _ => s.cameraEnabled
  | .closeCamera => !s.cameraEnabled
  | .openMicrophone _ => s.microphoneEnabled
  | .closeMicrophone => !s.microphoneEnabled
  | .stopAll => false

/-- The main thread makes a request. -/
def begin (s : MediaController Byte Frame) (r : MediaRequest) : MediaController Byte Frame :=
  if s.answersAtOnce r then { s with log := s.log ++ [.requested r, .returned r] }
  else { s with request := some (r, r.calls), log := s.log ++ [.requested r] }

/-- The audio thread is in no call. -/
def audioFree (s : MediaController Byte Frame) : Bool := s.audioEncodeWorker.free && s.audioMessages.isEmpty

/-- A blocking call runs, as soon as its thread is free. -/
def run (s : MediaController Byte Frame) : BlockingCall → Option (MediaController Byte Frame)
  | .startVideo =>
    if s.videoEncodeWorker.free then some { s with videoEncodeWorker := s.videoEncodeWorker.start } else none
  | .stopVideo =>
    if s.videoEncodeWorker.free then some { s with videoEncodeWorker := s.videoEncodeWorker.stop } else none
  | .startAudio => if s.audioFree then some { s with audioEncodeWorker := s.audioEncodeWorker.start } else none
  | .stopAudio => if s.audioFree then some { s with audioEncodeWorker := s.audioEncodeWorker.stop } else none
  | .transport commands =>
    if s.rtcTransportWorker.Free then
      some { s with rtcTransportWorker := commands.foldl RtcTransportWorker.command s.rtcTransportWorker }
    else none

/-- The last lines of a request. -/
def settle (s : MediaController Byte Frame) : MediaRequest → MediaController Byte Frame
  | .openCamera started => { s with cameraEnabled := started }
  | .closeCamera => { s with cameraEnabled := false }
  | .openMicrophone started => { s with microphoneEnabled := started }
  | .closeMicrophone => { s with microphoneEnabled := false }
  | .stopAll => { s with cameraEnabled := false, microphoneEnabled := false }

/-- The next of the calls of the request is made, or it returns. -/
def proceed (s : MediaController Byte Frame) : Option (MediaController Byte Frame) :=
  match s.request with
  | none => none
  | some (r, c :: calls) => (s.run c).map fun s => { s with request := some (r, calls) }
  | some (r, []) => some { s.settle r with request := none, log := s.log ++ [.returned r] }

/-! ## Steps -/

inductive MainEvent (Byte Frame : Type) where
  | slotAudioPcmDataCaptured (pcmData : List Byte)
  | slotVideoFrameCaptured (frame : Frame)
  /-- The event of a capture is posted. -/
  | postPcm
  | postFrame
  | begin (r : MediaRequest)
  | proceed

inductive AudioEvent where
  | enter
  | takePending
  | advance
  | encodeNext (writable : Bool)
  /-- A packet is handed over to the RTC thread. -/
  | enqueue
  | finish

inductive VideoEvent where
  | enter
  | takePending
  | processVideoFrame
  | packetizeNext
  | finish

inductive RtcEvent where
  /-- An event that was owed is posted. -/
  | post
  | enter
  | dequeue
  | sendAudio (isOpen : Bool)
  | beginVideo
  | sendVideo (isOpen : Bool)

inductive Event (Byte Frame : Type) where
  | main (e : MainEvent Byte Frame)
  | audio (e : AudioEvent)
  | video (e : VideoEvent)
  | rtc (e : RtcEvent)

def stepMain (lib : MediaLibraries Byte Frame) (s : MediaController Byte Frame) :
    MainEvent Byte Frame → Option (MediaController Byte Frame)
  | .slotAudioPcmDataCaptured pcmData =>
    if s.request.all fun request => request.1.givesPcm then some (s.slotAudioPcmDataCaptured pcmData) else none
  | .slotVideoFrameCaptured frame =>
    if s.request.all fun request => request.1.givesFrames then some (s.slotVideoFrameCaptured lib frame) else none
  | .postPcm => s.audioEncodeWorker.post.map fun worker => { s with audioEncodeWorker := worker }
  | .postFrame => s.videoEncodeWorker.post.map fun worker => { s with videoEncodeWorker := worker }
  | .begin r => if s.request.isNone then some (s.begin r) else none
  | .proceed => s.proceed

/-- The audio thread. It does nothing else while it has packets to hand over. -/
def stepAudio (lib : MediaLibraries Byte Frame) (s : MediaController Byte Frame) : AudioEvent → Option (MediaController Byte Frame)
  | .enqueue =>
    match s.audioMessages with
    | [] => none
    | packet :: rest =>
      some { s with
        audioMessages := rest
        rtcTransportWorker := s.rtcTransportWorker.enqueueAudioRtpPacket lib.checks packet }
  | .enter => s.audioEncodeWorker.enter.map fun worker => { s with audioEncodeWorker := worker }
  | .takePending => s.audioEncodeWorker.takePending.map fun worker => { s with audioEncodeWorker := worker }
  | .advance => s.audioEncodeWorker.advance.map fun worker => { s with audioEncodeWorker := worker }
  | .encodeNext writable =>
    if s.audioMessages.isEmpty then
      (s.audioEncodeWorker.encodeNext lib.opus writable).map fun next =>
        { s with audioEncodeWorker := next.1, audioMessages := next.2 }
    else none
  | .finish =>
    if s.audioMessages.isEmpty then s.audioEncodeWorker.finish.map fun worker => { s with audioEncodeWorker := worker }
    else none

def stepVideo (lib : MediaLibraries Byte Frame) (s : MediaController Byte Frame) : VideoEvent → Option (MediaController Byte Frame)
  | .enter => s.videoEncodeWorker.enter.map fun worker => { s with videoEncodeWorker := worker }
  | .takePending => s.videoEncodeWorker.takePending.map fun worker => { s with videoEncodeWorker := worker }
  | .processVideoFrame =>
    (s.videoEncodeWorker.processVideoFrame lib.qt lib.codec).map fun worker => { s with videoEncodeWorker := worker }
  | .packetizeNext =>
    (s.videoEncodeWorker.packetizeNext lib.codec).map fun next =>
      { s with
        videoEncodeWorker := next.1
        rtcTransportWorker := s.rtcTransportWorker.enqueueVideoRtpPackets next.2 }
  | .finish => s.videoEncodeWorker.finish.map fun worker => { s with videoEncodeWorker := worker }

def stepRtc (lib : MediaLibraries Byte Frame) (s : MediaController Byte Frame) : RtcEvent → Option (MediaController Byte Frame)
  | .post => s.rtcTransportWorker.post.map fun worker => { s with rtcTransportWorker := worker }
  | .enter => s.rtcTransportWorker.enter.map fun worker => { s with rtcTransportWorker := worker }
  | .dequeue => (s.rtcTransportWorker.dequeue lib.checks).map fun worker => { s with rtcTransportWorker := worker }
  | .sendAudio isOpen =>
    s.rtcTransportWorker.sendAudio.map fun next =>
      { s with
        rtcTransportWorker := next.1
        log := s.log ++ (next.2.toList.filter (s.rtcTransportWorker.sendAudioRtp lib.checks isOpen)).map .audioRtp }
  | .beginVideo => s.rtcTransportWorker.beginVideo.map fun worker => { s with rtcTransportWorker := worker }
  | .sendVideo isOpen =>
    s.rtcTransportWorker.sendVideo.map fun next =>
      { s with
        rtcTransportWorker := next.1
        log := s.log ++ (next.2.toList.filter (s.rtcTransportWorker.sendVideoRtp lib.checks isOpen)).map .videoRtp }

/-- A step of one of the threads. -/
def step (lib : MediaLibraries Byte Frame) (s : MediaController Byte Frame) : Event Byte Frame → Option (MediaController Byte Frame)
  | .main e => s.stepMain lib e
  | .audio e => s.stepAudio lib e
  | .video e => s.stepVideo lib e
  | .rtc e => s.stepRtc lib e

/-- Every interleaving. -/
def Reachable (lib : MediaLibraries Byte Frame) (s : MediaController Byte Frame) : Prop :=
  Reach (step lib) (fun _ _ => True) {} s

end MediaController

end SyncRtc.Client
