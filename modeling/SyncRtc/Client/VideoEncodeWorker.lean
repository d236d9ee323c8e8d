import Mathlib.Logic.Basic

/-!
# What a publisher's camera sends

`videoencodeworker.cpp`, and of `mediacontroller.cpp` and `rtctransportworker.cpp` what opens and closes the camera
and the media session. The slot between the capturing thread and the worker holds one frame. The encoder makes one
packet of a frame and the packetizer stamps it with the timestamp it is given; the transport passes on what it gets
while it may send.
-/

set_option autoImplicit false

namespace SyncRtc.Client

/-- A frame the packetizer has made RTP packets of. -/
structure SentFrame (Frame : Type) where
  frame : Frame
  pts : Nat
  rtpTimestamp : UInt32

/-- `VideoEncodeWorker`. -/
structure VideoEncodeWorker (Frame : Type) where
  videoStarted : Bool := false
  videoPts : Nat := 0
  videoTimestamp : UInt32 := 0
  pendingFrame : Option Frame := none
  frameScheduled : Bool := false
  acceptingFrames : Bool := false
  /-- The calls of `processNextFrame` in the queue of the worker's thread. -/
  scheduledCalls : Nat := 0

/-- What Qt says of a captured frame. -/
structure FrameChecks (Frame : Type) where
  /-- `QVideoFrame::isValid`. -/
  isValid : Frame → Bool
  /-- Whether the frame can be mapped and is of a format the scaler knows. -/
  isConvertible : Frame → Bool

namespace VideoEncodeWorker

variable {Frame : Type}

/-- `VideoEncodeWorker::enqueueVideoFrame`. -/
def enqueueVideoFrame (qt : FrameChecks Frame) (w : VideoEncodeWorker Frame) (frame : Frame) :
    VideoEncodeWorker Frame :=
  if !w.acceptingFrames || !qt.isValid frame then w
  else { w with
    pendingFrame := some frame
    frameScheduled := true
    scheduledCalls := if w.frameScheduled then w.scheduledCalls else w.scheduledCalls + 1 }

/-- `VideoEncodeWorker::start`. -/
def start (w : VideoEncodeWorker Frame) : VideoEncodeWorker Frame :=
  if w.videoStarted then w
  else { w with videoPts := 0, videoTimestamp := 0, videoStarted := true, acceptingFrames := true }

/-- `VideoEncodeWorker::stop`. -/
def stop (w : VideoEncodeWorker Frame) : VideoEncodeWorker Frame :=
  let w := { w with acceptingFrames := false, pendingFrame := none, frameScheduled := false }
  if !w.videoStarted then w else { w with videoPts := 0, videoTimestamp := 0, videoStarted := false }

/-- `VideoEncodeWorker::sendVideoFrame` with `packetizeH264Frame`. -/
def sendVideoFrame (w : VideoEncodeWorker Frame) (frame : Frame) : VideoEncodeWorker Frame × Option (SentFrame Frame) :=
  ({ w with videoPts := w.videoPts + 1, videoTimestamp := w.videoTimestamp + 3000 },
    some ⟨frame, w.videoPts, w.videoTimestamp⟩)

/-- `VideoEncodeWorker::processVideoFrame`. -/
def processVideoFrame (qt : FrameChecks Frame) (w : VideoEncodeWorker Frame) (frame : Frame) :
    VideoEncodeWorker Frame × Option (SentFrame Frame) :=
  if !w.videoStarted || !qt.isConvertible frame then (w, none) else w.sendVideoFrame frame

/-- `VideoEncodeWorker::processNextFrame`: a call has left the queue. -/
def processNextFrame (qt : FrameChecks Frame) (w : VideoEncodeWorker Frame) :
    VideoEncodeWorker Frame × Option (SentFrame Frame) :=
  let w := { w with frameScheduled := false, scheduledCalls := w.scheduledCalls - 1 }
  match w.acceptingFrames, w.pendingFrame with
  | true, some frame => { w with pendingFrame := none }.processVideoFrame qt frame
  | _, _ => (w, none)

/-- What happens between a start and a stop: a frame is captured, or the worker takes a call. -/
inductive Event (Frame : Type) where
  | capture (frame : Frame)
  | processNextFrame

/-- What an event does, with the packet that comes of it. A call is taken when there is one. -/
def step (qt : FrameChecks Frame) (w : VideoEncodeWorker Frame) :
    Event Frame → VideoEncodeWorker Frame × Option (SentFrame Frame)
  | .capture frame => (w.enqueueVideoFrame qt frame, none)
  | .processNextFrame => if w.scheduledCalls = 0 then (w, none) else w.processNextFrame qt

/-- The worker after some events, and the packets in turn. -/
def run (qt : FrameChecks Frame) : VideoEncodeWorker Frame → List (Event Frame) →
    VideoEncodeWorker Frame × List (SentFrame Frame)
  | w, [] => (w, [])
  | w, e :: es =>
    let (w', packet) := w.step qt e
    let (w'', packets) := run qt w' es
    (w'', packet.toList ++ packets)

end VideoEncodeWorker

/-! ## The camera of a participant -/

/-- A frame that went out, with the capture run and the media session it was sent in. -/
structure PublishedFrame (Frame : Type) extends SentFrame Frame where
  captureRun : Nat
  mediaSession : Nat

/-- The camera side of `MediaController`, with what of its `RtcTransportWorker` decides whether frames go out. -/
structure Publisher (Frame : Type) where
  videoEncodeWorker : VideoEncodeWorker Frame := {}
  cameraEnabled : Bool := false
  mediaSessionStarted : Bool := false
  videoSendingEnabled : Bool := false
  /-- How many media sessions were started: each has a track of its own. -/
  mediaSessions : Nat := 0
  /-- How many times the encoder was started. -/
  captureRuns : Nat := 0
  sent : List (PublishedFrame Frame) := []

namespace Publisher

variable {Frame : Type}

/-- `MediaController::requestOpenCamera`. `starts` is whether the camera does. -/
def requestOpenCamera (p : Publisher Frame) (starts : Bool) : Publisher Frame :=
  if p.cameraEnabled then p
  else
    let worker := p.videoEncodeWorker.start
    let captureRuns := if p.videoEncodeWorker.videoStarted then p.captureRuns else p.captureRuns + 1
    if !starts then { p with videoEncodeWorker := worker.stop, captureRuns := captureRuns }
    else { p with
      videoEncodeWorker := worker
      captureRuns := captureRuns
      mediaSessions := if p.mediaSessionStarted then p.mediaSessions else p.mediaSessions + 1
      mediaSessionStarted := true
      videoSendingEnabled := true
      cameraEnabled := true }

/-- `MediaController::requestCloseCamera`. -/
def requestCloseCamera (p : Publisher Frame) : Publisher Frame :=
  if !p.cameraEnabled then p
  else { p with
    videoEncodeWorker := p.videoEncodeWorker.stop
    videoSendingEnabled := false
    cameraEnabled := false }

/-- `MediaController::requestStopAll`: the meeting is left, or the connection is lost. -/
def requestStopAll (p : Publisher Frame) : Publisher Frame :=
  { p with
    videoEncodeWorker := p.videoEncodeWorker.stop
    videoSendingEnabled := false
    mediaSessionStarted := false
    cameraEnabled := false }

/-- What can happen to the camera. -/
inductive Event (Frame : Type) where
  | requestOpenCamera (starts : Bool)
  | requestCloseCamera
  | requestStopAll
  | worker (e : VideoEncodeWorker.Event Frame)

/-- What the worker does, and what of it goes out. -/
def work (qt : FrameChecks Frame) (p : Publisher Frame) (e : VideoEncodeWorker.Event Frame) : Publisher Frame :=
  let packets := if p.videoSendingEnabled then (p.videoEncodeWorker.step qt e).2.toList else []
  { p with
    videoEncodeWorker := (p.videoEncodeWorker.step qt e).1
    sent := p.sent ++ packets.map fun packet => ⟨packet, p.captureRuns, p.mediaSessions⟩ }

def step (qt : FrameChecks Frame) (p : Publisher Frame) : Event Frame → Option (Publisher Frame)
  | .requestOpenCamera starts => some (p.requestOpenCamera starts)
  | .requestCloseCamera => some p.requestCloseCamera
  | .requestStopAll => some p.requestStopAll
  | .worker e => some (p.work qt e)

end Publisher

end SyncRtc.Client
