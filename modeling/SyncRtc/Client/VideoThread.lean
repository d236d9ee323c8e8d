import SyncRtc.Client.VideoEncodeWorker
import SyncRtc.Lib.Wakeup

/-!
# A client's video thread, lock by lock

`videoencodeworker.cpp` once more, as its two threads meet. `VideoEncodeWorker` takes a capture and a call of
`processNextFrame` as one step each. Here the event of a capture is posted after the lock is given back, and what the
thread has taken is encoded and handed over while more is captured; `enqueue_whole` and `take_whole` tie the two.

The encoder answers to a frame with access units, and the packetizer cuts a unit into packets.
-/

set_option autoImplicit false

namespace SyncRtc.Client

/-- What `avcodec_receive_packet` gives: what it encodes, and its size. -/
structure AccessUnit (Frame : Type) where
  pictures : List Frame
  size : Nat

/-- An RTP packet of an access unit. -/
structure StampedVideo (Frame : Type) where
  pictures : List Frame
  fragment : Nat
  rtpTimestamp : UInt32

/-- The libraries: what the encoder makes of a frame, given those it was fed since it was opened, and into how many
packets `H264RtpPacketizer` cuts so many bytes. -/
structure VideoCodec (Frame : Type) where
  encode : List Frame → Frame → List (AccessUnit Frame)
  fragments : Nat → Nat

/-- Where the thread stands in `processNextFrame`, behind its lock. -/
inductive VideoCall (Frame : Type) where
  | idle
  | taken (frame : Frame)
  /-- In the loop over the units the encoder has. -/
  | receiving (units : List (AccessUnit Frame))

/-- `VideoEncodeWorker`. `process` is `m_frameScheduled` with the events it stands for. -/
structure VideoThread (Frame : Type) where
  videoStarted : Bool := false
  videoPts : Nat := 0
  videoTimestamp : UInt32 := 0
  /-- What `m_videoCodecCtx` was fed. -/
  fed : List Frame := []
  pendingFrame : Option Frame := none
  acceptingFrames : Bool := false
  process : Wakeup := {}
  call : VideoCall Frame := .idle

namespace VideoThread

variable {Frame : Type}

/-- `VideoEncodeWorker::enqueueVideoFrame`, under its lock. -/
def keep (w : VideoThread Frame) (frame : Frame) : VideoThread Frame :=
  { w with pendingFrame := some frame, process := w.process.request }

/-- `VideoEncodeWorker::start`. -/
def start (w : VideoThread Frame) : VideoThread Frame :=
  if w.videoStarted then w
  else { w with fed := [], videoPts := 0, videoTimestamp := 0, videoStarted := true, acceptingFrames := true }

/-- `VideoEncodeWorker::stop`. -/
def stop (w : VideoThread Frame) : VideoThread Frame :=
  let w := { w with acceptingFrames := false, pendingFrame := none, process := w.process.reset }
  if !w.videoStarted then w else { w with fed := [], videoPts := 0, videoTimestamp := 0, videoStarted := false }

/-- A post of `enqueueVideoFrame`. -/
def post (w : VideoThread Frame) : Option (VideoThread Frame) :=
  w.process.post.map fun process => { w with process := process }

/-- The thread takes an event. -/
def enter (w : VideoThread Frame) : Option (VideoThread Frame) :=
  match w.call with
  | .idle => w.process.enter.map fun process => { w with process := process }
  | _ => none

/-- `VideoEncodeWorker::processNextFrame`, under its lock. -/
def takePending (w : VideoThread Frame) : Option (VideoThread Frame) :=
  if w.process.entered = false then none
  else
    match w.acceptingFrames, w.pendingFrame with
    | true, some frame => some { w with process := w.process.answer, pendingFrame := none, call := .taken frame }
    | _, _ => some { w with process := w.process.answer }

/-- `VideoEncodeWorker::processVideoFrame`, and of `sendVideoFrame` what comes before its loop. -/
def processVideoFrame (qt : FrameChecks Frame) (codec : VideoCodec Frame) (w : VideoThread Frame) : Option (VideoThread Frame) :=
  match w.call with
  | .taken frame =>
    if !w.videoStarted || !qt.isConvertible frame then some { w with call := .idle }
    else some { w with videoPts := w.videoPts + 1, fed := w.fed ++ [frame], call := .receiving (codec.encode w.fed frame) }
  | _ => none

/-- A round of the loop of `sendVideoFrame`, with what `packetizeH264Frame` makes of the unit. -/
def packetizeNext (codec : VideoCodec Frame) (w : VideoThread Frame) : Option (VideoThread Frame × List (StampedVideo Frame)) :=
  match w.call with
  | .receiving (unit :: units) =>
    if unit.size = 0 then some ({ w with call := .receiving units }, [])
    else some ({ w with videoTimestamp := w.videoTimestamp + 3000, call := .receiving units },
      (List.range (codec.fragments unit.size)).map fun i => ⟨unit.pictures, i, w.videoTimestamp⟩)
  | _ => none

/-- The end of the loop. -/
def finish (w : VideoThread Frame) : Option (VideoThread Frame) :=
  match w.call with
  | .receiving [] => some { w with call := .idle }
  | _ => none

/-- The thread is in no call. -/
def free (w : VideoThread Frame) : Bool :=
  match w.call with
  | .idle => !w.process.entered
  | _ => false

/-! ## In one step -/

/-- The worker between two events, with no event owed. -/
def whole (w : VideoThread Frame) : VideoEncodeWorker Frame where
  videoStarted := w.videoStarted
  videoPts := w.videoPts
  videoTimestamp := w.videoTimestamp
  pendingFrame := w.pendingFrame
  frameScheduled := w.process.scheduled
  acceptingFrames := w.acceptingFrames
  scheduledCalls := w.process.queued

/-- A capture, with its post. -/
def enqueue (qt : FrameChecks Frame) (w : VideoThread Frame) (frame : Frame) : VideoThread Frame :=
  if !w.acceptingFrames || !qt.isValid frame then w else (w.keep frame).post.getD (w.keep frame)

theorem enqueue_whole (qt : FrameChecks Frame) (w : VideoThread Frame) (frame : Frame) (h : w.process.posting = 0) :
    (w.enqueue qt frame).whole = w.whole.enqueueVideoFrame qt frame := by
  obtain ⟨started, pts, timestamp, fed, pending, accepting, ⟨scheduled, posting, queued, entered⟩, call⟩ := w
  obtain rfl : posting = 0 := h
  unfold enqueue VideoEncodeWorker.enqueueVideoFrame
  change whole (if !accepting || !qt.isValid frame then _ else _) = if !accepting || !qt.isValid frame then _ else _
  split
  · rfl
  · cases scheduled <;> rfl

/-- An event that is taken: what the thread has in its hands then is what `processNextFrame` goes on with. -/
theorem take_whole (qt : FrameChecks Frame) {w w₁ w₂ : VideoThread Frame} (hidle : w.call = .idle)
    (henter : w.enter = some w₁) (htake : w₁.takePending = some w₂) :
    w.whole.processNextFrame qt = match w₂.call with
      | .taken frame => w₂.whole.processVideoFrame qt frame
      | _ => (w₂.whole, none) := by
  obtain ⟨started, pts, timestamp, fed, pending, accepting, ⟨scheduled, posting, queued, entered⟩, call⟩ := w
  obtain rfl : call = .idle := hidle
  simp only [enter, Wakeup.enter, Option.map_eq_some_iff, Option.ite_none_left_eq_some, Option.some.injEq] at henter
  obtain ⟨_, ⟨-, rfl⟩, rfl⟩ := henter
  cases accepting <;> cases pending <;> cases htake <;> rfl

end VideoThread

end SyncRtc.Client
