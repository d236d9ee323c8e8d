import SyncRtc.Lib.Wakeup
import Mathlib.Data.Int.Order.Lemmas
import Mathlib.Data.UInt

/-!
# What a publisher's microphone sends

`audioencodeworker.cpp`. The capturing thread appends PCM under a lock and drops the oldest of it over a limit; the
worker's thread takes what is pending in one go, makes up for what was dropped, cuts frames and encodes them. The
bytes of the PCM are looked at by the encoder only, so they are of any type.

The encoder answers to a frame with packets, each of them given by the PCM it encodes: it may hold frames back, so
it is asked with all it was fed since it was opened.
-/

set_option autoImplicit false

namespace SyncRtc.Client

/-- `AudioFrameSamples`. -/
def audioFrameSamples : Nat := 48000 * 20 / 1000

/-- `AudioFrameBytes`. -/
def audioFrameBytes : Nat := audioFrameSamples * 2

/-- `MaxQueuedAudioBytes`. -/
def maxQueuedAudioBytes : Nat := audioFrameBytes * 3

/-- A packet the packetizer has stamped. -/
structure StampedAudio (Byte : Type) where
  /-- The PCM it encodes. -/
  pcm : List Byte
  /-- The `pts` of the frame it was made for. -/
  pts : Nat
  rtpTimestamp : UInt32

/-- Where the worker's thread stands in `processPendingPcm`, behind its lock. -/
inductive AudioCall (Byte : Type) where
  | idle
  /-- With what it has taken: the pending PCM, and the count of the samples dropped before it. -/
  | taken (pendingPcm : List Byte) (droppedSamples : Nat)
  /-- In the loop. -/
  | framing

/-- `AudioEncodeWorker`. `process` is `m_processScheduled` with the events it stands for. -/
structure AudioEncodeWorker (Byte : Type) where
  audioStarted : Bool := false
  audioPts : Nat := 0
  audioTimestamp : UInt32 := 0
  audioPcmBuffer : List Byte := []
  /-- What `m_audioCodecCtx` was fed. -/
  fed : List (List Byte) := []
  pendingPcm : List Byte := []
  droppedSamples : Nat := 0
  acceptingPcm : Bool := false
  process : Wakeup := {}
  call : AudioCall Byte := .idle

/-- An encoder: what it was fed, the frame it is given, and the packets that come. -/
abbrev AudioEncoder (Byte : Type) := List (List Byte) → List Byte → List (List Byte)

namespace AudioEncodeWorker

variable {Byte : Type}

/-- `overflowBytes`: an `int` that is given a `qsizetype`. -/
def overflowBytes (size : Nat) : Int := ((size : Int) - maxQueuedAudioBytes).bmod (2 ^ 32)

/-- `droppedBytes`: whole samples. -/
def droppedBytes (size : Nat) : Nat :=
  if overflowBytes size > 0 then (overflowBytes size - overflowBytes size % 2).toNat else 0

/-- `AudioEncodeWorker::enqueueAudioPcmData`, under its lock. -/
def append (w : AudioEncodeWorker Byte) (pcmData : List Byte) : AudioEncodeWorker Byte :=
  let pendingPcm := w.pendingPcm ++ pcmData
  { w with
    pendingPcm := pendingPcm.drop (droppedBytes pendingPcm.length)
    droppedSamples := w.droppedSamples + droppedBytes pendingPcm.length / 2
    process := w.process.request }

/-- `AudioEncodeWorker::start`. -/
def start (w : AudioEncodeWorker Byte) : AudioEncodeWorker Byte :=
  if w.audioStarted then w
  else { w with
    fed := [], audioPts := 0, audioTimestamp := 0, audioPcmBuffer := [], audioStarted := true, acceptingPcm := true }

/-- `AudioEncodeWorker::stop`. -/
def stop (w : AudioEncodeWorker Byte) : AudioEncodeWorker Byte :=
  let w := { w with acceptingPcm := false, pendingPcm := [], droppedSamples := 0, process := w.process.reset }
  if !w.audioStarted then w
  else { w with fed := [], audioPts := 0, audioTimestamp := 0, audioPcmBuffer := [], audioStarted := false }

/-- A post of `enqueueAudioPcmData`. -/
def post (w : AudioEncodeWorker Byte) : Option (AudioEncodeWorker Byte) :=
  w.process.post.map fun process => { w with process := process }

/-- The worker's thread takes an event. -/
def enter (w : AudioEncodeWorker Byte) : Option (AudioEncodeWorker Byte) :=
  match w.call with
  | .idle => w.process.enter.map fun process => { w with process := process }
  | _ => none

/-- `AudioEncodeWorker::processPendingPcm`, under its lock. -/
def takePending (w : AudioEncodeWorker Byte) : Option (AudioEncodeWorker Byte) :=
  if w.process.entered = false then none
  else if !w.acceptingPcm then some { w with process := w.process.answer }
  else some { w with
    process := w.process.answer
    pendingPcm := []
    droppedSamples := 0
    call := .taken w.pendingPcm w.droppedSamples }

/-- The lines of `processPendingPcm` up to its loop. -/
def advance (w : AudioEncodeWorker Byte) : Option (AudioEncodeWorker Byte) :=
  match w.call with
  | .taken pendingPcm droppedSamples =>
    some { w with
      audioPts := w.audioPts + droppedSamples
      audioTimestamp := w.audioTimestamp + droppedSamples.toUInt32
      audioPcmBuffer := w.audioPcmBuffer ++ pendingPcm
      call := .framing }
  | _ => none

/-- `AudioEncodeWorker::encodeAudioFrame`. `writable` is whether the frame can be written to. -/
def encodeAudioFrame (encode : AudioEncoder Byte) (w : AudioEncodeWorker Byte) (pcmFrame : List Byte) (writable : Bool) :
    AudioEncodeWorker Byte × List (StampedAudio Byte) :=
  if !w.audioStarted || !writable then (w, [])
  else
    ({ w with
      audioPts := w.audioPts + audioFrameSamples
      audioTimestamp := w.audioTimestamp + audioFrameSamples.toUInt32
      fed := w.fed ++ [pcmFrame] },
      (encode w.fed pcmFrame).map fun pcm => ⟨pcm, w.audioPts, w.audioTimestamp⟩)

/-- A round of the loop of `processPendingPcm`. -/
def encodeNext (encode : AudioEncoder Byte) (w : AudioEncodeWorker Byte) (writable : Bool) :
    Option (AudioEncodeWorker Byte × List (StampedAudio Byte)) :=
  match w.call with
  | .framing =>
    if w.audioPcmBuffer.length ≥ audioFrameBytes then
      some ({ w with audioPcmBuffer := w.audioPcmBuffer.drop audioFrameBytes }.encodeAudioFrame encode
        (w.audioPcmBuffer.take audioFrameBytes) writable)
    else none
  | _ => none

/-- The end of the loop. -/
def finish (w : AudioEncodeWorker Byte) : Option (AudioEncodeWorker Byte) :=
  match w.call with
  | .framing => if w.audioPcmBuffer.length ≥ audioFrameBytes then none else some { w with call := .idle }
  | _ => none

/-- The worker's thread is in no call. -/
def free (w : AudioEncodeWorker Byte) : Bool :=
  match w.call with
  | .idle => !w.process.entered
  | _ => false

end AudioEncodeWorker

/-! ## Between a start and a stop -/

/-- A run of the worker: all the PCM it was given, and all the packets it has made. -/
structure AudioRun (Byte : Type) where
  worker : AudioEncodeWorker Byte
  stream : List Byte := []
  emitted : List (StampedAudio Byte) := []

namespace AudioRun

variable {Byte : Type}

/-- The capturing thread and the worker's thread, in any order. -/
inductive Event (Byte : Type) where
  | enqueue (pcmData : List Byte)
  | post
  | enter
  | takePending
  | advance
  | encodeNext (writable : Bool)
  | finish

def step (encode : AudioEncoder Byte) (r : AudioRun Byte) : Event Byte → Option (AudioRun Byte)
  | .enqueue pcmData =>
    if !r.worker.acceptingPcm || pcmData.isEmpty then some r
    else some { r with worker := r.worker.append pcmData, stream := r.stream ++ pcmData }
  | .post => r.worker.post.map fun worker => { r with worker := worker }
  | .enter => r.worker.enter.map fun worker => { r with worker := worker }
  | .takePending => r.worker.takePending.map fun worker => { r with worker := worker }
  | .advance => r.worker.advance.map fun worker => { r with worker := worker }
  | .encodeNext writable =>
    (r.worker.encodeNext encode writable).map fun next =>
      { r with worker := next.1, emitted := r.emitted ++ next.2 }
  | .finish => r.worker.finish.map fun worker => { r with worker := worker }

end AudioRun

end SyncRtc.Client
