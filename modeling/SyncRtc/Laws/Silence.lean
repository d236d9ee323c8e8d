import SyncRtc.Client.MediaController
import SyncRtc.Lib.Pipeline

/-!
# What is sent after a close

Captured data goes through three threads, each with a flag, with data in its hands, and with events in its queue that
outlive a stop. Seen from one device, the encoding thread and the RTC thread are a pipeline with two gates, and the
main thread is the desk that opens and closes them (`Desk`): every step of every thread is a step there, and what a
stale event does is at most some work.

**The law.** After a request that closes a device has returned, nothing is written to its track before the next request
to open it, and nothing that was captured before is ever written.

**What it does not establish.** What the encoders make of a sample or a picture: that their packets are made of what
they were fed since they were opened is assumed of them. Nor what the media server still has.
-/

set_option autoImplicit false

namespace SyncRtc.Client

/-! ## What a worker has -/

section

variable {Byte : Type}

def AudioCall.samples : AudioCall Byte → List Byte
  | .taken pendingPcm _ => pendingPcm
  | _ => []

namespace AudioEncodeWorker

/-- All the samples it has, those its encoder may have included. -/
def samples (w : AudioEncodeWorker Byte) : List Byte := w.pendingPcm ++ w.call.samples ++ w.audioPcmBuffer ++ w.fed.flatten

/-- While it is not started it takes nothing, and it has what is pending at most. -/
structure Dormant (w : AudioEncodeWorker Byte) : Prop where
  accepting : w.acceptingPcm = false
  buffer : w.audioPcmBuffer = []
  fed : w.fed = []
  call : w.call = .idle

def Settled (w : AudioEncodeWorker Byte) : Prop := w.audioStarted = false → w.Dormant

/-- A step of its thread makes nothing new. -/
structure Carries (w w' : AudioEncodeWorker Byte) : Prop where
  accepting : w'.acceptingPcm = w.acceptingPcm
  samples : w'.samples ⊆ w.samples
  settled : w.Settled → w'.Settled

variable {w w' : AudioEncodeWorker Byte}

theorem samples_append (w : AudioEncodeWorker Byte) (pcm : List Byte) : (w.append pcm).samples ⊆ pcm ++ w.samples := by
  intro b hb
  have hpending : b ∈ (w.append pcm).pendingPcm → b ∈ w.pendingPcm ++ pcm := fun h => List.mem_of_mem_drop h
  simp only [samples, List.mem_append] at hb hpending ⊢
  tauto

theorem settled_append (h : w.Settled) (haccepting : w.acceptingPcm = true) (pcm : List Byte) : (w.append pcm).Settled :=
  fun hstarted => absurd (haccepting.symm.trans (h hstarted).accepting) (by decide)

theorem carries_process (w : AudioEncodeWorker Byte) (process : Wakeup) : w.Carries { w with process := process } :=
  ⟨rfl, List.Subset.refl _, fun h hstarted => ⟨(h hstarted).1, (h hstarted).2, (h hstarted).3, (h hstarted).4⟩⟩

theorem carries_post (h : w.post = some w') : w.Carries w' := by
  obtain ⟨process, -, rfl⟩ := Option.map_eq_some_iff.mp h
  exact carries_process w process

theorem carries_enter (h : w.enter = some w') : w.Carries w' := by
  unfold enter at h
  split at h
  · obtain ⟨process, -, rfl⟩ := Option.map_eq_some_iff.mp h
    exact carries_process w process
  · cases h

theorem carries_takePending (h : w.takePending = some w') : w.Carries w' := by
  unfold takePending at h
  split at h
  · cases h
  · split at h
    · cases h
      exact carries_process w _
    · next haccepting =>
      cases h
      refine ⟨rfl, fun b hb => ?_, fun hsettled hstarted => absurd (hsettled hstarted).accepting ?_⟩
      · simp only [samples, AudioCall.samples, List.mem_append, List.not_mem_nil] at hb ⊢
        tauto
      · simpa using haccepting

/-- A step in the middle of a call leaves the worker started. -/
theorem carries_busy (haccepting : w'.acceptingPcm = w.acceptingPcm) (hsamples : w'.samples ⊆ w.samples)
    (hstarted : w'.audioStarted = w.audioStarted) (hbusy : w.call ≠ .idle) : w.Carries w' :=
  ⟨haccepting, hsamples, fun hsettled hnot => absurd (hsettled (hstarted.symm.trans hnot)).call hbusy⟩

theorem carries_advance (h : w.advance = some w') : w.Carries w' := by
  unfold advance at h
  split at h
  · next pendingPcm dropped hcall =>
    cases h
    refine carries_busy rfl (fun b hb => ?_) rfl (by rw [hcall]; exact nofun)
    simp only [samples, AudioCall.samples, hcall, List.mem_append, List.not_mem_nil] at hb ⊢
    tauto
  · cases h

theorem carries_finish (h : w.finish = some w') : w.Carries w' := by
  unfold finish at h
  split at h
  · next hcall =>
    split at h
    · cases h
    · cases h
      refine carries_busy rfl (fun b hb => ?_) rfl (by rw [hcall]; exact nofun)
      simp only [samples, AudioCall.samples, hcall, List.mem_append, List.not_mem_nil] at hb ⊢
      tauto
  · cases h

/-- The packets of a frame are made of samples the worker has, if the encoder makes nothing new. -/
theorem carries_encodeNext {encode : AudioEncoder Byte}
    (hencode : ∀ fed frame, ∀ pcm ∈ encode fed frame, pcm ⊆ fed.flatten ++ frame) {writable : Bool}
    {next : AudioEncodeWorker Byte × List (StampedAudio Byte)} (h : w.encodeNext encode writable = some next) :
    w.Carries next.1 ∧ ∀ packet ∈ next.2, packet.pcm ⊆ w.samples := by
  unfold encodeNext encodeAudioFrame at h
  split at h
  · next hcall =>
    have hbusy : w.call ≠ .idle := by
      rw [hcall]
      exact nofun
    have htake : ∀ b ∈ w.audioPcmBuffer.take audioFrameBytes, b ∈ w.audioPcmBuffer := fun b => List.mem_of_mem_take
    have hdrop : ∀ b ∈ w.audioPcmBuffer.drop audioFrameBytes, b ∈ w.audioPcmBuffer := fun b => List.mem_of_mem_drop
    split at h
    · cases h
      split
      · refine ⟨carries_busy rfl (fun b hb => ?_) rfl hbusy, fun _ hp => absurd hp List.not_mem_nil⟩
        simp only [samples, List.mem_append] at hb ⊢
        have := hdrop b
        tauto
      · refine ⟨carries_busy rfl (fun b hb => ?_) rfl hbusy, fun packet hp b hb => ?_⟩
        · simp only [samples, List.mem_append, List.flatten_append, List.flatten_cons, List.flatten_nil, List.append_nil] at hb ⊢
          have := hdrop b
          have := htake b
          tauto
        · obtain ⟨pcm, hpcm, rfl⟩ := List.mem_map.mp hp
          have hfrom := hencode _ _ pcm hpcm hb
          simp only [samples, List.mem_append] at hfrom ⊢
          have := htake b
          tauto
    · cases h
  · cases h

theorem samples_start (w : AudioEncodeWorker Byte) : w.start.samples ⊆ w.samples := by
  unfold start
  split
  · exact List.Subset.refl _
  · intro b hb
    simp only [samples, List.mem_append, List.flatten_nil, List.not_mem_nil] at hb ⊢
    tauto

theorem settled_start (h : w.Settled) : w.start.Settled := by
  unfold start
  split
  · exact h
  · exact nofun

/-- A stop leaves nothing, whether or not the worker was started. -/
theorem stopped (h : w.Settled) (hidle : w.call = .idle) :
    w.stop.acceptingPcm = false ∧ w.stop.samples = [] ∧ w.stop.Settled := by
  unfold stop
  dsimp only
  split
  · next hstarted =>
    obtain ⟨-, hbuffer, hfed, -⟩ := h (by simpa using hstarted)
    refine ⟨rfl, ?_, fun _ => ⟨rfl, hbuffer, hfed, hidle⟩⟩
    simp [samples, AudioCall.samples, hidle, hbuffer, hfed]
  · refine ⟨rfl, ?_, fun _ => ⟨rfl, rfl, rfl, hidle⟩⟩
    simp [samples, AudioCall.samples, hidle]

theorem idle_of_free (h : w.free = true) : w.call = .idle := by
  unfold free at h
  split at h
  · assumption
  · cases h

end AudioEncodeWorker

end

section

variable {Frame : Type}

def VideoCall.pictures : VideoCall Frame → List Frame
  | .taken frame => [frame]
  | .receiving units => units.flatMap AccessUnit.pictures
  | .idle => []

namespace VideoThread

/-- All the pictures it has, those its encoder may have included. -/
def pictures (w : VideoThread Frame) : List Frame := w.pendingFrame.toList ++ w.call.pictures ++ w.fed

/-- While it is not started it takes nothing, and it has what is pending at most. -/
structure Dormant (w : VideoThread Frame) : Prop where
  accepting : w.acceptingFrames = false
  fed : w.fed = []
  call : w.call = .idle

def Settled (w : VideoThread Frame) : Prop := w.videoStarted = false → w.Dormant

/-- A step of the thread makes nothing new. -/
structure Carries (w w' : VideoThread Frame) : Prop where
  accepting : w'.acceptingFrames = w.acceptingFrames
  pictures : w'.pictures ⊆ w.pictures
  settled : w.Settled → w'.Settled

variable {w w' : VideoThread Frame}

theorem pictures_keep (w : VideoThread Frame) (frame : Frame) : (w.keep frame).pictures ⊆ frame :: w.pictures := by
  intro f hf
  simp only [pictures, keep, Option.toList_some, List.mem_append, List.mem_cons] at hf ⊢
  tauto

theorem settled_keep (h : w.Settled) (haccepting : w.acceptingFrames = true) (frame : Frame) : (w.keep frame).Settled :=
  fun hstarted => absurd (haccepting.symm.trans (h hstarted).accepting) (by decide)

theorem carries_process (w : VideoThread Frame) (process : Wakeup) : w.Carries { w with process := process } :=
  ⟨rfl, List.Subset.refl _, fun h hstarted => ⟨(h hstarted).1, (h hstarted).2, (h hstarted).3⟩⟩

theorem carries_post (h : w.post = some w') : w.Carries w' := by
  obtain ⟨process, -, rfl⟩ := Option.map_eq_some_iff.mp h
  exact carries_process w process

theorem carries_enter (h : w.enter = some w') : w.Carries w' := by
  unfold enter at h
  split at h
  · obtain ⟨process, -, rfl⟩ := Option.map_eq_some_iff.mp h
    exact carries_process w process
  · cases h

theorem carries_takePending (h : w.takePending = some w') : w.Carries w' := by
  unfold takePending at h
  split at h
  · cases h
  · split at h
    · next frame haccepting hpending =>
      cases h
      refine ⟨rfl, fun f hf => ?_, fun hsettled hstarted => ?_⟩
      · simp only [pictures, VideoCall.pictures, hpending, Option.toList_none, Option.toList_some, List.mem_append,
          List.mem_singleton, List.not_mem_nil] at hf ⊢
        tauto
      · exact absurd (haccepting.symm.trans (hsettled hstarted).accepting) (by decide)
    · cases h
      exact carries_process w _

/-- A step in the middle of a call leaves the worker started. -/
theorem carries_busy (haccepting : w'.acceptingFrames = w.acceptingFrames) (hpictures : w'.pictures ⊆ w.pictures)
    (hstarted : w'.videoStarted = w.videoStarted) (hbusy : w.call ≠ .idle) : w.Carries w' :=
  ⟨haccepting, hpictures, fun hsettled hnot => absurd (hsettled (hstarted.symm.trans hnot)).call hbusy⟩

theorem carries_processVideoFrame {qt : FrameChecks Frame} {codec : VideoCodec Frame}
    (hcodec : ∀ fed frame, ∀ unit ∈ codec.encode fed frame, unit.pictures ⊆ fed ++ [frame])
    (h : w.processVideoFrame qt codec = some w') : w.Carries w' := by
  unfold processVideoFrame at h
  split at h
  · next frame hcall =>
    have hbusy : w.call ≠ .idle := by
      rw [hcall]
      exact nofun
    split at h
    · cases h
      refine carries_busy rfl (fun f hf => ?_) rfl hbusy
      simp only [pictures, VideoCall.pictures, hcall, List.mem_append, List.not_mem_nil] at hf ⊢
      tauto
    · cases h
      refine carries_busy rfl (fun f hf => ?_) rfl hbusy
      have hunits : f ∈ (codec.encode w.fed frame).flatMap AccessUnit.pictures → f ∈ w.fed ++ [frame] := by
        intro h
        obtain ⟨unit, hunit, hf⟩ := List.mem_flatMap.mp h
        exact hcodec _ _ unit hunit hf
      simp only [pictures, VideoCall.pictures, hcall, List.mem_append, List.mem_singleton] at hf hunits ⊢
      tauto
  · cases h

/-- The packets of a unit are made of its pictures. -/
theorem carries_packetizeNext {codec : VideoCodec Frame} {next : VideoThread Frame × List (StampedVideo Frame)}
    (h : w.packetizeNext codec = some next) : w.Carries next.1 ∧ ∀ packet ∈ next.2, packet.pictures ⊆ w.pictures := by
  unfold packetizeNext at h
  split at h
  · next unit units hcall =>
    have hbusy : w.call ≠ .idle := by
      rw [hcall]
      exact nofun
    have hrest : ∀ (w' : VideoThread Frame), w'.pendingFrame = w.pendingFrame → w'.call = .receiving units → w'.fed = w.fed →
        w'.pictures ⊆ w.pictures := by
      intro w' hpending hcall' hfed f hf
      simp only [pictures, VideoCall.pictures, hcall, hcall', hpending, hfed, List.flatMap_cons, List.mem_append] at hf ⊢
      tauto
    split at h
    · cases h
      exact ⟨carries_busy rfl (hrest _ rfl rfl rfl) rfl hbusy, fun _ hp => absurd hp List.not_mem_nil⟩
    · cases h
      refine ⟨carries_busy rfl (hrest _ rfl rfl rfl) rfl hbusy, fun packet hp f hf => ?_⟩
      obtain ⟨i, -, rfl⟩ := List.mem_map.mp hp
      simp only [pictures, VideoCall.pictures, hcall, List.flatMap_cons, List.mem_append]
      exact .inl (.inr (.inl hf))
  · cases h

theorem carries_finish (h : w.finish = some w') : w.Carries w' := by
  unfold finish at h
  split at h
  · next hcall =>
    cases h
    refine carries_busy rfl (fun f hf => ?_) rfl (by rw [hcall]; exact nofun)
    simp only [pictures, VideoCall.pictures, hcall, List.flatMap_nil, List.mem_append, List.not_mem_nil] at hf ⊢
    tauto
  · cases h

theorem pictures_start (w : VideoThread Frame) : w.start.pictures ⊆ w.pictures := by
  unfold start
  split
  · exact List.Subset.refl _
  · intro f hf
    simp only [pictures, List.mem_append, List.not_mem_nil] at hf ⊢
    tauto

theorem settled_start (h : w.Settled) : w.start.Settled := by
  unfold start
  split
  · exact h
  · exact nofun

/-- A stop leaves nothing, whether or not the worker was started. -/
theorem stopped (h : w.Settled) (hidle : w.call = .idle) :
    w.stop.acceptingFrames = false ∧ w.stop.pictures = [] ∧ w.stop.Settled := by
  unfold stop
  dsimp only
  split
  · next hstarted =>
    obtain ⟨-, hfed, -⟩ := h (by simpa using hstarted)
    refine ⟨rfl, ?_, fun _ => ⟨rfl, hfed, hidle⟩⟩
    simp [pictures, VideoCall.pictures, hidle, hfed]
  · refine ⟨rfl, ?_, fun _ => ⟨rfl, rfl, hidle⟩⟩
    simp [pictures, VideoCall.pictures, hidle]

theorem idle_of_free (h : w.free = true) : w.call = .idle := by
  unfold free at h
  split at h
  · assumption
  · cases h

end VideoThread

end

section

variable {Audio Video : Type}

def SendCall.audioInHand : SendCall Audio Video → List Audio
  | .audio packet => [packet]
  | _ => []

def SendCall.videoInHand : SendCall Audio Video → List Video
  | .video packets => packets
  | .sending packets => packets
  | _ => []

namespace RtcTransportWorker

/-- The audio packets it has, and the video packets. -/
def audioHeld (w : RtcTransportWorker Audio Video) : List Audio := w.call.audioInHand ++ w.audioRtpPackets

def videoHeld (w : RtcTransportWorker Audio Video) : List Video := w.call.videoInHand ++ w.videoRtpFrames.flatten

/-- It has something in its hands in a call only, and what it is sending may be sent. -/
structure Orderly (w : RtcTransportWorker Audio Video) : Prop where
  busy : w.process.entered = false → w.call = .idle
  sending : ∀ packets, w.call = .sending packets → w.videoSendingEnabled = true

/-- What it has after a step it had before, or was given. -/
structure Takes (audio : List Audio) (video : List Video) (w w' : RtcTransportWorker Audio Video) : Prop where
  audioEnabled : w'.audioSendingEnabled = w.audioSendingEnabled
  videoEnabled : w'.videoSendingEnabled = w.videoSendingEnabled
  audio : w'.audioHeld ⊆ audio ++ w.audioHeld
  video : w'.videoHeld ⊆ video ++ w.videoHeld
  orderly : w.Orderly → w'.Orderly

variable {checks : PacketChecks Audio Video} {w w' : RtcTransportWorker Audio Video}

theorem takes_enqueueVideo (w : RtcTransportWorker Audio Video) (packets : List Video) :
    Takes [] packets w (w.enqueueVideoRtpPackets packets) := by
  unfold enqueueVideoRtpPackets
  split
  · exact ⟨rfl, rfl, List.Subset.refl _, List.subset_append_right _ _, id⟩
  · refine ⟨rfl, rfl, List.Subset.refl _, fun p hp => ?_, fun h => ⟨fun hfree => h.busy ?_, h.sending⟩⟩
    · have hkept : (if w.videoRtpFrames.length ≥ maxQueuedVideoFrames then w.videoRtpFrames.tail else w.videoRtpFrames) ⊆
          w.videoRtpFrames := by
        split
        · exact List.tail_subset _
        · exact List.Subset.refl _
      simp only [videoHeld, List.mem_append, List.flatten_append, List.flatten_cons, List.flatten_nil, List.append_nil] at hp ⊢
      rcases hp with hp | hp | hp
      · exact .inr (.inl hp)
      · obtain ⟨frame, hframe, hp⟩ := List.mem_flatten.mp hp
        exact .inr (.inr (List.mem_flatten.mpr ⟨frame, hkept hframe, hp⟩))
      · exact .inl hp
    · exact (Wakeup.entered_request _).symm.trans hfree

theorem takes_enqueueAudio (checks : PacketChecks Audio Video) (w : RtcTransportWorker Audio Video) (packet : Audio) :
    Takes [packet] [] w (w.enqueueAudioRtpPacket checks packet) := by
  unfold enqueueAudioRtpPacket
  split
  · exact ⟨rfl, rfl, List.subset_append_right _ _, List.Subset.refl _, id⟩
  · refine ⟨rfl, rfl, fun p hp => ?_, List.Subset.refl _, fun h => ⟨fun hfree => h.busy ?_, h.sending⟩⟩
    · have hkept : (if w.audioRtpPackets.length ≥ maxQueuedAudioPackets then w.audioRtpPackets.tail else w.audioRtpPackets) ⊆
          w.audioRtpPackets := by
        split
        · exact List.tail_subset _
        · exact List.Subset.refl _
      simp only [audioHeld, List.mem_append] at hp ⊢
      rcases hp with hp | hp | hp
      · exact .inr (.inl hp)
      · exact .inr (.inr (hkept hp))
      · exact .inl hp
    · exact (Wakeup.entered_request _).symm.trans hfree

theorem takes_post (h : w.post = some w') : Takes [] [] w w' := by
  obtain ⟨process, hpost, rfl⟩ := Option.map_eq_some_iff.mp h
  exact ⟨rfl, rfl, List.Subset.refl _, List.Subset.refl _, fun h => ⟨fun hfree =>
    h.busy ((Wakeup.entered_post hpost).symm.trans hfree), h.sending⟩⟩

theorem takes_enter (h : w.enter = some w') : Takes [] [] w w' := by
  obtain ⟨process, henter, rfl⟩ := Option.map_eq_some_iff.mp h
  exact ⟨rfl, rfl, List.Subset.refl _, List.Subset.refl _, fun h => ⟨fun hfree =>
    absurd ((Wakeup.entered_enter henter).symm.trans hfree) (by decide), h.sending⟩⟩

theorem takes_dequeue (h : w.dequeue checks = some w') : Takes [] [] w w' := by
  unfold dequeue at h
  split at h
  · cases h
  next hentered =>
  split at h
  case h_2 => cases h
  next hidle =>
  split at h
  · next packet rest haudio =>
    cases h
    cases checks.emptyAudio packet
    · refine ⟨rfl, rfl, fun p hp => ?_, fun p hp => ?_, fun _ => ⟨fun hfree => absurd hfree hentered, nofun⟩⟩
      · simpa [audioHeld, hidle, haudio, SendCall.audioInHand] using hp
      · simpa [videoHeld, hidle, SendCall.videoInHand] using hp
    · refine ⟨rfl, rfl, fun p hp => ?_, fun p hp => ?_, fun _ => ⟨fun hfree => absurd hfree hentered, nofun⟩⟩
      · have hrest : p ∈ rest := by simpa [audioHeld, SendCall.audioInHand] using hp
        simp [audioHeld, haudio, hrest]
      · simpa [videoHeld, hidle, SendCall.videoInHand] using hp
  · next packets rest haudio hvideo =>
    cases h
    refine ⟨rfl, rfl, fun p hp => ?_, fun p hp => ?_, fun _ => ⟨fun hfree => absurd hfree hentered, nofun⟩⟩
    · simpa [audioHeld, hidle, SendCall.audioInHand] using hp
    · simpa [videoHeld, hidle, hvideo, SendCall.videoInHand] using hp
  · cases h
    exact ⟨rfl, rfl, List.Subset.refl _, List.Subset.refl _, fun h => ⟨fun _ => hidle, h.sending⟩⟩

theorem takes_beginVideo (h : w.beginVideo = some w') : Takes [] [] w w' := by
  unfold beginVideo at h
  split at h
  · next packets hcall =>
    cases h
    have hbusy : w.Orderly → w.process.entered ≠ false := fun h hfree => nomatch hcall.symm.trans (h.busy hfree)
    by_cases henabled : w.videoSendingEnabled = true
    · rw [if_pos henabled]
      refine ⟨rfl, rfl, fun p hp => ?_, fun p hp => ?_, fun h => ⟨fun hfree => absurd hfree (hbusy h), fun _ _ => henabled⟩⟩
      · simpa [audioHeld, hcall, SendCall.audioInHand] using hp
      · simpa [videoHeld, hcall, SendCall.videoInHand] using hp
    · rw [if_neg henabled]
      refine ⟨rfl, rfl, fun p hp => ?_, fun p hp => ?_, fun _ => ⟨fun _ => rfl, nofun⟩⟩
      · simpa [audioHeld, hcall, SendCall.audioInHand] using hp
      · have hqueue : p ∈ w.videoRtpFrames.flatten := by simpa [videoHeld, SendCall.videoInHand] using hp
        show p ∈ w.call.videoInHand ++ w.videoRtpFrames.flatten
        exact List.mem_append_right _ hqueue
  · cases h

/-- The packet that is handed over leaves the worker; it is one it had, and audio may be sent. -/
theorem takes_sendAudio {next : RtcTransportWorker Audio Video × Option Audio} (h : w.sendAudio = some next) :
    Takes [] [] w next.1 ∧ ∀ packet ∈ next.2, packet ∈ w.audioHeld ∧ w.audioSendingEnabled = true := by
  unfold sendAudio at h
  split at h
  · next packet hcall =>
    cases h
    refine ⟨⟨rfl, rfl, fun p hp => ?_, fun p hp => ?_, fun _ => ⟨fun _ => rfl, nofun⟩⟩, fun p hp => ?_⟩
    · have hqueue : p ∈ w.audioRtpPackets := by simpa [audioHeld, SendCall.audioInHand] using hp
      show p ∈ w.call.audioInHand ++ w.audioRtpPackets
      exact List.mem_append_right _ hqueue
    · simpa [videoHeld, hcall, SendCall.videoInHand] using hp
    · obtain ⟨henabled, rfl⟩ : w.audioSendingEnabled = true ∧ packet = p := by simpa using hp
      refine ⟨?_, henabled⟩
      simp [audioHeld, hcall, SendCall.audioInHand]
  · cases h

theorem takes_sendVideo {next : RtcTransportWorker Audio Video × Option Video} (h : w.sendVideo = some next)
    (horderly : w.Orderly) :
    Takes [] [] w next.1 ∧ ∀ packet ∈ next.2, packet ∈ w.videoHeld ∧ w.videoSendingEnabled = true := by
  unfold sendVideo at h
  split at h
  · next packet rest hcall =>
    cases h
    have henabled : w.videoSendingEnabled = true := horderly.sending _ hcall
    refine ⟨⟨rfl, rfl, fun p hp => ?_, fun p hp => ?_, fun _ => ⟨fun hfree => ?_, fun _ _ => henabled⟩⟩, fun p hp => ?_⟩
    · simpa [audioHeld, hcall, SendCall.audioInHand] using hp
    · simp only [videoHeld, hcall]
      exact List.mem_cons_of_mem packet hp
    · exact nomatch hcall.symm.trans (horderly.busy hfree)
    · obtain rfl : packet = p := by simpa using hp
      refine ⟨?_, henabled⟩
      simp [videoHeld, hcall, SendCall.videoInHand]
  · next hcall =>
    cases h
    refine ⟨⟨rfl, rfl, fun p hp => ?_, fun p hp => ?_, fun _ => ⟨fun _ => rfl, nofun⟩⟩, nofun⟩
    · simpa [audioHeld, hcall, SendCall.audioInHand] using hp
    · have hqueue : p ∈ w.videoRtpFrames.flatten := by simpa [videoHeld, SendCall.videoInHand] using hp
      show p ∈ w.call.videoInHand ++ w.videoRtpFrames.flatten
      exact List.mem_append_right _ hqueue
  · cases h

/-- A command leaves what the thread is doing. -/
theorem orderly_command (h : w.Orderly) (hfree : w.Free) (c : TransportCommand) :
    (w.command c).Free ∧ (w.command c).Orderly := by
  have hkept : (w.command c).process = w.process ∧ (w.command c).call = w.call := by
    cases c with
    | startMediaSession =>
      rw [command, startMediaSession_eq]
      exact ⟨rfl, rfl⟩
    | _ => exact ⟨rfl, rfl⟩
  have hidle : (w.command c).call = .idle := hkept.2.trans (h.busy hfree)
  refine ⟨?_, fun _ => hidle, fun packets hsending => nomatch hidle.symm.trans hsending⟩
  unfold Free
  rw [hkept.1]
  exact hfree

end RtcTransportWorker

end

/-! ## A device and its pipeline -/

/-- The microphone, or the camera. -/
inductive Lane where
  | audio
  | video

/-- What a request asks of the desk of a device. -/
def MediaRequest.ask : Lane → MediaRequest → Option Ask
  | .audio, .openMicrophone started => some (.opening started)
  | .audio, .closeMicrophone => some .closing
  | .video, .openCamera started => some (.opening started)
  | .video, .closeCamera => some .closing
  | _, .stopAll => some .closing
  | _, _ => none

def TransportCommand.does : Lane → TransportCommand → List Pipeline.Call
  | .audio, .setAudioSendingEnabled enabled => [if enabled then .enable else .disable]
  | .video, .setVideoSendingEnabled enabled => [if enabled then .enable else .disable]
  | _, .stopMediaSession => [.disable]
  | _, _ => []

def BlockingCall.does : Lane → BlockingCall → List Pipeline.Call
  | .audio, .startAudio => [.start]
  | .audio, .stopAudio => [.stop]
  | .video, .startVideo => [.start]
  | .video, .stopVideo => [.stop]
  | lane, .transport commands => commands.flatMap (TransportCommand.does lane)
  | _, _ => []

/-- The calls of a request are those of what it asks for. -/
theorem MediaRequest.does_calls (lane : Lane) (r : MediaRequest) :
    r.calls.flatMap (BlockingCall.does lane) = ((r.ask lane).map Ask.calls).getD [] := by
  cases r with
  | openCamera started => cases lane <;> cases started <;> rfl
  | openMicrophone started => cases lane <;> cases started <;> rfl
  | _ => cases lane <;> rfl

section

variable {Byte Frame : Type}

/-- What an entry says of a device. -/
def MediaEntry.seen : Lane → MediaEntry Byte Frame → Option Desk.Entry
  | .audio, .pcmCaptured n => some (.entered n)
  | .video, .frameCaptured n => some (.entered n)
  | lane, .requested r =>
    match r.ask lane with
    | some (.opening _) => some .asked
    | _ => none
  | lane, .returned r =>
    match r.ask lane with
    | some .closing => some .closed
    | _ => none
  | .audio, .audioRtp packet => some (.left {n | n ∈ packet.pcm.map Prod.fst})
  | .video, .videoRtp packet => some (.left {n | n ∈ packet.pictures.map Prod.fst})
  | _, _ => none

/-- The encoders make their packets of what they were fed since they were opened. -/
structure MediaLibraries.Honest (lib : MediaLibraries Byte Frame) : Prop where
  opus : ∀ fed frame, ∀ pcm ∈ lib.opus fed frame, pcm ⊆ fed.flatten ++ frame
  codec : ∀ fed frame, ∀ unit ∈ lib.codec.encode fed frame, unit.pictures ⊆ fed ++ [frame]

namespace MediaController

/-- The numbers of what is on its way to the RTC thread. -/
def upstream (s : MediaController Byte Frame) : Lane → List Nat
  | .audio => (s.audioEncodeWorker.samples ++ s.audioMessages.flatMap StampedAudio.pcm).map Prod.fst
  | .video => s.videoEncodeWorker.pictures.map Prod.fst

/-- The numbers of what the RTC thread has. -/
def downstream (s : MediaController Byte Frame) : Lane → List Nat
  | .audio => (s.rtcTransportWorker.audioHeld.flatMap StampedAudio.pcm).map Prod.fst
  | .video => (s.rtcTransportWorker.videoHeld.flatMap StampedVideo.pictures).map Prod.fst

def pipe (s : MediaController Byte Frame) (lane : Lane) : Pipeline where
  accepting :=
    match lane with
    | .audio => s.audioEncodeWorker.acceptingPcm
    | .video => s.videoEncodeWorker.acceptingFrames
  upstream := {n | n ∈ s.upstream lane}
  enabled :=
    match lane with
    | .audio => s.rtcTransportWorker.audioSendingEnabled
    | .video => s.rtcTransportWorker.videoSendingEnabled
  downstream := {n | n ∈ s.downstream lane}

def opened (s : MediaController Byte Frame) : Lane → Bool
  | .audio => s.microphoneEnabled
  | .video => s.cameraEnabled

def count (s : MediaController Byte Frame) : Lane → Nat
  | .audio => s.pcmChunks
  | .video => s.videoFrames

def desk (s : MediaController Byte Frame) (lane : Lane) : Desk where
  pipe := s.pipe lane
  opened := s.opened lane
  request := s.request.bind fun request =>
    (request.1.ask lane).map fun a => (a, request.2.flatMap (BlockingCall.does lane))
  count := s.count lane

/-- The run so far is one of the desk. -/
def Follows (s : MediaController Byte Frame) (lane : Lane) : Prop :=
  Desk.Trace (s.log.filterMap (MediaEntry.seen lane)) (s.desk lane)

/-- What the workers keep; and a request that asks nothing of a device makes no call that does. -/
structure Tidy (s : MediaController Byte Frame) : Prop where
  audio : s.audioEncodeWorker.Settled
  video : s.videoEncodeWorker.Settled
  rtc : s.rtcTransportWorker.Orderly
  others : ∀ r calls, s.request = some (r, calls) → ∀ lane, r.ask lane = none → calls.flatMap (BlockingCall.does lane) = []

variable {s s' : MediaController Byte Frame} {lane : Lane}

/-! ### Work -/

/-- A step that changes the workers only, and is no more than work. -/
structure Worked (s s' : MediaController Byte Frame) : Prop where
  pipe : ∀ lane, (s.pipe lane).Works (s'.pipe lane)
  opened : s'.opened = s.opened
  request : s'.request = s.request
  count : s'.count = s.count
  log : s'.log = s.log

theorem Worked.follows (hw : Worked s s') (h : s.Follows lane) : s'.Follows lane := by
  have hdesk : s'.desk lane = { s.desk lane with pipe := s'.pipe lane } := by
    unfold desk
    rw [hw.opened, hw.request, hw.count]
  unfold Follows
  rw [hdesk, hw.log]
  exact h.unseen (.work (hw.pipe lane))

theorem flatMap_subset {α β : Type} {xs ys : List α} (f : α → List β) (h : xs ⊆ ys) : xs.flatMap f ⊆ ys.flatMap f := by
  intro b hb
  obtain ⟨x, hx, hb⟩ := List.mem_flatMap.mp hb
  exact List.mem_flatMap.mpr ⟨x, h hx, hb⟩

/-- A step of the audio thread. -/
theorem worked_audio {worker : AudioEncodeWorker (Tagged Byte)} {messages : List (StampedAudio (Tagged Byte))}
    (h : s.audioEncodeWorker.Carries worker)
    (hmessages : messages.flatMap StampedAudio.pcm ⊆
      s.audioEncodeWorker.samples ++ s.audioMessages.flatMap StampedAudio.pcm) :
    Worked s { s with audioEncodeWorker := worker, audioMessages := messages } := by
  refine ⟨fun lane => ?_, rfl, rfl, rfl, rfl⟩
  cases lane with
  | audio =>
    have hup : worker.samples ++ messages.flatMap StampedAudio.pcm ⊆
        s.audioEncodeWorker.samples ++ s.audioMessages.flatMap StampedAudio.pcm :=
      List.append_subset.mpr ⟨List.subset_append_of_subset_left _ h.samples, hmessages⟩
    exact ⟨h.accepting, fun n hn => List.map_subset Prod.fst hup hn, rfl, Set.subset_union_right⟩
  | video => exact .refl _

theorem worked_video {worker : VideoThread (Tagged Frame)} (h : s.videoEncodeWorker.Carries worker) :
    Worked s { s with videoEncodeWorker := worker } := by
  refine ⟨fun lane => ?_, rfl, rfl, rfl, rfl⟩
  cases lane with
  | audio => exact .refl _
  | video => exact ⟨h.accepting, fun n hn => List.map_subset Prod.fst h.pictures hn, rfl, Set.subset_union_right⟩

/-- A step of the RTC thread, or something is handed over to it. -/
theorem works_rtc {worker : RtcTransportWorker (StampedAudio (Tagged Byte)) (StampedVideo (Tagged Frame))}
    {packets : List (StampedAudio (Tagged Byte))} {frames : List (StampedVideo (Tagged Frame))}
    (h : RtcTransportWorker.Takes packets frames s.rtcTransportWorker worker)
    (hrtc : s'.rtcTransportWorker = worker)
    (haudio : s'.audioEncodeWorker = s.audioEncodeWorker) (hmessages : s'.audioMessages ⊆ s.audioMessages)
    (hpackets : packets ⊆ s.audioMessages)
    (hvideo : s.videoEncodeWorker.Carries s'.videoEncodeWorker)
    (hframes : ∀ packet ∈ frames, packet.pictures ⊆ s.videoEncodeWorker.pictures) (lane : Lane) :
    (s.pipe lane).Works (s'.pipe lane) := by
  subst hrtc
  cases lane with
  | audio =>
    have hup : s'.audioEncodeWorker.samples ++ s'.audioMessages.flatMap StampedAudio.pcm ⊆
        s.audioEncodeWorker.samples ++ s.audioMessages.flatMap StampedAudio.pcm := by
      rw [haudio]
      exact List.append_subset.mpr ⟨List.subset_append_left _ _, List.subset_append_of_subset_right _ (flatMap_subset _ hmessages)⟩
    refine ⟨congrArg AudioEncodeWorker.acceptingPcm haudio, fun n hn => List.map_subset Prod.fst hup hn, h.audioEnabled,
      fun n hn => ?_⟩
    have hdown := List.map_subset Prod.fst (flatMap_subset StampedAudio.pcm h.audio) hn
    rw [List.flatMap_append, List.map_append] at hdown
    rcases List.mem_append.mp hdown with hn | hn
    · exact .inl (List.map_subset Prod.fst (List.subset_append_of_subset_right _ (flatMap_subset _ hpackets)) hn)
    · exact .inr hn
  | video =>
    refine ⟨hvideo.accepting, fun n hn => List.map_subset Prod.fst hvideo.pictures hn, h.videoEnabled, fun n hn => ?_⟩
    have hdown := List.map_subset Prod.fst (flatMap_subset StampedVideo.pictures h.video) hn
    rw [List.flatMap_append, List.map_append] at hdown
    rcases List.mem_append.mp hdown with hn | hn
    · have hfrom : frames.flatMap StampedVideo.pictures ⊆ s.videoEncodeWorker.pictures := by
        intro f hf
        obtain ⟨packet, hpacket, hf⟩ := List.mem_flatMap.mp hf
        exact hframes packet hpacket hf
      exact .inl (List.map_subset Prod.fst hfrom hn)
    · exact .inr hn

/-! ### Steps of the threads -/

variable {lib : MediaLibraries Byte Frame}

theorem Tidy.withAudio (h : s.Tidy) {worker : AudioEncodeWorker (Tagged Byte)} (hw : worker.Settled)
    (messages : List (StampedAudio (Tagged Byte))) : Tidy { s with audioEncodeWorker := worker, audioMessages := messages } :=
  ⟨hw, h.video, h.rtc, h.others⟩

theorem Tidy.withVideo (h : s.Tidy) {worker : VideoThread (Tagged Frame)} (hw : worker.Settled) :
    Tidy { s with videoEncodeWorker := worker } := ⟨h.audio, hw, h.rtc, h.others⟩

/-- The audio thread. -/
theorem stepAudio_worked (hlib : lib.Honest) (h : s.Tidy) {e : AudioEvent} (hstep : s.stepAudio lib e = some s') :
    Worked s s' ∧ s'.Tidy := by
  have carried : ∀ worker, s.audioEncodeWorker.Carries worker →
      Worked s { s with audioEncodeWorker := worker } ∧ Tidy { s with audioEncodeWorker := worker } := fun worker hw =>
    ⟨worked_audio hw (List.subset_append_right _ _), h.withAudio (hw.settled h.audio) _⟩
  cases e with
  | enter =>
    obtain ⟨worker, hw, rfl⟩ := Option.map_eq_some_iff.mp hstep
    exact carried worker (AudioEncodeWorker.carries_enter hw)
  | takePending =>
    obtain ⟨worker, hw, rfl⟩ := Option.map_eq_some_iff.mp hstep
    exact carried worker (AudioEncodeWorker.carries_takePending hw)
  | advance =>
    obtain ⟨worker, hw, rfl⟩ := Option.map_eq_some_iff.mp hstep
    exact carried worker (AudioEncodeWorker.carries_advance hw)
  | encodeNext writable =>
    simp only [stepAudio, Option.ite_none_right_eq_some, Option.map_eq_some_iff] at hstep
    obtain ⟨-, next, hnext, rfl⟩ := hstep
    obtain ⟨hw, hpackets⟩ := AudioEncodeWorker.carries_encodeNext hlib.opus hnext
    refine ⟨worked_audio hw (List.subset_append_of_subset_left _ fun b hb => ?_), h.withAudio (hw.settled h.audio) _⟩
    obtain ⟨packet, hpacket, hb⟩ := List.mem_flatMap.mp hb
    exact hpackets packet hpacket hb
  | enqueue =>
    simp only [stepAudio] at hstep
    split at hstep
    · cases hstep
    · next packet rest hmessages =>
      cases hstep
      have htakes := RtcTransportWorker.takes_enqueueAudio lib.checks s.rtcTransportWorker packet
      refine ⟨⟨works_rtc htakes rfl rfl ?_ ?_ (VideoThread.carries_process _ _) nofun, rfl, rfl, rfl, rfl⟩,
        h.audio, h.video, htakes.orderly h.rtc, h.others⟩
      · exact hmessages ▸ List.subset_cons_self packet rest
      · exact List.cons_subset.mpr ⟨hmessages ▸ List.mem_cons_self, List.nil_subset _⟩
  | finish =>
    simp only [stepAudio, Option.ite_none_right_eq_some, Option.map_eq_some_iff] at hstep
    obtain ⟨-, worker, hw, rfl⟩ := hstep
    exact carried worker (AudioEncodeWorker.carries_finish hw)

/-- The video thread. -/
theorem stepVideo_worked (hlib : lib.Honest) (h : s.Tidy) {e : VideoEvent} (hstep : s.stepVideo lib e = some s') :
    Worked s s' ∧ s'.Tidy := by
  have carried : ∀ worker, s.videoEncodeWorker.Carries worker →
      Worked s { s with videoEncodeWorker := worker } ∧ Tidy { s with videoEncodeWorker := worker } := fun worker hw =>
    ⟨worked_video hw, h.withVideo (hw.settled h.video)⟩
  cases e with
  | packetizeNext =>
    obtain ⟨next, hnext, rfl⟩ := Option.map_eq_some_iff.mp hstep
    obtain ⟨hw, hpackets⟩ := VideoThread.carries_packetizeNext hnext
    have htakes := RtcTransportWorker.takes_enqueueVideo s.rtcTransportWorker next.2
    exact ⟨⟨works_rtc htakes rfl rfl (List.Subset.refl _) (List.nil_subset _) hw hpackets, rfl, rfl, rfl, rfl⟩,
      h.audio, hw.settled h.video, htakes.orderly h.rtc, h.others⟩
  | enter =>
    obtain ⟨worker, hw, rfl⟩ := Option.map_eq_some_iff.mp hstep
    exact carried worker (VideoThread.carries_enter hw)
  | takePending =>
    obtain ⟨worker, hw, rfl⟩ := Option.map_eq_some_iff.mp hstep
    exact carried worker (VideoThread.carries_takePending hw)
  | processVideoFrame =>
    obtain ⟨worker, hw, rfl⟩ := Option.map_eq_some_iff.mp hstep
    exact carried worker (VideoThread.carries_processVideoFrame hlib.codec hw)
  | finish =>
    obtain ⟨worker, hw, rfl⟩ := Option.map_eq_some_iff.mp hstep
    exact carried worker (VideoThread.carries_finish hw)

/-- A step of the RTC thread that hands over nothing. -/
theorem worked_rtc {worker : RtcTransportWorker (StampedAudio (Tagged Byte)) (StampedVideo (Tagged Frame))}
    (h : RtcTransportWorker.Takes [] [] s.rtcTransportWorker worker) : Worked s { s with rtcTransportWorker := worker } :=
  ⟨works_rtc h rfl rfl (List.Subset.refl _) (List.nil_subset _) (VideoThread.carries_process _ _) nofun, rfl, rfl, rfl, rfl⟩

/-- Something is written to a track. -/
theorem Worked.left (hw : Worked s s') (h : s.Follows lane) {entry : MediaEntry Byte Frame}
    (hseen : ∀ x, entry.seen lane = some x → ∃ items, x = .left items ∧ (s.pipe lane).enabled = true ∧
      items ⊆ (s.pipe lane).downstream) : Follows { s' with log := s'.log ++ [entry] } lane := by
  have hdesk : desk { s' with log := s'.log ++ [entry] } lane = { s.desk lane with pipe := s'.pipe lane } := by
    change s'.desk lane = _
    unfold desk
    rw [hw.opened, hw.request, hw.count]
  unfold Follows
  rw [hdesk]
  dsimp only
  rw [hw.log, List.filterMap_append]
  cases hentry : entry.seen lane with
  | none =>
    rw [List.filterMap_cons_none hentry, List.filterMap_nil, List.append_nil]
    exact h.unseen (.work (hw.pipe lane))
  | some x =>
    obtain ⟨items, rfl, henabled, hitems⟩ := hseen x hentry
    rw [List.filterMap_cons_some hentry, List.filterMap_nil]
    exact h.next (.leave henabled hitems (hw.pipe lane))

theorem toList_filter {α : Type} (o : Option α) (p : α → Bool) : o.toList.filter p = [] ∨ ∃ x ∈ o, o.toList.filter p = [x] := by
  cases o with
  | none => exact .inl rfl
  | some x =>
    cases hp : p x with
    | true => exact .inr ⟨x, rfl, List.filter_cons_of_pos hp⟩
    | false => exact .inl (List.filter_cons_of_neg (by rw [hp]; exact Bool.false_ne_true))

/-- The RTC thread: what it writes it had, and may send. -/
theorem stepRtc_follows (h : s.Tidy) (hfollows : ∀ lane, s.Follows lane) {e : RtcEvent} (hstep : s.stepRtc lib e = some s') :
    s'.Tidy ∧ ∀ lane, s'.Follows lane := by
  have taken : ∀ worker, RtcTransportWorker.Takes [] [] s.rtcTransportWorker worker →
      Tidy { s with rtcTransportWorker := worker } ∧ ∀ lane, Follows { s with rtcTransportWorker := worker } lane := fun worker hw =>
    ⟨⟨h.audio, h.video, hw.orderly h.rtc, h.others⟩, fun lane => (worked_rtc hw).follows (hfollows lane)⟩
  cases e with
  | post =>
    obtain ⟨worker, hw, rfl⟩ := Option.map_eq_some_iff.mp hstep
    exact taken worker (RtcTransportWorker.takes_post hw)
  | enter =>
    obtain ⟨worker, hw, rfl⟩ := Option.map_eq_some_iff.mp hstep
    exact taken worker (RtcTransportWorker.takes_enter hw)
  | dequeue =>
    obtain ⟨worker, hw, rfl⟩ := Option.map_eq_some_iff.mp hstep
    exact taken worker (RtcTransportWorker.takes_dequeue hw)
  | beginVideo =>
    obtain ⟨worker, hw, rfl⟩ := Option.map_eq_some_iff.mp hstep
    exact taken worker (RtcTransportWorker.takes_beginVideo hw)
  | sendAudio isOpen =>
    obtain ⟨⟨worker, packet⟩, hw, rfl⟩ := Option.map_eq_some_iff.mp hstep
    obtain ⟨htakes, hpacket⟩ := RtcTransportWorker.takes_sendAudio hw
    refine ⟨⟨h.audio, h.video, htakes.orderly h.rtc, h.others⟩, fun lane => ?_⟩
    rcases toList_filter packet (s.rtcTransportWorker.sendAudioRtp lib.checks isOpen) with hnone | ⟨p, hp, hone⟩
    · simp only [hnone, List.map_nil, List.append_nil]
      exact (worked_rtc htakes).follows (hfollows lane)
    · simp only [hone, List.map_cons, List.map_nil]
      obtain ⟨hheld, henabled⟩ := hpacket p hp
      refine (worked_rtc htakes).left (hfollows lane) fun x hx => ?_
      cases lane with
      | audio =>
        cases hx
        exact ⟨_, rfl, henabled, fun n hn => List.map_subset Prod.fst (fun b hb => List.mem_flatMap.mpr ⟨p, hheld, hb⟩) hn⟩
      | video => cases hx
  | sendVideo isOpen =>
    obtain ⟨⟨worker, packet⟩, hw, rfl⟩ := Option.map_eq_some_iff.mp hstep
    obtain ⟨htakes, hpacket⟩ := RtcTransportWorker.takes_sendVideo hw h.rtc
    refine ⟨⟨h.audio, h.video, htakes.orderly h.rtc, h.others⟩, fun lane => ?_⟩
    rcases toList_filter packet (s.rtcTransportWorker.sendVideoRtp lib.checks isOpen) with hnone | ⟨p, hp, hone⟩
    · simp only [hnone, List.map_nil, List.append_nil]
      exact (worked_rtc htakes).follows (hfollows lane)
    · simp only [hone, List.map_cons, List.map_nil]
      obtain ⟨hheld, henabled⟩ := hpacket p hp
      refine (worked_rtc htakes).left (hfollows lane) fun x hx => ?_
      cases lane with
      | audio => cases hx
      | video =>
        cases hx
        exact ⟨_, rfl, henabled, fun n hn => List.map_subset Prod.fst (fun b hb => List.mem_flatMap.mpr ⟨p, hheld, hb⟩) hn⟩

/-! ### The main thread -/

theorem fed_of_givesPcm {r : MediaRequest} {a : Ask} (h : r.ask .audio = some a) : a.fed = r.givesPcm := by
  cases r <;> cases h <;> rfl

theorem fed_of_givesFrames {r : MediaRequest} {a : Ask} (h : r.ask .video = some a) : a.fed = r.givesFrames := by
  cases r <;> cases h <;> rfl

/-- Nothing is captured while the desk of the device gives up. -/
theorem fed_of_all {gives : MediaRequest → Bool} (hall : (s.request.all fun request => gives request.1) = true)
    (hgives : ∀ r a, r.ask lane = some a → a.fed = gives r) :
    ∀ a calls, (s.desk lane).request = some (a, calls) → a.fed = true := by
  intro a calls hrequest
  obtain ⟨⟨r, rest⟩, hr, hmap⟩ := Option.bind_eq_some_iff.mp hrequest
  obtain ⟨a', hask, heq⟩ := Option.map_eq_some_iff.mp hmap
  cases heq
  rw [hr] at hall
  exact (hgives r a hask).trans hall

/-- PCM comes in: it enters on the lane of audio. -/
theorem capturePcm_follows (h : s.Follows lane) (pcmData : List Byte)
    (hgives : (s.request.all fun request => request.1.givesPcm) = true) : (s.slotAudioPcmDataCaptured pcmData).Follows lane := by
  unfold Follows slotAudioPcmDataCaptured
  rw [List.filterMap_append]
  cases lane with
  | video => exact (List.append_nil _).symm ▸ h
  | audio =>
    refine h.next (.enter (fed_of_all hgives fun _ _ => fed_of_givesPcm) ?_)
    split
    · next hrefused => exact ⟨rfl, fun _ => subset_rfl, Set.subset_insert _ _, rfl, subset_rfl⟩
    · next haccepted =>
      have hsamples := AudioEncodeWorker.samples_append s.audioEncodeWorker (pcmData.map fun byte => (s.pcmChunks, byte))
      have hup := List.map_subset Prod.fst
        (List.append_subset.mpr ⟨List.subset_append_of_subset_left (s.audioMessages.flatMap StampedAudio.pcm) hsamples,
          List.subset_append_right _ _⟩)
      refine ⟨rfl, fun hno => absurd ?_ haccepted, fun n hn => ?_, rfl, subset_rfl⟩
      · have hno : s.audioEncodeWorker.acceptingPcm = false := hno
        simp [hno]
      · have hin := hup hn
        rw [List.append_assoc, List.map_append] at hin
        rcases List.mem_append.mp hin with hin | hin
        · obtain ⟨sample, hsample, rfl⟩ := List.mem_map.mp hin
          obtain ⟨byte, -, rfl⟩ := List.mem_map.mp hsample
          exact .inl rfl
        · exact .inr hin

theorem captureFrame_follows (h : s.Follows lane) (frame : Frame)
    (hgives : (s.request.all fun request => request.1.givesFrames) = true) : (s.slotVideoFrameCaptured lib frame).Follows lane := by
  unfold Follows slotVideoFrameCaptured
  rw [List.filterMap_append]
  cases lane with
  | audio => exact (List.append_nil _).symm ▸ h
  | video =>
    refine h.next (.enter (fed_of_all hgives fun _ _ => fed_of_givesFrames) ?_)
    split
    · next hrefused => exact ⟨rfl, fun _ => subset_rfl, Set.subset_insert _ _, rfl, subset_rfl⟩
    · next haccepted =>
      refine ⟨rfl, fun hno => absurd ?_ haccepted, fun n hn => ?_, rfl, subset_rfl⟩
      · have hno : s.videoEncodeWorker.acceptingFrames = false := hno
        simp [hno]
      · rcases List.mem_cons.mp (List.map_subset Prod.fst (VideoThread.pictures_keep _ _) hn) with rfl | hin
        · exact .inl rfl
        · exact .inr hin

/-! ### Requests -/

theorem seen_requested (r : MediaRequest) :
    [(.requested r : MediaEntry Byte Frame)].filterMap (MediaEntry.seen lane) =
      match r.ask lane with
      | some (.opening _) => [.asked]
      | _ => [] := by
  cases lane <;> cases r <;> rfl

theorem seen_returned (r : MediaRequest) :
    [(.returned r : MediaEntry Byte Frame)].filterMap (MediaEntry.seen lane) =
      match r.ask lane with
      | some .closing => [.closed]
      | _ => [] := by
  cases lane <;> cases r <;> rfl

/-- What is open is not opened again. -/
theorem answersAtOnce_opening {r : MediaRequest} {works : Bool} (h : r.ask lane = some (.opening works)) :
    s.answersAtOnce r = s.opened lane := by
  cases lane <;> cases r <;> cases h <;> rfl

/-- What is not open is not closed. -/
theorem answersAtOnce_closing {r : MediaRequest} (h : r.ask lane = some .closing) (hans : s.answersAtOnce r = true) :
    s.opened lane = false := by
  cases lane <;> cases r <;> cases h
  case audio.closeMicrophone.refl => exact (Bool.not_eq_true' _).mp hans
  case video.closeCamera.refl => exact (Bool.not_eq_true' _).mp hans
  all_goals cases hans

/-- What a request leaves of a device. -/
theorem opened_settle (r : MediaRequest) : (s.settle r).opened lane =
    match r.ask lane with
    | some (.opening works) => works
    | some .closing => false
    | none => s.opened lane := by
  cases lane <;> cases r <;> rfl

theorem request_of_free (h : s.request = none) : (s.desk lane).request = none := by
  unfold desk
  rw [h]
  rfl

theorem request_of_some {r : MediaRequest} {calls : List BlockingCall} (h : s.request = some (r, calls)) (lane : Lane) :
    (s.desk lane).request = (r.ask lane).map fun a => (a, calls.flatMap (BlockingCall.does lane)) := by
  unfold desk
  rw [h]
  rfl

theorem begin_follows (h : s.Follows lane) (hfree : s.request = none) (r : MediaRequest) : (s.begin r).Follows lane := by
  have hrequest : (s.desk lane).request = none := request_of_free hfree
  have hbegun : ∀ entries : List (MediaEntry Byte Frame),
      desk { s with request := some (r, r.calls), log := s.log ++ entries } lane =
        { s.desk lane with request := (r.ask lane).map fun a => (a, a.calls) } := by
    intro entries
    have hcalls : (r.ask lane).map (fun a => (a, r.calls.flatMap (BlockingCall.does lane))) =
        (r.ask lane).map fun a => (a, a.calls) := by
      rw [MediaRequest.does_calls]
      cases r.ask lane <;> rfl
    unfold desk
    exact congrArg (Desk.mk _ _ · _) hcalls
  unfold begin
  split
  · next hans =>
    have hboth : [(.requested r : MediaEntry Byte Frame), .returned r].filterMap (MediaEntry.seen lane) =
        [(.requested r : MediaEntry Byte Frame)].filterMap (MediaEntry.seen lane) ++
          [(.returned r : MediaEntry Byte Frame)].filterMap (MediaEntry.seen lane) := by
      rw [← List.filterMap_append]
      rfl
    unfold Follows
    rw [List.filterMap_append, hboth, seen_requested, seen_returned]
    cases hask : r.ask lane with
    | none => exact (List.append_nil _).symm ▸ h
    | some a =>
      cases a with
      | opening works => exact h.next (.openAtOnce hrequest ((answersAtOnce_opening hask).symm.trans hans))
      | closing => exact h.next (.closeAtOnce hrequest (answersAtOnce_closing hask hans))
  · next hans =>
    unfold Follows
    rw [hbegun, List.filterMap_append, seen_requested]
    cases hask : r.ask lane with
    | none =>
      have hsame : { s.desk lane with request := none } = s.desk lane := by rw [← hrequest]
      rw [Option.map_none, hsame]
      exact (List.append_nil _).symm ▸ h
    | some a =>
      cases a with
      | opening works =>
        rw [answersAtOnce_opening hask] at hans
        exact h.next (.opening hrequest ((Bool.not_eq_true _).mp hans))
      | closing => exact h.next (.closing hrequest)

/-- The request returns. -/
theorem settle_follows (h : s.Follows lane) {r : MediaRequest} (hr : s.request = some (r, [])) :
    Follows { s.settle r with request := none, log := s.log ++ [.returned r] } lane := by
  have hrequest := request_of_some hr lane
  have hdesk : desk { s.settle r with request := none, log := s.log ++ [.returned r] } lane =
      { s.desk lane with opened := (s.settle r).opened lane, request := none } := by
    cases lane <;> cases r <;> rfl
  unfold Follows
  rw [hdesk, List.filterMap_append, seen_returned, opened_settle]
  cases hask : r.ask lane with
  | none =>
    rw [hask, Option.map_none] at hrequest
    have hsame : { s.desk lane with opened := s.opened lane, request := none } = s.desk lane := by
      rw [← hrequest]
      rfl
    dsimp only
    rw [hsame]
    exact (List.append_nil _).symm ▸ h
  | some a =>
    rw [hask] at hrequest
    cases a with
    | opening works => exact h.next (.openReturns hrequest)
    | closing => exact h.next (.closeReturns hrequest)

/-! ### Blocking calls -/

theorem setOf_mem_eq_empty {xs : List Nat} (h : xs = []) : {n | n ∈ xs} = (∅ : Set Nat) := by
  subst h
  exact Set.ext fun n => iff_of_false List.not_mem_nil (Set.notMem_empty n)

/-- A command of the RTC thread, seen from a device. -/
theorem runs_command (horderly : s.rtcTransportWorker.Orderly) (hfree : s.rtcTransportWorker.Free) (c : TransportCommand)
    (lane : Lane) : Pipeline.Runs false (c.does lane) (s.pipe lane)
      (pipe { s with rtcTransportWorker := s.rtcTransportWorker.command c } lane) := by
  have hidle := horderly.busy hfree
  -- with nothing in its hands, an empty queue is all
  have haudio : ∀ worker : RtcTransportWorker (StampedAudio (Tagged Byte)) (StampedVideo (Tagged Frame)),
      worker.call = s.rtcTransportWorker.call → worker.audioRtpPackets = [] →
      downstream { s with rtcTransportWorker := worker } .audio = [] := by
    intro worker hcall hqueue
    simp [downstream, RtcTransportWorker.audioHeld, hcall, hidle, hqueue, SendCall.audioInHand]
  have hvideo : ∀ worker : RtcTransportWorker (StampedAudio (Tagged Byte)) (StampedVideo (Tagged Frame)),
      worker.call = s.rtcTransportWorker.call → worker.videoRtpFrames = [] →
      downstream { s with rtcTransportWorker := worker } .video = [] := by
    intro worker hcall hqueue
    simp [downstream, RtcTransportWorker.videoHeld, hcall, hidle, hqueue, SendCall.videoInHand]
  cases c with
  | startMediaSession =>
    rw [RtcTransportWorker.command, RtcTransportWorker.startMediaSession_eq]
    cases lane <;> exact .done
  | stopMediaSession =>
    cases lane with
    | audio => exact .one ⟨rfl, subset_rfl, rfl, setOf_mem_eq_empty (haudio _ rfl rfl)⟩
    | video => exact .one ⟨rfl, subset_rfl, rfl, setOf_mem_eq_empty (hvideo _ rfl rfl)⟩
  | setVideoSendingEnabled enabled =>
    cases lane with
    | audio => exact .done
    | video =>
      cases enabled with
      | true => exact .one ⟨rfl, subset_rfl, subset_rfl⟩
      | false => exact .one ⟨rfl, subset_rfl, rfl, setOf_mem_eq_empty (hvideo _ rfl rfl)⟩
  | setAudioSendingEnabled enabled =>
    cases lane with
    | audio =>
      cases enabled with
      | true => exact .one ⟨rfl, subset_rfl, subset_rfl⟩
      | false => exact .one ⟨rfl, subset_rfl, rfl, setOf_mem_eq_empty (haudio _ rfl rfl)⟩
    | video => exact .done

/-- The commands of one call, in turn. -/
theorem runs_commands (horderly : s.rtcTransportWorker.Orderly) (hfree : s.rtcTransportWorker.Free)
    (commands : List TransportCommand) (lane : Lane) :
    (commands.foldl RtcTransportWorker.command s.rtcTransportWorker).Orderly ∧
      Pipeline.Runs false (commands.flatMap (TransportCommand.does lane)) (s.pipe lane)
        (pipe { s with rtcTransportWorker := commands.foldl RtcTransportWorker.command s.rtcTransportWorker } lane) := by
  induction commands generalizing s with
  | nil => exact ⟨horderly, .done⟩
  | cons c commands ih =>
    obtain ⟨hfree', horderly'⟩ := RtcTransportWorker.orderly_command horderly hfree c
    obtain ⟨hlast, hruns⟩ := ih (s := { s with rtcTransportWorker := s.rtcTransportWorker.command c }) horderly' hfree'
    exact ⟨hlast, (runs_command horderly hfree c lane).trans hruns⟩

/-- A blocking call changes the workers only, by what it does on each device. -/
structure Ran (c : BlockingCall) (s s' : MediaController Byte Frame) : Prop where
  runs : ∀ lane, Pipeline.Runs false (c.does lane) (s.pipe lane) (s'.pipe lane)
  opened : s'.opened = s.opened
  request : s'.request = s.request
  count : s'.count = s.count
  log : s'.log = s.log
  tidy : s'.Tidy

theorem ran_call (h : s.Tidy) {c : BlockingCall} (hrun : s.run c = some s') : Ran c s s' := by
  cases c with
  | startAudio =>
    simp only [run, Option.ite_none_right_eq_some, Option.some.injEq] at hrun
    obtain ⟨-, rfl⟩ := hrun
    refine ⟨fun lane => ?_, rfl, rfl, rfl, rfl, h.withAudio (AudioEncodeWorker.settled_start h.audio) _⟩
    cases lane with
    | audio =>
      have hup : s.audioEncodeWorker.start.samples ++ s.audioMessages.flatMap StampedAudio.pcm ⊆
          s.audioEncodeWorker.samples ++ s.audioMessages.flatMap StampedAudio.pcm :=
        List.append_subset.mpr ⟨List.subset_append_of_subset_left _ (AudioEncodeWorker.samples_start _),
          List.subset_append_right _ _⟩
      exact .one ⟨fun n hn => List.map_subset Prod.fst hup hn, rfl, subset_rfl⟩
    | video => exact .done
  | stopAudio =>
    simp only [run, audioFree, Bool.and_eq_true, List.isEmpty_iff, Option.ite_none_right_eq_some, Option.some.injEq] at hrun
    obtain ⟨⟨hfree, hmessages⟩, rfl⟩ := hrun
    obtain ⟨haccepting, hsamples, hsettled⟩ := AudioEncodeWorker.stopped h.audio (AudioEncodeWorker.idle_of_free hfree)
    refine ⟨fun lane => ?_, rfl, rfl, rfl, rfl, h.withAudio hsettled _⟩
    cases lane with
    | audio =>
      have hnone : upstream { s with audioEncodeWorker := s.audioEncodeWorker.stop } .audio = [] := by
        simp [upstream, hsamples, hmessages]
      exact .one ⟨⟨haccepting, setOf_mem_eq_empty hnone⟩, rfl, subset_rfl⟩
    | video => exact .done
  | startVideo =>
    simp only [run, Option.ite_none_right_eq_some, Option.some.injEq] at hrun
    obtain ⟨-, rfl⟩ := hrun
    refine ⟨fun lane => ?_, rfl, rfl, rfl, rfl, h.withVideo (VideoThread.settled_start h.video)⟩
    cases lane with
    | audio => exact .done
    | video =>
      exact .one ⟨fun n hn => List.map_subset Prod.fst (VideoThread.pictures_start s.videoEncodeWorker) hn, rfl, subset_rfl⟩
  | stopVideo =>
    simp only [run, Option.ite_none_right_eq_some, Option.some.injEq] at hrun
    obtain ⟨hfree, rfl⟩ := hrun
    obtain ⟨haccepting, hpictures, hsettled⟩ := VideoThread.stopped h.video (VideoThread.idle_of_free hfree)
    refine ⟨fun lane => ?_, rfl, rfl, rfl, rfl, h.withVideo hsettled⟩
    cases lane with
    | audio => exact .done
    | video =>
      have hnone : upstream { s with videoEncodeWorker := s.videoEncodeWorker.stop } .video = [] := by
        simp [upstream, hpictures]
      exact .one ⟨⟨haccepting, setOf_mem_eq_empty hnone⟩, rfl, subset_rfl⟩
  | transport commands =>
    simp only [run, Option.ite_none_right_eq_some, Option.some.injEq] at hrun
    obtain ⟨hfree, rfl⟩ := hrun
    have hcommands := runs_commands h.rtc hfree commands
    refine ⟨fun lane => ?_, rfl, rfl, rfl, rfl, h.audio, h.video, (hcommands .audio).1, h.others⟩
    cases lane <;> exact (hcommands _).2

/-- The next call of the request has run. -/
theorem call_follows (h : s.Tidy) (hfollows : s.Follows lane) {r : MediaRequest} {c : BlockingCall} {calls : List BlockingCall}
    (hr : s.request = some (r, c :: calls)) (hran : Ran c s s') : Follows { s' with request := some (r, calls) } lane := by
  have hrequest := request_of_some hr lane
  have hdesk : desk { s' with request := some (r, calls) } lane =
      { s.desk lane with
        pipe := s'.pipe lane
        request := (r.ask lane).map fun a => (a, calls.flatMap (BlockingCall.does lane)) } := by
    have hopened := congrFun hran.opened lane
    have hcount := congrFun hran.count lane
    unfold desk
    rw [← hopened, ← hcount]
    rfl
  unfold Follows
  rw [hdesk]
  dsimp only
  rw [hran.log]
  cases hask : r.ask lane with
  | some a =>
    rw [hask, Option.map_some, List.flatMap_cons] at hrequest
    exact hfollows.calls rfl hrequest (hran.runs lane)
  | none =>
    rw [hask, Option.map_none] at hrequest
    have hnothing : c.does lane = [] := by
      have hall := h.others r _ hr lane hask
      rw [List.flatMap_cons, List.append_eq_nil_iff] at hall
      exact hall.1
    have hworks := hfollows.works rfl (hnothing ▸ hran.runs lane)
    rw [hrequest] at hworks
    exact hworks

/-- What holds of every state. -/
structure Sound (s : MediaController Byte Frame) : Prop where
  tidy : s.Tidy
  follows : ∀ lane, s.Follows lane

theorem Worked.sound (hw : Worked s s') (h : s.Sound) (htidy : s'.Tidy) : s'.Sound :=
  ⟨htidy, fun lane => hw.follows (h.follows lane)⟩

theorem stepMain_sound (h : s.Sound) {e : MainEvent Byte Frame} (hstep : s.stepMain lib e = some s') : s'.Sound := by
  obtain ⟨htidy, hfollows⟩ := h
  cases e with
  | slotAudioPcmDataCaptured pcmData =>
    simp only [stepMain, Option.ite_none_right_eq_some, Option.some.injEq] at hstep
    obtain ⟨hgives, rfl⟩ := hstep
    refine ⟨⟨?_, htidy.video, htidy.rtc, htidy.others⟩, fun lane => capturePcm_follows (hfollows lane) pcmData hgives⟩
    unfold slotAudioPcmDataCaptured
    dsimp only
    split
    · exact htidy.audio
    · next haccepted =>
      simp only [Bool.or_eq_true, Bool.not_eq_true', not_or, Bool.not_eq_false] at haccepted
      exact AudioEncodeWorker.settled_append htidy.audio haccepted.1 _
  | slotVideoFrameCaptured frame =>
    simp only [stepMain, Option.ite_none_right_eq_some, Option.some.injEq] at hstep
    obtain ⟨hgives, rfl⟩ := hstep
    refine ⟨⟨htidy.audio, ?_, htidy.rtc, htidy.others⟩, fun lane => captureFrame_follows (hfollows lane) frame hgives⟩
    unfold slotVideoFrameCaptured
    dsimp only
    split
    · exact htidy.video
    · next haccepted =>
      simp only [Bool.or_eq_true, Bool.not_eq_true', not_or, Bool.not_eq_false] at haccepted
      exact VideoThread.settled_keep htidy.video haccepted.1 _
  | postPcm =>
    obtain ⟨worker, hw, rfl⟩ := Option.map_eq_some_iff.mp hstep
    have hcarries := AudioEncodeWorker.carries_post hw
    exact (worked_audio hcarries (List.subset_append_right _ _)).sound ⟨htidy, hfollows⟩ (htidy.withAudio (hcarries.settled htidy.audio) _)
  | postFrame =>
    obtain ⟨worker, hw, rfl⟩ := Option.map_eq_some_iff.mp hstep
    have hcarries := VideoThread.carries_post hw
    exact (worked_video hcarries).sound ⟨htidy, hfollows⟩ (htidy.withVideo (hcarries.settled htidy.video))
  | begin r =>
    simp only [stepMain, Option.isNone_iff_eq_none, Option.ite_none_right_eq_some, Option.some.injEq] at hstep
    obtain ⟨hfree, rfl⟩ := hstep
    refine ⟨?_, fun lane => begin_follows (hfollows lane) hfree r⟩
    unfold begin
    split
    · exact ⟨htidy.audio, htidy.video, htidy.rtc, htidy.others⟩
    · refine ⟨htidy.audio, htidy.video, htidy.rtc, fun r' calls hr lane hask => ?_⟩
      cases hr
      rw [MediaRequest.does_calls, hask]
      rfl
  | proceed =>
    simp only [stepMain, proceed] at hstep
    split at hstep
    · cases hstep
    · next r c calls hr =>
      obtain ⟨s₁, hrun, rfl⟩ := Option.map_eq_some_iff.mp hstep
      have hran := ran_call htidy hrun
      refine ⟨⟨hran.tidy.audio, hran.tidy.video, hran.tidy.rtc, fun r' calls' hr' lane hask => ?_⟩,
        fun lane => call_follows htidy (hfollows lane) hr hran⟩
      cases hr'
      have hall := htidy.others r _ hr lane hask
      rw [List.flatMap_cons, List.append_eq_nil_iff] at hall
      exact hall.2
    · next r hr =>
      cases hstep
      refine ⟨?_, fun lane => settle_follows (hfollows lane) hr⟩
      cases r <;> exact ⟨htidy.audio, htidy.video, htidy.rtc, nofun⟩

theorem sound_start : Sound ({} : MediaController Byte Frame) := by
  refine ⟨⟨fun _ => ⟨rfl, rfl, rfl, rfl⟩, fun _ => ⟨rfl, rfl, rfl⟩, ⟨fun _ => rfl, nofun⟩, nofun⟩, fun lane => ?_⟩
  have hnone : {n : Nat | n ∈ ([] : List Nat)} = ∅ := setOf_mem_eq_empty rfl
  cases lane with
  | audio => exact .start ⟨⟨rfl, hnone⟩, hnone, rfl, hnone⟩ rfl rfl
  | video => exact .start ⟨⟨rfl, hnone⟩, hnone, rfl, hnone⟩ rfl rfl

theorem sound_step (hlib : lib.Honest) (h : s.Sound) {e : Event Byte Frame} (hstep : s.step lib e = some s') : s'.Sound := by
  cases e with
  | main e => exact stepMain_sound h hstep
  | audio e =>
    obtain ⟨hw, htidy⟩ := stepAudio_worked hlib h.tidy hstep
    exact hw.sound h htidy
  | video e =>
    obtain ⟨hw, htidy⟩ := stepVideo_worked hlib h.tidy hstep
    exact hw.sound h htidy
  | rtc e =>
    obtain ⟨htidy, hfollows⟩ := stepRtc_follows h.tidy h.follows hstep
    exact ⟨htidy, hfollows⟩

theorem sound_of_reachable (hlib : lib.Honest) (h : Reachable lib s) : s.Sound :=
  h.invariant sound_start fun _ _ _ hs _ hstep => sound_step hlib hs hstep

end MediaController

/-! ## The law -/

/-- What was seen says that a close silences: what is written after it was asked for after it, and was not captured
before it. -/
structure Silent (log : List (MediaEntry Byte Frame)) : Prop where
  microphone : ∀ before between after r packet,
    log = before ++ .returned r :: (between ++ .audioRtp packet :: after) → r = .closeMicrophone ∨ r = .stopAll →
      (∃ started, .requested (.openMicrophone started) ∈ between) ∧ ∀ sample ∈ packet.pcm, .pcmCaptured sample.1 ∉ before
  camera : ∀ before between after r packet,
    log = before ++ .returned r :: (between ++ .videoRtp packet :: after) → r = .closeCamera ∨ r = .stopAll →
      (∃ started, .requested (.openCamera started) ∈ between) ∧ ∀ picture ∈ packet.pictures, .frameCaptured picture.1 ∉ before

/-- What the desk sees of a close, and of something that is written after it. -/
theorem seen_log {lane : Lane} {before between after : List (MediaEntry Byte Frame)} {e e' : MediaEntry Byte Frame}
    {x x' : Desk.Entry} (he : e.seen lane = some x) (he' : e'.seen lane = some x') :
    (before ++ e :: (between ++ e' :: after)).filterMap (MediaEntry.seen lane) =
      before.filterMap (MediaEntry.seen lane) ++
        x :: (between.filterMap (MediaEntry.seen lane) ++ x' :: after.filterMap (MediaEntry.seen lane)) := by
  rw [List.filterMap_append, List.filterMap_cons_some he, List.filterMap_append, List.filterMap_cons_some he']

variable {lib : MediaLibraries Byte Frame} {s : MediaController Byte Frame}

/-- **Closing the microphone or the camera silences it**, in every interleaving of the main thread, the encoding threads
and the RTC thread, and so does leaving the meeting. -/
theorem close_silences (hlib : lib.Honest) (h : MediaController.Reachable lib s) : Silent s.log := by
  have hsound := MediaController.sound_of_reachable hlib h
  constructor
  case microphone =>
    intro before between after r packet hlog hr
    have hclosed : (.returned r : MediaEntry Byte Frame).seen .audio = some .closed := by
      rcases hr with rfl | rfl <;> rfl
    have hlaw := (hsound.follows .audio).silent _ _ _ _ (by rw [hlog]; exact seen_log hclosed rfl)
    obtain ⟨hasked, hfresh⟩ := hlaw
    constructor
    · obtain ⟨e, he, hseen⟩ := List.mem_filterMap.mp hasked
      cases e with
      | requested r' =>
        cases r' with
        | openMicrophone started => exact ⟨started, he⟩
        | _ => cases hseen
      | returned r' => cases r' <;> cases hseen
      | _ => cases hseen
    · intro sample hsample hcaptured
      exact hfresh sample.1 (List.mem_map_of_mem hsample) (List.mem_filterMap.mpr ⟨_, hcaptured, rfl⟩)
  case camera =>
    intro before between after r packet hlog hr
    have hclosed : (.returned r : MediaEntry Byte Frame).seen .video = some .closed := by
      rcases hr with rfl | rfl <;> rfl
    have hlaw := (hsound.follows .video).silent _ _ _ _ (by rw [hlog]; exact seen_log hclosed rfl)
    obtain ⟨hasked, hfresh⟩ := hlaw
    constructor
    · obtain ⟨e, he, hseen⟩ := List.mem_filterMap.mp hasked
      cases e with
      | requested r' =>
        cases r' with
        | openCamera started => exact ⟨started, he⟩
        | _ => cases hseen
      | returned r' => cases r' <;> cases hseen
      | _ => cases hseen
    · intro picture hpicture hcaptured
      exact hfresh picture.1 (List.mem_map_of_mem hpicture) (List.mem_filterMap.mpr ⟨_, hcaptured, rfl⟩)

end

namespace Scenario

/-- An encoder that gives a picture back at once. -/
def plain : MediaLibraries Nat Nat where
  opus _ frame := [frame]
  codec := ⟨fun _ frame => [⟨[frame], 1⟩], fun _ => 1⟩
  qt := ⟨fun _ => true, fun _ => true⟩
  checks := ⟨fun _ => false, fun _ => false⟩

theorem honest_plain : plain.Honest where
  opus fed frame pcm hpcm := by
    rw [List.mem_singleton.mp hpcm]
    exact List.subset_append_right _ _
  codec fed frame unit hunit := by
    rw [List.mem_singleton.mp hunit]
    exact List.subset_append_right _ _

/-- The camera is opened, and a frame goes all the way. -/
def frameSent : List (MediaController.Event Nat Nat) :=
  [.main (.begin (.openCamera true)), .main .proceed, .main .proceed, .main .proceed, .main (.slotVideoFrameCaptured 7),
    .main .postFrame, .video .enter, .video .takePending, .video .processVideoFrame, .video .packetizeNext, .video .finish,
    .rtc .post, .rtc .enter, .rtc .dequeue, .rtc .beginVideo, .rtc (.sendVideo true), .rtc (.sendVideo true), .rtc .dequeue]

/-- A frame is captured and the camera closed; its event is taken after that. -/
def closedInBetween : List (MediaController.Event Nat Nat) :=
  [.main (.slotVideoFrameCaptured 8), .main (.begin .closeCamera), .main .proceed, .main .proceed, .main .proceed,
    .main .postFrame, .video .enter, .video .takePending]

/-- What was written, and between it the closes. -/
def written : MediaEntry Nat Nat → Option (List Nat)
  | .videoRtp packet => some (packet.pictures.map Prod.fst)
  | .returned .closeCamera => some []
  | _ => none

end Scenario

open Scenario in
/-- The frame that was pending at the close is not among those that are sent after it. -/
theorem close_silences_reopened : ∃ s : MediaController Nat Nat, MediaController.Reachable plain s ∧
    s.log.filterMap written = [[0], [], [2]] ∧ Silent s.log := by
  have hplay : ((play (MediaController.step plain) (fun _ _ => true) (frameSent ++ closedInBetween ++ frameSent) {}).any
      fun s => decide (s.log.filterMap written = [[0], [], [2]])) = true := by decide
  obtain ⟨s, hs, hwritten⟩ := (Option.any_eq_true _ _).mp hplay
  have hreach : MediaController.Reachable plain s := reach_play (fun _ _ _ => trivial) hs
  exact ⟨s, hreach, of_decide_eq_true hwritten, close_silences honest_plain hreach⟩

end SyncRtc.Client
