import SyncRtc.Client.AudioReceivePipeline
import SyncRtc.Laws.CaptureTime

/-!
# The audio clock and the video timeline

What the sound output has played, counted from the first sample, is the clock; which moment of the publisher's time is
heard is another matter as soon as sound is missing. `Sound` is the invariant that keeps the two together: a byte given to
the output is as far past the first one as its place there says, and at most what was lost further
(`SoundReceiver.Sound.places`).

**The law** (`audio_drift`): in a run that has lost no more than `L` samples, in the network, in the decoder, in the
pending buffer or to silence, the frame captured with the sample being played is ahead of the clock by what the first
frames have fixed, up to the duration of `L` samples and rounding. Nothing makes up for what is lost (`audio_held`).

**What it does not establish.** A packet is taken to come in after the ones sent before it. The video frame is one that
`presentation_iff` finds nothing wrong with: of the first turn of the video timestamp.
-/

set_option autoImplicit false

namespace SyncRtc.Client

variable {Frame : Type}

/-! ## What the output was given, and what waits for it -/

namespace AvSyncScheduler

variable {Byte : Type}

/-- What the output was given. -/
def written (s : AvSyncScheduler Frame Byte) : List Byte := (s.audioSink.map (·.written)).getD []

/-- What the output was given and what waits for it. -/
def accepted (s : AvSyncScheduler Frame Byte) : List Byte := s.written ++ s.pendingAudio

theorem accepted_writePendingAudio (s : AvSyncScheduler Frame Byte) (qt : Answers) :
    (s.writePendingAudio qt).accepted = s.accepted ∧
      (s.writePendingAudio qt).audioPlaybackUnavailable = s.audioPlaybackUnavailable ∧
      (s.writePendingAudio qt).audioSink.isSome = s.audioSink.isSome := by
  unfold writePendingAudio
  split
  · exact ⟨rfl, rfl, rfl⟩
  · next sink hsink =>
    refine ⟨?_, rfl, by rw [hsink]; rfl⟩
    simp only [accepted, written, hsink, Option.map_some, Option.getD_some, List.append_assoc, List.take_append_drop]

/-- PCM joins what waits and the oldest beyond 120 ms goes; or no output starts, and nothing is played any more. -/
theorem accepted_queueAudioPcm {s : AvSyncScheduler Frame Byte} (h : s.audioPlaybackUnavailable = false) (qt : Answers)
    (pcm : List Byte) (ts : UInt32) :
    let t := s.queueAudioPcm qt pcm ts
    (t.audioPlaybackUnavailable = false ∧ t.accepted = s.written ++ (s.pendingAudio ++ pcm).drop
        ((s.pendingAudio ++ pcm).length - maxPendingAudioBytes)) ∨
      (t.audioPlaybackUnavailable = true ∧ t.accepted = [] ∧ t.audioSink.isSome = false) := by
  have note : ∀ t : AvSyncScheduler Frame Byte, t = (s.noteAudio qt ts).pushAudio qt pcm →
      t.audioPlaybackUnavailable = false ∧ t.audioSink = s.audioSink ∧ t.pendingAudio =
        (s.pendingAudio ++ pcm).drop ((s.pendingAudio ++ pcm).length - maxPendingAudioBytes) := by
    rintro t rfl
    unfold pushAudio noteAudio
    dsimp only
    split <;> exact ⟨h, rfl, rfl⟩
  simp only [queueAudioPcm, h, Bool.false_eq_true, if_false]
  generalize ht : (s.noteAudio qt ts).pushAudio qt pcm = t
  obtain ⟨havail, hsink, hpending⟩ := note t ht.symm
  split
  · next hstart =>
    have nosink : s.audioSink = none := by
      rw [← hsink]
      exact Option.isNone_iff_eq_none.mp hstart.1
    obtain ⟨hacc, hun, hsome⟩ := accepted_writePendingAudio (t.startAudioPlayback qt) qt
    rw [hacc, hun, hsome]
    unfold startAudioPlayback
    split
    · refine .inl ⟨havail, ?_⟩
      simp only [accepted, written, Option.map_some, Option.getD_some, nosink, Option.map_none, Option.getD_none, hpending]
    · refine .inr ⟨rfl, ?_, by rw [hsink, nosink]; rfl⟩
      simp only [accepted, written, hsink, nosink, Option.map_none, Option.getD_none, List.append_nil]
  · obtain ⟨hacc, hun, -⟩ := accepted_writePendingAudio t qt
    rw [hacc, hun]
    refine .inl ⟨havail, ?_⟩
    simp only [accepted, written, hsink, hpending]

/-- What a call that has nothing to do with sound coming in keeps of it. -/
structure SameSound (s t : AvSyncScheduler Frame Byte) : Prop where
  accepted : t.accepted = s.accepted
  unavailable : t.audioPlaybackUnavailable = s.audioPlaybackUnavailable
  sink : t.audioSink.isSome = s.audioSink.isSome

theorem sameSound_queueVideoFrame (s : AvSyncScheduler Frame Byte) (qt : Answers) (frame : Frame) (ts : UInt32) :
    SameSound s (s.queueVideoFrame qt frame ts) := by
  simp only [queueVideoFrame, pushVideo, noteVideo]
  split <;> exact ⟨rfl, rfl, rfl⟩

theorem sameSound_updatePlayback (s : AvSyncScheduler Frame Byte) (qt : Answers) :
    SameSound s (s.updatePlayback qt) := by
  obtain ⟨hacc, hun, hsome⟩ := accepted_writePendingAudio s qt
  unfold updatePlayback
  dsimp only
  split
  · exact ⟨hacc, hun, hsome⟩
  · exact ⟨hacc, hun, hsome⟩

theorem sameSound_soundPlays (s : AvSyncScheduler Frame Byte) (bytes : Nat) (idle : Bool) :
    SameSound s (s.soundPlays bytes idle) := by
  refine ⟨?_, rfl, by simp only [soundPlays, Option.isSome_map]⟩
  simp only [accepted, written, soundPlays, Option.map_map]
  rfl

end AvSyncScheduler

namespace AudioPacket

theorem length_pcm (packet : AudioPacket) : packet.pcm.length = 2 * packet.samples := by
  rw [pcm, List.length_map, List.length_range]

theorem getElem?_pcm {packet : AudioPacket} {k : Nat} {place : Int} (h : packet.pcm[k]? = some place) :
    place = 2 * packet.start + k := by
  simp only [pcm, List.getElem?_map, Option.map_eq_some_iff] at h
  obtain ⟨j, hj, rfl⟩ := h
  rw [← (List.getElem?_eq_some_iff.mp hj).2, List.getElem_range]

end AudioPacket

/-! ## What was lost -/

namespace SoundReceiver

/-- Packets wait in the order they were sent in, and what the output was given or waits for it is as far past the first
byte as its place says, and at most what was lost further. -/
structure Sound (r : SoundReceiver Frame) : Prop where
  queue : r.encodedFrames.Pairwise fun a b => a.finish ≤ 2 * b.start
  ahead : ∀ place ∈ r.handed, ∀ packet ∈ r.encodedFrames, place ≤ 2 * packet.start
  behind : ∀ packet ∈ r.encodedFrames, ∃ place ∈ r.arrived, packet.finish ≤ place
  before : ∀ place ∈ r.handed, ∃ place' ∈ r.arrived, place ≤ place'
  lost : 0 ≤ r.lost
  places : ∀ (k : Nat) (place : Int), r.syncScheduler.accepted[k]? = some place →
    2 * r.firstSample + k ≤ place ∧ place ≤ 2 * r.firstSample + k + r.lost
  silent : r.handed = none → r.syncScheduler.accepted = [] ∧ r.lost = 0
  full : ∀ place ∈ r.handed, r.syncScheduler.audioPlaybackUnavailable = false →
    place = 2 * r.firstSample + r.syncScheduler.accepted.length + r.lost
  unavailable : r.syncScheduler.audioPlaybackUnavailable = true →
    r.syncScheduler.accepted = [] ∧ r.syncScheduler.audioSink.isSome = false

theorem Sound.sameSound {r : SoundReceiver Frame} (h : r.Sound) {s : AvSyncScheduler Frame Int}
    (same : AvSyncScheduler.SameSound r.syncScheduler s) : Sound { r with syncScheduler := s } where
  queue := h.queue
  ahead := h.ahead
  behind := h.behind
  before := h.before
  lost := h.lost
  places := by
    rw [same.accepted]
    exact h.places
  silent hnone := ⟨same.accepted.trans (h.silent hnone).1, (h.silent hnone).2⟩
  full := by
    rw [same.accepted, same.unavailable]
    exact h.full
  unavailable := by
    rw [same.unavailable, same.accepted, same.sink]
    exact h.unavailable

theorem Sound.receiveEncodedFrame {r : SoundReceiver Frame} (h : r.Sound) (packet : AudioPacket)
    (hok : ∀ place ∈ r.arrived, place ≤ 2 * packet.start) : (r.receiveEncodedFrame packet).Sound := by
  -- whether the oldest goes or not, what is kept was in the queue
  have kept : ∀ queue : List AudioPacket, queue.Sublist r.encodedFrames →
      Sound { r with encodedFrames := queue ++ [packet], arrived := some packet.finish } := by
    intro queue hsub
    have nonneg : 2 * packet.start ≤ packet.finish := by
      rw [AudioPacket.finish]
      omega
    refine { h with queue := ?_, ahead := ?_, behind := ?_, before := ?_ }
    · refine List.pairwise_append.mpr ⟨h.queue.sublist hsub, List.pairwise_singleton _ _, ?_⟩
      intro a ha b hb
      obtain ⟨place, hplace, hle⟩ := h.behind a (hsub.subset ha)
      rw [List.mem_singleton.mp hb]
      exact hle.trans (hok place hplace)
    · intro place hplace a ha
      rcases List.mem_append.mp ha with ha | ha
      · exact h.ahead place hplace a (hsub.subset ha)
      · obtain ⟨place', hplace', hle⟩ := h.before place hplace
        rw [List.mem_singleton.mp ha]
        exact hle.trans (hok place' hplace')
    · intro a ha
      refine ⟨packet.finish, rfl, ?_⟩
      rcases List.mem_append.mp ha with ha | ha
      · obtain ⟨place, hplace, hle⟩ := h.behind a (hsub.subset ha)
        exact (hle.trans (hok place hplace)).trans nonneg
      · rw [List.mem_singleton.mp ha]
    · intro place hplace
      obtain ⟨place', hplace', hle⟩ := h.before place hplace
      exact ⟨packet.finish, rfl, (hle.trans (hok place' hplace')).trans nonneg⟩
  unfold SoundReceiver.receiveEncodedFrame
  dsimp only
  split
  · exact kept _ (List.tail_sublist _)
  · exact kept _ (List.Sublist.refl _)

theorem Sound.pcmDecoded {r : SoundReceiver Frame} (h : r.Sound) (qt : Answers) (packet : AudioPacket)
    (hafter : ∀ place ∈ r.handed, place ≤ 2 * packet.start)
    (hrest : ∀ other ∈ r.encodedFrames, packet.finish ≤ 2 * other.start)
    (harrived : ∃ place ∈ r.arrived, packet.finish ≤ place) : (r.pcmDecoded qt packet).Sound := by
  have gap : 0 ≤ 2 * packet.start - r.handed.getD (2 * packet.start) := by
    cases hh : r.handed with
    | none => rw [Option.getD_none, sub_self]
    | some place =>
      have := hafter place hh
      rw [Option.getD_some]
      omega
  have lostBy : 0 ≤ r.lostBy packet := by
    rw [SoundReceiver.lostBy]
    omega
  have lost := h.lost
  have queued := fun hun : r.syncScheduler.audioPlaybackUnavailable = false =>
    AvSyncScheduler.accepted_queueAudioPcm hun qt packet.pcm (stamp packet.start)
  have rest : ∀ t : AvSyncScheduler Frame Int, t = r.syncScheduler.queueAudioPcm qt packet.pcm (stamp packet.start) →
      (t.audioPlaybackUnavailable = true ∧ t.accepted = [] ∧ t.audioSink.isSome = false) ∨
      (r.syncScheduler.audioPlaybackUnavailable = false ∧ t.audioPlaybackUnavailable = false ∧
        t.accepted = r.syncScheduler.written ++ (r.syncScheduler.pendingAudio ++ packet.pcm).drop
          ((r.syncScheduler.pendingAudio ++ packet.pcm).length - maxPendingAudioBytes)) := by
    rintro t rfl
    cases hun : r.syncScheduler.audioPlaybackUnavailable with
    | true =>
      have same : r.syncScheduler.queueAudioPcm qt packet.pcm (stamp packet.start) = r.syncScheduler := by
        rw [AvSyncScheduler.queueAudioPcm, hun, if_pos rfl]
      rw [same]
      exact .inl ⟨hun, h.unavailable hun⟩
    | false => exact (queued hun).elim (fun h => .inr ⟨rfl, h⟩) .inl
  -- the packet's first byte, by what was accepted before it and what was lost up to it
  have begins : r.syncScheduler.audioPlaybackUnavailable = false →
      2 * packet.start + ((r.syncScheduler.pendingAudio ++ packet.pcm).length - maxPendingAudioBytes : Nat) =
        2 * (r.pcmDecoded qt packet).firstSample + r.syncScheduler.accepted.length + (r.pcmDecoded qt packet).lost := by
    intro hun
    simp only [SoundReceiver.pcmDecoded, SoundReceiver.lostBy]
    cases hh : r.handed with
    | none =>
      obtain ⟨hnil, hzero⟩ := h.silent hh
      simp only [hnil, hzero, Option.isNone_none, if_true, Option.getD_none, List.length_nil]
      omega
    | some place =>
      have full := h.full place hh hun
      simp only [Option.isNone_some, Bool.false_eq_true, if_false, Option.getD_some]
      omega
  have hlost : (r.pcmDecoded qt packet).lost = r.lost + r.lostBy packet := rfl
  have dropped : ((r.syncScheduler.pendingAudio ++ packet.pcm).length - maxPendingAudioBytes : Nat) ≤ r.lostBy packet := by
    rw [SoundReceiver.lostBy]
    omega
  refine ⟨h.queue, ?_, h.behind, ?_, ?_, ?_, fun hnone => (by cases hnone), ?_, ?_⟩
  · intro place hplace
    rw [← Option.mem_some_iff.mp hplace]
    exact hrest
  · intro place hplace
    rw [← Option.mem_some_iff.mp hplace]
    exact harrived
  · rw [hlost]
    omega
  · intro k place hk
    rcases rest _ rfl with ⟨-, hnil, -⟩ | ⟨hun, -, hacc⟩
    · rw [show (r.pcmDecoded qt packet).syncScheduler.accepted = [] from hnil] at hk
      cases hk
    have begins := begins hun
    have total : r.syncScheduler.accepted.length =
        r.syncScheduler.written.length + r.syncScheduler.pendingAudio.length := List.length_append
    rw [show (r.pcmDecoded qt packet).syncScheduler.accepted = _ from hacc] at hk
    have old : ∀ j : Nat, r.syncScheduler.accepted[j]? = some place → 2 * (r.pcmDecoded qt packet).firstSample + j ≤ place ∧
        place ≤ 2 * (r.pcmDecoded qt packet).firstSample + j + r.lost := by
      intro j hj
      cases hh : r.handed with
      | none =>
        rw [(h.silent hh).1] at hj
        cases hj
      | some place' =>
        simp only [SoundReceiver.pcmDecoded, hh, Option.isNone_some, Bool.false_eq_true, if_false]
        exact h.places j place hj
    by_cases hw : k < r.syncScheduler.written.length
    · rw [List.getElem?_append_left hw] at hk
      have := old k (by rw [AvSyncScheduler.accepted, List.getElem?_append_left hw, hk])
      omega
    · rw [List.getElem?_append_right (by omega), List.getElem?_drop] at hk
      generalize hd : (r.syncScheduler.pendingAudio ++ packet.pcm).length - maxPendingAudioBytes = d at hk begins dropped
      by_cases hp : d + (k - r.syncScheduler.written.length) < r.syncScheduler.pendingAudio.length
      · -- it waited before, and is now `d` places further on
        rw [List.getElem?_append_left hp] at hk
        have moved : k + d - r.syncScheduler.written.length = d + (k - r.syncScheduler.written.length) := by omega
        have := old (k + d) (by
          rw [AvSyncScheduler.accepted, List.getElem?_append_right (by omega), moved, hk])
        omega
      · rw [List.getElem?_append_right (by omega)] at hk
        have := AudioPacket.getElem?_pcm hk
        omega
  · intro place hplace hun
    rw [← Option.mem_some_iff.mp hplace]
    rcases rest _ rfl with ⟨hyes, -, -⟩ | ⟨hno, -, hacc⟩
    · exact absurd (hyes.symm.trans hun) (by simp)
    have begins := begins hno
    have total : r.syncScheduler.accepted.length =
        r.syncScheduler.written.length + r.syncScheduler.pendingAudio.length := List.length_append
    rw [show (r.pcmDecoded qt packet).syncScheduler.accepted = _ from hacc]
    have hlen := packet.length_pcm
    simp only [List.length_append, List.length_drop, AudioPacket.finish] at begins ⊢
    omega
  · intro hun
    rcases rest _ rfl with ⟨-, hnone⟩ | ⟨-, hno, -⟩
    · exact hnone
    · exact absurd (hno.symm.trans hun) (by simp)

theorem Sound.step {r r' : SoundReceiver Frame} {e : Event Frame} (h : r.Sound) (hok : r.InOrder e)
    (hs : r.step e = some r') : r'.Sound := by
  cases e with
  | receiveEncodedFrame packet =>
    cases hs
    exact h.receiveEncodedFrame packet hok
  | decodeFrame decodes qt =>
    simp only [SoundReceiver.step] at hs
    split at hs
    · cases hs
    next packet rest hqueue =>
    have queue := hqueue ▸ h.queue
    have taken : Sound { r with encodedFrames := rest } :=
      { h with
        queue := queue.of_cons
        ahead := fun place hplace other hother => h.ahead place hplace other (hqueue ▸ List.mem_cons_of_mem _ hother)
        behind := fun other hother => h.behind other (hqueue ▸ List.mem_cons_of_mem _ hother) }
    cases hs
    cases decodes with
    | false => exact taken
    | true =>
      exact taken.pcmDecoded qt packet (fun place hplace => h.ahead place hplace packet (hqueue ▸ List.mem_cons_self))
        (List.pairwise_cons.mp queue).1 (h.behind packet (hqueue ▸ List.mem_cons_self))
  | queueVideoFrame qt frame ts =>
    cases hs
    exact h.sameSound (AvSyncScheduler.sameSound_queueVideoFrame r.syncScheduler qt frame ts)
  | updatePlayback qt =>
    cases hs
    exact h.sameSound (AvSyncScheduler.sameSound_updatePlayback r.syncScheduler qt)
  | soundPlays bytes idle =>
    cases hs
    exact h.sameSound (AvSyncScheduler.sameSound_soundPlays r.syncScheduler bytes idle)

theorem sound {r : SoundReceiver Frame} (h : r.Reachable) : r.Sound := by
  refine Reach.invariant ?_ (fun _ _ _ hr hok hs => hr.step hok hs) h
  exact ⟨.nil, nofun, nofun, nofun, Int.le_refl _, nofun, fun _ => ⟨rfl, rfl⟩, nofun, nofun⟩

/-! ## What the first frames fix -/

/-- Once the first sound is in, the sample it began with stays, as do the first arrivals. -/
structure Fixed (r r' : SoundReceiver Frame) : Prop where
  anchored : r.syncScheduler.Anchored r'.syncScheduler
  heard : (r.syncScheduler.hasAudioTimestamp = true → r.handed.isSome) →
    r'.syncScheduler.hasAudioTimestamp = true → r'.handed.isSome
  first : r.handed.isSome → r'.handed.isSome ∧ r'.firstSample = r.firstSample

theorem Fixed.of_scheduler (r : SoundReceiver Frame) {s : AvSyncScheduler Frame Int}
    (anchored : r.syncScheduler.Anchored s) (h : s.hasAudioTimestamp = r.syncScheduler.hasAudioTimestamp) :
    Fixed r { r with syncScheduler := s } :=
  ⟨anchored, fun heard hs => heard (h.symm.trans hs), fun h => ⟨h, rfl⟩⟩

theorem hasAudio_updatePlayback (s : AvSyncScheduler Frame Int) (qt : Answers) :
    (s.updatePlayback qt).hasAudioTimestamp = s.hasAudioTimestamp := by
  have write : (s.writePendingAudio qt).hasAudioTimestamp = s.hasAudioTimestamp := by
    unfold AvSyncScheduler.writePendingAudio
    split <;> rfl
  unfold AvSyncScheduler.updatePlayback
  dsimp only
  split <;> exact write

theorem fixed_step {r r' : SoundReceiver Frame} {e : Event Frame} (hs : r.step e = some r') : Fixed r r' := by
  cases e with
  | receiveEncodedFrame packet =>
    cases hs
    exact ⟨.refl _, id, fun h => ⟨h, rfl⟩⟩
  | decodeFrame decodes qt =>
    simp only [SoundReceiver.step] at hs
    split at hs
    · cases hs
    next packet rest hqueue =>
    cases hs
    cases decodes with
    | false => exact ⟨.refl _, id, fun h => ⟨h, rfl⟩⟩
    | true =>
      refine ⟨AvSyncScheduler.anchored_queueAudioPcm _ qt packet.pcm (stamp packet.start), fun _ _ => rfl, fun h => ⟨rfl, ?_⟩⟩
      cases hh : r.handed with
      | none =>
        rw [hh] at h
        cases h
      | some place => simp only [if_true, SoundReceiver.pcmDecoded, Option.isNone_some, Bool.false_eq_true, if_false]
  | queueVideoFrame qt frame ts =>
    cases hs
    refine .of_scheduler r (AvSyncScheduler.anchored_queueVideoFrame r.syncScheduler qt frame ts) ?_
    simp only [AvSyncScheduler.queueVideoFrame, AvSyncScheduler.pushVideo, AvSyncScheduler.noteVideo]
    split <;> rfl
  | updatePlayback qt =>
    cases hs
    exact .of_scheduler r (AvSyncScheduler.anchored_updatePlayback r.syncScheduler qt)
      (hasAudio_updatePlayback r.syncScheduler qt)
  | soundPlays bytes idle =>
    cases hs
    exact .of_scheduler r (AvSyncScheduler.anchored_soundPlays r.syncScheduler bytes idle) rfl

theorem fixed_run {r r' : SoundReceiver Frame} (h : Reach step InOrder r r') : Fixed r r' := by
  induction h with
  | start => exact ⟨.refl _, id, fun h => ⟨h, rfl⟩⟩
  | next _ _ hs ih =>
    have now := fixed_step hs
    refine ⟨ih.anchored.trans now.anchored, fun heard => now.heard (ih.heard heard), fun h => ?_⟩
    obtain ⟨hsome, hfirst⟩ := ih.first h
    obtain ⟨hsome', hfirst'⟩ := now.first hsome
    exact ⟨hsome', hfirst'.trans hfirst⟩

/-- Eighteen times how far the frame captured with a sample would be ahead of the clock, in microseconds, if nothing were
ever lost: fixed by when the first sample and the first frame were captured and came in. `u` is the media time of the first
frame, and `κ` is how the two clocks of the publisher stand to each other: a frame of media time `v` was captured with the
sample `s` when `8 * v` is `15 * s + κ`. -/
def offset (r : SoundReceiver Frame) (u κ : Int) : Int :=
  18 * (r.syncScheduler.firstVideoArrivalUs - r.syncScheduler.firstAudioArrivalUs) + 25 * (15 * r.firstSample + κ - 8 * u)

/-- **The audio clock does not drift by more than was lost.** From when both first frames are in, however the run goes on:
while it has lost no more than `L` samples, the frame captured with the sample being played is ahead of the clock by the
offset, up to `L` samples and rounding; and if the offset leaves room for that, it is shown. -/
theorem audio_drift {r r' : SoundReceiver Frame} (h : r.Reachable) (hrun : Reach step InOrder r r')
    (hvideo : r.syncScheduler.hasVideoTimestamp = true) (haudio : r.syncScheduler.hasAudioTimestamp = true) {L : Nat}
    (hlost : r'.lost ≤ 2 * L) {qt : Answers} (hclock : r'.syncScheduler.usesAudioClock qt = true)
    {sink : AudioSink Int} (hsink : r'.syncScheduler.audioSink = some sink) {place : Int}
    (hplaying : sink.written[sink.played]? = some place) {u v κ : Int}
    (hu : r.syncScheduler.firstVideoTimestamp = stamp u) (hturn : u ≤ v ∧ v < u + 2 ^ 32)
    (hv : 8 * v ≤ 15 * (place / 2) + κ ∧ 15 * (place / 2) + κ < 8 * v + 8) :
    |18 * r'.syncScheduler.difference qt (stamp v) - r.offset u κ| < 375 * L + 193 ∧
      (-1800000 ≤ r.offset u κ - (375 * L + 193) → r.offset u κ + (375 * L + 193) ≤ 180000 → ∀ frame : Frame,
        AvSyncScheduler.playFrames (r'.syncScheduler.difference qt) [⟨frame, stamp v⟩] = (some frame, [])) := by
  have fixed := fixed_run hrun
  obtain ⟨-, hts, hV⟩ := fixed.anchored.video hvideo
  obtain ⟨-, -, hA⟩ := fixed.anchored.audio haudio
  have heard : r.handed.isSome := (fixed_run h).heard (fun h => by cases h) haudio
  have hfirst := (fixed.first heard).2
  have hsound := sound (h.trans hrun)
  obtain ⟨hlow, hhigh⟩ := hsound.places sink.played place (by
    rw [AvSyncScheduler.accepted, AvSyncScheduler.written, hsink, Option.map_some, Option.getD_some,
      List.getElem?_append_left (List.getElem?_eq_some_iff.mp hplaying).1, hplaying])
  have distance : (((stamp v).toNat : Int) - (stamp u).toNat) % 2 ^ 32 = v - u := by
    rw [stamp_toNat, stamp_toNat, ← Int.sub_emod]
    exact (turn_iff (by norm_num) u v).mpr hturn
  have ahead : r'.syncScheduler.difference qt (stamp v) =
      (r.syncScheduler.firstVideoArrivalUs - r.syncScheduler.firstAudioArrivalUs) + (v - u) * 100 / 9 -
        ((sink.played / 2 * 1000000 / 48000 : Nat) : Int) := by
    rw [AvSyncScheduler.difference, AvSyncScheduler.videoPresentationTimeUs_eq, hts, hu, distance, hclock]
    simp only [AvSyncScheduler.base, if_true, AvSyncScheduler.audioClockUs, hsink, hclock, AudioSink.processedUSecs,
      audioBytesPerSample, audioSampleRate, hV, hA]
    ring
  have close : |18 * r'.syncScheduler.difference qt (stamp v) - r.offset u κ| < 375 * L + 193 := by
    rw [abs_lt, ahead, offset]
    rw [hfirst] at hlow hhigh
    omega
  refine ⟨close, fun hlate hearly frame => ?_⟩
  rw [playFrames_one]
  have := abs_lt.mp close
  dsimp only
  omega

/-- What Qt answers when the output takes all it is offered. -/
def roomy (now : Int) : Answers := ⟨now, true, 5760, 5760⟩

/-- The first frame and the first 40 ms of sound come in together. -/
def beginning : List (Event Unit) :=
  [.queueVideoFrame (roomy 0) () 0, .receiveEncodedFrame ⟨0, 960⟩, .decodeFrame true (roomy 0),
    .receiveEncodedFrame ⟨960, 960⟩, .decodeFrame true (roomy 0)]

/-- A second of silence, and then sound again, which is played next. -/
def silence : List (Event Unit) :=
  [.receiveEncodedFrame ⟨49920, 960⟩, .decodeFrame true (roomy 1040000), .soundPlays 3840 false]

/-- Whether a step keeps to the order the packets were sent in. -/
def checkOrder (r : SoundReceiver Unit) : Event Unit → Bool
  | .receiveEncodedFrame packet => r.arrived.all fun place => place ≤ 2 * packet.start
  | _ => true

theorem inOrder_of_check (r : SoundReceiver Unit) (e : Event Unit) (h : checkOrder r e = true) : r.InOrder e := by
  cases e with
  | receiveEncodedFrame packet =>
    intro place hplace
    simp only [checkOrder, Option.mem_def.mp hplace, Option.all_some, decide_eq_true_eq] at h
    exact h
  | decodeFrame | queueVideoFrame | updatePlayback | soundPlays => trivial

/-- What is asked of a receiver below. -/
structure Seen where
  video : Bool
  audio : Bool
  firstVideo : UInt32
  offset : Int
  lost : Int
  /-- The byte being played. -/
  playing : Option Int
  audioClock : Bool
  /-- How far the frame of a media time is ahead. -/
  ahead : Int
  deriving DecidableEq

def seen (v now : Int) (r : SoundReceiver Unit) : Seen where
  video := r.syncScheduler.hasVideoTimestamp
  audio := r.syncScheduler.hasAudioTimestamp
  firstVideo := r.syncScheduler.firstVideoTimestamp
  offset := r.offset 0 0
  lost := r.lost
  playing := r.syncScheduler.audioSink.bind fun sink => sink.written[sink.played]?
  audioClock := r.syncScheduler.usesAudioClock (roomy now)
  ahead := r.syncScheduler.difference (roomy now) (stamp v)

theorem seen_beginning :
    (play step checkOrder beginning {}).map (seen 0 0) = some ⟨true, true, 0, 0, 0, some 0, true, 0⟩ := by
  decide +kernel

theorem seen_silence : ((play step checkOrder beginning {}).bind fun r => play step checkOrder silence r).map
    (seen 93600 1040000) = some ⟨true, true, 0, 0, 96000, some 99840, true, 1000000⟩ := by
  decide +kernel

theorem audio_drift_beginning : ∃ r : SoundReceiver Unit, r.Reachable ∧
    |18 * r.syncScheduler.difference (roomy 0) (stamp 0) - r.offset 0 0| < 375 * (0 : Nat) + 193 ∧
      (-1800000 ≤ r.offset 0 0 - (375 * (0 : Nat) + 193) → r.offset 0 0 + (375 * (0 : Nat) + 193) ≤ 180000 →
        ∀ frame : Unit, AvSyncScheduler.playFrames (r.syncScheduler.difference (roomy 0)) [⟨frame, stamp 0⟩] =
          (some frame, [])) := by
  obtain ⟨r, hplay, hseen⟩ := Option.map_eq_some_iff.mp seen_beginning
  have hreach : r.Reachable := reach_play inOrder_of_check hplay
  have hplaying : (r.syncScheduler.audioSink.bind fun sink => sink.written[sink.played]?) = some 0 :=
    congrArg Seen.playing hseen
  obtain ⟨sink, hsink, hplace⟩ := Option.bind_eq_some_iff.mp hplaying
  have hlost : r.lost = 0 := congrArg Seen.lost hseen
  exact ⟨r, hreach, audio_drift hreach .start (congrArg Seen.video hseen) (congrArg Seen.audio hseen)
    (by rw [hlost]; decide) (congrArg Seen.audioClock hseen) hsink hplace (congrArg Seen.firstVideo hseen)
    (by decide) (by decide)⟩

/-- After a second of silence the frame captured with the sample being played waits for a second more, though the first
frame and the first sample were captured together and came in together. -/
theorem audio_held :
    ¬ ∀ (r r' : SoundReceiver Unit), r.Reachable → Reach step InOrder r r' →
      r.syncScheduler.hasVideoTimestamp = true → r.syncScheduler.hasAudioTimestamp = true →
      ∀ qt, r'.syncScheduler.usesAudioClock qt = true → ∀ sink, r'.syncScheduler.audioSink = some sink →
      ∀ place, sink.written[sink.played]? = some place → ∀ u v κ, r.syncScheduler.firstVideoTimestamp = stamp u →
      u ≤ v ∧ v < u + 2 ^ 32 → 8 * v ≤ 15 * (place / 2) + κ ∧ 15 * (place / 2) + κ < 8 * v + 8 →
      r.offset u κ = 0 → ∀ frame : Unit,
        AvSyncScheduler.playFrames (r'.syncScheduler.difference qt) [⟨frame, stamp v⟩] = (some frame, []) := by
  intro h
  obtain ⟨r', hplay', hseen'⟩ := Option.map_eq_some_iff.mp seen_silence
  obtain ⟨r, hplay, hthen⟩ := Option.bind_eq_some_iff.mp hplay'
  have hseen : seen 0 0 r = ⟨true, true, 0, 0, 0, some 0, true, 0⟩ := by
    have := seen_beginning
    rw [hplay, Option.map_some] at this
    exact Option.some.inj this
  have hplaying : (r'.syncScheduler.audioSink.bind fun sink => sink.written[sink.played]?) = some 99840 :=
    congrArg Seen.playing hseen'
  obtain ⟨sink, hsink, hplace⟩ := Option.bind_eq_some_iff.mp hplaying
  have ahead : r'.syncScheduler.difference (roomy 1040000) (stamp 93600) = 1000000 := congrArg Seen.ahead hseen'
  have shown := h r r' (reach_play inOrder_of_check hplay) (reach_play inOrder_of_check hthen)
    (congrArg Seen.video hseen) (congrArg Seen.audio hseen) (roomy 1040000) (congrArg Seen.audioClock hseen') sink hsink
    99840 hplace 0 93600 0 (congrArg Seen.firstVideo hseen) (by decide) (by decide) (congrArg Seen.offset hseen) ()
  rw [playFrames_one] at shown
  have early : r'.syncScheduler.difference (roomy 1040000) (stamp 93600) ≤ 10000 := shown.2
  omega

end SoundReceiver

end SyncRtc.Client
