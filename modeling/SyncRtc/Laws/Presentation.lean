import SyncRtc.Client.AvSyncScheduler
import SyncRtc.Lib.Serial

/-!
# Presentation time and media time

The first frame of each kind anchors a scheduler: its timestamp and arrival are written once
(`AvSyncScheduler.Anchored`), so while one clock is in use a presentation time is a base that does not move and the
frame's distance from the first (`videoPresentationTimeUs_eq`).

**The law** (`presentation_iff`): over any run, presentation times follow the unwrapped media time of the frames
exactly when no frame of the stream is before the first one, or a turn of the 32-bit timestamp past it. The
subtraction is right across a wrap of the timestamp; it is not right across a turn since the first frame.

**What it does not establish.** Nothing is said of the moment the clock in use changes, nor of when the timer calls.
-/

set_option autoImplicit false

namespace SyncRtc.Client

variable {Frame Byte : Type}

/-! ## Durations -/

theorem rtpDurationUs_video (delta : UInt32) : rtpDurationUs delta videoClockRate = delta.toNat * 100 / 9 := by
  simp only [rtpDurationUs, videoClockRate]
  omega

theorem timestamp_sub (a b : UInt32) : (((a - b).toNat : Nat) : Int) = ((a.toNat : Int) - b.toNat) % 2 ^ 32 := by
  have ha := a.toNat_lt
  have hb := b.toNat_lt
  rw [UInt32.toNat_sub]
  omega

/-! ## The anchors -/

namespace AvSyncScheduler

/-- What `t` has kept of `s`: the first frame of each kind. -/
structure Anchored (s t : AvSyncScheduler Frame Byte) : Prop where
  video : s.hasVideoTimestamp = true → t.hasVideoTimestamp = true ∧
    t.firstVideoTimestamp = s.firstVideoTimestamp ∧ t.firstVideoArrivalUs = s.firstVideoArrivalUs
  audio : s.hasAudioTimestamp = true → t.hasAudioTimestamp = true ∧
    t.firstAudioTimestamp = s.firstAudioTimestamp ∧ t.firstAudioArrivalUs = s.firstAudioArrivalUs
  sound : (s.audioSink.isSome → s.hasAudioTimestamp = true) → t.audioSink.isSome → t.hasAudioTimestamp = true

namespace Anchored

variable {s t u : AvSyncScheduler Frame Byte}

theorem refl (s : AvSyncScheduler Frame Byte) : Anchored s s :=
  ⟨fun h => ⟨h, rfl, rfl⟩, fun h => ⟨h, rfl, rfl⟩, fun h => h⟩

theorem trans (h : Anchored s t) (h' : Anchored t u) : Anchored s u where
  video hs := by
    obtain ⟨ht, hts, hta⟩ := h.video hs
    obtain ⟨hu, hus, hua⟩ := h'.video ht
    exact ⟨hu, hus.trans hts, hua.trans hta⟩
  audio hs := by
    obtain ⟨ht, hts, hta⟩ := h.audio hs
    obtain ⟨hu, hus, hua⟩ := h'.audio ht
    exact ⟨hu, hus.trans hts, hua.trans hta⟩
  sound hs := h'.sound (h.sound hs)

/-- A call that leaves the anchors alone. -/
theorem of_eq (hv : t.hasVideoTimestamp = s.hasVideoTimestamp) (hvt : t.firstVideoTimestamp = s.firstVideoTimestamp)
    (hva : t.firstVideoArrivalUs = s.firstVideoArrivalUs) (ha : t.hasAudioTimestamp = s.hasAudioTimestamp)
    (hat : t.firstAudioTimestamp = s.firstAudioTimestamp) (haa : t.firstAudioArrivalUs = s.firstAudioArrivalUs)
    (hsink : t.audioSink.isSome → s.audioSink.isSome ∨ s.hasAudioTimestamp = true) : Anchored s t where
  video h := ⟨hv.trans h, hvt, hva⟩
  audio h := ⟨ha.trans h, hat, haa⟩
  sound h ht := ha.trans ((hsink ht).elim h id)

end Anchored

theorem anchored_writePendingAudio (s : AvSyncScheduler Frame Byte) (qt : Answers) :
    Anchored s (s.writePendingAudio qt) := by
  unfold writePendingAudio
  split
  · exact .refl s
  · next sink hsink => exact .of_eq rfl rfl rfl rfl rfl rfl fun _ => .inl (by rw [hsink]; rfl)

theorem anchored_queueVideoFrame (s : AvSyncScheduler Frame Byte) (qt : Answers) (frame : Frame) (ts : UInt32) :
    Anchored s (s.queueVideoFrame qt frame ts) := by
  have pushed : ∀ t : AvSyncScheduler Frame Byte, Anchored t (t.pushVideo ⟨frame, ts⟩) :=
    fun t => .of_eq rfl rfl rfl rfl rfl rfl .inl
  refine Anchored.trans ?_ (pushed (s.noteVideo qt ts))
  unfold noteVideo
  split
  · exact .refl s
  · next hv => exact ⟨fun h => (hv h).elim, fun h => ⟨h, rfl, rfl⟩, fun h => h⟩

theorem anchored_startAudioPlayback {s : AvSyncScheduler Frame Byte} (qt : Answers) (h : s.hasAudioTimestamp = true) :
    Anchored s (s.startAudioPlayback qt) := by
  unfold startAudioPlayback
  split
  · exact .of_eq rfl rfl rfl rfl rfl rfl fun _ => .inr h
  · exact .of_eq rfl rfl rfl rfl rfl rfl .inl

theorem anchored_noteAudio (s : AvSyncScheduler Frame Byte) (qt : Answers) (ts : UInt32) :
    Anchored s (s.noteAudio qt ts) ∧ (s.noteAudio qt ts).hasAudioTimestamp = true := by
  unfold noteAudio
  split
  · next ha => exact ⟨.refl s, ha⟩
  · next ha => exact ⟨⟨fun h => ⟨h, rfl, rfl⟩, fun h => (ha h).elim, fun _ _ => rfl⟩, rfl⟩

theorem anchored_pushAudio (s : AvSyncScheduler Frame Byte) (qt : Answers) (pcm : List Byte) :
    Anchored s (s.pushAudio qt pcm) := by
  unfold pushAudio
  exact .of_eq rfl rfl rfl rfl rfl rfl .inl

theorem anchored_queueAudioPcm (s : AvSyncScheduler Frame Byte) (qt : Answers) (pcm : List Byte) (ts : UInt32) :
    Anchored s (s.queueAudioPcm qt pcm ts) := by
  unfold queueAudioPcm
  split
  · exact .refl s
  obtain ⟨noted, has⟩ := anchored_noteAudio s qt ts
  have pushed := noted.trans (anchored_pushAudio (s.noteAudio qt ts) qt pcm)
  have hasP := ((anchored_pushAudio (s.noteAudio qt ts) qt pcm).audio has).1
  dsimp only
  split
  · exact (pushed.trans (anchored_startAudioPlayback qt hasP)).trans (anchored_writePendingAudio _ qt)
  · exact pushed.trans (anchored_writePendingAudio _ qt)

theorem anchored_updatePlayback (s : AvSyncScheduler Frame Byte) (qt : Answers) :
    Anchored s (s.updatePlayback qt) := by
  refine (anchored_writePendingAudio s qt).trans ?_
  unfold updatePlayback
  dsimp only
  split
  · exact .refl _
  · exact .of_eq rfl rfl rfl rfl rfl rfl .inl

theorem anchored_soundPlays (s : AvSyncScheduler Frame Byte) (bytes : Nat) (idle : Bool) :
    Anchored s (s.soundPlays bytes idle) :=
  .of_eq rfl rfl rfl rfl rfl rfl fun h => .inl (by simpa only [soundPlays, Option.isSome_map] using h)

end AvSyncScheduler

namespace PlaybackEvent

open AvSyncScheduler

theorem anchored_step (s : AvSyncScheduler Frame Byte) (e : PlaybackEvent Frame Byte) : Anchored s (step s e) := by
  cases e with
  | queueVideoFrame qt frame ts => exact anchored_queueVideoFrame s qt frame ts
  | queueAudioPcm qt pcm ts => exact anchored_queueAudioPcm s qt pcm ts
  | updatePlayback qt => exact anchored_updatePlayback s qt
  | soundPlays bytes idle => exact anchored_soundPlays s bytes idle

theorem anchored_foldl (es : List (PlaybackEvent Frame Byte)) :
    ∀ s : AvSyncScheduler Frame Byte, Anchored s (es.foldl step s) := by
  induction es with
  | nil => exact fun s => .refl s
  | cons e es ih => exact fun s => (anchored_step s e).trans (ih (step s e))

theorem anchored_run {es es' : List (PlaybackEvent Frame Byte)} (h : es <+: es') : Anchored (run es) (run es') := by
  obtain ⟨rest, rfl⟩ := h
  simp only [run, List.foldl_append]
  exact anchored_foldl rest _

/-- There is a sound output only once sound has come in. -/
theorem audio_of_sink {es : List (PlaybackEvent Frame Byte)} (h : (run es).audioSink.isSome) :
    (run es).hasAudioTimestamp = true :=
  (anchored_foldl es {}).sound (fun h => by simp at h) h

/-- Only a video frame anchors the video. -/
theorem hasVideo_step (s : AvSyncScheduler Frame Byte) {e : PlaybackEvent Frame Byte} (h : videoArrival e = none) :
    (step s e).hasVideoTimestamp = s.hasVideoTimestamp := by
  have write : ∀ (t : AvSyncScheduler Frame Byte) qt, (t.writePendingAudio qt).hasVideoTimestamp = t.hasVideoTimestamp := by
    intro t qt
    unfold writePendingAudio
    split <;> rfl
  cases e with
  | queueVideoFrame qt frame ts => cases h
  | queueAudioPcm qt pcm ts =>
    have note : ((s.noteAudio qt ts).pushAudio qt pcm).hasVideoTimestamp = s.hasVideoTimestamp := by
      unfold pushAudio noteAudio
      dsimp only
      split <;> rfl
    have start : ∀ t : AvSyncScheduler Frame Byte, (t.startAudioPlayback qt).hasVideoTimestamp = t.hasVideoTimestamp := by
      intro t
      unfold startAudioPlayback
      split <;> rfl
    simp only [step, AvSyncScheduler.queueAudioPcm]
    split
    · rfl
    · split <;> simp only [write, start, note]
  | updatePlayback qt =>
    simp only [step, AvSyncScheduler.updatePlayback]
    split <;> exact write s qt
  | soundPlays bytes idle => rfl

/-- The first frame received is the one whose timestamp and arrival are kept. -/
theorem firstVideo_run (es : List (PlaybackEvent Frame Byte)) :
    match videoArrivals es with
    | [] => (run es).hasVideoTimestamp = false
    | first :: _ => (run es).hasVideoTimestamp = true ∧ (run es).firstVideoTimestamp = first.1 ∧
        (run es).firstVideoArrivalUs = first.2 := by
  induction es using List.reverseRecOn with
  | nil => rfl
  | append_singleton es e ih =>
    have hrun : run (es ++ [e]) = step (run es) e := by
      simp only [run, List.foldl_append, List.foldl_cons, List.foldl_nil]
    have hts : videoArrivals (es ++ [e]) = videoArrivals es ++ (videoArrival e).toList := by
      simp only [videoArrivals, List.filterMap_append, List.filterMap_cons, List.filterMap_nil]
      cases videoArrival e <;> rfl
    rw [hrun, hts]
    cases hv : videoArrivals es with
    | cons ts rest =>
      rw [hv] at ih
      obtain ⟨h₁, h₂, h₃⟩ := (anchored_step (run es) e).video ih.1
      exact ⟨h₁, h₂.trans ih.2.1, h₃.trans ih.2.2⟩
    | nil =>
      rw [hv] at ih
      have hno : (run es).hasVideoTimestamp = false := ih
      cases hnew : videoArrival e with
      | none => exact (hasVideo_step (run es) hnew).trans hno
      | some first =>
        cases e with
        | queueVideoFrame qt frame ts =>
          cases hnew
          simp [step, AvSyncScheduler.queueVideoFrame, pushVideo, noteVideo, hno]
        | queueAudioPcm | updatePlayback | soundPlays => cases hnew

theorem videoTimestamps_append (es es' : List (PlaybackEvent Frame Byte)) :
    videoTimestamps (es ++ es') = videoTimestamps es ++ videoTimestamps es' := by
  simp only [videoTimestamps, videoArrivals, List.filterMap_append, List.map_append]

end PlaybackEvent

/-! ## Presentation times -/

theorem stamp_toNat (v : Int) : ((stamp v).toNat : Int) = v % 2 ^ 32 := by
  rw [stamp, UInt32.toNat_ofNat']
  omega

namespace AvSyncScheduler

/-- Where the first video frame stands on the clock in use. -/
def base (s : AvSyncScheduler Frame Byte) (audio : Bool) : Int :=
  if audio then
    rtpDurationUs s.firstAudioTimestamp audioSampleRate + (s.firstVideoArrivalUs - s.firstAudioArrivalUs)
  else s.firstVideoArrivalUs

theorem videoPresentationTimeUs_eq (s : AvSyncScheduler Frame Byte) (qt : Answers) (ts : UInt32) :
    s.videoPresentationTimeUs qt ts =
      s.base (s.usesAudioClock qt) + ((ts.toNat : Int) - s.firstVideoTimestamp.toNat) % 2 ^ 32 * 100 / 9 := by
  rw [← timestamp_sub]
  unfold videoPresentationTimeUs base
  dsimp only
  rw [rtpDurationUs_video]
  split <;> rfl

theorem audioSink_of_usesAudioClock {s : AvSyncScheduler Frame Byte} {qt : Answers} (h : s.usesAudioClock qt = true) :
    s.audioSink.isSome := by
  unfold usesAudioClock at h
  split at h
  · cases h
  · next hsink => rw [hsink]; rfl

/-- The presentation times of two frames, of media times `v` and `w`, and media time: they are as far apart, up to
rounding; in the same order; and when the clock has moved on by the media time between them, the second is as early or
late as the first was. -/
structure Follows (s t : AvSyncScheduler Frame Byte) (qt qt' : Answers) (v w : Int) : Prop where
  apart : |9 * (t.videoPresentationTimeUs qt' (stamp w) - s.videoPresentationTimeUs qt (stamp v)) - 100 * (w - v)| < 9
  ordered : v ≤ w → s.videoPresentationTimeUs qt (stamp v) ≤ t.videoPresentationTimeUs qt' (stamp w)
  judged : 9 * (t.audioClockUs qt' - s.audioClockUs qt) = 100 * (w - v) →
    t.difference qt' (stamp w) = s.difference qt (stamp v)

end AvSyncScheduler

namespace PlaybackEvent

open AvSyncScheduler

/-- The base of the clock in use is the same wherever it is looked at in a run. -/
theorem base_run {es es' : List (PlaybackEvent Frame Byte)} (hpre : es <+: es') (hvideo : videoArrivals es ≠ [])
    {qt : Answers} : (run es).base ((run es).usesAudioClock qt) = (run es').base ((run es).usesAudioClock qt) := by
  have hfirst := firstVideo_run es
  have kept := anchored_run hpre
  cases hts : videoArrivals es with
  | nil => exact (hvideo hts).elim
  | cons first rest =>
    rw [hts] at hfirst
    obtain ⟨-, -, hV⟩ := kept.video hfirst.1
    cases hu : (run es).usesAudioClock qt with
    | false => exact hV.symm
    | true =>
      obtain ⟨-, hA, hAa⟩ := kept.audio (audio_of_sink (audioSink_of_usesAudioClock hu))
      simp only [base, if_true, hV, hA, hAa]

/-- The presentation time of a frame is where the first one stands and what the residues tell of the distance. -/
theorem presentation_run {es es' : List (PlaybackEvent Frame Byte)} {u : Int} {us : List Int}
    (hstream : Unwraps (2 ^ 32) (u :: us) ((videoTimestamps es').map fun ts => (ts.toNat : Int))) (hpre : es <+: es')
    (hvideo : videoTimestamps es ≠ []) (qt : Answers) (v : Int) :
    (run es).videoPresentationTimeUs qt (stamp v) =
      (run es').base ((run es).usesAudioClock qt) + (v - u) % 2 ^ 32 * 100 / 9 := by
  have hfirst := firstVideo_run es
  cases hts : videoArrivals es with
  | nil => exact (hvideo (by rw [videoTimestamps, hts, List.map_nil])).elim
  | cons first rest =>
    rw [hts] at hfirst
    have hu : (first.1.toNat : Int) = u % 2 ^ 32 := by
      obtain ⟨tail, rfl⟩ := hpre
      have hres := hstream.residue
      rw [videoTimestamps_append] at hres
      simp only [videoTimestamps, hts, List.map_cons, List.cons_append, List.cons.injEq] at hres
      exact hres.1
    rw [videoPresentationTimeUs_eq, base_run hpre (hts ▸ List.cons_ne_nil _ _), hfirst.2.1, stamp_toNat, hu,
      ← Int.sub_emod]

/-- **Presentation times follow media time** over a whole run exactly when the stream stays within one turn of the
timestamp from its first frame on. -/
theorem presentation_iff (es : List (PlaybackEvent Frame Byte)) {u : Int} {us : List Int}
    (hstream : Unwraps (2 ^ 32) (u :: us) ((videoTimestamps es).map fun ts => (ts.toNat : Int))) :
    (∀ es₁ es₂, es₁ <+: es → es₂ <+: es → ∀ qt₁ qt₂,
        (run es₁).usesAudioClock qt₁ = (run es₂).usesAudioClock qt₂ →
        ∀ v ∈ (u :: us).take (videoTimestamps es₁).length, ∀ w ∈ (u :: us).take (videoTimestamps es₂).length,
          Follows (run es₁) (run es₂) qt₁ qt₂ v w) ↔
      ∀ v ∈ us, u ≤ v ∧ v < u + 2 ^ 32 := by
  have received : ∀ {es' : List (PlaybackEvent Frame Byte)} {v : Int},
      v ∈ (u :: us).take (videoTimestamps es').length → videoTimestamps es' ≠ [] ∧ v ∈ u :: us := by
    intro es' v hv
    refine ⟨fun h => ?_, List.mem_of_mem_take hv⟩
    rw [h, List.length_nil, List.take_zero] at hv
    cases hv
  constructor
  · intro h v hv
    have hlen := congrArg List.length hstream.residue
    simp only [List.length_map] at hlen
    have hne : videoTimestamps es ≠ [] := by
      intro h₀
      rw [h₀] at hlen
      cases hlen
    have follows := h es es (List.prefix_refl es) (List.prefix_refl es) ⟨0, true, 0, 0⟩ ⟨0, true, 0, 0⟩ rfl
      u (by rw [hlen, List.take_length]; exact List.mem_cons_self)
      v (by rw [hlen, List.take_length]; exact List.mem_cons_of_mem u hv)
    have apart := abs_lt.mp follows.apart
    rw [presentation_run hstream (List.prefix_refl es) hne, presentation_run hstream (List.prefix_refl es) hne] at apart
    -- a turn is worth far more than the rounding
    refine (turn_iff (by norm_num) u v).mp ?_
    omega
  · intro h es₁ es₂ hpre₁ hpre₂ qt₁ qt₂ hclock v hv w hw
    obtain ⟨hne₁, hv⟩ := received hv
    obtain ⟨hne₂, hw⟩ := received hw
    have within : ∀ x ∈ u :: us, (x - u) % 2 ^ 32 = x - u := by
      intro x hx
      refine (turn_iff (by norm_num) u x).mpr ?_
      rcases List.mem_cons.mp hx with rfl | hx
      · omega
      · exact h x hx
    have hpv := presentation_run hstream hpre₁ hne₁ qt₁ v
    have hpw := presentation_run hstream hpre₂ hne₂ qt₂ w
    rw [within v hv] at hpv
    rw [within w hw, ← hclock] at hpw
    constructor
    · rw [abs_lt, hpv, hpw]
      omega
    · intro hle
      rw [hpv, hpw]
      omega
    · intro hclocks
      simp only [difference, hpv, hpw]
      omega

/-- Two frames, a thirtieth of a second apart across the wrap of the timestamp. -/
def acrossWrap : List (PlaybackEvent Unit Unit) :=
  [.queueVideoFrame ⟨0, true, 0, 0⟩ () 4294966296, .queueVideoFrame ⟨33333, true, 0, 0⟩ () 2000]

theorem presentation_acrossWrap :
    (∀ es₁ es₂, es₁ <+: acrossWrap → es₂ <+: acrossWrap → ∀ qt₁ qt₂,
        (run es₁).usesAudioClock qt₁ = (run es₂).usesAudioClock qt₂ →
        ∀ v ∈ [4294966296, 4294969296].take (videoTimestamps es₁).length,
        ∀ w ∈ [4294966296, 4294969296].take (videoTimestamps es₂).length, Follows (run es₁) (run es₂) qt₁ qt₂ v w) ↔
      ∀ v ∈ [4294969296], (4294966296 : Int) ≤ v ∧ v < 4294966296 + 2 ^ 32 :=
  presentation_iff acrossWrap ⟨by decide, by decide⟩

/-- A stream that has gone once around since its first frame. Each frame is less than half a turn from the last. -/
def onceAround : List (PlaybackEvent Unit Unit) :=
  [.queueVideoFrame ⟨0, true, 0, 0⟩ () 0, .queueVideoFrame ⟨23860929411, true, 0, 0⟩ () 2147483647,
    .queueVideoFrame ⟨47721858822, true, 0, 0⟩ () 4294967294, .queueVideoFrame ⟨47721858855, true, 0, 0⟩ () 2998]

/-- The frame after the turn is presented with the first one. -/
theorem presentation_onceAround :
    ¬ ∀ (es : List (PlaybackEvent Unit Unit)) (u : Int) (us : List Int),
      Unwraps (2 ^ 32) (u :: us) ((videoTimestamps es).map fun ts => (ts.toNat : Int)) →
      ∀ es₁ es₂, es₁ <+: es → es₂ <+: es → ∀ qt₁ qt₂,
        (run es₁).usesAudioClock qt₁ = (run es₂).usesAudioClock qt₂ →
        ∀ v ∈ (u :: us).take (videoTimestamps es₁).length, ∀ w ∈ (u :: us).take (videoTimestamps es₂).length,
          Follows (run es₁) (run es₂) qt₁ qt₂ v w := by
  intro h
  have follows := h onceAround 0 [2147483647, 4294967294, 4294970294] ⟨by decide, by decide⟩ onceAround onceAround
    (List.prefix_refl _) (List.prefix_refl _) ⟨47721858855, true, 0, 0⟩ ⟨47721858855, true, 0, 0⟩ rfl
    0 (by decide) 4294970294 (by decide)
  have early : (run onceAround).videoPresentationTimeUs ⟨47721858855, true, 0, 0⟩ (stamp 4294970294) = 33311 := by decide
  have apart := abs_lt.mp follows.apart
  have first : (run onceAround).videoPresentationTimeUs ⟨47721858855, true, 0, 0⟩ (stamp 0) = 0 := by decide
  omega

end PlaybackEvent

end SyncRtc.Client
