import SyncRtc.Client.AudioEncodeWorker
import SyncRtc.Client.RtcTransportWorker
import SyncRtc.Client.VideoThread

/-!
# Hand-off between the media threads of a client

Captured data goes from thread to thread through three queues, each with a flag that keeps a second event from being
posted. The flag is set under the lock and the event posted after it, so what is true at every moment is that an event
is queued, running, or about to be posted by the call that has found the flag clear (`Wakeup.Pending`).

**The laws.** The RTC thread never leaves a queue behind without such an event, its queues stay within their bounds and
lose only their oldest entries, and the packets of a frame are handed to the media session all together or not at all.
An encoding thread that accepts data has such an event for what came in since it was started.

**What it does not establish.** That the operating system runs a thread. Whether the media session writes a packet is
up to the track, packet by packet: a track that opens in the middle of a frame is written the rest of it.
-/

set_option autoImplicit false

namespace SyncRtc.Client

/-! ## A bounded queue -/

/-- A full queue makes room by its oldest entry. -/
theorem room_made {α : Type} {n : Nat} {xs : List α} (hn : 0 < n) (h : xs.length ≤ n) (x : α) :
    (if xs.length ≥ n then xs.tail else xs) <:+ xs ∧ ((if xs.length ≥ n then xs.tail else xs) ++ [x]).length ≤ n := by
  rw [List.length_append, List.length_singleton]
  split
  · rw [List.length_tail]
    exact ⟨List.tail_suffix xs, by omega⟩
  · exact ⟨List.suffix_rfl, by omega⟩

theorem suffix_snoc {α : Type} {xs ys : List α} (h : xs <:+ ys) (x : α) : xs ++ [x] <:+ ys ++ [x] := by
  obtain ⟨old, rfl⟩ := h
  exact ⟨old, (List.append_assoc _ _ _).symm⟩

/-! ## The RTC thread -/

section

variable {Audio Video : Type} {checks : PacketChecks Audio Video}

namespace TransportRun

/-- The frames handed to the media session so far, and the part of the next one that is. -/
def Parts (r : TransportRun Audio Video) (done : List (List Video)) (part : List Video) : Prop :=
  r.handed = done.flatten ++ part ∧
    match r.worker.call with
    | .sending rest => (done ++ (part ++ rest) :: r.worker.videoRtpFrames).Sublist r.frames
    | .video packets => part = [] ∧ (done ++ packets :: r.worker.videoRtpFrames).Sublist r.frames
    | _ => part = [] ∧ (done ++ r.worker.videoRtpFrames).Sublist r.frames

/-- What every run keeps. -/
structure Kept (checks : PacketChecks Audio Video) (r : TransportRun Audio Video) : Prop where
  wake : r.worker.process.Sound
  /-- What is in a queue has its event. -/
  scheduled : r.worker.videoRtpFrames ≠ [] ∨ r.worker.audioRtpPackets ≠ [] → r.worker.process.scheduled = true
  /-- The thread has something in its hands in a call only. -/
  busy : r.worker.process.entered = false → r.worker.call = .idle
  videoBound : r.worker.videoRtpFrames.length ≤ maxQueuedVideoFrames
  audioBound : r.worker.audioRtpPackets.length ≤ maxQueuedAudioPackets
  /-- The queues are the newest of what came in. -/
  newestFrames : r.worker.videoRtpFrames <:+ r.frames.filter fun packets => !packets.isEmpty
  newestPackets : r.worker.audioRtpPackets <:+ r.packets.filter fun packet => !checks.emptyAudio packet
  parts : ∃ done part, r.Parts done part
  written : r.written.Sublist r.handed

variable {r r' : TransportRun Audio Video} {done : List (List Video)} {part : List Video}

/-- A step that leaves the frames, what is handed over and what the thread has in its hands, and takes nothing into
the queue, leaves the parts. -/
theorem Parts.shorter (h : r.Parts done part) (hhanded : r'.handed = r.handed) (hcall : r'.worker.call = r.worker.call)
    (hqueue : r'.worker.videoRtpFrames.Sublist r.worker.videoRtpFrames) (hframes : r'.frames = r.frames) :
    r'.Parts done part := by
  obtain ⟨hparts, hin⟩ := h
  refine ⟨hhanded.trans hparts, ?_⟩
  rw [hcall, hframes]
  cases hc : r.worker.call with
  | sending rest =>
    rw [hc] at hin
    exact ((List.Sublist.refl _).append (hqueue.cons_cons _)).trans hin
  | video packets =>
    rw [hc] at hin
    exact ⟨hin.1, ((List.Sublist.refl _).append (hqueue.cons_cons _)).trans hin.2⟩
  | _ =>
    rw [hc] at hin
    exact ⟨hin.1, ((List.Sublist.refl _).append hqueue).trans hin.2⟩

/-- A frame comes in, and another is perhaps dropped for it. -/
theorem Parts.enqueue (h : r.Parts done part) {packets : List Video} {kept : List (List Video)}
    (hhanded : r'.handed = r.handed) (hcall : r'.worker.call = r.worker.call) (hkept : kept <:+ r.worker.videoRtpFrames)
    (hqueue : r'.worker.videoRtpFrames = kept ++ [packets]) (hframes : r'.frames = r.frames ++ [packets]) :
    r'.Parts done part := by
  obtain ⟨hparts, hin⟩ := h
  have hsub : ∀ front : List (List Video), (front ++ r.worker.videoRtpFrames).Sublist r.frames →
      (front ++ (kept ++ [packets])).Sublist (r.frames ++ [packets]) := by
    intro front hfront
    rw [← List.append_assoc]
    exact (((List.Sublist.refl front).append hkept.sublist).trans hfront).append (List.Sublist.refl _)
  refine ⟨hhanded.trans hparts, ?_⟩
  rw [hcall, hframes, hqueue]
  cases hc : r.worker.call with
  | sending rest =>
    rw [hc] at hin
    have := hsub (done ++ [part ++ rest]) (by rwa [List.append_assoc, List.singleton_append])
    rwa [List.append_assoc, List.singleton_append] at this
  | video packets =>
    rw [hc] at hin
    have := hsub (done ++ [packets]) (by rw [List.append_assoc, List.singleton_append]; exact hin.2)
    rw [List.append_assoc, List.singleton_append] at this
    exact ⟨hin.1, this⟩
  | _ =>
    rw [hc] at hin
    exact ⟨hin.1, hsub done hin.2⟩

theorem kept_enqueueVideo (h : r.Kept checks) (packets : List Video) :
    Kept checks { r with worker := r.worker.enqueueVideoRtpPackets packets, frames := r.frames ++ [packets] } := by
  obtain ⟨done, part, hparts⟩ := h.parts
  unfold RtcTransportWorker.enqueueVideoRtpPackets
  split
  · next hempty =>
    have hmore : r.frames.Sublist (r.frames ++ [packets]) := List.sublist_append_left _ _
    refine ⟨h.wake, h.scheduled, h.busy, h.videoBound, h.audioBound, ?_, h.newestPackets, ⟨done, part, hparts.1, ?_⟩, h.written⟩
    · have hnone : [packets].filter (fun packets => !packets.isEmpty) = [] := by simp [hempty]
      rw [List.filter_append, hnone, List.append_nil]
      exact h.newestFrames
    · have hin := hparts.2
      dsimp only
      cases hc : r.worker.call with
      | sending rest =>
        rw [hc] at hin
        exact hin.trans hmore
      | _ =>
        rw [hc] at hin
        exact ⟨hin.1, hin.2.trans hmore⟩
  · next hne =>
    obtain ⟨hkept, hbound⟩ := room_made (n := maxQueuedVideoFrames) (by decide) h.videoBound packets
    refine ⟨h.wake.request, fun _ => Wakeup.scheduled_request _, fun hfree => h.busy ?_, hbound, h.audioBound, ?_, h.newestPackets,
      ⟨done, part, hparts.enqueue rfl rfl hkept rfl rfl⟩, h.written⟩
    · rw [← hfree]
      exact (Wakeup.entered_request _).symm
    · have hone : [packets].filter (fun packets => !packets.isEmpty) = [packets] := by simp [hne]
      rw [List.filter_append, hone]
      exact suffix_snoc (hkept.trans h.newestFrames) packets

theorem kept_enqueueAudio (h : r.Kept checks) (packet : Audio) :
    Kept checks { r with worker := r.worker.enqueueAudioRtpPacket checks packet, packets := r.packets ++ [packet] } := by
  obtain ⟨done, part, hparts⟩ := h.parts
  unfold RtcTransportWorker.enqueueAudioRtpPacket
  split
  · next hempty =>
    refine ⟨h.wake, h.scheduled, h.busy, h.videoBound, h.audioBound, h.newestFrames, ?_,
      ⟨done, part, hparts.shorter rfl rfl (List.Sublist.refl _) rfl⟩, h.written⟩
    have hnone : [packet].filter (fun packet => !checks.emptyAudio packet) = [] := by simp [hempty]
    rw [List.filter_append, hnone, List.append_nil]
    exact h.newestPackets
  · next hne =>
    obtain ⟨hkept, hbound⟩ := room_made (n := maxQueuedAudioPackets) (by decide) h.audioBound packet
    refine ⟨h.wake.request, fun _ => Wakeup.scheduled_request _, fun hfree => h.busy ?_, h.videoBound, hbound, h.newestFrames, ?_,
      ⟨done, part, hparts.shorter rfl rfl (List.Sublist.refl _) rfl⟩, h.written⟩
    · rw [← hfree]
      exact (Wakeup.entered_request _).symm
    · have hone : [packet].filter (fun packet => !checks.emptyAudio packet) = [packet] := by simp [hne]
      rw [List.filter_append, hone]
      exact suffix_snoc (hkept.trans h.newestPackets) packet

/-- A command clears queues, or leaves them. -/
theorem kept_command (h : r.Kept checks) (c : TransportCommand) (hfree : r.worker.Free) :
    Kept checks { r with worker := r.worker.command c } := by
  obtain ⟨done, part, hparts⟩ := h.parts
  have cleared : ∀ worker : RtcTransportWorker Audio Video, worker.process = r.worker.process → worker.call = r.worker.call →
      (worker.videoRtpFrames = r.worker.videoRtpFrames ∨ worker.videoRtpFrames = []) →
      (worker.audioRtpPackets = r.worker.audioRtpPackets ∨ worker.audioRtpPackets = []) → Kept checks { r with worker := worker } := by
    intro worker hprocess hcall hvideo haudio
    have hv : worker.videoRtpFrames <:+ r.worker.videoRtpFrames := by
      rcases hvideo with hvideo | hvideo
      · exact hvideo ▸ List.suffix_rfl
      · exact hvideo ▸ List.nil_suffix
    have ha : worker.audioRtpPackets <:+ r.worker.audioRtpPackets := by
      rcases haudio with haudio | haudio
      · exact haudio ▸ List.suffix_rfl
      · exact haudio ▸ List.nil_suffix
    refine ⟨hprocess ▸ h.wake, fun hne => ?_, fun hidle => ?_, hv.length_le.trans h.videoBound, ha.length_le.trans h.audioBound,
      hv.trans h.newestFrames, ha.trans h.newestPackets, ⟨done, part, hparts.shorter rfl hcall hv.sublist rfl⟩, h.written⟩
    · have hold : r.worker.videoRtpFrames ≠ [] ∨ r.worker.audioRtpPackets ≠ [] :=
        hne.imp (fun hne hnil => hne (List.eq_nil_of_suffix_nil (hnil ▸ hv))) fun hne hnil =>
          hne (List.eq_nil_of_suffix_nil (hnil ▸ ha))
      exact hprocess ▸ h.scheduled hold
    · exact hcall.trans (h.busy hfree)
  cases c with
  | startMediaSession =>
    rw [RtcTransportWorker.command, RtcTransportWorker.startMediaSession_eq]
    exact cleared _ rfl rfl (.inl rfl) (.inl rfl)
  | stopMediaSession => exact cleared _ rfl rfl (.inr rfl) (.inr rfl)
  | setVideoSendingEnabled enabled =>
    refine cleared _ rfl rfl ?_ (.inl rfl)
    cases enabled
    · exact .inr rfl
    · exact .inl rfl
  | setAudioSendingEnabled enabled =>
    refine cleared _ rfl rfl (.inl rfl) ?_
    cases enabled
    · exact .inr rfl
    · exact .inl rfl

theorem kept_post (h : r.Kept checks) {worker : RtcTransportWorker Audio Video} (hw : r.worker.post = some worker) :
    Kept checks { r with worker := worker } := by
  obtain ⟨process, hpost, rfl⟩ := Option.map_eq_some_iff.mp hw
  obtain ⟨done, part, hparts⟩ := h.parts
  refine ⟨.post hpost, fun hne => ?_, fun hidle => h.busy ?_, h.videoBound, h.audioBound, h.newestFrames, h.newestPackets,
    ⟨done, part, hparts⟩, h.written⟩
  · exact (Wakeup.scheduled_post hpost).trans (h.scheduled hne)
  · exact (Wakeup.entered_post hpost).symm.trans hidle

theorem kept_enter (h : r.Kept checks) {worker : RtcTransportWorker Audio Video} (hw : r.worker.enter = some worker) :
    Kept checks { r with worker := worker } := by
  obtain ⟨process, henter, rfl⟩ := Option.map_eq_some_iff.mp hw
  obtain ⟨done, part, hparts⟩ := h.parts
  refine ⟨.enter henter, fun hne => ?_, fun hidle => ?_, h.videoBound, h.audioBound, h.newestFrames, h.newestPackets,
    ⟨done, part, hparts⟩, h.written⟩
  · exact (Wakeup.scheduled_enter henter).trans (h.scheduled hne)
  · exact absurd (Wakeup.entered_enter henter) (by rw [hidle]; exact Bool.false_ne_true)

/-- A round takes the oldest audio packet, else the oldest frame, else clears the flag. -/
theorem kept_dequeue (h : r.Kept checks) {worker : RtcTransportWorker Audio Video} (hw : r.worker.dequeue checks = some worker) :
    Kept checks { r with worker := worker } := by
  obtain ⟨done, part, hparts⟩ := h.parts
  unfold RtcTransportWorker.dequeue at hw
  split at hw
  · cases hw
  next hentered =>
  split at hw
  case h_2 => cases hw
  next hidle =>
  obtain ⟨hhanded, hin⟩ := hparts
  rw [hidle] at hin
  split at hw
  · next packet rest haudio =>
    -- an audio packet that was queued is not empty
    have hne : checks.emptyAudio packet = false := by
      have hmem := h.newestPackets.subset (haudio ▸ List.mem_cons_self)
      simpa using (List.mem_filter.mp hmem).2
    have hrest : rest <:+ r.worker.audioRtpPackets := haudio ▸ List.suffix_cons packet rest
    cases hw
    refine ⟨h.wake, fun _ => h.scheduled (.inr (by rw [haudio]; exact List.cons_ne_nil _ _)), fun hfree => absurd hfree hentered,
      h.videoBound, hrest.length_le.trans h.audioBound, h.newestFrames, hrest.trans h.newestPackets, ⟨done, part, hhanded, ?_⟩,
      h.written⟩
    rw [hne]
    exact hin
  · next packets rest haudio hvideo =>
    have hrest : rest <:+ r.worker.videoRtpFrames := hvideo ▸ List.suffix_cons packets rest
    cases hw
    refine ⟨h.wake, fun _ => h.scheduled (.inl (by rw [hvideo]; exact List.cons_ne_nil _ _)), fun hfree => absurd hfree hentered,
      hrest.length_le.trans h.videoBound, h.audioBound, hrest.trans h.newestFrames, h.newestPackets, ⟨done, part, hhanded, ?_⟩,
      h.written⟩
    rw [hvideo] at hin
    exact hin
  · next haudio hvideo =>
    cases hw
    refine ⟨Wakeup.sound_answer _, fun hne => ?_, fun _ => hidle, h.videoBound, h.audioBound, h.newestFrames, h.newestPackets,
      ⟨done, part, hhanded, ?_⟩, h.written⟩
    · rcases hne with hne | hne
      · exact absurd hvideo hne
      · exact absurd haudio hne
    · dsimp only
      rw [hidle]
      exact hin

theorem kept_sendAudio (h : r.Kept checks) {next : RtcTransportWorker Audio Video × Option Audio}
    (hw : r.worker.sendAudio = some next) : Kept checks { r with worker := next.1 } := by
  obtain ⟨done, part, hhanded, hin⟩ := h.parts
  unfold RtcTransportWorker.sendAudio at hw
  split at hw
  · next packet hcall =>
    cases hw
    rw [hcall] at hin
    exact ⟨h.wake, h.scheduled, fun _ => rfl, h.videoBound, h.audioBound, h.newestFrames, h.newestPackets,
      ⟨done, part, hhanded, hin⟩, h.written⟩
  · cases hw

theorem kept_beginVideo (h : r.Kept checks) {worker : RtcTransportWorker Audio Video} (hw : r.worker.beginVideo = some worker) :
    Kept checks { r with worker := worker } := by
  obtain ⟨done, part, hhanded, hin⟩ := h.parts
  unfold RtcTransportWorker.beginVideo at hw
  split at hw
  · next packets hcall =>
    have hentered : r.worker.process.entered ≠ false := fun hfree => nomatch hcall.symm.trans (h.busy hfree)
    cases hw
    rw [hcall] at hin
    obtain ⟨rfl, hin⟩ := hin
    refine ⟨h.wake, h.scheduled, fun hfree => absurd hfree hentered, h.videoBound, h.audioBound, h.newestFrames, h.newestPackets,
      ⟨done, [], hhanded, ?_⟩, h.written⟩
    dsimp only
    cases r.worker.videoSendingEnabled with
    | true => exact hin
    | false => exact ⟨rfl, ((List.Sublist.refl done).append (List.sublist_cons_self _ _)).trans hin⟩
  · cases hw

/-- A packet of the frame is handed over; with the last one the frame is done. -/
theorem kept_sendVideo (h : r.Kept checks) {next : RtcTransportWorker Audio Video × Option Video} (isOpen : Bool)
    (hw : r.worker.sendVideo = some next) :
    Kept checks { r with
      worker := next.1
      handed := r.handed ++ next.2.toList
      written := r.written ++ next.2.toList.filter (r.worker.sendVideoRtp checks isOpen) } := by
  obtain ⟨done, part, hhanded, hin⟩ := h.parts
  have hwritten := h.written.append (List.filter_sublist (l := next.2.toList) (p := r.worker.sendVideoRtp checks isOpen))
  unfold RtcTransportWorker.sendVideo at hw
  split at hw
  · next packet packets hcall =>
    have hentered : r.worker.process.entered ≠ false := fun hfree => nomatch hcall.symm.trans (h.busy hfree)
    cases hw
    rw [hcall] at hin
    refine ⟨h.wake, h.scheduled, fun hfree => absurd hfree hentered, h.videoBound, h.audioBound, h.newestFrames, h.newestPackets,
      ⟨done, part ++ [packet], ?_, ?_⟩, hwritten⟩
    · rw [hhanded, List.append_assoc]
      rfl
    · dsimp only
      rw [List.append_assoc, List.singleton_append]
      exact hin
  · next hcall =>
    cases hw
    rw [hcall] at hin
    refine ⟨h.wake, h.scheduled, fun _ => rfl, h.videoBound, h.audioBound, h.newestFrames, h.newestPackets,
      ⟨done ++ [part], [], ?_, rfl, ?_⟩, hwritten⟩
    · simp [hhanded]
    · dsimp only at hin ⊢
      rw [List.append_nil] at hin
      rw [List.append_assoc, List.singleton_append]
      exact hin
  · cases hw

theorem kept_start : Kept checks ({} : TransportRun Audio Video) :=
  ⟨Wakeup.sound_start, fun hne => hne.elim (absurd rfl) (absurd rfl), fun _ => rfl, Nat.zero_le _, Nat.zero_le _, List.suffix_rfl,
    List.suffix_rfl, ⟨[], [], rfl, rfl, List.Sublist.refl _⟩, List.Sublist.refl _⟩

theorem kept_step {e : Event Audio Video} (h : r.Kept checks) (hs : r.step checks e = some r') : r'.Kept checks := by
  cases e with
  | enqueueVideo packets =>
    cases hs
    exact kept_enqueueVideo h packets
  | enqueueAudio packet =>
    cases hs
    exact kept_enqueueAudio h packet
  | post =>
    obtain ⟨worker, hw, rfl⟩ := Option.map_eq_some_iff.mp hs
    exact kept_post h hw
  | enter =>
    obtain ⟨worker, hw, rfl⟩ := Option.map_eq_some_iff.mp hs
    exact kept_enter h hw
  | dequeue =>
    obtain ⟨worker, hw, rfl⟩ := Option.map_eq_some_iff.mp hs
    exact kept_dequeue h hw
  | sendAudio =>
    obtain ⟨next, hw, rfl⟩ := Option.map_eq_some_iff.mp hs
    exact kept_sendAudio h hw
  | beginVideo =>
    obtain ⟨worker, hw, rfl⟩ := Option.map_eq_some_iff.mp hs
    exact kept_beginVideo h hw
  | sendVideo isOpen =>
    obtain ⟨next, hw, rfl⟩ := Option.map_eq_some_iff.mp hs
    exact kept_sendVideo h isOpen hw
  | command c =>
    simp only [step, Option.ite_none_right_eq_some, Option.some.injEq] at hs
    obtain ⟨hfree, rfl⟩ := hs
    exact kept_command h c hfree

theorem kept_of_reachable (h : Reachable checks r) : r.Kept checks :=
  h.invariant kept_start fun _ _ _ hr _ hs => kept_step hr hs

end TransportRun

end

/-! ## The audio encoding thread -/

/-- The worker with those who call it: the calls of `enqueueAudioPcmData` that have found it accepting and wait for its
lock, and the number of runs it was started for, which what is appended bears. -/
structure AudioFeed (Byte : Type) where
  worker : AudioEncodeWorker (Nat × Byte) := {}
  waiting : List (List Byte) := []
  runs : Nat := 0

namespace AudioFeed

variable {Byte : Type}

/-- What can happen: a call looks at the flag, gets the lock, posts; the worker's thread is started or stopped, or
works. -/
inductive Event (Byte : Type) where
  | enqueue (pcmData : List Byte)
  | append (i : Nat)
  | post
  | start
  | stop
  | enter
  | takePending
  | advance
  | encodeNext (writable : Bool)
  | finish

def step (encode : AudioEncoder (Nat × Byte)) (f : AudioFeed Byte) : Event Byte → Option (AudioFeed Byte)
  | .enqueue pcmData =>
    if !f.worker.acceptingPcm || pcmData.isEmpty then some f else some { f with waiting := f.waiting ++ [pcmData] }
  | .append i =>
    f.waiting[i]?.map fun pcmData =>
      { f with worker := f.worker.append (pcmData.map fun byte => (f.runs, byte)), waiting := f.waiting.eraseIdx i }
  | .post => f.worker.post.map fun worker => { f with worker := worker }
  | .start =>
    if f.worker.free then
      some { f with worker := f.worker.start, runs := if f.worker.audioStarted then f.runs else f.runs + 1 }
    else none
  | .stop => if f.worker.free then some { f with worker := f.worker.stop } else none
  | .enter => f.worker.enter.map fun worker => { f with worker := worker }
  | .takePending => f.worker.takePending.map fun worker => { f with worker := worker }
  | .advance => f.worker.advance.map fun worker => { f with worker := worker }
  | .encodeNext writable => (f.worker.encodeNext encode writable).map fun next => { f with worker := next.1 }
  | .finish => f.worker.finish.map fun worker => { f with worker := worker }

def Reachable (encode : AudioEncoder (Nat × Byte)) (f : AudioFeed Byte) : Prop := Reach (step encode) (fun _ _ => True) {} f

/-- The worker is scheduled for what is pending of its current run. -/
def Heard (f : AudioFeed Byte) : Prop := f.worker.process.Fed f.worker.acceptingPcm f.worker.pendingPcm f.runs

variable {encode : AudioEncoder (Nat × Byte)} {f f' : AudioFeed Byte}

/-- A step that leaves the slot and its event. -/
theorem Heard.same (h : f.Heard) {worker : AudioEncodeWorker (Nat × Byte)} (hprocess : worker.process = f.worker.process)
    (haccepting : worker.acceptingPcm = f.worker.acceptingPcm) (hpending : worker.pendingPcm = f.worker.pendingPcm) :
    Heard { f with worker := worker } := by
  unfold Heard at h ⊢
  rw [hprocess, haccepting, hpending]
  exact h

theorem heard_takePending (h : f.Heard) {worker : AudioEncodeWorker (Nat × Byte)} (hw : f.worker.takePending = some worker) :
    Heard { f with worker := worker } := by
  unfold AudioEncodeWorker.takePending at hw
  split at hw
  · cases hw
  split at hw
  · next hrefuses =>
    cases hw
    unfold Heard at h ⊢
    have haccepting : f.worker.acceptingPcm = false := by simpa using hrefuses
    rw [haccepting] at h ⊢
    exact h.refused
  · cases hw
    exact Wakeup.fed_taken _ _ _

theorem heard_start (h : f.Heard) :
    Heard { f with worker := f.worker.start, runs := if f.worker.audioStarted then f.runs else f.runs + 1 } := by
  unfold AudioEncodeWorker.start
  cases hstarted : f.worker.audioStarted with
  | true => exact h
  | false => exact Wakeup.Fed.start h

theorem heard_stop (f : AudioFeed Byte) : Heard { f with worker := f.worker.stop } := by
  unfold AudioEncodeWorker.stop
  dsimp only
  split
  · exact Wakeup.fed_stopped _ _
  · exact Wakeup.fed_stopped _ _

theorem heard_step {e : Event Byte} (h : f.Heard) (hs : f.step encode e = some f') : f'.Heard := by
  cases e with
  | enqueue pcmData =>
    simp only [step] at hs
    split at hs
    · cases hs
      exact h
    · cases hs
      exact h
  | append i =>
    obtain ⟨pcmData, -, rfl⟩ := Option.map_eq_some_iff.mp hs
    refine Wakeup.Fed.request h fun b hb => ?_
    rcases List.mem_append.mp (List.mem_of_mem_drop hb) with hold | hnew
    · exact .inl hold
    · obtain ⟨byte, -, rfl⟩ := List.mem_map.mp hnew
      exact .inr rfl
  | post =>
    obtain ⟨worker, hw, rfl⟩ := Option.map_eq_some_iff.mp hs
    obtain ⟨process, hpost, rfl⟩ := Option.map_eq_some_iff.mp hw
    exact Wakeup.Fed.post h hpost
  | start =>
    simp only [step, Option.ite_none_right_eq_some, Option.some.injEq] at hs
    obtain ⟨-, rfl⟩ := hs
    exact heard_start h
  | stop =>
    simp only [step, Option.ite_none_right_eq_some, Option.some.injEq] at hs
    obtain ⟨-, rfl⟩ := hs
    exact heard_stop f
  | enter =>
    obtain ⟨worker, hw, rfl⟩ := Option.map_eq_some_iff.mp hs
    unfold AudioEncodeWorker.enter at hw
    split at hw
    · obtain ⟨process, henter, rfl⟩ := Option.map_eq_some_iff.mp hw
      exact Wakeup.Fed.enter h henter
    · cases hw
  | takePending =>
    obtain ⟨worker, hw, rfl⟩ := Option.map_eq_some_iff.mp hs
    exact heard_takePending h hw
  | advance =>
    obtain ⟨worker, hw, rfl⟩ := Option.map_eq_some_iff.mp hs
    unfold AudioEncodeWorker.advance at hw
    split at hw
    · cases hw
      exact h.same rfl rfl rfl
    · cases hw
  | encodeNext writable =>
    obtain ⟨next, hw, rfl⟩ := Option.map_eq_some_iff.mp hs
    unfold AudioEncodeWorker.encodeNext at hw
    split at hw
    · split at hw
      · cases hw
        unfold AudioEncodeWorker.encodeAudioFrame
        split
        · exact h.same rfl rfl rfl
        · exact h.same rfl rfl rfl
      · cases hw
    · cases hw
  | finish =>
    obtain ⟨worker, hw, rfl⟩ := Option.map_eq_some_iff.mp hs
    unfold AudioEncodeWorker.finish at hw
    split at hw
    · split at hw
      · cases hw
      · cases hw
        exact h.same rfl rfl rfl
    · cases hw

theorem heard_first : Heard ({} : AudioFeed Byte) := Wakeup.fed_start

theorem heard_of_reachable (h : Reachable encode f) : f.Heard :=
  h.invariant heard_first fun _ _ _ hf _ hs => heard_step hf hs

end AudioFeed

/-! ## The video encoding thread -/

/-- The thread with those who call it. -/
structure VideoFeed (Frame : Type) where
  worker : VideoThread (Nat × Frame) := {}
  waiting : List Frame := []
  runs : Nat := 0

namespace VideoFeed

variable {Frame : Type}

/-- What can happen: a call looks at the flag, gets the lock, posts; the thread is started or stopped, or works. -/
inductive Event (Frame : Type) where
  | enqueue (frame : Frame)
  | keep (i : Nat)
  | post
  | start
  | stop
  | enter
  | takePending
  | processVideoFrame
  | packetizeNext
  | finish

def step (qt : FrameChecks (Nat × Frame)) (codec : VideoCodec (Nat × Frame)) (f : VideoFeed Frame) :
    Event Frame → Option (VideoFeed Frame)
  | .enqueue frame =>
    if !f.worker.acceptingFrames || !qt.isValid (f.runs, frame) then some f else some { f with waiting := f.waiting ++ [frame] }
  | .keep i =>
    f.waiting[i]?.map fun frame => { f with worker := f.worker.keep (f.runs, frame), waiting := f.waiting.eraseIdx i }
  | .post => f.worker.post.map fun worker => { f with worker := worker }
  | .start =>
    if f.worker.free then
      some { f with worker := f.worker.start, runs := if f.worker.videoStarted then f.runs else f.runs + 1 }
    else none
  | .stop => if f.worker.free then some { f with worker := f.worker.stop } else none
  | .enter => f.worker.enter.map fun worker => { f with worker := worker }
  | .takePending => f.worker.takePending.map fun worker => { f with worker := worker }
  | .processVideoFrame => (f.worker.processVideoFrame qt codec).map fun worker => { f with worker := worker }
  | .packetizeNext => (f.worker.packetizeNext codec).map fun next => { f with worker := next.1 }
  | .finish => f.worker.finish.map fun worker => { f with worker := worker }

def Reachable (qt : FrameChecks (Nat × Frame)) (codec : VideoCodec (Nat × Frame)) (f : VideoFeed Frame) : Prop :=
  Reach (step qt codec) (fun _ _ => True) {} f

/-- The thread is scheduled for the frame that is pending, if it is one of its current run. -/
def Heard (f : VideoFeed Frame) : Prop := f.worker.process.Fed f.worker.acceptingFrames f.worker.pendingFrame.toList f.runs

variable {qt : FrameChecks (Nat × Frame)} {codec : VideoCodec (Nat × Frame)} {f f' : VideoFeed Frame}

theorem Heard.same (h : f.Heard) {worker : VideoThread (Nat × Frame)} (hprocess : worker.process = f.worker.process)
    (haccepting : worker.acceptingFrames = f.worker.acceptingFrames) (hpending : worker.pendingFrame = f.worker.pendingFrame) :
    Heard { f with worker := worker } := by
  unfold Heard at h ⊢
  rw [hprocess, haccepting, hpending]
  exact h

theorem heard_takePending (h : f.Heard) {worker : VideoThread (Nat × Frame)} (hw : f.worker.takePending = some worker) :
    Heard { f with worker := worker } := by
  unfold VideoThread.takePending at hw
  split at hw
  · cases hw
  split at hw
  · cases hw
    exact Wakeup.fed_taken _ _ _
  · next hnone =>
    cases hw
    unfold Heard at h ⊢
    dsimp only
    cases haccepting : f.worker.acceptingFrames with
    | false =>
      rw [haccepting] at h
      exact h.refused
    | true =>
      cases hpending : f.worker.pendingFrame with
      | none => exact Wakeup.fed_taken _ _ _
      | some frame => exact absurd hpending (hnone frame haccepting)

theorem heard_start (h : f.Heard) :
    Heard { f with worker := f.worker.start, runs := if f.worker.videoStarted then f.runs else f.runs + 1 } := by
  unfold VideoThread.start
  cases hstarted : f.worker.videoStarted with
  | true => exact h
  | false => exact Wakeup.Fed.start h

theorem heard_stop (f : VideoFeed Frame) : Heard { f with worker := f.worker.stop } := by
  unfold VideoThread.stop
  dsimp only
  split
  · exact Wakeup.fed_stopped _ _
  · exact Wakeup.fed_stopped _ _

theorem heard_step {e : Event Frame} (h : f.Heard) (hs : f.step qt codec e = some f') : f'.Heard := by
  cases e with
  | enqueue frame =>
    simp only [step] at hs
    split at hs
    · cases hs
      exact h
    · cases hs
      exact h
  | keep i =>
    obtain ⟨frame, -, rfl⟩ := Option.map_eq_some_iff.mp hs
    refine Wakeup.Fed.request h fun b hb => .inr ?_
    obtain rfl := List.mem_singleton.mp hb
    rfl
  | post =>
    obtain ⟨worker, hw, rfl⟩ := Option.map_eq_some_iff.mp hs
    obtain ⟨process, hpost, rfl⟩ := Option.map_eq_some_iff.mp hw
    exact Wakeup.Fed.post h hpost
  | start =>
    simp only [step, Option.ite_none_right_eq_some, Option.some.injEq] at hs
    obtain ⟨-, rfl⟩ := hs
    exact heard_start h
  | stop =>
    simp only [step, Option.ite_none_right_eq_some, Option.some.injEq] at hs
    obtain ⟨-, rfl⟩ := hs
    exact heard_stop f
  | enter =>
    obtain ⟨worker, hw, rfl⟩ := Option.map_eq_some_iff.mp hs
    unfold VideoThread.enter at hw
    split at hw
    · obtain ⟨process, henter, rfl⟩ := Option.map_eq_some_iff.mp hw
      exact Wakeup.Fed.enter h henter
    · cases hw
  | takePending =>
    obtain ⟨worker, hw, rfl⟩ := Option.map_eq_some_iff.mp hs
    exact heard_takePending h hw
  | processVideoFrame =>
    obtain ⟨worker, hw, rfl⟩ := Option.map_eq_some_iff.mp hs
    unfold VideoThread.processVideoFrame at hw
    split at hw
    · split at hw
      · cases hw
        exact h.same rfl rfl rfl
      · cases hw
        exact h.same rfl rfl rfl
    · cases hw
  | packetizeNext =>
    obtain ⟨next, hw, rfl⟩ := Option.map_eq_some_iff.mp hs
    unfold VideoThread.packetizeNext at hw
    split at hw
    · split at hw
      · cases hw
        exact h.same rfl rfl rfl
      · cases hw
        exact h.same rfl rfl rfl
    · cases hw
  | finish =>
    obtain ⟨worker, hw, rfl⟩ := Option.map_eq_some_iff.mp hs
    unfold VideoThread.finish at hw
    split at hw
    · cases hw
      exact h.same rfl rfl rfl
    · cases hw

theorem heard_first : Heard ({} : VideoFeed Frame) := Wakeup.fed_start

theorem heard_of_reachable (h : Reachable qt codec f) : f.Heard :=
  h.invariant heard_first fun _ _ _ hf _ hs => heard_step hf hs

end VideoFeed

/-! ## The laws -/

section

variable {Audio Video : Type}

/-- The RTC thread's end of the hand-off. -/
structure TransportRun.WellFed (checks : PacketChecks Audio Video) (r : TransportRun Audio Video) : Prop where
  /-- What is in a queue has an event: queued, running, or owed by a call that has handed something over. -/
  wake : r.worker.videoRtpFrames ≠ [] ∨ r.worker.audioRtpPackets ≠ [] → r.worker.process.Pending
  videoBound : r.worker.videoRtpFrames.length ≤ maxQueuedVideoFrames
  audioBound : r.worker.audioRtpPackets.length ≤ maxQueuedAudioPackets
  /-- What comes in next is queued behind the rest, of which the oldest is dropped if the queue is full. -/
  videoDrop : ∀ packets, packets ≠ [] →
    (r.worker.enqueueVideoRtpPackets packets).videoRtpFrames = r.worker.videoRtpFrames ++ [packets] ∨
      ∃ oldest rest, r.worker.videoRtpFrames = oldest :: rest ∧ r.worker.videoRtpFrames.length = maxQueuedVideoFrames ∧
        (r.worker.enqueueVideoRtpPackets packets).videoRtpFrames = rest ++ [packets]
  audioDrop : ∀ packet, checks.emptyAudio packet = false →
    (r.worker.enqueueAudioRtpPacket checks packet).audioRtpPackets = r.worker.audioRtpPackets ++ [packet] ∨
      ∃ oldest rest, r.worker.audioRtpPackets = oldest :: rest ∧ r.worker.audioRtpPackets.length = maxQueuedAudioPackets ∧
        (r.worker.enqueueAudioRtpPacket checks packet).audioRtpPackets = rest ++ [packet]
  /-- The queues hold the newest of what came in, in its order. -/
  newestFrames : r.worker.videoRtpFrames <:+ r.frames.filter fun packets => !packets.isEmpty
  newestPackets : r.worker.audioRtpPackets <:+ r.packets.filter fun packet => !checks.emptyAudio packet
  /-- What was handed to the media session are whole frames in the order they came in, and the first part of one that
  is being handed over. -/
  parts : ∃ done part, r.Parts done part
  /-- What was written to the track is some of that. -/
  written : r.written.Sublist r.handed

/-- What a queue that makes room becomes. -/
theorem room_cases {α : Type} {n : Nat} {xs : List α} (hn : 0 < n) (h : xs.length ≤ n) (x : α) :
    (if xs.length ≥ n then xs.tail else xs) ++ [x] = xs ++ [x] ∨
      ∃ oldest rest, xs = oldest :: rest ∧ xs.length = n ∧ (if xs.length ≥ n then xs.tail else xs) ++ [x] = rest ++ [x] := by
  split
  · next hfull =>
    cases xs with
    | nil => exact absurd hfull (Nat.not_le.mpr hn)
    | cons oldest rest => exact .inr ⟨oldest, rest, rfl, Nat.le_antisymm h hfull, rfl⟩
  · exact .inl rfl

theorem TransportRun.Kept.wellFed {checks : PacketChecks Audio Video} {r : TransportRun Audio Video} (h : r.Kept checks) :
    r.WellFed checks where
  wake hne := h.wake (h.scheduled hne)
  videoBound := h.videoBound
  audioBound := h.audioBound
  videoDrop packets hne := by
    have hsome : packets.isEmpty = false := List.isEmpty_eq_false_iff.mpr hne
    unfold RtcTransportWorker.enqueueVideoRtpPackets
    rw [hsome]
    exact room_cases (by decide) h.videoBound packets
  audioDrop packet hne := by
    unfold RtcTransportWorker.enqueueAudioRtpPacket
    rw [hne]
    exact room_cases (by decide) h.audioBound packet
  newestFrames := h.newestFrames
  newestPackets := h.newestPackets
  parts := h.parts
  written := h.written

end

/-- **The hand-off loses no wake-up and splits no frame.** In every interleaving what waits for the RTC thread has an
event, and so has what came in for an encoding thread since it was started, while it accepts; the queues of the RTC
thread stay within their bounds and lose their oldest entries only; and the packets of a frame are handed to the media
session one after the other, all of them or none. -/
theorem handoff :
    (∀ (Audio Video : Type) (checks : PacketChecks Audio Video) (r : TransportRun Audio Video),
      TransportRun.Reachable checks r → r.WellFed checks) ∧
    (∀ (Byte : Type) (encode : AudioEncoder (Nat × Byte)) (f : AudioFeed Byte), AudioFeed.Reachable encode f →
      f.worker.acceptingPcm = true → (∃ b ∈ f.worker.pendingPcm, b.1 = f.runs) → f.worker.process.Pending) ∧
    ∀ (Frame : Type) (qt : FrameChecks (Nat × Frame)) (codec : VideoCodec (Nat × Frame)) (f : VideoFeed Frame),
      VideoFeed.Reachable qt codec f → f.worker.acceptingFrames = true →
      (∃ b ∈ f.worker.pendingFrame, b.1 = f.runs) → f.worker.process.Pending := by
  refine ⟨fun _ _ _ _ h => (TransportRun.kept_of_reachable h).wellFed, fun _ _ _ h haccepts hpending => ?_,
    fun _ _ _ _ h haccepts hpending => ?_⟩
  · exact (AudioFeed.heard_of_reachable h).heard haccepts hpending
  · obtain ⟨b, hb, hrun⟩ := hpending
    exact (VideoFeed.heard_of_reachable h).heard haccepts ⟨b, Option.mem_toList.mpr hb, hrun⟩

namespace Scenario

/-- No packet is empty. -/
def fullPackets : PacketChecks Nat Nat := ⟨fun _ => false, fun _ => false⟩

/-- An encoder that makes no packet. -/
def mute : AudioEncoder (Nat × Nat) := fun _ _ => []

def anyPicture : FrameChecks (Nat × Nat) := ⟨fun _ => true, fun _ => true⟩

def blank : VideoCodec (Nat × Nat) := ⟨fun _ _ => [], fun _ => 0⟩

/-- A frame was handed over, and its event is still to be posted. -/
theorem reach_waiting : ∃ r : TransportRun Nat Nat, TransportRun.Reachable fullPackets r ∧ r.worker.videoRtpFrames ≠ [] ∧
    r.worker.process.queued = 0 ∧ r.worker.Free :=
  ⟨_, .next (e := .enqueueVideo [1]) .start trivial rfl, List.cons_ne_nil _ _, rfl, rfl⟩

/-- PCM was appended, and its event is still to be posted. -/
theorem reach_appended : ∃ f : AudioFeed Nat, AudioFeed.Reachable mute f ∧ f.worker.acceptingPcm = true ∧
    (∃ b ∈ f.worker.pendingPcm, b.1 = f.runs) ∧ f.worker.process.queued = 0 ∧ f.worker.free = true := by
  have hstart : AudioFeed.Reachable mute _ := .next (e := .start) .start trivial rfl
  have hlook : AudioFeed.Reachable mute _ := .next (e := .enqueue [1]) hstart trivial rfl
  have happend : AudioFeed.Reachable mute _ := .next (e := .append 0) hlook trivial rfl
  exact ⟨_, happend, rfl, ⟨(1, 1), List.mem_singleton_self _, rfl⟩, rfl, rfl⟩

/-- A frame was captured, and its event is still to be posted. -/
theorem reach_captured : ∃ f : VideoFeed Nat, VideoFeed.Reachable anyPicture blank f ∧ f.worker.acceptingFrames = true ∧
    (∃ b ∈ f.worker.pendingFrame, b.1 = f.runs) ∧ f.worker.process.queued = 0 ∧ f.worker.free = true := by
  have hstart : VideoFeed.Reachable anyPicture blank _ := .next (e := .start) .start trivial rfl
  have hlook : VideoFeed.Reachable anyPicture blank _ := .next (e := .enqueue 1) hstart trivial rfl
  have hkeep : VideoFeed.Reachable anyPicture blank _ := .next (e := .keep 0) hlook trivial rfl
  exact ⟨_, hkeep, rfl, ⟨(1, 1), rfl, rfl⟩, rfl, rfl⟩

/-- A frame of two packets, and a track that opens between them. -/
def opensBetween : List (TransportRun.Event Nat Nat) :=
  [.command .startMediaSession, .command (.setVideoSendingEnabled true), .enqueueVideo [1, 2], .post, .enter, .dequeue,
    .beginVideo, .sendVideo false, .sendVideo true, .sendVideo true, .dequeue]

end Scenario

open Scenario in
/-- The events that are still to be posted are owed. -/
theorem handoff_owed : (∃ r : TransportRun Nat Nat, r.worker.process.queued = 0 ∧ r.WellFed fullPackets ∧ r.worker.process.Pending) ∧
    (∃ f : AudioFeed Nat, f.worker.process.queued = 0 ∧ f.worker.process.Pending) ∧
    ∃ f : VideoFeed Nat, f.worker.process.queued = 0 ∧ f.worker.process.Pending := by
  obtain ⟨r, hr, hwaits, hnone, -⟩ := reach_waiting
  obtain ⟨f, hf, haccepts, hpending, hfnone, -⟩ := reach_appended
  obtain ⟨g, hg, hgaccepts, hgpending, hgnone, -⟩ := reach_captured
  have hfed := handoff.1 Nat Nat fullPackets r hr
  exact ⟨⟨r, hnone, hfed, hfed.wake (.inl hwaits)⟩, ⟨f, hfnone, handoff.2.1 Nat mute f hf haccepts hpending⟩,
    ⟨g, hgnone, handoff.2.2 Nat anyPicture blank g hg hgaccepts hgpending⟩⟩

open Scenario in
/-- Between the lock and the post nothing is queued and nothing runs; and a track that opens in the middle of a frame is
written the end of it. -/
theorem handoff_gaps :
    (¬ ∀ r : TransportRun Nat Nat, TransportRun.Reachable fullPackets r →
      (r.worker.videoRtpFrames ≠ [] ∨ r.worker.audioRtpPackets ≠ []) → 0 < r.worker.process.queued ∨ ¬ r.worker.Free) ∧
    (¬ ∀ f : AudioFeed Nat, AudioFeed.Reachable mute f → f.worker.acceptingPcm = true →
      (∃ b ∈ f.worker.pendingPcm, b.1 = f.runs) → 0 < f.worker.process.queued ∨ f.worker.free = false) ∧
    (¬ ∀ f : VideoFeed Nat, VideoFeed.Reachable anyPicture blank f → f.worker.acceptingFrames = true →
      (∃ b ∈ f.worker.pendingFrame, b.1 = f.runs) → 0 < f.worker.process.queued ∨ f.worker.free = false) ∧
    ¬ ∀ r : TransportRun Nat Nat, TransportRun.Reachable fullPackets r → r.worker.Free →
      ∃ done : List (List Nat), done.Sublist r.frames ∧ r.written = done.flatten := by
  refine ⟨fun h => ?_, fun h => ?_, fun h => ?_, fun h => ?_⟩
  · obtain ⟨r, hr, hwaits, hnone, hfree⟩ := reach_waiting
    rcases h r hr (.inl hwaits) with hqueued | hbusy
    · exact absurd hnone (Nat.ne_of_gt hqueued)
    · exact hbusy hfree
  · obtain ⟨f, hf, haccepts, hpending, hnone, hfree⟩ := reach_appended
    rcases h f hf haccepts hpending with hqueued | hbusy
    · exact absurd hnone (Nat.ne_of_gt hqueued)
    · exact absurd (hfree.symm.trans hbusy) (by decide)
  · obtain ⟨f, hf, haccepts, hpending, hnone, hfree⟩ := reach_captured
    rcases h f hf haccepts hpending with hqueued | hbusy
    · exact absurd hnone (Nat.ne_of_gt hqueued)
    · exact absurd (hfree.symm.trans hbusy) (by decide)
  · have hrun : ((play (TransportRun.step fullPackets) (fun _ _ => true) opensBetween {}).any fun r =>
        decide r.worker.Free && decide (r.frames = [[1, 2]]) && decide (r.written = [2])) = true := by decide
    obtain ⟨r, hplay, hr⟩ := (Option.any_eq_true _ _).mp hrun
    simp only [Bool.and_eq_true, decide_eq_true_eq] at hr
    obtain ⟨⟨hfree, hframes⟩, hwritten⟩ := hr
    obtain ⟨done, hdone, heq⟩ := h r (reach_play (fun _ _ _ => trivial) hplay) hfree
    rw [hwritten] at heq
    rw [hframes] at hdone
    rcases List.sublist_singleton.mp hdone with rfl | rfl
    · exact absurd heq (by decide)
    · exact absurd heq (by decide)

end SyncRtc.Client
