import SyncRtc.Laws.MediaHandlers

/-!
# Packets of one publisher stay on its tracks

A packet is forwarded on threads that look at the room and at the tracks of a session under two different locks, while
workers go on. What was chosen under the second lock stays true of the session for ever, and with it what `Core` says of
every track there has been: for whom it was made, and which SSRC it has.
-/

set_option autoImplicit false

namespace SyncRtc.MediaServer

open Net (Bytes)

variable {P : Type} {rtc : Rtc P}

/-! ## What stays true of a session -/

namespace Memory

/-- Sessions stay, and so do their bindings. -/
structure Kept (m m' : Memory P) : Prop where
  sessions : ∀ {i S s}, m.sessions i = some (S, s) → ∃ s', m'.sessions i = some (S, s') ∧ s.bindings ⊆ s'.bindings

variable {m m' : Memory P}

theorem Kept.of_sessions (h : m'.sessions = m.sessions) : m.Kept m' :=
  ⟨fun hs => ⟨_, h ▸ hs, List.Subset.refl _⟩⟩

theorem Kept.onRoom {α : Type} {room : Nat} {missing : α} {f : MediaRoom → α × MediaRoom} :
    m.Kept (m.onRoom room missing f).2 := by
  refine .of_sessions ?_
  unfold Memory.onRoom
  split <;> rfl

theorem sessions_notify (info : SessionInfo) (notices : List Notice) :
    (notices.foldl (fun m notice => m.notify info notice) m).sessions = m.sessions := by
  induction notices generalizing m with
  | nil => rfl
  | cons notice notices ih =>
    rw [List.foldl_cons, ih]
    cases notice <;> rfl

theorem Kept.onSession {session : SessionInfo} {f : MediaSession P → Outcome P}
    (hf : ∀ s, s.bindings ⊆ (f s).session.bindings) : m.Kept (m.onSession session f).2 := by
  refine ⟨fun {i S s} hs => ?_⟩
  unfold Memory.onSession
  split
  · exact ⟨s, hs, List.Subset.refl _⟩
  · next info t ht =>
    rw [sessions_notify]
    by_cases hi : i = session.instanceId
    · subst hi
      cases hs.symm.trans ht
      exact ⟨_, Function.update_self _ _ _, hf s⟩
    · exact ⟨s, (Function.update_of_ne hi _ _).trans hs, List.Subset.refl _⟩

theorem bindings_addOutgoingTrack (s : MediaSession P) (i : Nat) (u : Int) (j : Nat) (media : Media) (x : UInt32) :
    s.bindings ⊆ (s.addOutgoingTrack rtc i u j media x).session.bindings := by
  unfold MediaSession.addOutgoingTrack
  split
  · exact List.Subset.refl _
  · dsimp only
    split
    · exact List.Subset.refl _
    · exact List.subset_cons_self _ _

/-- No section takes a session or a binding away. -/
theorem kept_answer (hfresh : m.Fresh) (c : Section) : m.Kept (m.answer rtc c).2 := by
  have hkeeps : ∀ {s : MediaSession P} {o : Outcome P}, s.Keeps o → s.bindings ⊆ o.session.bindings := by
    rintro s o ⟨_, hbindings⟩
    rw [hbindings]
    exact List.Subset.refl _
  cases c with
  | findRoom meetingId => exact .of_sessions rfl
  | findOrAddRoom meetingId =>
    refine .of_sessions ?_
    simp only [Memory.answer]
    split <;> rfl
  | dropRoom room =>
    refine .of_sessions ?_
    simp only [Memory.answer]
    split
    · rfl
    · split <;> rfl
  | createSession room request session =>
    refine ⟨fun {i S s} hs => ?_⟩
    simp only [Memory.answer]
    split
    · exact ⟨s, hs, List.Subset.refl _⟩
    · refine ⟨s, (Function.update_of_ne ?_ _ _).trans hs, List.Subset.refl _⟩
      rintro rfl
      exact absurd ((hfresh.sessions _ (Nat.le_refl _)).symm.trans hs) (by simp)
  | isStopped session => exact .of_sessions rfl
  | getPeer room uid => exact .onRoom
  | addPeer room peer => exact .onRoom
  | removePeer room uid expected => exact .onRoom
  | peerCount room => exact .onRoom
  | getSessionsForConnection room connection => exact .onRoom
  | registerPublisherTrack room uid media => exact .onRoom
  | setRemoteOffer session sdp => exact .onSession fun s => hkeeps (s.keeps_setRemoteOffer sdp)
  | setRemoteAnswer session sdp => exact .onSession fun s => hkeeps (s.keeps_setRemoteAnswer sdp)
  | addRemoteCandidate session candidate mid =>
    exact .onSession fun s => hkeeps (s.keeps_addRemoteCandidate candidate mid)
  | requestRenegotiation session => exact .onSession fun s => hkeeps s.keeps_requestRenegotiation
  | addOutgoingTrack b => exact .onSession fun s => bindings_addOutgoingTrack s _ _ _ _ _
  | removeOutgoingTracks session uid => exact .onSession fun s => List.Subset.refl _
  | send session response => exact .of_sessions rfl

/-- A session there is, or has been. -/
def Stored (m : Memory P) (S : SessionInfo) : Prop := ∃ s, m.sessions S.instanceId = some (S, s)

/-- A track of a session that was bound to this publisher for this media. -/
def Chosen (m : Memory P) (publisher : SessionInfo) (media : Media) (subscriber : SessionInfo) (o : OutgoingTrack) :
    Prop :=
  o.publisherSessionId = publisher.instanceId ∧
    ∃ s, m.sessions subscriber.instanceId = some (subscriber, s) ∧ (media, publisher.uid, o) ∈ s.bindings

theorem Stored.keep {S : SessionInfo} (h : m.Stored S) (hkept : m.Kept m') : m'.Stored S := by
  obtain ⟨s, hs⟩ := h
  obtain ⟨s', hs', _⟩ := hkept.sessions hs
  exact ⟨s', hs'⟩

theorem Chosen.keep {publisher subscriber : SessionInfo} {media : Media} {o : OutgoingTrack}
    (h : m.Chosen publisher media subscriber o) (hkept : m.Kept m') : m'.Chosen publisher media subscriber o := by
  obtain ⟨hid, s, hs, hmem⟩ := h
  obtain ⟨s', hs', hsub⟩ := hkept.sessions hs
  exact ⟨hid, s', hs', hsub hmem⟩

end Memory

/-! ## Threads -/

/-- What a thread has in hand. -/
def Forwarding.Sound (m : Memory P) : Forwarding → Prop
  | .idle => True
  | .choosing publisher _ packet targets =>
    rtpHeaderSize ≤ packet.length ∧ m.Stored publisher ∧ ∀ T ∈ targets, m.Stored T
  | .sending publisher media packet targets subscriber track =>
    rtpHeaderSize ≤ packet.length ∧ m.Stored publisher ∧ (∀ T ∈ targets, m.Stored T) ∧
      m.Chosen publisher media subscriber track

/-- What is true of a packet that has been sent. -/
def Sent.Sound (rtc : Rtc P) (m : Memory P) (f : Sent) : Prop :=
  rtpHeaderSize ≤ f.packet.length ∧ m.Stored f.publisher ∧ m.Chosen f.publisher f.media f.subscriber f.track ∧
    f.forwarded = rtc.setSsrc f.packet f.track.ssrc

namespace System

variable {σ σ' : System P}

/-- What the threads have in hand and have sent. -/
structure Forwards (rtc : Rtc P) (σ : System P) : Prop where
  threads : ∀ thread, (σ.threads thread).Sound σ.memory
  sent : ∀ f ∈ σ.forwards, f.Sound rtc σ.memory

/-- Memory goes on while the threads stand. -/
theorem Forwards.keep (h : σ.Forwards rtc) (hkept : σ.memory.Kept σ'.memory) (hthreads : σ'.threads = σ.threads)
    (hforwards : σ'.forwards = σ.forwards) : σ'.Forwards rtc := by
  refine ⟨fun thread => ?_, fun f hf => ?_⟩
  · have hold := h.threads thread
    rw [hthreads]
    revert hold
    cases σ.threads thread with
    | idle => exact id
    | choosing publisher media packet targets =>
      rintro ⟨hlength, hpublisher, htargets⟩
      exact ⟨hlength, hpublisher.keep hkept, fun T hT => (htargets T hT).keep hkept⟩
    | sending publisher media packet targets subscriber track =>
      rintro ⟨hlength, hpublisher, htargets, hchosen⟩
      exact ⟨hlength, hpublisher.keep hkept, fun T hT => (htargets T hT).keep hkept, hchosen.keep hkept⟩
  · rw [hforwards] at hf
    obtain ⟨hlength, hpublisher, hchosen, heq⟩ := h.sent f hf
    exact ⟨hlength, hpublisher.keep hkept, hchosen.keep hkept, heq⟩

/-- A thread goes on while memory stands. -/
theorem Forwards.setThread (h : σ.Forwards rtc) {thread : Nat} {f : Forwarding} (hf : f.Sound σ.memory) :
    (σ.setThread thread f).Forwards rtc := by
  refine ⟨fun t => ?_, h.sent⟩
  by_cases ht : t = thread
  · simp only [System.setThread, ht, Function.update_self]
    exact hf
  · simp only [System.setThread, Function.update_of_ne ht]
    exact h.threads t

theorem sessions_post (m : Memory P) (events : List MediaRoomEvent) :
    (events.foldl Memory.post m).sessions = m.sessions := by
  induction events generalizing m with
  | nil => rfl
  | cons event events ih => exact ih (m.post event)

/-- What is stored in the memory is stored in the view of its meeting. -/
theorem core_of_running (h : σ.Running rtc (fun k v => Core k v) fun k v => Good k v [] noStale) (k : Nat) :
    Core k (σ.memory.view k) :=
  h.holds (fun _ _ hgood => hgood.core) k

theorem Forwards.step (hcore : σ.Running rtc (fun k v => Core k v) fun k v => Good k v [] noStale)
    (h : σ.Forwards rtc) {e : ServerEvent} (hs : σ.step rtc e = some σ') : σ'.Forwards rtc := by
  cases e with
  | request session request =>
    simp only [System.step] at hs
    split at hs
    · cases hs
    · cases hs
      exact h.keep (.of_sessions rfl) rfl rfl
  | post session =>
    obtain ⟨_, _, rfl⟩ := Option.map_eq_some_iff.mp hs
    exact h.keep (.of_sessions rfl) rfl rfl
  | stop session =>
    cases hs
    exact h.keep (.of_sessions rfl) rfl rfl
  | signalDisconnected session =>
    simp only [System.step] at hs
    split at hs
    · cases hs
      exact h.keep (.of_sessions (sessions_post _ _)) rfl rfl
    · cases hs
  | localDescription instanceId description =>
    obtain ⟨_, _, rfl⟩ := Option.map_eq_some_iff.mp hs
    exact h.keep (.of_sessions rfl) rfl rfl
  | localCandidate instanceId candidate mid =>
    obtain ⟨_, _, rfl⟩ := Option.map_eq_some_iff.mp hs
    exact h.keep (.of_sessions rfl) rfl rfl
  | take k =>
    simp only [System.step] at hs
    split at hs
    · cases hs
      exact h.keep (.of_sessions rfl) rfl rfl
    · cases hs
  | run k =>
    simp only [System.step] at hs
    split at hs
    · cases hs
      exact h.keep (Memory.kept_answer hcore.fresh _) rfl rfl
    · cases hs
  | packet thread instanceId media packet =>
    simp only [System.step] at hs
    split at hs
    · next publisher s _ hsession =>
      split at hs
      · next hlength =>
        cases hs
        have hview := Memory.view_sessions.mpr ⟨hsession, rfl⟩
        have hid : publisher.instanceId = instanceId := ((core_of_running hcore _).session hview).1
        refine h.setThread ⟨hlength, ⟨s, hid.symm ▸ hsession⟩, fun T hT => ?_⟩
        cases hr : σ.memory.rooms publisher.room with
        | none =>
          rw [hr] at hT
          exact absurd hT List.not_mem_nil
        | some r =>
          rw [hr] at hT
          simp only [Option.map_some, Option.getD_some, MediaRoom.targetSessions] at hT
          split at hT
          · obtain ⟨u, _, hu⟩ := MediaRoom.mem_others.mp hT
            obtain ⟨_, _, t, ht⟩ := (core_of_running hcore r.meetingId).sessionOf (Memory.view_rooms.mpr ⟨hr, rfl⟩) hu
            exact ⟨t, (Memory.view_sessions.mp ht).1⟩
          · exact absurd hT List.not_mem_nil
      · cases hs
    · cases hs
  | choose thread =>
    simp only [System.step] at hs
    split at hs
    · next publisher media packet targets hthread =>
      have hold := h.threads thread
      rw [hthread] at hold
      obtain ⟨hlength, hpublisher, htargets⟩ := hold
      split at hs
      · cases hs
        exact h.setThread trivial
      · next subscriber targets =>
        have hrest : ∀ T ∈ targets, σ.memory.Stored T := fun T hT => htargets T (List.mem_cons_of_mem _ hT)
        split at hs
        · cases hs
          exact h.setThread ⟨hlength, hpublisher, hrest⟩
        · next track htrack =>
          cases hs
          obtain ⟨s, hsession⟩ := htargets subscriber List.mem_cons_self
          rw [hsession, Option.bind_some] at htrack
          obtain ⟨hout, hid⟩ := Option.filter_eq_some_iff.mp htrack
          have hview := Memory.view_sessions.mpr ⟨hsession, rfl⟩
          have hmem := (core_of_running hcore _).outgoing hview hout
          exact h.setThread ⟨hlength, hpublisher, hrest, of_decide_eq_true hid, s, hsession, hmem⟩
    · cases hs
  | send thread isOpen =>
    simp only [System.step] at hs
    split at hs
    · next publisher media packet targets subscriber track hthread =>
      have hold := h.threads thread
      rw [hthread] at hold
      obtain ⟨hlength, hpublisher, htargets, hchosen⟩ := hold
      have hnext : (σ.setThread thread (.choosing publisher media packet targets)).Forwards rtc :=
        h.setThread ⟨hlength, hpublisher, htargets⟩
      split at hs
      · cases hs
        refine ⟨hnext.threads, fun f hf => ?_⟩
        rcases List.mem_cons.mp hf with rfl | hf
        · exact ⟨hlength, hpublisher, hchosen, rfl⟩
        · exact h.sent f hf
      · cases hs
        exact hnext
    · cases hs

theorem forwards_of_reachable (h : σ.Reachable rtc) : σ.Forwards rtc := by
  refine Reach.invariant_of (fun _ hreach => running_core hreach) ?_
    (fun _ _ _ hcore hi _ hs => Forwards.step hcore hi hs) h
  exact ⟨fun _ => trivial, fun _ hf => absurd hf List.not_mem_nil⟩

end System

/-! ## Mids -/

/-- A number is read off the digits before a dash. -/
theorem toDigits_head {n n' : Nat} {s s' : List Char}
    (h : Nat.toDigits 10 n ++ '-' :: s = Nat.toDigits 10 n' ++ '-' :: s') : n = n' := by
  have hdigits : ∀ n s, (Nat.toDigits 10 n ++ '-' :: s).takeWhile Char.isDigit = Nat.toDigits 10 n := by
    intro n s
    rw [List.takeWhile_append_of_pos fun c hc => Nat.isDigit_of_mem_toDigits (by decide) (by decide) hc]
    exact List.append_nil _
  have heq : Nat.toDigits 10 n = Nat.toDigits 10 n' := by rw [← hdigits n s, h, hdigits n' s']
  have hvalue : Nat.ofDigitChars 10 (Nat.toDigits 10 n) 0 = Nat.ofDigitChars 10 (Nat.toDigits 10 n') 0 := by rw [heq]
  rwa [Nat.ofDigitChars_ten_toDigits, Nat.ofDigitChars_ten_toDigits] at hvalue

/-- A mid tells the media and the SSRC. -/
theorem trackMid_inj {media media' : Media} {x x' : UInt32} {u u' : Int}
    (h : trackMid media x u = trackMid media' x' u') : media = media' ∧ x = x' := by
  have hchars := congrArg String.toList h
  have htext : ∀ n : Nat, (toString n).toList = Nat.toDigits 10 n := fun n => Nat.toList_repr
  have hdash : "-".toList = ['-'] := rfl
  simp only [trackMid, String.toList_append, htext, List.append_assoc, hdash, List.cons_append, List.nil_append] at hchars
  have hmedia : media = media' := by
    cases media <;> cases media' <;> first | rfl | exact absurd (List.cons.inj hchars).1 (by decide)
  subst hmedia
  have htail := (List.cons.inj (List.append_cancel_left hchars)).2
  exact ⟨rfl, UInt32.toNat_inj.mp (toDigits_head htail)⟩

/-! ## Isolation -/

/-- What `RtpHeader::setSsrc` does to a packet: the field is at the bytes 8 to 11. -/
def Rtc.WritesSsrc (rtc : Rtc P) : Prop := ∀ packet x, rtpHeaderSize ≤ packet.length →
  rtc.setSsrc packet x = packet.take 8 ++ networkBytes x ++ packet.drop 12

/-- Where a packet may have gone, and what has become of it. -/
structure Isolated (m : Memory P) (f : Sent) : Prop where
  /-- The track was bound to the instance the packet came from, and to its media. -/
  bound : ∃ s, m.sessions f.subscriber.instanceId = some (f.subscriber, s) ∧
    (f.media, f.publisher.uid, f.track) ∈ s.bindings ∧ f.track.publisherSessionId = f.publisher.instanceId
  owner : f.track.track.owner = f.subscriber.instanceId
  /-- The subscriber is another member of the same room. -/
  foreign : f.subscriber.uid ≠ f.publisher.uid ∧ f.subscriber.instanceId ≠ f.publisher.instanceId
  room : f.subscriber.room = f.publisher.room ∧ f.subscriber.meetingId = f.publisher.meetingId
  /-- The SSRC is the one that the room has given to the instance for this media. -/
  assigned : ∃ r, m.rooms f.publisher.room = some r ∧ (f.publisher.instanceId, f.media, f.track.ssrc) ∈ r.registered ∧
    ∀ x, (f.publisher.instanceId, f.media, x) ∈ r.registered → x = f.track.ssrc
  ssrc : (f.forwarded.drop 8).take 4 = networkBytes f.track.ssrc
  rest : f.forwarded.length = f.packet.length ∧ ∀ i, i < 8 ∨ 12 ≤ i → f.forwarded[i]? = f.packet[i]?
  /-- What was bound to another instance, an earlier or a later one of the same user too, or to the other media, is
  another track with another SSRC. Numbers are compared as long as they have not come round. -/
  other : ∀ r, m.rooms f.publisher.room = some r → r.registered.length ≤ 2 ^ 32 → ∀ S s media u o,
    m.sessions S.instanceId = some (S, s) → S.room = f.publisher.room → (media, u, o) ∈ s.bindings →
      (o.publisherSessionId ≠ f.publisher.instanceId ∨ media ≠ f.media) → o.ssrc ≠ f.track.ssrc ∧ o.track ≠ f.track.track

theorem networkBytes_length (x : UInt32) : (networkBytes x).length = 4 := rfl

/-- Only the field changes. -/
theorem rewritten {packet : Bytes} {x : UInt32} (h : rtpHeaderSize ≤ packet.length) :
    ((packet.take 8 ++ networkBytes x ++ packet.drop 12).drop 8).take 4 = networkBytes x ∧
      (packet.take 8 ++ networkBytes x ++ packet.drop 12).length = packet.length ∧ ∀ i, i < 8 ∨ 12 ≤ i →
        (packet.take 8 ++ networkBytes x ++ packet.drop 12)[i]? = packet[i]? := by
  have h : 12 ≤ packet.length := h
  have hhead : (packet.take 8).length = 8 := by
    rw [List.length_take]
    omega
  have hfield : (packet.take 8 ++ networkBytes x).length = 12 := by rw [List.length_append, hhead, networkBytes_length]
  refine ⟨?_, ?_, fun i hi => ?_⟩
  · rw [List.append_assoc, List.drop_left' hhead, List.take_left' (networkBytes_length x)]
  · rw [List.length_append, hfield, List.length_drop]
    omega
  · rcases hi with hi | hi
    · rw [List.append_assoc, List.getElem?_append_left (by omega), List.getElem?_take_of_lt hi]
    · rw [List.getElem?_append_right (by omega), hfield, List.getElem?_drop]
      congr 1
      omega

/-- Every packet that is sent stays on the tracks of its publisher, whatever happens between the two locks. -/
theorem packets_isolated {σ : System P} (hrtc : rtc.WritesSsrc) (h : σ.Reachable rtc) {f : Sent}
    (hf : f ∈ σ.forwards) : Isolated σ.memory f := by
  have hrunning := running_core h
  obtain ⟨hlength, ⟨t, ht⟩, ⟨hid, s, hs, hmem⟩, hforwarded⟩ := (System.forwards_of_reachable h).sent f hf
  have hcore := System.core_of_running hrunning f.subscriber.meetingId
  have hview := Memory.view_sessions.mpr ⟨hs, rfl⟩
  obtain ⟨htrack, hne, T, t', r, ht', hTuid, hTroom, hr, hregistered⟩ := hcore.bound hview hmem
  -- The publisher of the track is the one the packet came from.
  obtain ⟨ht', hTmeeting⟩ := Memory.view_sessions.mp ht'
  rw [hid, ht] at ht'
  cases ht'
  obtain ⟨hroom, _⟩ := Memory.view_rooms.mp hr
  have hwritten := rewritten (x := f.track.ssrc) hlength
  rw [← hrtc _ _ hlength, ← hforwarded] at hwritten
  rw [← hTroom] at hroom hr
  rw [hid] at hregistered
  have hnumbered := hcore.numbered hr
  refine ⟨⟨s, hs, hmem, hid⟩, by rw [htrack], ⟨hne.symm, ?_⟩, ⟨hTroom.symm, hTmeeting.symm⟩,
    ⟨r, hroom, hregistered, fun x hx => hnumbered.once _ _ _ _ hx hregistered⟩, hwritten.1, hwritten.2, ?_⟩
  · intro heq
    rw [heq, ht] at hs
    exact hne (congrArg SessionInfo.uid (Prod.mk.inj (Option.some.inj hs)).1)
  · intro r' hr' hcount S s' media u o hS hSroom ho hother
    cases hroom.symm.trans hr'
    obtain ⟨hotrack, _, _, _, q, _, _, _, hq, hoRegistered⟩ :=
      (System.core_of_running hrunning S.meetingId).bound (Memory.view_sessions.mpr ⟨hS, rfl⟩) ho
    have hq := (Memory.view_rooms.mp hq).1
    rw [hSroom, hroom] at hq
    cases hq
    have hssrc : o.ssrc ≠ f.track.ssrc := by
      intro heq
      rw [heq] at hoRegistered
      obtain ⟨hinstance, hmedia⟩ := hnumbered.unique hcount hoRegistered hregistered
      exact hother.elim (fun hne => hne hinstance) fun hne => hne hmedia
    refine ⟨hssrc, fun heq => hssrc ?_⟩
    rw [hotrack, htrack] at heq
    exact (trackMid_inj (Track.mk.inj heq).2).2

/-- A packet is sent although its publisher leaves between the two locks. -/
theorem isolated_while_leaving : ∃ (σ : System Listing) (f : Sent), f ∈ σ.forwards ∧ f.packet.length = 13 ∧
    Isolated σ.memory f := by
  have hrun : ((play (System.step listing) (fun _ _ => true) (twoOffers ++
      [.packet 0 1 .video (List.replicate 13 1), .choose 0, .request 5 ⟨1, 7, 1, .leave⟩, .post 5, .take 7] ++
      List.replicate 24 (.run 7) ++ [.send 0 true]) {}).any fun σ =>
      σ.forwards.head?.any fun f => decide (f.packet.length = 13)) = true := by
    decide +kernel
  obtain ⟨σ, hplay, hσ⟩ := (Option.any_eq_true _ _).mp hrun
  obtain ⟨f, hf, hlength⟩ := (Option.any_eq_true _ _).mp hσ
  have hmem : f ∈ σ.forwards := List.mem_of_head? hf
  refine ⟨σ, f, hmem, of_decide_eq_true hlength, ?_⟩
  exact packets_isolated (fun _ _ _ => rfl) (reach_play (fun _ _ _ => trivial) hplay) hmem

end SyncRtc.MediaServer
