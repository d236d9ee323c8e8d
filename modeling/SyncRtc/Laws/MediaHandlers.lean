import SyncRtc.Laws.MediaMesh

/-!
# Every handler keeps the mesh

Each program of `LogicSystem` is verified over the view of its meeting: it starts and ends with a complete mesh, and
`Core` holds at each of its sections, where another thread may look. The loops carry what is left of their list: the
bindings still to be made, and the sessions that still have tracks of a member that left.
-/

set_option autoImplicit false

namespace SyncRtc.MediaServer

variable {P : Type} {rtc : Rtc P} {v : Memory P} {k a : Nat}

/-! ## Calls that leave the tracks alone -/

namespace MediaSession

/-- A call that neither adds nor removes an outgoing track. -/
def Keeps (s : MediaSession P) (o : Outcome P) : Prop :=
  o.session.outgoing = s.outgoing ∧ o.session.bindings = s.bindings

variable {s : MediaSession P}

theorem Keeps.andThen {o : Outcome P} {f : MediaSession P → Outcome P} (h : s.Keeps o)
    (hf : ∀ s' : MediaSession P, s'.Keeps (f s')) : s.Keeps (o.andThen f) := by
  unfold Outcome.andThen
  split
  · exact h
  · exact ⟨(hf _).1.trans h.1, (hf _).2.trans h.2⟩

theorem keeps_setLocalDescription (s : MediaSession P) : s.Keeps (s.setLocalDescription rtc) := by
  unfold setLocalDescription
  split <;> exact ⟨rfl, rfl⟩

theorem keeps_setRemoteOffer (s : MediaSession P) (sdp : String) : s.Keeps (s.setRemoteOffer rtc sdp) := by
  unfold setRemoteOffer
  split
  · exact ⟨rfl, rfl⟩
  · refine Keeps.andThen ⟨rfl, rfl⟩ fun s => (s.keeps_setLocalDescription).andThen fun s => ?_
    dsimp only
    split
    · exact keeps_setLocalDescription { s with
        initialAnswerCreated := true, negotiationPending := false, waitingRemoteAnswer := true }
    · exact ⟨rfl, rfl⟩

theorem keeps_setRemoteAnswer (s : MediaSession P) (sdp : String) : s.Keeps (s.setRemoteAnswer rtc sdp) := by
  unfold setRemoteAnswer
  split
  · exact ⟨rfl, rfl⟩
  · next connection types _ =>
    dsimp only
    split
    · exact keeps_setLocalDescription { s with
        connection := connection
        incoming := fun media => s.incoming media || types.contains media.name
        waitingRemoteAnswer := true
        negotiationPending := false }
    · exact ⟨rfl, rfl⟩

theorem keeps_addRemoteCandidate (s : MediaSession P) (candidate mid : String) :
    s.Keeps (s.addRemoteCandidate rtc candidate mid) := by
  unfold addRemoteCandidate
  split <;> exact ⟨rfl, rfl⟩

theorem keeps_requestRenegotiation (s : MediaSession P) : s.Keeps (s.requestRenegotiation rtc) := by
  unfold requestRenegotiation
  split
  · exact ⟨rfl, rfl⟩
  · exact keeps_setLocalDescription { s with waitingRemoteAnswer := true }

/-- Where no track can be added, nothing is. -/
theorem addOutgoingTrack_threw {i : Nat} {u : Int} {j : Nat} {media : Media} {x : UInt32}
    (h : (s.addOutgoingTrack rtc i u j media x).threw = true) : (s.addOutgoingTrack rtc i u j media x).session = s := by
  unfold addOutgoingTrack at h ⊢
  split at h
  · cases h
  · next hold =>
    rw [if_neg hold]
    dsimp only at h ⊢
    split at h
    · rfl
    · cases h

end MediaSession

/-! ## Members come and go -/

/-- The mesh is complete, and the room is there. -/
def Settled (k a : Nat) (v : Memory P) : Prop := Good k v [] noStale ∧ ∃ r, v.rooms a = some r

section

variable {r : MediaRoom} {S : SessionInfo} {pending : List OutgoingTrackBinding}

/-- A member is removed, if it is the expected one: the mesh of the others is complete. -/
theorem wp_removePeer (h : Good k v pending noStale) (ha : v.rooms a = some r) (u : Int) (expected : Nat) :
    (removePeer a u expected).wp (machine rtc (Core k) k) (fun _ v' => Good k v' pending noStale ∧
      ∃ r', v'.rooms a = some r' ∧
        (expected = 0 ∨ (r.sessionOf u).map SessionInfo.instanceId = some expected → r'.sessionOf u = none)) v := by
  have hsome : (v.rooms a).isSome := Option.isSome_iff_exists.mpr ⟨r, ha⟩
  refine wp_onRoom (fun m => rfl) ⟨h.core, hsome⟩ ha ?_ ?_
  · split
    · exact h.core.room ha
    · next hremove => exact (MediaRoom.removePeer_meetingId hremove).trans (h.core.room ha)
  cases hremove : r.removePeer u expected with
  | none =>
    rw [Memory.setRoom_self ha]
    exact ⟨h, r, ha, fun hexpected => absurd hremove (MediaRoom.removePeer_ne_none hexpected)⟩
  | some result =>
    obtain ⟨remaining, r'⟩ := result
    obtain ⟨rfl, rfl⟩ := MediaRoom.removePeer_some hremove
    have hgone : (r.without u).sessionOf u = none := MediaRoom.sessionOf_without u
    let J : List SessionInfo → Memory P → Prop := fun rest v' =>
      Good k v' pending (staleFor u rest) ∧ v'.rooms a = some (r.without u)
    have hstart : J ((r.without u).memberSessions.map Prod.snd) (v.setRoom a (r.without u)) :=
      ⟨h.without ha u, setRoom_rooms.trans (if_pos rfl)⟩
    refine Prog.wp_mono ?_ (Prog.wp_each_rest (J := J) ?_ hstart)
    · rintro _ v' ⟨hgood, hroom⟩
      have hnone : ∀ T w, ¬ staleFor u [] T w := fun _ _ hstale => absurd hstale.2 List.not_mem_nil
      refine ⟨⟨hgood.core, hgood.meshed.complete, fun hc hA hs ho => ?_, hgood.meshed.makeable⟩, _, hroom, fun _ => hgone⟩
      exact .inr ((hgood.meshed.current hc hA hs ho).resolve_left (hnone _ _))
    · rintro T rest v' hsuffix ⟨hgood, hroom⟩
      obtain ⟨w, hw⟩ := MediaRoom.mem_sessions.mp (hsuffix.subset List.mem_cons_self)
      obtain ⟨_, hTroom, t, ht⟩ := hgood.core.sessionOf hroom hw
      refine wp_onSession (fun _ => ()) (fun m => rfl) ⟨hgood.core, Option.isSome_iff_exists.mpr ⟨_, ht⟩⟩ ht ?_
      exact ⟨hgood.dropTracks ht (hTroom ▸ hroom) hgone, hroom⟩

/-- A room is looked at. -/
theorem wp_getPeer {β : Type} {Q : β → Memory P → Prop} {u : Int} {g : Option MediaPeer → Prog sections β}
    (h : Core k v) (ha : v.rooms a = some r) (hg : (g (r.getPeer u)).wp (machine rtc (Core k) k) Q v) :
    ((call (.getPeer a u)).bind g).wp (machine rtc (Core k) k) Q v :=
  wp_lookRoom (fun _ => rfl) ⟨h, Option.isSome_iff_exists.mpr ⟨r, ha⟩⟩ ha (h.room ha) hg

/-- A binding is made, or one of its ends has left. -/
theorem wp_addBinding {b : OutgoingTrackBinding} {bs : List OutgoingTrackBinding} (h : Good k v (b :: bs) noStale)
    (ha : v.rooms a = some r) (hroom : b.session.room = a) :
    (addBinding a b).wp (machine rtc (Core k) k) (fun _ v' => Good k v' bs noStale ∧ ∃ r', v'.rooms a = some r') v := by
  subst hroom
  refine wp_getPeer h.core ha (wp_getPeer h.core ha ?_)
  refine Prog.wp_ite (fun hleft => ?_) fun hpresent => ?_
  · have hleft : r.sessionOf b.session.uid ≠ some b.session ∨
        (r.sessionOf b.publisherUid).map SessionInfo.instanceId ≠ some b.publisherSessionId := hleft
    refine ⟨h.dropBinding ha fun hS T hT hid => ?_, r, ha⟩
    rw [hS, hT, Option.map_some, hid] at hleft
    exact hleft.elim (· rfl) (· rfl)
  · simp only [ne_eq, not_or, not_not] at hpresent
    have hS : r.sessionOf b.session.uid = some b.session := hpresent.1
    have hsource := hpresent.2
    obtain ⟨T, hT, hid⟩ := Option.map_eq_some_iff.mp hsource
    obtain ⟨s, hs⟩ := (h.meshed.makeable b List.mem_cons_self).1
    refine wp_onSession id (fun m => rfl) ⟨h.core, Option.isSome_iff_exists.mpr ⟨_, hs⟩⟩ hs ?_
    cases hthrew : (s.addOutgoingTrack rtc b.session.instanceId b.publisherUid b.publisherSessionId b.media
        b.ssrc).threw with
    | false => exact ⟨h.addTrack ha hS hT hid hs hthrew, r, ha⟩
    | true =>
      rw [MediaSession.addOutgoingTrack_threw hthrew]
      have hkeep : Good k (v.setSession b.session.instanceId b.session s) (b :: bs) noStale := h.keepTracks hs rfl rfl
      refine Prog.wp_mono ?_ (wp_removePeer hkeep ha b.session.uid b.session.instanceId)
      rintro _ v' ⟨hgood, r', hr', hgone⟩
      refine ⟨hgood.dropBinding hr' fun hS' => ?_, r', hr'⟩
      have hnone := hgone (.inr (by rw [hS, Option.map_some]))
      exact absurd (hnone.symm.trans hS') nofun

/-- A session is asked to negotiate, or has left. -/
theorem wp_negotiate (h : Settled k a v) (S : SessionInfo) :
    (negotiate a S).wp (machine rtc (Core k) k) (fun _ => Settled k a) v := by
  obtain ⟨h, r, ha⟩ := h
  refine wp_getPeer h.core ha ?_
  refine Prog.wp_ite (fun _ => ⟨h, r, ha⟩) fun hS => ?_
  obtain ⟨_, _, s, hs⟩ := h.core.sessionOf ha (not_not.mp hS)
  refine wp_onSession id (fun m => rfl) ⟨h.core, Option.isSome_iff_exists.mpr ⟨_, hs⟩⟩ hs ?_
  obtain ⟨hout, hbindings⟩ : s.Keeps (s.requestRenegotiation rtc) := s.keeps_requestRenegotiation
  have hkeep := h.keepTracks hs hout hbindings
  refine Prog.wp_ite (fun _ => ?_) fun _ => ⟨hkeep, r, ha⟩
  refine Prog.wp_mono ?_ (wp_removePeer hkeep ha S.uid S.instanceId)
  rintro _ v' ⟨hgood, r', hr', _⟩
  exact ⟨hgood, r', hr'⟩

/-- A track is registered, and the mesh completed. No lookup in the room fails. -/
theorem wp_registerPublisherTrack (h : Settled k a v) (u : Int) (media : Media) :
    (registerPublisherTrack a u media).wp (machine rtc (Core k) k) (fun threw v' => threw = false ∧ Settled k a v') v := by
  obtain ⟨h, r, ha⟩ := h
  have hsome : (v.rooms a).isSome := Option.isSome_iff_exists.mpr ⟨r, ha⟩
  refine wp_onRoom (fun m => rfl) ⟨h.core, hsome⟩ ha
    ((r.registerPublisherTrack_meetingId u media).trans (h.core.room ha)) ?_
  have hpublisher : ∀ media u x, (r.publishers media).lookup u = some x → (r.sessionOf u).isSome := by
    intro media u x hx
    obtain ⟨S, hS, _⟩ := h.core.publisher ha hx
    exact Option.isSome_iff_exists.mpr ⟨S, hS⟩
  rcases r.registerPublisherTrack_cases hpublisher with heq | ⟨S, tracks, sessions, hS, hnew, heq, hregistered⟩
  · rw [heq, Memory.setRoom_self ha]
    exact ⟨rfl, h, r, ha⟩
  · rw [heq]
    have hroom : ∀ b ∈ tracks, b.session.room = a := by
      intro b hb
      obtain ⟨w, _, hA, _⟩ := hregistered.binds b hb
      exact (h.core.sessionOf ha hA).2.1
    let J : List OutgoingTrackBinding → Memory P → Prop := fun rest v' =>
      Good k v' rest noStale ∧ ∃ r', v'.rooms a = some r'
    have hstart : J tracks (v.setRoom a (r.withTrack S u media)) :=
      ⟨h.withTrack ha hS hnew hregistered, _, setRoom_rooms.trans (if_pos rfl)⟩
    refine Prog.wp_seq (Prog.wp_each_rest (J := J) ?_ hstart) fun _ v₁ h₁ => ?_
    · rintro b rest v' hsuffix ⟨hgood, r', hr'⟩
      exact wp_addBinding hgood hr' (hroom b (hsuffix.subset List.mem_cons_self))
    refine Prog.wp_seq (Prog.wp_each (I := Settled k a) (fun T _ v' h' => wp_negotiate h' T) h₁) fun _ v₂ h₂ => ?_
    exact ⟨rfl, h₂⟩

/-- A session leaves, and with the last one its room. -/
theorem wp_removeSession (h : Settled k a v) (session : Option SessionInfo) :
    (removeSession a session).wp (machine rtc (Core k) k) (fun _ => Settled k a) v := by
  have hcount : ∀ v', Settled k a v' → ((call (.peerCount a)).bind fun (count : Nat) =>
      if count ≠ 0 then pure () else call (.dropRoom a)).wp (machine rtc (Core k) k) (fun _ => Settled k a) v' := by
    rintro v' ⟨h, r, ha⟩
    refine wp_lookRoom (fun m => rfl) ⟨h.core, Option.isSome_iff_exists.mpr ⟨r, ha⟩⟩ ha
      (h.core.room ha) ?_
    refine Prog.wp_ite (fun _ => ⟨h, r, ha⟩) fun _ => ?_
    exact wp_dropRoom h.core ha ⟨h, r, ha⟩ fun _ => ⟨h.dropRoom, r, ha⟩
  cases session with
  | none => exact hcount v h
  | some S =>
    obtain ⟨h, r, ha⟩ := h
    refine Prog.wp_seq (wp_removePeer h ha S.uid S.instanceId) fun _ v' h' => ?_
    obtain ⟨hgood, r', hr', _⟩ := h'
    exact hcount v' ⟨hgood, r', hr'⟩

/-! ## The handlers -/

/-- The rule for a handler that looks for its room. -/
theorem wp_inRoom {β : Type} {Q : β → Memory P → Prop} {g : Option Nat → Prog sections β} (h : Good k v [] noStale)
    (hnone : (g none).wp (machine rtc (Core k) k) Q v)
    (hsome : ∀ a, Settled k a v → (g (some a)).wp (machine rtc (Core k) k) Q v) :
    ((call (.findRoom k)).bind g).wp (machine rtc (Core k) k) Q v := by
  refine wp_findRoom h.core ?_
  cases hm : v.meetings k with
  | none => exact hnone
  | some a => exact hsome a ⟨h, h.core.listed hm⟩

/-- The rule for a handler that looks for a member. Whoever is a member has a session. -/
theorem wp_getMember {β : Type} {Q : β → Memory P → Prop} {r : MediaRoom} {u : Int}
    {g : Option MediaPeer → Prog sections β} (h : Core k v) (ha : v.rooms a = some r)
    (hnone : r.sessionOf u = none → (g none).wp (machine rtc (Core k) k) Q v)
    (hsome : ∀ w S s, r.sessionOf u = some S → v.sessions S.instanceId = some (S, s) →
      (g (some ⟨w, some S⟩)).wp (machine rtc (Core k) k) Q v) :
    ((call (.getPeer a u)).bind g).wp (machine rtc (Core k) k) Q v := by
  refine wp_getPeer h ha ?_
  cases hpeer : r.getPeer u with
  | none => exact hnone (by rw [MediaRoom.sessionOf, hpeer, Option.bind_none])
  | some peer =>
    obtain ⟨w, session⟩ := peer
    obtain ⟨S, s, hS, _, _, hs⟩ := h.member ha hpeer
    obtain rfl : session = some S := hS
    exact hsome w S s (by rw [MediaRoom.sessionOf, hpeer, Option.bind_some]) hs

theorem wp_handlePublisherTrackReady (h : Good k v [] noStale) (u : Int) (i : Nat) (media : Media) :
    (handlePublisherTrackReady k u i media).wp (machine rtc (Core k) k) (fun _ v' => Good k v' [] noStale) v := by
  refine wp_inRoom h h fun a ⟨_, r, ha⟩ => wp_getMember h.core ha (fun _ => h) fun w S s _ hs => ?_
  refine Prog.wp_ite (fun _ => h) fun _ => wp_isStopped h.core fun stopped => ?_
  refine Prog.wp_ite (fun _ => h) fun _ => ?_
  refine Prog.wp_seq (wp_registerPublisherTrack ⟨h, r, ha⟩ u media) fun threw v' h' => ?_
  refine Prog.wp_ite (fun _ => h'.2.1) fun _ => ?_
  exact Prog.wp_mono (fun _ _ h => h.1) (wp_removeSession h'.2 none)

theorem wp_handleLocalMediaSignal {response : MediaSignalResponse} (h : Good response.meetingId v [] noStale)
    (session i : Nat) : (handleLocalMediaSignal session i response).wp
      (machine rtc (Core response.meetingId) response.meetingId)
      (fun _ v' => Good response.meetingId v' [] noStale) v := by
  refine wp_inRoom h h fun a ⟨_, r, ha⟩ => wp_getMember h.core ha (fun _ => h) fun w S s _ hs => ?_
  refine Prog.wp_ite (fun _ => h) fun _ => wp_isStopped h.core fun stopped => ?_
  exact Prog.wp_ite (fun _ => h) fun _ => wp_send h.core h

/-- A call that leaves the tracks alone, and what follows when it throws. -/
theorem wp_orRemove {S : SessionInfo} {s : MediaSession P} {c : Prog sections Bool} {f : MediaSession P → Outcome P}
    (h : Settled k a v) (hs : v.sessions S.instanceId = some (S, s)) (hkeeps : s.Keeps (f s))
    (hc : Settled k a (v.setSession S.instanceId S (f s).session) →
      c.wp (machine rtc (Core k) k) (fun _ => Settled k a) v) :
    (orRemove a S c).wp (machine rtc (Core k) k) (fun _ v' => Good k v' [] noStale) v := by
  refine Prog.wp_seq (hc ⟨h.1.keepTracks hs hkeeps.1 hkeeps.2, h.2⟩) fun threw v' h' => ?_
  refine Prog.wp_ite (fun _ => ?_) fun _ => h'.1
  exact Prog.wp_mono (fun _ _ h => h.1) (wp_removeSession h' (some S))

theorem wp_setRemoteOffer {S : SessionInfo} {s : MediaSession P} (h : Settled k a v)
    (hs : v.sessions S.instanceId = some (S, s)) (sdp : String) : (orRemove a S (call (.setRemoteOffer S sdp))).wp
      (machine rtc (Core k) k) (fun _ v' => Good k v' [] noStale) v :=
  wp_orRemove (f := fun s => s.setRemoteOffer rtc sdp) h hs (s.keeps_setRemoteOffer sdp) fun hkeep =>
    wp_onSession id (fun _ => rfl) ⟨h.1.core, Option.isSome_iff_exists.mpr ⟨_, hs⟩⟩ hs hkeep

theorem wp_setRemoteAnswer {S : SessionInfo} {s : MediaSession P} (h : Settled k a v)
    (hs : v.sessions S.instanceId = some (S, s)) (sdp : String) : (orRemove a S (call (.setRemoteAnswer S sdp))).wp
      (machine rtc (Core k) k) (fun _ v' => Good k v' [] noStale) v :=
  wp_orRemove (f := fun s => s.setRemoteAnswer rtc sdp) h hs (s.keeps_setRemoteAnswer sdp) fun hkeep =>
    wp_onSession id (fun _ => rfl) ⟨h.1.core, Option.isSome_iff_exists.mpr ⟨_, hs⟩⟩ hs hkeep

theorem wp_addRemoteCandidate {S : SessionInfo} {s : MediaSession P} (h : Settled k a v)
    (hs : v.sessions S.instanceId = some (S, s)) (candidate mid : String) :
    (orRemove a S (call (.addRemoteCandidate S candidate mid))).wp
      (machine rtc (Core k) k) (fun _ v' => Good k v' [] noStale) v :=
  wp_orRemove (f := fun s => s.addRemoteCandidate rtc candidate mid) h hs (s.keeps_addRemoteCandidate candidate mid) fun hkeep =>
    wp_onSession id (fun _ => rfl) ⟨h.1.core, Option.isSome_iff_exists.mpr ⟨_, hs⟩⟩ hs hkeep

section

variable {request : MediaSignalRequest}

theorem wp_forSession {session : Nat} {body : Nat → SessionInfo → Handler} (h : Good request.meetingId v [] noStale)
    (hbody : ∀ a S s, Settled request.meetingId a v → v.sessions S.instanceId = some (S, s) →
      (body a S).wp (machine rtc (Core request.meetingId) request.meetingId)
        (fun _ v' => Good request.meetingId v' [] noStale) v) :
    (forSession session request body).wp (machine rtc (Core request.meetingId) request.meetingId)
      (fun _ v' => Good request.meetingId v' [] noStale) v := by
  refine wp_inRoom h h fun a ⟨_, r, ha⟩ => wp_getMember h.core ha (fun _ => h) fun w S s _ hs => ?_
  exact Prog.wp_ite (fun _ => h) fun _ => hbody a S s ⟨h, r, ha⟩ hs

/-- What is left of `HandleOffer` once the room is there. -/
def offerIn (session : Nat) (request : MediaSignalRequest) (sdp : String) (room : Nat) : Handler := do
  let existing ← existingSession room session request
  match existing with
  | some existing => orRemove room existing (call (.setRemoteOffer existing sdp))
  | none =>
    let created : Option SessionInfo ← call (.createSession room request session)
    match created with
    | none => removeSession room none
    | some created =>
      call (.addPeer room ⟨request.uid, some created⟩)
      orRemove room created (call (.setRemoteOffer created sdp))

/-- An offer goes to the session there is, or to a new one in the place of another. -/
theorem wp_handleOffer (h : Good request.meetingId v [] noStale) (session : Nat) (sdp : String) :
    (handleOffer session request sdp).wp (machine rtc (Core request.meetingId) request.meetingId)
      (fun _ v' => Good request.meetingId v' [] noStale) v := by
  have hexisting : ∀ a v, Settled request.meetingId a v → (existingSession a session request).wp
      (machine rtc (Core request.meetingId) request.meetingId) (fun existing v' =>
        Good request.meetingId v' [] noStale ∧
          ∃ r', v'.rooms a = some r' ∧ r'.sessionOf request.uid = existing) v := by
    rintro a v ⟨h, r, ha⟩
    refine wp_getMember h.core ha (fun hS => ⟨h, r, ha, hS⟩) fun w S s hS _ => ?_
    refine Prog.wp_ite (fun _ => ?_) fun _ => ⟨h, r, ha, hS⟩
    refine Prog.wp_seq (wp_removePeer h ha request.uid 0) fun _ v' h' => ?_
    obtain ⟨hgood, r', hr', hgone⟩ := h'
    exact ⟨hgood, r', hr', hgone (.inl rfl)⟩
  have hrest : ∀ a v, Settled request.meetingId a v → (offerIn session request sdp a).wp
      (machine rtc (Core request.meetingId) request.meetingId)
        (fun _ v' => Good request.meetingId v' [] noStale) v := by
    intro a v ha
    refine Prog.wp_seq (hexisting a v ha) fun existing v h' => ?_
    obtain ⟨h, r, ha, hS⟩ := h'
    cases existing with
    | some S =>
      obtain ⟨_, _, s, hs⟩ := h.core.sessionOf ha hS
      exact wp_setRemoteOffer ⟨h, r, ha⟩ hs sdp
    | none =>
      have hsome : (v.rooms a).isSome := Option.isSome_iff_exists.mpr ⟨r, ha⟩
      have hmeeting := h.core.room ha
      refine wp_createSession h.core rfl hsome ?_ fun i connection hfree hpos => ?_
      · exact Prog.wp_mono (fun _ _ h => h.1) (wp_removeSession ⟨h, r, ha⟩ none)
      let S : SessionInfo := ⟨i, request.meetingId, request.uid, request.signalId, session, a⟩
      have hadded : Good request.meetingId (v.setSession i S { connection := connection }) [] noStale :=
        h.addSession hfree rfl hpos rfl ⟨r, ha⟩
      have hi : (v.setSession i S { connection := connection }).sessions i =
          some (S, { connection := connection }) := setSession_sessions.trans (if_pos rfl)
      have hnew : ∀ media x, (S.instanceId, media, x) ∉ r.registered := by
        intro media x hx
        obtain ⟨T, t, ht, _⟩ := h.core.registered ha hx
        exact absurd (hfree.symm.trans ht) (by simp)
      refine wp_onRoom (fun m => rfl) ⟨hadded.core, hsome⟩ ha hmeeting ?_
      have hjoined : Good request.meetingId ((v.setSession i S { connection := connection }).setRoom a
          (r.addPeer ⟨request.uid, some S⟩)) [] noStale := hadded.addPeer ha hS hi rfl rfl (fun _ _ => rfl) hnew
      have hstored : ((v.setSession i S { connection := connection }).setRoom a
          (r.addPeer ⟨request.uid, some S⟩)).sessions S.instanceId = some (S, { connection := connection }) := hi
      exact wp_setRemoteOffer ⟨hjoined, _, setRoom_rooms.trans (if_pos rfl)⟩ hstored sdp
  refine wp_findOrAddRoom h.core (fun a hm => hrest a v ⟨h, h.core.listed hm⟩) fun a _ hfree => hrest a _ ?_
  exact ⟨h.addRoom hfree, _, setRoom_rooms.trans (if_pos rfl)⟩

theorem wp_handleSignal (h : Good request.meetingId v [] noStale) (session : Nat) :
    (handleSignal session request).wp (machine rtc (Core request.meetingId) request.meetingId)
      (fun _ v' => Good request.meetingId v' [] noStale) v := by
  refine wp_isStopped h.core fun stopped => Prog.wp_ite (fun _ => h) fun _ => ?_
  cases request.signal with
  | offer sdp => exact wp_handleOffer h session sdp
  | answer sdp => exact wp_forSession h fun a S s ha hs => wp_setRemoteAnswer ha hs sdp
  | candidate candidate mid => exact wp_forSession h fun a S s ha hs => wp_addRemoteCandidate ha hs candidate mid
  | leave => exact wp_forSession h fun a S s ha _ => Prog.wp_mono (fun _ _ h => h.1) (wp_removeSession ha (some S))

end

theorem wp_handleSignalDisconnected (h : Good k v [] noStale) (session : Nat) :
    (handleSignalDisconnected k session).wp (machine rtc (Core k) k) (fun _ v' => Good k v' [] noStale) v := by
  refine wp_isStopped h.core fun stopped => Prog.wp_ite (fun _ => h) fun _ => wp_inRoom h h fun a ha => ?_
  obtain ⟨_, r, hr⟩ := ha
  refine wp_lookRoom (fun m => rfl) ⟨h.core, Option.isSome_iff_exists.mpr ⟨r, hr⟩⟩ hr (h.core.room hr) ?_
  refine Prog.wp_seq (Prog.wp_each (I := Settled k a) (fun S _ v' h' => wp_removeSession h' (some S)) ⟨h, r, hr⟩)
    fun _ v' h' => ?_
  exact Prog.wp_mono (fun _ _ h => h.1) (wp_removeSession h' none)

/-- Every handler keeps the mesh. -/
theorem handled (rtc : Rtc P) : System.Handled rtc (fun k v => Core k v) fun k v => Good k v [] noStale := by
  intro e v h
  cases e with
  | signal session request => exact wp_handleSignal h session
  | trackReady meetingId u i media => exact wp_handlePublisherTrackReady h u i media
  | localSignal session i response => exact wp_handleLocalMediaSignal h session i
  | disconnected meetingId session => exact wp_handleSignalDisconnected h session

/-- In an empty server there is nothing to connect. -/
theorem good_empty (k : Nat) : Good k ({} : Memory P) [] noStale where
  core := by
    constructor <;> intros <;> contradiction
  meshed := by
    constructor <;> intros <;> contradiction

/-! ## The mesh -/

variable {σ : System P} {r : MediaRoom}

/-- A complete and current mesh. -/
structure Mesh (m : Memory P) (r : MediaRoom) : Prop where
  /-- Every member that publishes both media has both tracks of every other one that does. -/
  complete : ∀ u u' A B, r.sessionOf u = some A → r.sessionOf u' = some B → u ≠ u' → r.Full u → r.Full u' →
    ∃ s, m.sessions A.instanceId = some (A, s) ∧ ∀ media, ∃ o, s.outgoing media u' = some o ∧
      o.publisherSessionId = B.instanceId ∧ (r.publishers media).lookup u' = some o.ssrc
  /-- Every outgoing track of a member is for the current instance of a member. -/
  current : ∀ u A, r.sessionOf u = some A → ∃ s, m.sessions A.instanceId = some (A, s) ∧
    ∀ media u' o, s.outgoing media u' = some o → ∃ B, r.sessionOf u' = some B ∧ B.instanceId = o.publisherSessionId
  distinct : r.registered.length < 2 ^ 32 - 100000 → ∀ media media' u u' x,
    (r.publishers media).lookup u = some x → (r.publishers media').lookup u' = some x → media = media' ∧ u = u'
  /-- A publisher is a member with a session, so that no lookup fails. -/
  publisher : ∀ media u x, (r.publishers media).lookup u = some x → (r.sessionOf u).isSome
  found : ∀ media u, (r.registerPublisherTrack u media).1 ≠ none

theorem running_core (h : σ.Reachable rtc) : σ.Running rtc (fun k v => Core k v) fun k v => Good k v [] noStale :=
  System.running_of_reachable (handled rtc) good_empty h

/-- Between two events of its worker a room is a complete mesh, whatever has come, left or failed before. -/
theorem mesh_of_reachable (h : σ.Reachable rtc) (hr : σ.memory.rooms a = some r)
    (hidle : σ.workers r.meetingId = .pure ()) : Mesh σ.memory r := by
  have hgood := (running_core h).idle hidle
  have ha : (σ.memory.view r.meetingId).rooms a = some r := Memory.view_rooms.mpr ⟨hr, rfl⟩
  have hstored : ∀ {u A}, r.sessionOf u = some A → ∃ s, σ.memory.sessions A.instanceId = some (A, s) ∧
      (σ.memory.view r.meetingId).sessions A.instanceId = some (A, s) := by
    intro u A hA
    obtain ⟨_, _, s, hs⟩ := hgood.core.sessionOf ha hA
    exact ⟨s, (Memory.view_sessions.mp hs).1, hs⟩
  refine ⟨?_, ?_, ?_, ?_, ?_⟩
  · intro u u' A B hA hB hne hfull hfull'
    obtain ⟨s, hs, hview⟩ := hstored hA
    refine ⟨s, hs, fun media => ?_⟩
    obtain ⟨x, hx⟩ := Option.isSome_iff_exists.mp (hfull' media)
    obtain ⟨s', o, hs', ho, hid, hssrc⟩ :=
      (hgood.meshed.complete ha hA hB hne hfull hfull' hx).resolve_left List.not_mem_nil
    cases hview.symm.trans hs'
    exact ⟨o, ho, hid, hssrc ▸ hx⟩
  · intro u A hA
    obtain ⟨s, hs, hview⟩ := hstored hA
    exact ⟨s, hs, fun media u' o ho => (hgood.meshed.current ha hA hview ho).resolve_left id⟩
  · intro hlength media media' u u' x hx hx'
    obtain ⟨S, hS, hmem⟩ := hgood.core.publisher ha hx
    obtain ⟨S', hS', hmem'⟩ := hgood.core.publisher ha hx'
    obtain ⟨hinstance, hmedia⟩ := (hgood.core.numbered ha).unique (by omega) hmem hmem'
    obtain ⟨hu, _, s, hs⟩ := hgood.core.sessionOf ha hS
    obtain ⟨hu', _, s', hs'⟩ := hgood.core.sessionOf ha hS'
    rw [← hinstance, hs] at hs'
    cases hs'
    exact ⟨hmedia, hu.symm.trans hu'⟩
  · intro media u x hx
    obtain ⟨S, hS, _⟩ := hgood.core.publisher ha hx
    exact Option.isSome_iff_exists.mpr ⟨S, hS⟩
  · intro media u
    have hpublisher : ∀ media u x, (r.publishers media).lookup u = some x → (r.sessionOf u).isSome := by
      intro media u x hx
      obtain ⟨S, hS, _⟩ := hgood.core.publisher ha hx
      exact Option.isSome_iff_exists.mpr ⟨S, hS⟩
    rcases r.registerPublisherTrack_cases hpublisher with heq | ⟨_, _, _, _, _, heq, _⟩ <;>
    · rw [heq]
      exact nofun

end

/-! ## Connections that list their tracks -/

/-- A number in network order. -/
def networkBytes (x : UInt32) : Net.Bytes :=
  [(x >>> 24).toUInt8, (x >>> 16).toUInt8, (x >>> 8).toUInt8, x.toUInt8]

structure Listing where
  state : SignalingState
  tracks : List String

/-- A library whose connections take any tracks, from a client that sends both media. -/
def listing : Rtc Listing where
  create _ := some ⟨.stable, []⟩
  signalingState p := p.state
  tracks p := p.tracks
  mids _ := []
  setRemoteDescription p type _ :=
    match p.state, type with
    | .stable, .offer => some ({ p with state := .haveRemoteOffer }, ["video", "audio"])
    | .haveLocalOffer, .answer => some ({ p with state := .stable }, [])
    | _, _ => none
  setLocalDescription p :=
    match p.state with
    | .stable => some ({ p with state := .haveLocalOffer }, ⟨.offer, ""⟩)
    | .haveRemoteOffer => some ({ p with state := .stable }, ⟨.answer, ""⟩)
    | .haveLocalOffer => none
  addTrack p _ mid _ := some { p with tracks := mid :: p.tracks }
  addRemoteCandidate p _ _ := some p
  setSsrc packet x := packet.take 8 ++ networkBytes x ++ packet.drop 12

/-- Two users offer, and a worker handles all that follows. -/
def twoOffers : List ServerEvent :=
  [.request 5 ⟨1, 7, 1, .offer ""⟩, .post 5, .request 5 ⟨2, 7, 2, .offer ""⟩, .post 5] ++
    (List.replicate 6 (.take 7 :: List.replicate 24 (.run 7))).flatten

/-- No handler is on its way. -/
def isIdle : Handler → Bool
  | .pure _ => true
  | .call _ _ => false

theorem idle_of_isIdle {p : Handler} (h : isIdle p = true) : p = .pure () := by
  cases p with
  | pure _ => rfl
  | call _ _ => cases h

/-- Two members publish both media to each other. -/
theorem mesh_of_two : ∃ (σ : System Listing) (r : MediaRoom), σ.memory.rooms 0 = some r ∧ r.Full 1 ∧ r.Full 2 ∧
    Mesh σ.memory r := by
  have hrun : ((play (System.step listing) (fun _ _ => true) twoOffers {}).any fun σ =>
      (σ.memory.rooms 0).any fun r => isIdle (σ.workers r.meetingId) &&
        [1, 2].all fun u => [Media.video, .audio].all fun media => ((r.publishers media).lookup u).isSome) = true := by
    decide +kernel
  obtain ⟨σ, hplay, hσ⟩ := (Option.any_eq_true _ _).mp hrun
  obtain ⟨r, hr, hchecked⟩ := (Option.any_eq_true _ _).mp hσ
  obtain ⟨hidle, hpublishes⟩ := Bool.and_eq_true_iff.mp hchecked
  have hfull : ∀ u ∈ [1, 2], r.Full u := by
    intro u hu media
    refine List.all_eq_true.mp (List.all_eq_true.mp hpublishes u hu) media ?_
    cases media <;> decide
  refine ⟨σ, r, hr, hfull 1 (by decide), hfull 2 (by decide), ?_⟩
  exact mesh_of_reachable (reach_play (fun _ _ _ => trivial) hplay) hr (idle_of_isIdle hidle)

end SyncRtc.MediaServer
