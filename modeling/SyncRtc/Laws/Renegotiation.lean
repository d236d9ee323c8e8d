import SyncRtc.MediaServer.MediaSession

/-!
# Renegotiation

The flags of a session follow the signalling state of its connection: it waits for an answer exactly when the
connection has a local offer, and it remembers a request only while it cannot make an offer. The log of a session
says which request came before which offer; `Ordered` keeps what every later claim about requests and tracks is
read off.
-/

set_option autoImplicit false

namespace SyncRtc.MediaServer

variable {P : Type} {rtc : Rtc P}

/-- What the code relies on of libdatachannel. A call in a wrong state throws. -/
structure Rtc.Signals (rtc : Rtc P) : Prop where
  create : ∀ {i p}, rtc.create i = some p → rtc.signalingState p = .stable ∧ rtc.tracks p = []
  /-- In the stable state an offer is made, of all tracks. -/
  offer : ∀ {p p' d}, rtc.signalingState p = .stable → rtc.setLocalDescription p = some (p', d) →
    d.type = .offer ∧ rtc.signalingState p' = .haveLocalOffer ∧ rtc.tracks p' = rtc.tracks p ∧
      ∀ mid ∈ rtc.tracks p, mid ∈ rtc.mids d.sdp
  /-- After a remote offer an answer is made. -/
  answer : ∀ {p p' d}, rtc.signalingState p = .haveRemoteOffer → rtc.setLocalDescription p = some (p', d) →
    d.type = .answer ∧ rtc.signalingState p' = .stable ∧ rtc.tracks p' = rtc.tracks p
  noOffer : ∀ {p}, rtc.signalingState p = .haveLocalOffer → rtc.setLocalDescription p = none
  remoteOffer : ∀ {p p' sdp types}, rtc.setRemoteDescription p .offer sdp = some (p', types) →
    rtc.signalingState p = .stable ∧ rtc.signalingState p' = .haveRemoteOffer ∧ rtc.tracks p' = rtc.tracks p
  remoteAnswer : ∀ {p p' sdp types}, rtc.setRemoteDescription p .answer sdp = some (p', types) →
    rtc.signalingState p = .haveLocalOffer ∧ rtc.signalingState p' = .stable ∧ rtc.tracks p' = rtc.tracks p
  addTrack : ∀ {p p' media mid ssrc}, rtc.addTrack p media mid ssrc = some p' →
    rtc.signalingState p' = rtc.signalingState p ∧ ∀ t, t ∈ rtc.tracks p' ↔ t = mid ∨ t ∈ rtc.tracks p
  candidate : ∀ {p p' candidate mid}, rtc.addRemoteCandidate p candidate mid = some p' →
    rtc.signalingState p' = rtc.signalingState p ∧ rtc.tracks p' = rtc.tracks p

def Happening.isOffer : Happening → Bool
  | .offer _ => true
  | _ => false

namespace Negotiation

variable {n n' : Negotiation P}

/-- The offers that have been made, and those that have been answered. -/
def offers (n : Negotiation P) : Nat := n.log.countP Happening.isOffer

def answers (n : Negotiation P) : Nat := n.log.count .answered

/-- How the flags of a session and its log stand to its connection. -/
structure Settled (rtc : Rtc P) (s : MediaSession P) (log : List Happening) : Prop where
  fresh : s.initialAnswerCreated = false → s.waitingRemoteAnswer = false
  waiting : s.waitingRemoteAnswer = true → rtc.signalingState s.connection = .haveLocalOffer
  stable : s.waitingRemoteAnswer = false → rtc.signalingState s.connection = .stable
  answer : s.initialAnswerCreated = true → .answer ∈ log
  count : log.countP Happening.isOffer = log.count .answered + if s.waitingRemoteAnswer then 1 else 0

/-- What came before what. The log has the latest first. -/
structure Ordered (rtc : Rtc P) (s : MediaSession P) (log : List Happening) : Prop where
  afterAnswer : ∀ newer sdp older, log = newer ++ .offer sdp :: older → .answer ∈ older
  added : ∀ mid, .track mid ∈ log → mid ∈ rtc.tracks s.connection
  complete : ∀ newer sdp older, log = newer ++ .offer sdp :: older → ∀ mid, .track mid ∈ older → mid ∈ rtc.mids sdp
  closed : s.waitingRemoteAnswer = false → ∀ newer sdp older, log = newer ++ .offer sdp :: older → .answered ∈ newer

/-- No request is forgotten, and a request is remembered only while no offer can be made. -/
structure Remembered (s : MediaSession P) (log : List Happening) : Prop where
  covered : ∀ newer older, log = newer ++ .request :: older →
    (∃ sdp, .offer sdp ∈ newer) ∨ s.negotiationPending = true
  pending : s.negotiationPending = true → s.initialAnswerCreated = false ∨ s.waitingRemoteAnswer = true

/-- A place in a log behind its latest entry. -/
theorem cons_split {x y : Happening} {log newer older : List Happening} (hne : x ≠ y)
    (h : x :: log = newer ++ y :: older) : ∃ rest, newer = x :: rest ∧ log = rest ++ y :: older := by
  cases newer with
  | nil =>
    cases h
    exact absurd rfl hne
  | cons z rest =>
    cases h
    exact ⟨rest, rfl, rfl⟩

variable {s s' : MediaSession P} {log : List Happening}

/-- An entry that is no offer, with the connection it leaves. -/
theorem Ordered.cons (h : Ordered rtc s log) {x : Happening} (hx : ∀ sdp, x ≠ .offer sdp)
    (hadded : ∀ mid, .track mid ∈ x :: log → mid ∈ rtc.tracks s'.connection)
    (hclosed : x ≠ .answered → s'.waitingRemoteAnswer = s.waitingRemoteAnswer) : Ordered rtc s' (x :: log) where
  afterAnswer newer sdp older heq := by
    obtain ⟨rest, _, hlog⟩ := cons_split (hx sdp) heq
    exact h.afterAnswer rest sdp older hlog
  added := hadded
  complete newer sdp older heq := by
    obtain ⟨rest, _, hlog⟩ := cons_split (hx sdp) heq
    exact h.complete rest sdp older hlog
  closed hwaiting newer sdp older heq := by
    obtain ⟨rest, rfl, hlog⟩ := cons_split (hx sdp) heq
    by_cases hanswered : x = .answered
    · rw [hanswered]
      exact List.mem_cons_self
    · rw [hclosed hanswered] at hwaiting
      exact List.mem_cons_of_mem _ (h.closed hwaiting rest sdp older hlog)

/-- Another connection with the same tracks. -/
theorem Ordered.connect (h : Ordered rtc s log) (htracks : ∀ mid ∈ rtc.tracks s.connection, mid ∈ rtc.tracks s'.connection)
    (hwaiting : s'.waitingRemoteAnswer = s.waitingRemoteAnswer) : Ordered rtc s' log :=
  { h with
    added := fun mid hmid => htracks mid (h.added mid hmid)
    closed := fun hw => h.closed (hwaiting ▸ hw) }

/-- An entry that is no request. -/
theorem Remembered.covered_cons (h : Remembered s log) {x : Happening} (hx : x ≠ .request)
    (hpending : s'.negotiationPending = s.negotiationPending) {newer older : List Happening}
    (heq : x :: log = newer ++ .request :: older) :
    (∃ sdp, .offer sdp ∈ newer) ∨ s'.negotiationPending = true := by
  obtain ⟨rest, rfl, hlog⟩ := cons_split hx heq
  rw [hpending]
  exact (h.covered rest older hlog).imp (fun ⟨sdp, hsdp⟩ => ⟨sdp, List.mem_cons_of_mem _ hsdp⟩) id

/-- A session that is stable after its initial answer makes an offer. It covers every request so far. -/
theorem offer_made (hrtc : rtc.Signals) (hset : Settled rtc s log) (hord : Ordered rtc s log)
    (hinitial : s.initialAnswerCreated = true) (hwaiting : s.waitingRemoteAnswer = false) {connection : P}
    {description : Description} (hlocal : rtc.setLocalDescription s.connection = some (connection, description)) :
    ∃ sdp, description = ⟨.offer, sdp⟩ ∧
      let s' := { s with connection := connection, negotiationPending := false, waitingRemoteAnswer := true }
      Settled rtc s' (.offer sdp :: log) ∧ Ordered rtc s' (.offer sdp :: log) ∧ Remembered s' (.offer sdp :: log) := by
  obtain ⟨htype, hstate, htracks, hmids⟩ := hrtc.offer (hset.stable hwaiting) hlocal
  obtain ⟨type, sdp⟩ := description
  obtain rfl : type = .offer := htype
  refine ⟨sdp, rfl, ⟨?_, ?_, ?_, ?_, ?_⟩, ⟨?_, ?_, ?_, ?_⟩, ⟨?_, ?_⟩⟩
  · intro hfresh
    exact absurd (hinitial.symm.trans hfresh) nofun
  · exact fun _ => hstate
  · exact nofun
  · exact fun _ => List.mem_cons_of_mem _ (hset.answer hinitial)
  · have hcount := hset.count
    simp only [hwaiting, Bool.false_eq_true, if_false, Nat.add_zero] at hcount
    have hne : Happening.offer sdp ≠ .answered := nofun
    rw [List.countP_cons_of_pos rfl, List.count_cons_of_ne hne, hcount]
    rfl
  · intro newer sdp' older heq
    cases newer with
    | nil =>
      cases heq
      exact hset.answer hinitial
    | cons x rest =>
      cases heq
      exact hord.afterAnswer rest sdp' older rfl
  · intro mid hmid
    have hold := hord.added mid ((List.mem_cons.mp hmid).resolve_left nofun)
    simp only [htracks]
    exact hold
  · intro newer sdp' older heq mid hmid
    cases newer with
    | nil =>
      cases heq
      exact hmids mid (hord.added mid hmid)
    | cons x rest =>
      cases heq
      exact hord.complete rest sdp' older rfl mid hmid
  · exact nofun
  · intro newer older heq
    have hne : Happening.offer sdp ≠ .request := nofun
    obtain ⟨rest, rfl, _⟩ := cons_split hne heq
    exact .inl ⟨sdp, List.mem_cons_self⟩
  · exact nofun

/-- What holds of a session that has not been removed. -/
structure Kept (rtc : Rtc P) (s : MediaSession P) (log : List Happening) : Prop where
  settled : Settled rtc s log
  ordered : Ordered rtc s log
  remembered : Remembered s log

/-- What a call that has not thrown keeps. -/
def KeptBy (rtc : Rtc P) (o : Outcome P) (called log : List Happening) : Prop :=
  o.threw = false → Kept rtc o.session ((o.notices.filterMap Notice.happening).reverse ++ called ++ log)

/-- The stable session makes its next offer. -/
theorem setLocalDescription_keeps (hrtc : rtc.Signals) (called : List Happening) (hset : Settled rtc s (called ++ log))
    (hord : Ordered rtc s (called ++ log)) (hinitial : s.initialAnswerCreated = true)
    (hwaiting : s.waitingRemoteAnswer = false) :
    KeptBy rtc ({ s with negotiationPending := false, waitingRemoteAnswer := true }.setLocalDescription rtc) called
      log := by
  unfold KeptBy MediaSession.setLocalDescription
  dsimp only
  cases hlocal : rtc.setLocalDescription s.connection with
  | none => exact nofun
  | some r =>
    obtain ⟨connection, description⟩ := r
    obtain ⟨sdp, rfl, hmade⟩ := offer_made hrtc hset hord hinitial hwaiting hlocal
    exact fun _ => ⟨hmade.1, hmade.2.1, hmade.2.2⟩

theorem setLocalDescription_offers (hrtc : rtc.Signals) (hstable : rtc.signalingState s.connection = .stable)
    (h : (s.setLocalDescription rtc).threw = false) :
    ∃ sdp, (s.setLocalDescription rtc).notices = [.localDescription ⟨.offer, sdp⟩] := by
  unfold MediaSession.setLocalDescription at h ⊢
  cases hlocal : rtc.setLocalDescription s.connection with
  | none =>
    rw [hlocal] at h
    cases h
  | some r =>
    obtain ⟨connection, type, sdp⟩ := r
    obtain rfl : type = .offer := (hrtc.offer hstable hlocal).1
    exact ⟨sdp, rfl⟩

theorem requestRenegotiation_keeps (hrtc : rtc.Signals) (h : Kept rtc s log) :
    KeptBy rtc (s.requestRenegotiation rtc) [.request] log := by
  have hlog : (Happening.request :: log).countP Happening.isOffer = log.countP Happening.isOffer := by
    rw [List.countP_cons_of_neg Bool.false_ne_true]
  have hcount : (Happening.request :: log).count .answered = log.count .answered := by
    have hne : Happening.request ≠ .answered := nofun
    rw [List.count_cons_of_ne hne]
  have hord : Ordered rtc s (.request :: log) :=
    h.ordered.cons nofun (fun mid hmid => h.ordered.added mid ((List.mem_cons.mp hmid).resolve_left nofun)) fun _ => rfl
  have hset : Settled rtc s (.request :: log) :=
    { h.settled with
      answer := fun hi => List.mem_cons_of_mem _ (h.settled.answer hi)
      count := by rw [hlog, hcount]; exact h.settled.count }
  unfold MediaSession.requestRenegotiation
  split
  · next hbusy =>
    refine fun _ => ⟨{ hset with }, hord.connect (fun _ hmid => hmid) rfl, fun _ _ _ => .inr rfl, fun _ => ?_⟩
    simpa only [Bool.or_eq_true, Bool.not_eq_true'] using hbusy
  · next hfree =>
    simp only [Bool.or_eq_true, Bool.not_eq_true', not_or, Bool.not_eq_false, Bool.not_eq_true] at hfree
    obtain ⟨hinitial, hwaiting⟩ := hfree
    have hpending : s.negotiationPending = false := by
      by_contra hp
      rcases h.remembered.pending (Bool.not_eq_false _ ▸ hp) with hi | hw
      · exact absurd (hinitial.symm.trans hi) nofun
      · exact absurd (hw.symm.trans hwaiting) nofun
    have hsame : { s with waitingRemoteAnswer := true } =
        { s with negotiationPending := false, waitingRemoteAnswer := true } := by
      rw [← hpending]
    rw [hsame]
    exact setLocalDescription_keeps hrtc [.request] hset hord hinitial hwaiting

theorem setRemoteAnswer_keeps (hrtc : rtc.Signals) (h : Kept rtc s log) (sdp : String) :
    KeptBy rtc (s.setRemoteAnswer rtc sdp) [.answered] log := by
  unfold MediaSession.setRemoteAnswer
  cases hremote : rtc.setRemoteDescription s.connection .answer sdp with
  | none => exact nofun
  | some r =>
    obtain ⟨connection, types⟩ := r
    obtain ⟨hlocal, hstable, htracks⟩ := hrtc.remoteAnswer hremote
    have hwaiting : s.waitingRemoteAnswer = true := by
      by_contra hw
      have hs := h.settled.stable (Bool.not_eq_true _ ▸ hw)
      exact absurd (hlocal.symm.trans hs) nofun
    have hinitial : s.initialAnswerCreated = true := by
      by_contra hi
      exact absurd (hwaiting.symm.trans (h.settled.fresh (Bool.not_eq_true _ ▸ hi))) nofun
    have hcount := h.settled.count
    simp only [hwaiting, if_true] at hcount
    dsimp only
    have hset : Settled rtc { s with
        connection := connection
        incoming := fun media => s.incoming media || types.contains media.name
        waitingRemoteAnswer := false } (.answered :: log) := by
      refine ⟨fun _ => rfl, nofun, fun _ => hstable, fun _ => List.mem_cons_of_mem _ (h.settled.answer hinitial), ?_⟩
      rw [List.countP_cons_of_neg Bool.false_ne_true, List.count_cons_self, hcount]
      rfl
    have hord : Ordered rtc { s with
        connection := connection
        incoming := fun media => s.incoming media || types.contains media.name
        waitingRemoteAnswer := false } (.answered :: log) := by
      refine h.ordered.cons nofun (fun mid hmid => ?_) fun hne => absurd rfl hne
      have hold := h.ordered.added mid ((List.mem_cons.mp hmid).resolve_left nofun)
      simp only [htracks]
      exact hold
    split
    · exact setLocalDescription_keeps hrtc [.answered] hset hord hinitial rfl
    · next hpending =>
      refine fun _ => ⟨hset, hord, fun _ _ => h.remembered.covered_cons (x := .answered) nofun rfl, fun hp => ?_⟩
      exact absurd hp hpending

/-- The offer of the client is answered, and then an offer may follow. -/
theorem setRemoteOffer_shape (sdp : String) (h : (s.setRemoteOffer rtc sdp).threw = false) :
    ∃ connection types connection' description incoming,
      rtc.setRemoteDescription s.connection .offer sdp = some (connection, types) ∧
      rtc.setLocalDescription connection = some (connection', description) ∧
      let s' : MediaSession P :=
        { s with connection := connection', incoming := incoming, initialAnswerCreated := true }
      let o := if s.negotiationPending then
          { s' with negotiationPending := false, waitingRemoteAnswer := true }.setLocalDescription rtc
        else ⟨s', [], false⟩
      s.setRemoteOffer rtc sdp = ⟨o.session, ([Media.video, .audio].filter incoming).map .trackReady ++
        ([.localDescription description] ++ o.notices), o.threw⟩ := by
  unfold MediaSession.setRemoteOffer at h ⊢
  cases hremote : rtc.setRemoteDescription s.connection .offer sdp with
  | none =>
    rw [hremote] at h
    cases h
  | some r =>
    obtain ⟨connection, types⟩ := r
    rw [hremote] at h
    let s₁ : MediaSession P := { s with
      connection := connection
      incoming := fun media => s.incoming media || types.contains media.name }
    cases hlocal : rtc.setLocalDescription connection with
    | none =>
      have hmade : s₁.setLocalDescription rtc = ⟨s₁, [], true⟩ := by
        simp only [MediaSession.setLocalDescription, s₁, hlocal]
      simp only [s₁] at hmade
      simp only [Outcome.andThen, hmade, Bool.false_eq_true, if_false, if_true] at h
      cases h
    | some r =>
      obtain ⟨connection', description⟩ := r
      have hmade : s₁.setLocalDescription rtc =
          ⟨{ s₁ with connection := connection' }, [.localDescription description], false⟩ := by
        simp only [MediaSession.setLocalDescription, s₁, hlocal]
      simp only [s₁] at hmade
      refine ⟨connection, types, connection', description, s₁.incoming, rfl, hlocal, ?_⟩
      simp only [Outcome.andThen, hmade, Bool.false_eq_true, if_false, s₁]

/-- The tracks that are ready are no part of the log. -/
theorem happening_ready (media : List Media) : (media.map Notice.trackReady).filterMap Notice.happening = [] := by
  rw [List.filterMap_map, List.filterMap_eq_nil_iff]
  exact fun _ _ => rfl

theorem setRemoteOffer_keeps (hrtc : rtc.Signals) (h : Kept rtc s log) (hfirst : s.initialAnswerCreated = false)
    (sdp : String) : KeptBy rtc (s.setRemoteOffer rtc sdp) [] log := by
  intro hthrew
  obtain ⟨connection, types, connection', description, incoming, hremote, hlocal, heq⟩ := setRemoteOffer_shape sdp hthrew
  obtain ⟨_, hstate, htracks⟩ := hrtc.remoteOffer hremote
  obtain ⟨htype, hstable, htracks'⟩ := hrtc.answer hstate hlocal
  obtain ⟨type, sdp'⟩ := description
  obtain rfl : type = .answer := htype
  have hwaiting := h.settled.fresh hfirst
  -- The session once it has answered, and before it makes an offer of its own.
  let s' : MediaSession P := { s with connection := connection', incoming := incoming, initialAnswerCreated := true }
  have hset : Settled rtc s' ([.answer] ++ log) := by
    refine ⟨nofun, fun hw => absurd (hwaiting.symm.trans hw) nofun, fun _ => hstable, fun _ => List.mem_cons_self, ?_⟩
    have hne : Happening.answer ≠ .answered := nofun
    rw [List.singleton_append, List.countP_cons_of_neg Bool.false_ne_true, List.count_cons_of_ne hne]
    exact h.settled.count
  have hord : Ordered rtc s' ([.answer] ++ log) := by
    refine h.ordered.cons nofun (fun mid hmid => ?_) fun _ => rfl
    have hold := h.ordered.added mid ((List.mem_cons.mp hmid).resolve_left nofun)
    rw [← htracks, ← htracks'] at hold
    exact hold
  have hanswered : KeptBy rtc (if s.negotiationPending then
      { s' with negotiationPending := false, waitingRemoteAnswer := true }.setLocalDescription rtc
      else ⟨s', [], false⟩) [.answer] log := by
    split
    · exact setLocalDescription_keeps hrtc [.answer] hset hord rfl hwaiting
    · next hpending =>
      refine fun _ => ⟨hset, hord, fun _ _ => h.remembered.covered_cons (x := .answer) nofun rfl, fun hp => ?_⟩
      exact absurd hp hpending
  rw [heq] at hthrew ⊢
  have hkept := hanswered hthrew
  simp only [List.filterMap_append, happening_ready, List.reverse_append, List.append_assoc, List.append_nil,
    List.nil_append, List.filterMap_cons, List.filterMap_nil, Notice.happening, List.reverse_singleton] at hkept ⊢
  exact hkept

theorem addOutgoingTrack_keeps (hrtc : rtc.Signals) (h : Kept rtc s log) (instanceId : Nat) (uid : Int)
    (sessionId : Nat) (media : Media) (ssrc : UInt32) :
    KeptBy rtc (s.addOutgoingTrack rtc instanceId uid sessionId media ssrc)
      (if (s.outgoing media uid).isSome then [] else [.track (trackMid media ssrc uid)]) log := by
  unfold MediaSession.addOutgoingTrack
  split
  · exact fun _ => h
  dsimp only
  cases hadd : rtc.addTrack s.connection media (trackMid media ssrc uid) ssrc with
  | none => exact nofun
  | some connection =>
    obtain ⟨hstate, htracks⟩ := hrtc.addTrack hadd
    refine fun _ => ⟨⟨h.settled.fresh, ?_, ?_, ?_, ?_⟩, ?_, ?_, h.remembered.pending⟩
    · intro hw
      exact hstate.trans (h.settled.waiting hw)
    · intro hw
      exact hstate.trans (h.settled.stable hw)
    · exact fun hi => List.mem_cons_of_mem _ (h.settled.answer hi)
    · have hne : Happening.track (trackMid media ssrc uid) ≠ .answered := nofun
      have hcount := h.settled.count
      simp only [List.filterMap_nil, List.reverse_nil, List.nil_append, List.singleton_append]
      rw [List.countP_cons_of_neg Bool.false_ne_true, List.count_cons_of_ne hne]
      exact hcount
    · refine h.ordered.cons nofun (fun mid hmid => (htracks mid).mpr ?_) fun _ => rfl
      rcases List.mem_cons.mp hmid with heq | hold
      · cases heq
        exact .inl rfl
      · exact .inr (h.ordered.added mid hold)
    · exact fun _ _ => h.remembered.covered_cons (x := .track _) nofun rfl

theorem addRemoteCandidate_keeps (hrtc : rtc.Signals) (h : Kept rtc s log) (candidate mid : String) :
    KeptBy rtc (s.addRemoteCandidate rtc candidate mid) [] log := by
  unfold MediaSession.addRemoteCandidate
  cases hadd : rtc.addRemoteCandidate s.connection candidate mid with
  | none => exact nofun
  | some connection =>
    obtain ⟨hstate, htracks⟩ := hrtc.candidate hadd
    refine fun _ => ⟨{ h.settled with waiting := ?_, stable := ?_ }, h.ordered.connect ?_ rfl, { h.remembered with }⟩
    · intro hw
      exact hstate.trans (h.settled.waiting hw)
    · intro hw
      exact hstate.trans (h.settled.stable hw)
    · intro t ht
      simp only [htracks]
      exact ht

/-! ## Runs -/

/-- What holds of a session after any calls. Once it is removed, its log says what it did until then. -/
structure Sound (rtc : Rtc P) (n : Negotiation P) : Prop where
  kept : n.removed = false → Kept rtc n.session n.log
  single : n.offers ≤ n.answers + 1
  afterAnswer : ∀ newer sdp older, n.log = newer ++ .offer sdp :: older → .answer ∈ older

/-- A call keeps a session sound if it keeps what holds until the removal. -/
theorem Sound.after (h : n.Sound rtc) {o : Outcome P} {called : List Happening} (ho : KeptBy rtc o called n.log) :
    (n.after o called).Sound rtc := by
  unfold Negotiation.after
  split
  · exact ⟨nofun, h.single, h.afterAnswer⟩
  · next hthrew =>
    have hkept := ho (Bool.not_eq_true _ ▸ hthrew)
    refine ⟨fun _ => hkept, ?_, hkept.ordered.afterAnswer⟩
    simp only [offers, answers, hkept.settled.count]
    split <;> omega

theorem Sound.step (hrtc : rtc.Signals) (h : n.Sound rtc) {e : Event} (he : n.OneOffer e)
    (hs : n.step rtc e = some n') : n'.Sound rtc := by
  unfold Negotiation.step at hs
  split at hs
  · cases hs
  next hremoved =>
  have hkept := h.kept (Bool.not_eq_true _ ▸ hremoved)
  cases e with
  | addOutgoingTrack uid sessionId media ssrc =>
    cases hs
    exact h.after (addOutgoingTrack_keeps hrtc hkept _ uid sessionId media ssrc)
  | requestRenegotiation =>
    cases hs
    exact h.after (requestRenegotiation_keeps hrtc hkept)
  | setRemoteOffer sdp =>
    cases hs
    exact h.after (setRemoteOffer_keeps hrtc hkept he sdp)
  | setRemoteAnswer sdp =>
    cases hs
    exact h.after (setRemoteAnswer_keeps hrtc hkept sdp)
  | addRemoteCandidate candidate mid =>
    cases hs
    exact h.after (addRemoteCandidate_keeps hrtc hkept candidate mid)

theorem sound_of_reachable (hrtc : rtc.Signals) (h : n.Reachable rtc) : n.Sound rtc := by
  obtain ⟨connection, hcreate, hreach⟩ := h
  obtain ⟨hstate, htracks⟩ := hrtc.create hcreate
  have hnil : ∀ {newer older : List Happening} {x : Happening}, [] ≠ newer ++ x :: older :=
    fun heq => List.cons_ne_nil _ _ (List.append_eq_nil_iff.mp heq.symm).2
  refine Reach.invariant ⟨fun _ => ⟨?_, ?_, ?_⟩, Nat.zero_le _, fun _ _ _ heq => absurd heq hnil⟩
    (fun _ _ _ hi hok hs => hi.step hrtc hok hs) hreach
  · exact ⟨fun _ => rfl, nofun, fun _ => hstate, nofun, rfl⟩
  · exact ⟨fun _ _ _ heq => absurd heq hnil, nofun, fun _ _ _ heq => absurd heq hnil,
      fun _ _ _ _ heq => absurd heq hnil⟩
  · exact ⟨fun _ _ heq => absurd heq hnil, nofun⟩

/-- The calls with a description of the client. -/
def Event.isDescription : Event → Bool
  | .setRemoteOffer _ => true
  | .setRemoteAnswer _ => true
  | _ => false

/-- The log after a call that has not thrown. -/
theorem after_log {o : Outcome P} {called : List Happening} (h : (n.after o called).removed = false) :
    o.threw = false ∧ (n.after o called).session = o.session ∧
      (n.after o called).log = (o.notices.filterMap Notice.happening).reverse ++ called ++ n.log := by
  unfold Negotiation.after at h ⊢
  split at h
  · cases h
  · next hthrew =>
    rw [if_neg hthrew]
    exact ⟨Bool.not_eq_true _ ▸ hthrew, rfl, rfl⟩

/-- A remembered request is met by the next description of the client: an offer of the server follows. -/
theorem resumed (hrtc : rtc.Signals) {e : Event} (hpending : n.session.negotiationPending = true)
    (hs : n.step rtc e = some n') (hremoved : n'.removed = false) (hdescription : e.isDescription = true) :
    ∃ sdp older, n'.log = .offer sdp :: older := by
  unfold Negotiation.step at hs
  split at hs
  · cases hs
  cases e with
  | setRemoteOffer sdp =>
    cases hs
    obtain ⟨hthrew, _, hlog⟩ := after_log hremoved
    obtain ⟨connection, types, connection', description, incoming, hremote, hlocal, heq⟩ :=
      setRemoteOffer_shape sdp hthrew
    obtain ⟨htype, hstable, _⟩ := hrtc.answer (hrtc.remoteOffer hremote).2.1 hlocal
    obtain ⟨type, sdp'⟩ := description
    obtain rfl : type = .answer := htype
    dsimp only at heq
    rw [if_pos hpending] at heq
    have hmade := congrArg Outcome.notices heq
    rw [heq] at hthrew
    obtain ⟨sdp'', hnotices⟩ := setLocalDescription_offers hrtc (by exact hstable) hthrew
    refine ⟨sdp'', [.answer] ++ n.log, ?_⟩
    simp only [hlog, hmade, hnotices, List.filterMap_append, happening_ready, List.nil_append, List.filterMap_cons,
      List.filterMap_nil, Notice.happening, List.reverse_cons, List.reverse_nil, List.cons_append, List.append_nil]
  | setRemoteAnswer sdp =>
    cases hs
    obtain ⟨hthrew, _, hlog⟩ := after_log hremoved
    cases hremote : rtc.setRemoteDescription n.session.connection .answer sdp with
    | none =>
      unfold MediaSession.setRemoteAnswer at hthrew
      rw [hremote] at hthrew
      cases hthrew
    | some r =>
      obtain ⟨connection, types⟩ := r
      obtain ⟨_, hstable, _⟩ := hrtc.remoteAnswer hremote
      have heq : n.session.setRemoteAnswer rtc sdp = MediaSession.setLocalDescription rtc { n.session with
          connection := connection
          incoming := fun media => n.session.incoming media || types.contains media.name
          negotiationPending := false
          waitingRemoteAnswer := true } := by
        simp only [MediaSession.setRemoteAnswer, hremote, hpending, if_true]
      have hmade := congrArg Outcome.notices heq
      rw [heq] at hthrew
      obtain ⟨sdp', hnotices⟩ := setLocalDescription_offers hrtc (by exact hstable) hthrew
      refine ⟨sdp', [.answered] ++ n.log, ?_⟩
      simp only [hlog, hmade, hnotices, List.filterMap_cons, List.filterMap_nil, Notice.happening,
        List.reverse_singleton, List.cons_append, List.nil_append]
  | addOutgoingTrack uid sessionId media ssrc => cases hdescription
  | requestRenegotiation => cases hdescription
  | addRemoteCandidate candidate mid => cases hdescription

/-- How a session negotiates. -/
structure Orderly (rtc : Rtc P) (n : Negotiation P) : Prop where
  /-- At most one offer of the server is unanswered. -/
  single : n.offers ≤ n.answers + 1
  /-- The server makes no offer before its answer to the client. -/
  afterAnswer : ∀ newer sdp older, n.log = newer ++ .offer sdp :: older → .answer ∈ older
  /-- A request is followed by an offer, or remembered. -/
  covered : n.removed = false → ∀ newer older, n.log = newer ++ .request :: older →
    (∃ sdp, .offer sdp ∈ newer) ∨ n.session.negotiationPending = true
  /-- What is remembered stays so until the next description of the client, and an offer follows that. -/
  remembered : n.session.negotiationPending = true → ∀ e n', n.step rtc e = some n' →
    n'.removed = false → if e.isDescription then ∃ sdp older, n'.log = .offer sdp :: older
      else n'.session.negotiationPending = true
  /-- In the stable state with nothing remembered, the tracks added before a request are in an answered offer. -/
  negotiated : n.removed = false → rtc.signalingState n.session.connection = .stable →
    n.session.negotiationPending = false → ∀ newer older, n.log = newer ++ .request :: older → ∀ mid, .track mid ∈ older →
      ∃ newest sdp oldest, n.log = newest ++ .offer sdp :: oldest ∧ mid ∈ rtc.mids sdp ∧ .answered ∈ newest

end Negotiation

end SyncRtc.MediaServer
