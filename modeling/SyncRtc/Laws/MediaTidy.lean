import SyncRtc.Laws.MediaMembers

/-!
# Rooms are kept tidy

Whoever is a member is in the room that `m_rooms` has for the meeting, over a connection that was let in; and when no
handler is on its way, a room in `m_rooms` has a member. The first holds at every section; for the second each handler
ends in `RemoveSession`, or has left the members as they were.
-/

set_option autoImplicit false

namespace SyncRtc.MediaServer

open Prog (Makes)

variable {P : Type} {rtc : Rtc P}

/-- The members of a meeting are in the room that `m_rooms` has, over connections in `A`. -/
structure Tidy (A : Nat → Prop) (k : Nat) (v : Memory P) : Prop where
  listed : ∀ {a r u peer}, v.rooms a = some r → r.getPeer u = some peer → v.meetings k = some a
  permitted : ∀ {a r u S}, v.rooms a = some r → r.sessionOf u = some S → A S.signalSession

/-- Moreover, that room is not empty. -/
structure Kept (A : Nat → Prop) (k : Nat) (v : Memory P) : Prop extends Tidy A k v where
  occupied : ∀ {a r}, v.meetings k = some a → v.rooms a = some r → r.peerCount ≠ 0

/-- The machine of handlers that keep the rooms of a meeting tidy. -/
abbrev tidying (rtc : Rtc P) (H : Memory P → Prop) (A : Nat → Prop) (k : Nat) : Prog.Machine sections (Memory P) :=
  watched rtc H (fun _ => Tidy A k) k

section

variable {H : Memory P → Prop} {I : Section → Memory P → Prop} {A : Nat → Prop} {k a : Nat} {v v' : Memory P}

/-! ## Sections -/

section

variable {c : Section} {result : c.Res}

theorem rooms_of_aside (h : (watched rtc H I k).rel c v result v') (hc : c.Aside) :
    v'.rooms = v.rooms ∧ v'.meetings k = v.meetings k := by
  obtain ⟨_, _, m, _, rfl, _, rfl⟩ := h
  obtain ⟨hrooms, hmeetings⟩ := @Memory.answer_aside _ rtc m _ hc
  refine ⟨?_, ?_⟩
  · simp only [Memory.view, hrooms]
  · simp only [Memory.view, hmeetings]

theorem shrinks_of_rel (h : (watched rtc H I k).rel c v result v') (hc : ∀ room peer, c ≠ .addPeer room peer) :
    v.Shrinks v' := by
  obtain ⟨_, _, m, _, rfl, _, rfl⟩ := h
  exact (Memory.answer_shrinks hc).view

theorem meetings_of_quiet (h : (watched rtc H I k).rel c v result v') (hc : c.Quiet) :
    v'.meetings k = v.meetings k := by
  obtain ⟨_, _, m, _, rfl, _, rfl⟩ := h
  simp only [Memory.view, @Memory.answer_quiet _ rtc m _ hc]

/-- A section that only looks answers what the view has, and leaves it. -/
theorem eq_of_look (h : (watched rtc H I k).rel c v result v') (hc : ∀ m : Memory P, (m.answer rtc c).2 = m) : v' = v := by
  obtain ⟨_, _, m, _, rfl, _, rfl⟩ := h
  rw [hc]

end

theorem Tidy.shrink (h : Tidy A k v) (hshrinks : v.Shrinks v') (hm : v'.meetings k = v.meetings k) : Tidy A k v' where
  listed hr hpeer := by
    obtain ⟨r, hold, _, hmember⟩ := hshrinks _ _ _ _ hr hpeer
    exact hm.trans (h.listed hold hmember)
  permitted hr hS := by
    obtain ⟨r, hold, hmember⟩ := hshrinks.sessionOf hr hS
    exact h.permitted hold hmember

theorem Kept.aside (h : Kept A k v) (hrooms : v'.rooms = v.rooms) (hm : v'.meetings k = v.meetings k) : Kept A k v' where
  listed hr hpeer := hm.trans (h.listed (hrooms ▸ hr) hpeer)
  permitted hr := h.permitted (hrooms ▸ hr)
  occupied hk hr := h.occupied (hm ▸ hk) (hrooms ▸ hr)

/-- Programs without newcomers keep a meeting tidy. -/
theorem wp_quiet {β : Type} {p : Prog sections β} (hp : p.Makes Section.Quiet) (h : Tidy A k v) :
    p.wp (tidying rtc H A k) (fun _ v' => Tidy A k v' ∧ v'.meetings k = v.meetings k) v := by
  refine hp.wp (I := fun v' => Tidy A k v' ∧ v'.meetings k = v.meetings k) (fun _ _ _ h => h.1) ?_ ⟨h, rfl⟩
  intro c w result w' hc hw hrel
  have hm := meetings_of_quiet hrel hc
  refine ⟨hw.1.shrink (shrinks_of_rel hrel ?_) hm, hm.trans hw.2⟩
  rintro room peer rfl
  exact hc

/-- Programs that change no room leave the members as they are. -/
theorem wp_aside {β : Type} {p : Prog sections β} (hp : p.Makes Section.Aside) (h : Kept A k v) :
    p.wp (tidying rtc H A k) (fun _ v' => Kept A k v' ∧ v'.meetings k = v.meetings k) v := by
  refine hp.wp (I := fun v' => Kept A k v' ∧ v'.meetings k = v.meetings k) (fun _ _ _ h => h.1.toTidy) ?_ ⟨h, rfl⟩
  intro c w result w' hc hw hrel
  obtain ⟨hrooms, hm⟩ := rooms_of_aside hrel hc
  exact ⟨hw.1.aside hrooms hm, hm.trans hw.2⟩

/-- The rule for a section that only looks. -/
theorem wp_look {β : Type} {Q : β → Memory P → Prop} {c : Section} {g : c.Res → Prog sections β} (hI : I c v)
    (hc : ∀ m : Memory P, (m.answer rtc c).2 = m)
    (hg : ∀ m : Memory P, H m → Core k v → v.Within k c → m.view k = v → (g (m.answer rtc c).1).wp (watched rtc H I k) Q v) :
    ((call c).bind g).wp (watched rtc H I k) Q v := by
  refine Prog.wp_step hI ?_
  rintro result v' ⟨hcore, hwithin, m, hm, hview, rfl, rfl⟩
  rw [hc, hview]
  exact hg m hm hcore hwithin hview

/-- The rule for a look at a room. -/
theorem wp_lookAt {β : Type} {Q : β → Memory P → Prop} {c : Section} {missing : c.Res} {f : MediaRoom → c.Res}
    {g : c.Res → Prog sections β} (hI : I c v)
    (hc : ∀ m : Memory P, m.answer rtc c = m.onRoom a missing fun r => (f r, r))
    (hwithin : v.Within k c → (v.rooms a).isSome)
    (hg : ∀ r, v.rooms a = some r → Core k v → (g (f r)).wp (watched rtc H I k) Q v) :
    ((call c).bind g).wp (watched rtc H I k) Q v := by
  refine wp_look hI (fun m => ?_) fun m _ hcore hw hview => ?_
  · rw [hc]
    exact Memory.setRoom_onRoom
  · obtain ⟨r, hr⟩ := Option.isSome_iff_exists.mp (hwithin hw)
    subst hview
    rw [hc, Memory.onRoom_some (Memory.view_rooms.mp hr).1]
    exact hg r hr hcore

/-- The rule for a look at a connection. -/
theorem wp_stopped {β : Type} {Q : β → Memory P → Prop} {session : Nat} {g : Bool → Prog sections β}
    (hI : I (.isStopped session) v)
    (hg : ∀ m : Memory P, H m → (g (m.stopped session)).wp (watched rtc H I k) Q v) :
    ((call (.isStopped session)).bind g).wp (watched rtc H I k) Q v :=
  wp_look hI (fun _ => rfl) fun m hm _ _ _ => hg m hm

/-- The rule for a handler that looks for its room. -/
theorem wp_find {β : Type} {Q : β → Memory P → Prop} {g : Option Nat → Prog sections β} (hI : I (.findRoom k) v)
    (hnone : v.meetings k = none → (g none).wp (watched rtc H I k) Q v)
    (hsome : ∀ a, v.meetings k = some a → (g (some a)).wp (watched rtc H I k) Q v) :
    ((call (.findRoom k)).bind g).wp (watched rtc H I k) Q v := by
  refine wp_look hI (fun _ => rfl) ?_
  rintro m _ _ _ rfl
  rw [Memory.view_meetings] at hnone hsome
  simp only [Memory.answer]
  cases hm : m.meetings k with
  | none => exact hnone hm
  | some a => exact hsome a hm

/-! ## Programs that let nobody in -/

theorem quiet_removePeer (u : Int) (expected : Nat) : (removePeer a u expected).Makes Section.Quiet :=
  Makes.step trivial fun _ => Makes.each fun _ _ => (Prog.makes_perform _).mpr trivial

theorem quiet_addBinding (b : OutgoingTrackBinding) : (addBinding a b).Makes Section.Quiet := by
  refine Makes.step trivial fun _ => Makes.step trivial fun _ => ?_
  refine Makes.ite (Prog.makes_pure ()) (Makes.step trivial fun (threw : Bool) => ?_)
  exact Makes.ite (quiet_removePeer _ _) (Prog.makes_pure ())

theorem quiet_negotiate (S : SessionInfo) : (negotiate a S).Makes Section.Quiet := by
  refine Makes.step trivial fun _ => Makes.ite (Prog.makes_pure ()) (Makes.step trivial fun (threw : Bool) => ?_)
  exact Makes.ite (quiet_removePeer _ _) (Prog.makes_pure ())

/-- A track is registered. Whoever publishes is a member, so nothing is missing. -/
theorem tidy_registerPublisherTrack (h : Tidy A k v) (u : Int) (media : Media) :
    (registerPublisherTrack a u media).wp (tidying rtc H A k)
      (fun threw v' => threw = false ∧ Tidy A k v' ∧ v'.meetings k = v.meetings k) v := by
  refine Prog.wp_step h fun result v₁ hrel => ?_
  have hm := meetings_of_quiet hrel trivial
  have h₁ := h.shrink (shrinks_of_rel hrel nofun) hm
  obtain ⟨hcore, hwithin, m, _, rfl, rfl, rfl⟩ := hrel
  obtain ⟨r, hr⟩ := Option.isSome_iff_exists.mp (show ((m.view k).rooms a).isSome from hwithin)
  have hfound : (m.answer rtc (.registerPublisherTrack a u media)).1 = (r.registerPublisherTrack u media).1 :=
    congrArg Prod.fst (Memory.onRoom_some (Memory.view_rooms.mp hr).1)
  have hpublisher : ∀ media u x, (r.publishers media).lookup u = some x → (r.sessionOf u).isSome := by
    intro media u x hx
    obtain ⟨S, hS, _⟩ := hcore.publisher hr hx
    exact Option.isSome_iff_exists.mpr ⟨S, hS⟩
  have hrest : ∀ tracks sessions, (((Prog.each (addBinding a) tracks).bind fun _ =>
      (Prog.each (negotiate a) sessions).bind fun _ => Prog.pure false)).wp (tidying rtc H A k) (fun threw v' =>
        threw = false ∧ Tidy A k v' ∧ v'.meetings k = (m.view k).meetings k) ((m.answer rtc (.registerPublisherTrack a u media)).2.view k) := by
    intro tracks sessions
    refine Prog.wp_seq (wp_quiet (Makes.each fun b _ => quiet_addBinding b) h₁) fun _ v₂ h₂ => ?_
    refine Prog.wp_seq (wp_quiet (Makes.each fun S _ => quiet_negotiate S) h₂.1) fun _ v₃ h₃ => ?_
    exact ⟨rfl, h₃.1, h₃.2.trans (h₂.2.trans hm)⟩
  rw [hfound]
  rcases r.registerPublisherTrack_cases hpublisher with heq | ⟨_, _, _, _, _, heq, _⟩
  · rw [heq]
    exact hrest [] []
  · rw [heq]
    exact hrest _ _

/-! ## Programs that end with `RemoveSession` -/

/-- Whatever has left a room before, it is empty at the end only if it has been dropped. -/
theorem tidy_removeSession (h : Tidy A k v) (ha : ∀ b, v.meetings k = some b → b = a) (session : Option SessionInfo) :
    (removeSession a session).wp (tidying rtc H A k)
      (fun _ v' => Kept A k v' ∧ ∀ b, v'.meetings k = some b → b = a) v := by
  have hcount : ∀ v', Tidy A k v' → (∀ b, v'.meetings k = some b → b = a) →
      ((call (.peerCount a)).bind fun (count : Nat) =>
        if count ≠ 0 then pure () else call (.dropRoom a)).wp (tidying rtc H A k)
        (fun _ v' => Kept A k v' ∧ ∀ b, v'.meetings k = some b → b = a) v' := by
    intro v' h ha
    refine wp_lookAt h (fun _ => rfl) id fun r hr _ => Prog.wp_ite (fun hcount => ?_) fun hcount => ?_
    · refine ⟨{ h with occupied := fun {b q} hb hq => ?_ }, ha⟩
      obtain rfl := ha b hb
      cases hr.symm.trans hq
      exact hcount
    refine ⟨h, ?_⟩
    rintro _ w ⟨_, _, m, _, rfl, rfl, rfl⟩
    obtain ⟨hroom, hmeeting⟩ := Memory.view_rooms.mp hr
    have hdrop : m.answer rtc (.dropRoom a) = if m.meetings k = some a then ((), m.setMeeting k none) else ((), m) := by
      have hempty : r.peerCount = 0 := not_not.mp hcount
      simp only [Memory.answer, hroom, hmeeting, hempty, and_true, Memory.setMeeting]
      rfl
    rw [hdrop]
    split
    · -- The room was empty, so nobody is a member any more.
      have hview : ((m.setMeeting k none).view k).meetings k = none := by
        rw [Memory.view_meetings]
        exact Function.update_self k none m.meetings
      have hrooms : ((m.setMeeting k none).view k).rooms = (m.view k).rooms := rfl
      refine ⟨⟨⟨fun {b q u peer} hq hpeer => ?_, fun hq => h.permitted (hrooms ▸ hq)⟩, fun hb => ?_⟩, fun b hb => ?_⟩
      · obtain rfl := ha b (h.listed (hrooms ▸ hq) hpeer)
        cases hr.symm.trans (hrooms ▸ hq)
        exact absurd ((MediaRoom.peerCount_eq_zero.mp (not_not.mp hcount) u).symm.trans hpeer) (by simp)
      · exact absurd (hview.symm.trans hb) (by simp)
      · exact absurd (hview.symm.trans hb) (by simp)
    · next hother =>
      refine ⟨{ h with occupied := fun {b q} hb _ => ?_ }, ha⟩
      obtain rfl := ha b hb
      rw [Memory.view_meetings] at hb
      exact absurd hb hother
  cases session with
  | none => exact hcount v h ha
  | some S =>
    refine Prog.wp_seq (wp_quiet (quiet_removePeer S.uid S.instanceId) h) fun _ v' h' => ?_
    refine hcount v' h'.1 ?_
    rw [h'.2]
    exact ha

/-- A call of a session, and what follows when it throws. -/
theorem kept_orRemove (h : Kept A k v) (ha : ∀ b, v.meetings k = some b → b = a) (S : SessionInfo)
    {c : Prog sections Bool} (hc : c.Makes Section.Aside) :
    (orRemove a S c).wp (tidying rtc H A k) (fun _ => Kept A k) v := by
  refine Prog.wp_seq (wp_aside hc h) fun threw v' h' => Prog.wp_ite (fun _ => ?_) fun _ => h'.1
  refine Prog.wp_mono (fun _ _ h => h.1) (tidy_removeSession h'.1.toTidy ?_ (some S))
  rw [h'.2]
  exact ha

/-! ## The handlers -/

theorem kept_handlePublisherTrackReady (h : Kept A k v) (u : Int) (i : Nat) (media : Media) :
    (handlePublisherTrackReady k u i media).wp (tidying rtc H A k) (fun _ => Kept A k) v := by
  refine wp_find h.toTidy (fun _ => h) fun a ha => wp_lookAt h.toTidy (fun _ => rfl) id fun r _ _ => ?_
  split
  · exact h
  refine Prog.wp_ite (fun _ => h) fun _ => wp_stopped h.toTidy fun _ _ => ?_
  refine Prog.wp_ite (fun _ => h) fun _ => ?_
  refine Prog.wp_seq (tidy_registerPublisherTrack h.toTidy u media) fun threw v' h' => ?_
  obtain ⟨rfl, htidy, hm⟩ := h'
  refine Prog.wp_mono (fun _ _ h => h.1) (tidy_removeSession htidy (fun b hb => ?_) none)
  exact Option.some.inj (hb.symm.trans (hm.trans ha))

theorem kept_handleLocalMediaSignal {response : MediaSignalResponse} (h : Kept A response.meetingId v)
    (session i : Nat) : (handleLocalMediaSignal session i response).wp (tidying rtc H A response.meetingId)
      (fun _ => Kept A response.meetingId) v := by
  refine wp_find h.toTidy (fun _ => h) fun a _ => wp_lookAt h.toTidy (fun _ => rfl) id fun r _ _ => ?_
  split
  · exact h
  refine Prog.wp_ite (fun _ => h) fun _ => wp_stopped h.toTidy fun _ _ => ?_
  refine Prog.wp_ite (fun _ => h) fun _ => ?_
  exact Prog.wp_mono (fun _ _ h => h.1) (wp_aside ((Prog.makes_perform _).mpr trivial) h)

section

variable {request : MediaSignalRequest} {session : Nat}

theorem kept_forSession {body : Nat → SessionInfo → Handler} (h : Kept A request.meetingId v)
    (hbody : ∀ a S, v.meetings request.meetingId = some a →
      (body a S).wp (tidying rtc H A request.meetingId) (fun _ => Kept A request.meetingId) v) :
    (forSession session request body).wp (tidying rtc H A request.meetingId)
      (fun _ => Kept A request.meetingId) v := by
  refine wp_find h.toTidy (fun _ => h) fun a ha => wp_lookAt h.toTidy (fun _ => rfl) id fun r _ _ => ?_
  split
  · exact h
  · next S _ => exact Prog.wp_ite (fun _ => h) fun _ => hbody a S ha

/-- A room is found or made, and is the one in `m_rooms` from there on. -/
theorem tidy_findOrAddRoom {β : Type} {Q : β → Memory P → Prop} {g : Nat → Prog sections β} (h : Tidy A k v)
    (hg : ∀ a v', Tidy A k v' → v'.meetings k = some a → (g a).wp (tidying rtc H A k) Q v') :
    ((call (.findOrAddRoom k)).bind g).wp (tidying rtc H A k) Q v := by
  refine Prog.wp_step h ?_
  rintro _ v' ⟨_, _, m, _, rfl, rfl, rfl⟩
  have hshrinks := (@Memory.answer_shrinks _ rtc m (.findOrAddRoom k) (by simp)).view (k := k)
  cases hm : m.meetings k with
  | some a =>
    have hsame : m.answer rtc (.findOrAddRoom k) = (a, m) := by
      simp only [Memory.answer, hm]
      rfl
    rw [hsame]
    exact hg a _ h (Memory.view_meetings.trans hm)
  | none =>
    have hnobody : ∀ {a r u peer}, (m.view k).rooms a = some r → r.getPeer u ≠ some peer := by
      intro a r u peer hr hpeer
      exact absurd ((Memory.view_meetings.trans hm).symm.trans (h.listed hr hpeer)) (by simp)
    refine hg _ _ ⟨fun hr hpeer => ?_, fun hr hS => ?_⟩ ?_
    · obtain ⟨r, hold, _, hmember⟩ := hshrinks _ _ _ _ hr hpeer
      exact absurd hmember (hnobody hold)
    · obtain ⟨r, hold, hmember⟩ := hshrinks.sessionOf hr hS
      exact h.permitted hold hmember
    · rw [Memory.view_meetings]
      simp only [Memory.answer, hm, Function.update_self]

/-- A session found for an offer is that of a member; the member of another signal or connection is gone. -/
theorem tidy_existingSession (h : Tidy A k v) : (existingSession a session request).wp (tidying rtc H A k)
    (fun existing v' => Tidy A k v' ∧ v'.meetings k = v.meetings k ∧
      (existing.isSome → ∃ r u peer, v'.rooms a = some r ∧ r.getPeer u = some peer)) v := by
  refine wp_lookAt h (fun _ => rfl) id fun r hr _ => ?_
  cases hpeer : r.getPeer request.uid with
  | none => exact ⟨h, rfl, nofun⟩
  | some peer =>
    dsimp only [Option.bind_some]
    split
    · exact ⟨h, rfl, nofun⟩
    refine Prog.wp_ite (fun _ => ?_) fun _ => ⟨h, rfl, fun _ => ⟨r, _, peer, hr, hpeer⟩⟩
    refine Prog.wp_seq (wp_quiet (quiet_removePeer request.uid 0) h) fun _ v' h' => ?_
    exact ⟨h'.1, h'.2, nofun⟩

theorem Tidy.kept (h : Tidy A k v) (ha : v.meetings k = some a)
    (hmember : ∃ r u peer, v.rooms a = some r ∧ r.getPeer u = some peer) : Kept A k v where
  toTidy := h
  occupied {b q} hb hq hempty := by
    obtain ⟨r, u, peer, hr, hpeer⟩ := hmember
    cases ha.symm.trans hb
    cases hr.symm.trans hq
    exact absurd ((MediaRoom.peerCount_eq_zero.mp hempty u).symm.trans hpeer) nofun

/-- A member is let in over a connection that may. -/
theorem kept_addPeer (h : Tidy A k v) (ha : v.meetings k = some a) {S : SessionInfo} (hA : A S.signalSession) (u : Int) :
    (call (.addPeer a ⟨u, some S⟩)).wp (tidying rtc H A k) (fun _ v' => Kept A k v' ∧ v'.meetings k = some a) v := by
  refine ⟨h, ?_⟩
  rintro _ v' ⟨_, hwithin, m, _, rfl, rfl, rfl⟩
  obtain ⟨r, hr⟩ := Option.isSome_iff_exists.mp (show ((m.view k).rooms a).isSome from hwithin)
  obtain ⟨hroom, hmeeting⟩ := Memory.view_rooms.mp hr
  have hview : (m.answer rtc (.addPeer a ⟨u, some S⟩)).2.view k = (m.view k).setRoom a (r.addPeer ⟨u, some S⟩) := by
    rw [← Memory.view_setRoom (show (r.addPeer ⟨u, some S⟩).meetingId = k from hmeeting)]
    exact congrArg (fun o : Unit × Memory P => o.2.view k) (Memory.onRoom_some hroom)
  have hm : ((m.view k).setRoom a (r.addPeer ⟨u, some S⟩)).meetings k = some a := ha
  rw [hview]
  refine ⟨Tidy.kept ⟨fun {b q w peer} hq hpeer => ?_, fun {b q w T} hq hT => ?_⟩ hm ?_, hm⟩
  · rw [setRoom_rooms] at hq
    split at hq
    · next hb => exact hb ▸ ha
    · exact h.listed hq hpeer
  · rw [setRoom_rooms] at hq
    split at hq
    · cases hq
      by_cases hw : w = u
      · subst hw
        have hnew : (r.addPeer ⟨w, some S⟩).sessionOf w = some S := @MediaRoom.sessionOf_addPeer _ ⟨w, some S⟩
        cases hnew.symm.trans hT
        exact hA
      · rw [MediaRoom.sessionOf_addPeer_ne hw] at hT
        exact h.permitted hr hT
    · exact h.permitted hq hT
  · refine ⟨_, u, ⟨u, some S⟩, setRoom_rooms.trans (if_pos rfl), ?_⟩
    exact AList.lookup_insert _

theorem kept_handleOffer (h : Tidy A request.meetingId v) (hA : A session) (sdp : String) :
    (handleOffer session request sdp).wp (tidying rtc H A request.meetingId)
      (fun _ => Kept A request.meetingId) v := by
  refine tidy_findOrAddRoom h fun a v h ha => ?_
  refine Prog.wp_seq (tidy_existingSession h) fun existing v h' => ?_
  obtain ⟨h, hm, hmember⟩ := h'
  have ha : v.meetings request.meetingId = some a := hm.trans ha
  have hothers : ∀ b, v.meetings request.meetingId = some b → b = a := fun b hb => Option.some.inj (hb.symm.trans ha)
  cases existing with
  | some S => exact kept_orRemove (h.kept ha (hmember rfl)) hothers S ((Prog.makes_perform _).mpr trivial)
  | none =>
    refine Prog.wp_step h fun created v₁ hrel => ?_
    obtain ⟨hrooms, hm₁⟩ := rooms_of_aside hrel trivial
    have h₁ : Tidy A request.meetingId v₁ := h.shrink (shrinks_of_rel hrel nofun) hm₁
    have ha₁ : v₁.meetings request.meetingId = some a := hm₁.trans ha
    have hcreated : ∀ S, created = some S → S.signalSession = session := by
      obtain ⟨_, _, m, _, _, rfl, _⟩ := hrel
      intro S hS
      simp only [Memory.answer] at hS
      split at hS
      · cases hS
      · cases hS
        rfl
    cases created with
    | none =>
      refine Prog.wp_mono (fun _ _ h => h.1) (tidy_removeSession h₁ (fun b hb => ?_) none)
      exact Option.some.inj (hb.symm.trans ha₁)
    | some S =>
      have hS : A S.signalSession := (hcreated S rfl).symm ▸ hA
      refine Prog.wp_seq (kept_addPeer h₁ ha₁ hS request.uid) fun _ v₂ h₂ => ?_
      refine kept_orRemove h₂.1 (fun b hb => ?_) S ((Prog.makes_perform _).mpr trivial)
      exact Option.some.inj (hb.symm.trans h₂.2)

/-- A request is handled if its connection has not stopped: one that has lets nobody in. -/
theorem kept_handleSignal (h : Kept A request.meetingId v)
    (hA : A session ∨ ∀ m : Memory P, H m → m.stopped session = true) :
    (handleSignal session request).wp (tidying rtc H A request.meetingId) (fun _ => Kept A request.meetingId) v := by
  refine wp_stopped h.toTidy fun m hm => Prog.wp_ite (fun _ => h) fun hrunning => ?_
  have hA : A session := hA.resolve_right fun hstopped => hrunning (hstopped m hm)
  cases request.signal with
  | offer sdp => exact kept_handleOffer h.toTidy hA sdp
  | answer sdp =>
    refine kept_forSession h fun a S ha => kept_orRemove h (fun b hb => ?_) S ((Prog.makes_perform _).mpr trivial)
    exact Option.some.inj (hb.symm.trans ha)
  | candidate candidate mid =>
    refine kept_forSession h fun a S ha => kept_orRemove h (fun b hb => ?_) S ((Prog.makes_perform _).mpr trivial)
    exact Option.some.inj (hb.symm.trans ha)
  | leave =>
    refine kept_forSession h fun a S ha => ?_
    refine Prog.wp_mono (fun _ _ h => h.1) (tidy_removeSession h.toTidy (fun b hb => ?_) (some S))
    exact Option.some.inj (hb.symm.trans ha)

end

theorem kept_handleSignalDisconnected (h : Kept A k v) (session : Nat) :
    (handleSignalDisconnected k session).wp (tidying rtc H A k) (fun _ => Kept A k) v := by
  refine wp_stopped h.toTidy fun _ _ => Prog.wp_ite (fun _ => h) fun _ => ?_
  refine wp_find h.toTidy (fun _ => h) fun a ha => wp_lookAt h.toTidy (fun _ => rfl) id fun r _ _ => ?_
  have hstart : Kept A k v ∧ ∀ b, v.meetings k = some b → b = a :=
    ⟨h, fun b hb => Option.some.inj (hb.symm.trans ha)⟩
  refine Prog.wp_seq (Prog.wp_each (I := fun v' => Kept A k v' ∧ ∀ b, v'.meetings k = some b → b = a) ?_ hstart)
    fun _ v' h' => ?_
  · intro S _ v' h'
    exact tidy_removeSession h'.1.toTidy h'.2 (some S)
  · exact Prog.wp_mono (fun _ _ h => h.1) (tidy_removeSession h'.1.toTidy h'.2 none)

/-- Every handler keeps the rooms of its meeting tidy, as long as the requests it is given come over connections that
are let in or have stopped. -/
theorem kept_handleRoomEvent (e : MediaRoomEvent) (h : Kept A e.meetingId v)
    (hA : ∀ session request, e = .signal session request → A session ∨ ∀ m : Memory P, H m → m.stopped session = true) :
    (handleRoomEvent e).wp (tidying rtc H A e.meetingId) (fun _ => Kept A e.meetingId) v := by
  cases e with
  | signal session request => exact kept_handleSignal h (hA session request rfl)
  | trackReady meetingId u i media => exact kept_handlePublisherTrackReady h u i media
  | localSignal session i response => exact kept_handleLocalMediaSignal h session i
  | disconnected meetingId session => exact kept_handleSignalDisconnected h session

end

end SyncRtc.MediaServer
