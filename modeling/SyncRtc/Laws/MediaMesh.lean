import SyncRtc.Laws.MediaViews

/-!
# The mesh of a media room

Between two events of its worker, a room is a complete mesh: every two members that publish both media have tracks for
each other, and every outgoing track there is belongs to the current instance of a member. While a worker connects a new
publisher, bindings are still to be made; while it removes a member, tracks are still to be dropped. `Meshed` says what
holds then, and each section of a handler moves it on.
-/

set_option autoImplicit false

namespace SyncRtc.MediaServer

/-! ## Members and publishers of a room -/

namespace MediaRoom

variable {r : MediaRoom}

theorem mem_memberSessions {u : Int} {S : SessionInfo} : (u, S) ∈ r.memberSessions ↔ r.sessionOf u = some S := by
  unfold memberSessions sessionOf getPeer
  rw [List.mem_filterMap, Option.bind_eq_some_iff]
  constructor
  · rintro ⟨⟨u', peer⟩, hmem, hsession⟩
    obtain ⟨S', hS', heq⟩ := Option.map_eq_some_iff.mp hsession
    cases heq
    exact ⟨peer, AList.mem_lookup_iff.mpr hmem, hS'⟩
  · rintro ⟨peer, hpeer, hS⟩
    refine ⟨⟨u, peer⟩, AList.mem_lookup_iff.mp hpeer, ?_⟩
    simp only [hS, Option.map_some]

theorem mem_sessions {S : SessionInfo} : S ∈ r.memberSessions.map Prod.snd ↔ ∃ u, r.sessionOf u = some S := by
  rw [List.mem_map]
  constructor
  · rintro ⟨⟨u, S'⟩, hmem, rfl⟩
    exact ⟨u, mem_memberSessions.mp hmem⟩
  · rintro ⟨u, hu⟩
    exact ⟨(u, S), mem_memberSessions.mpr hu, rfl⟩

/-- The members other than one. -/
theorem mem_others {u : Int} {S : SessionInfo} :
    S ∈ (r.memberSessions.filter fun member => decide (member.1 ≠ u)).map Prod.snd ↔
      ∃ u', u' ≠ u ∧ r.sessionOf u' = some S := by
  rw [List.mem_map]
  constructor
  · rintro ⟨⟨u', S'⟩, hmem, rfl⟩
    obtain ⟨hmem, hne⟩ := List.mem_filter.mp hmem
    exact ⟨u', of_decide_eq_true hne, mem_memberSessions.mp hmem⟩
  · rintro ⟨u', hne, hu'⟩
    exact ⟨(u', S), List.mem_filter.mpr ⟨mem_memberSessions.mpr hu', decide_eq_true hne⟩, rfl⟩

/-- A member publishes both media. -/
def Full (r : MediaRoom) (u : Int) : Prop := ∀ media, ((r.publishers media).lookup u).isSome

/-! ### Adding and removing a member -/

theorem sessionOf_addPeer {peer : MediaPeer} : (r.addPeer peer).sessionOf peer.uid = peer.session := by
  simp only [sessionOf, getPeer, addPeer, AList.lookup_insert, Option.bind_some]

theorem sessionOf_addPeer_ne {peer : MediaPeer} {u : Int} (h : u ≠ peer.uid) :
    (r.addPeer peer).sessionOf u = r.sessionOf u := by
  simp only [sessionOf, getPeer, addPeer, AList.lookup_insert_ne h]

/-- A room without a member. -/
def without (r : MediaRoom) (u : Int) : MediaRoom :=
  { r with peers := r.peers.erase u, publishers := fun media => (r.publishers media).erase u }

theorem removePeer_some {u : Int} {expected : Nat} {remaining : List SessionInfo} {r' : MediaRoom}
    (h : r.removePeer u expected = some (remaining, r')) :
    r' = r.without u ∧ remaining = (r.without u).memberSessions.map Prod.snd := by
  unfold removePeer at h
  split at h
  · cases h
  · cases h
    exact ⟨rfl, rfl⟩

/-- Who is expected is removed. -/
theorem removePeer_ne_none {u : Int} {expected : Nat}
    (h : expected = 0 ∨ (r.sessionOf u).map SessionInfo.instanceId = some expected) : r.removePeer u expected ≠ none := by
  unfold removePeer
  rw [if_neg]
  · exact nofun
  · rintro ⟨hne, hother⟩
    exact h.elim hne hother

theorem sessionOf_without (u : Int) : (r.without u).sessionOf u = none := by
  simp only [sessionOf, getPeer, without, AList.lookup_erase, Option.bind_none]

theorem sessionOf_without_ne {u u' : Int} (h : u' ≠ u) : (r.without u).sessionOf u' = r.sessionOf u' := by
  simp only [sessionOf, getPeer, without, AList.lookup_erase_ne h]

theorem sessionOf_of_without {u u' : Int} {S : SessionInfo} (h : (r.without u).sessionOf u' = some S) :
    u' ≠ u ∧ r.sessionOf u' = some S := by
  by_cases hu : u' = u
  · rw [hu, sessionOf_without] at h
    cases h
  · exact ⟨hu, sessionOf_without_ne hu ▸ h⟩

theorem publisher_of_without {u u' : Int} {media : Media} {x : UInt32}
    (h : ((r.without u).publishers media).lookup u' = some x) : u' ≠ u ∧ (r.publishers media).lookup u' = some x := by
  have h : ((r.publishers media).erase u).lookup u' = some x := h
  by_cases hu : u' = u
  · rw [hu, AList.lookup_erase] at h
    cases h
  · exact ⟨hu, AList.lookup_erase_ne hu ▸ h⟩

/-! ### Registering a track -/

theorem publisher_withTrack {S : SessionInfo} {u : Int} {media : Media} :
    ((r.withTrack S u media).publishers media).lookup u = some r.nextSsrc := by
  simp only [withTrack, Function.update_self, AList.lookup_insert]

theorem publisher_withTrack_ne {S : SessionInfo} {u u' : Int} {media media' : Media} (h : u' ≠ u ∨ media' ≠ media) :
    ((r.withTrack S u media).publishers media').lookup u' = (r.publishers media').lookup u' := by
  unfold withTrack
  by_cases hmedia : media' = media
  · subst hmedia
    simp only [Function.update_self]
    exact AList.lookup_insert_ne (h.resolve_right fun hne => hne rfl)
  · simp only [Function.update_of_ne hmedia]

theorem mem_bindingsOf {S : SessionInfo} {u : Int} {i : Nat} {video audio : UInt32} {b : OutgoingTrackBinding} :
    b ∈ bindingsOf S u i video audio ↔ b = ⟨S, u, i, .video, video⟩ ∨ b = ⟨S, u, i, .audio, audio⟩ := by
  simp only [bindingsOf, List.mem_cons, List.not_mem_nil, or_false]

/-- If every publisher has a session, a new one gets all those that publish both media. -/
theorem existingBindings_some {S : SessionInfo} {u : Int} {l : List (Sigma fun _ : Int => UInt32)}
    (hl : ∀ e ∈ l, (r.sessionOf e.1).isSome) : ∃ tracks, r.existingBindings u S l = some tracks ∧ ∀ b, b ∈ tracks ↔
      ∃ e ∈ l, e.1 ≠ u ∧ ∃ audio T, (r.publishers .audio).lookup e.1 = some audio ∧ r.sessionOf e.1 = some T ∧
        b ∈ bindingsOf S e.1 T.instanceId e.2 audio := by
  induction l with
  | nil =>
    refine ⟨[], rfl, fun b => ⟨nofun, ?_⟩⟩
    rintro ⟨e, he, _⟩
    exact absurd he List.not_mem_nil
  | cons e l ih =>
    obtain ⟨tracks, htracks, hmem⟩ := ih fun e he => hl e (List.mem_cons_of_mem _ he)
    obtain ⟨uid, video⟩ := e
    -- Who is passed over adds nothing.
    have hskip : (uid = u ∨ (r.publishers .audio).lookup uid = none) → ∀ b, b ∈ tracks ↔
        ∃ e ∈ ⟨uid, video⟩ :: l, e.1 ≠ u ∧ ∃ audio T, (r.publishers .audio).lookup e.1 = some audio ∧
          r.sessionOf e.1 = some T ∧ b ∈ bindingsOf S e.1 T.instanceId e.2 audio := by
      intro hpassed b
      rw [hmem]
      constructor
      · rintro ⟨e, he, hrest⟩
        exact ⟨e, List.mem_cons_of_mem _ he, hrest⟩
      · rintro ⟨e, he, hne, audio, T, haudio, hrest⟩
        rcases List.mem_cons.mp he with rfl | he
        · rcases hpassed with hu | hnone
          · exact absurd hu hne
          · exact absurd (hnone.symm.trans haudio) nofun
        · exact ⟨e, he, hne, audio, T, haudio, hrest⟩
    unfold existingBindings
    split
    · next hu => exact ⟨tracks, htracks, hskip (.inl hu)⟩
    next hu =>
    split
    · next hnone => exact ⟨tracks, htracks, hskip (.inr hnone)⟩
    next audio haudio =>
    obtain ⟨T, hT⟩ := Option.isSome_iff_exists.mp (hl ⟨uid, video⟩ List.mem_cons_self)
    refine ⟨bindingsOf S uid T.instanceId video audio ++ tracks, ?_, fun b => ?_⟩
    · simp only [hT, htracks, Option.bind_some, Option.map_some]
    · rw [List.mem_append, hmem]
      constructor
      · rintro (hb | ⟨e, he, hrest⟩)
        · exact ⟨⟨uid, video⟩, List.mem_cons_self, hu, audio, T, haudio, hT, hb⟩
        · exact ⟨e, List.mem_cons_of_mem _ he, hrest⟩
      · rintro ⟨e, he, hne, audio', T', haudio', hT', hb⟩
        rcases List.mem_cons.mp he with rfl | he
        · cases haudio.symm.trans haudio'
          cases hT.symm.trans hT'
          exact .inl hb
        · exact .inr ⟨e, he, hne, audio', T', haudio', hT', hb⟩

/-- A binding of one member to another that publishes. -/
def Binds (r : MediaRoom) (b : OutgoingTrackBinding) : Prop :=
  ∃ uS T, r.sessionOf uS = some b.session ∧ r.sessionOf b.publisherUid = some T ∧ uS ≠ b.publisherUid ∧
    b.publisherSessionId = T.instanceId ∧ (r.publishers b.media).lookup b.publisherUid = some b.ssrc

/-- What the registration of a track comes to. -/
structure Registered (r : MediaRoom) (u : Int) (S : SessionInfo) (tracks : List OutgoingTrackBinding)
    (sessions : List SessionInfo) : Prop where
  binds : ∀ b ∈ tracks, r.Binds b
  complete : r.Full u → ∀ uS uT A B media x, r.sessionOf uS = some A → r.sessionOf uT = some B → uS ≠ uT →
    (uS = u ∧ r.Full uT ∨ uT = u) → (r.publishers media).lookup uT = some x →
      ⟨A, uT, B.instanceId, media, x⟩ ∈ tracks
  members : ∀ A ∈ sessions, ∃ u', r.sessionOf u' = some A

theorem sessionOf_withTrack {S : SessionInfo} {u u' : Int} {media : Media} :
    (r.withTrack S u media).sessionOf u' = r.sessionOf u' := rfl

theorem tracksToAdd_some {S : SessionInfo} {u : Int} (hS : r.sessionOf u = some S)
    (hpublisher : ∀ media u x, (r.publishers media).lookup u = some x → (r.sessionOf u).isSome) :
    ∃ tracks sessions, r.tracksToAdd S u = some (tracks, sessions) ∧ r.Registered u S tracks sessions := by
  unfold tracksToAdd
  split
  · next video audio hvideo haudio =>
    obtain ⟨forPublisher, heq, hmem⟩ := existingBindings_some (r := r) (S := S) (u := u)
      (l := (r.publishers .video).entries) fun e he => hpublisher .video e.1 e.2 (AList.mem_lookup_iff.mpr he)
    rw [heq]
    refine ⟨_, _, rfl, ⟨?_, ?_, ?_⟩⟩
    · intro b hb
      rcases List.mem_append.mp hb with hb | hb
      · obtain ⟨A, hA, hb⟩ := List.mem_flatMap.mp hb
        obtain ⟨uS, hne, hA⟩ := mem_others.mp hA
        rcases mem_bindingsOf.mp hb with rfl | rfl
        · exact ⟨uS, S, hA, hS, hne, rfl, hvideo⟩
        · exact ⟨uS, S, hA, hS, hne, rfl, haudio⟩
      · obtain ⟨e, he, hne, x, T, hx, hT, hb⟩ := (hmem b).mp hb
        rcases mem_bindingsOf.mp hb with rfl | rfl
        · exact ⟨u, T, hS, hT, hne.symm, rfl, AList.mem_lookup_iff.mpr he⟩
        · exact ⟨u, T, hS, hT, hne.symm, rfl, hx⟩
    · intro _ uS uT A B media x hA hB hne hpair hx
      refine List.mem_append.mpr ?_
      rcases hpair with ⟨rfl, hfull⟩ | rfl
      · obtain rfl : A = S := Option.some.inj (hA.symm.trans hS)
        obtain ⟨v, hv⟩ := Option.isSome_iff_exists.mp (hfull .video)
        obtain ⟨w, hw⟩ := Option.isSome_iff_exists.mp (hfull .audio)
        refine .inr ((hmem _).mpr ⟨⟨uT, v⟩, AList.mem_lookup_iff.mp hv, hne.symm, w, B, hw, hB, mem_bindingsOf.mpr ?_⟩)
        cases media with
        | video =>
          cases hx.symm.trans hv
          exact .inl rfl
        | audio =>
          cases hx.symm.trans hw
          exact .inr rfl
      · obtain rfl : B = S := Option.some.inj (hB.symm.trans hS)
        refine .inl (List.mem_flatMap.mpr ⟨A, mem_others.mpr ⟨uS, hne, hA⟩, mem_bindingsOf.mpr ?_⟩)
        cases media with
        | video =>
          cases hx.symm.trans hvideo
          exact .inl rfl
        | audio =>
          cases hx.symm.trans haudio
          exact .inr rfl
    · intro A hA
      rcases List.mem_append.mp hA with hA | hA
      · obtain ⟨u', _, hA⟩ := mem_others.mp hA
        exact ⟨u', hA⟩
      · split at hA
        · exact absurd hA List.not_mem_nil
        · rw [List.mem_singleton.mp hA]
          exact ⟨u, hS⟩
  · next hnot =>
    refine ⟨[], [], rfl, nofun, fun hfull => ?_, nofun⟩
    obtain ⟨video, hvideo⟩ := Option.isSome_iff_exists.mp (hfull .video)
    obtain ⟨audio, haudio⟩ := Option.isSome_iff_exists.mp (hfull .audio)
    exact absurd haudio (hnot video audio hvideo)

/-- A registration changes nothing, or gives a track its SSRC and says whom to connect. It never throws. -/
theorem registerPublisherTrack_cases {u : Int} {media : Media}
    (hpublisher : ∀ media u x, (r.publishers media).lookup u = some x → (r.sessionOf u).isSome) :
    r.registerPublisherTrack u media = (some ([], []), r) ∨
      ∃ S tracks sessions, r.sessionOf u = some S ∧ (r.publishers media).lookup u = none ∧
        r.registerPublisherTrack u media = (some (tracks, sessions), r.withTrack S u media) ∧
        (r.withTrack S u media).Registered u S tracks sessions := by
  unfold registerPublisherTrack
  split
  · exact .inl rfl
  next S hS =>
  split
  · exact .inl rfl
  next hnew =>
  have hpublisher' : ∀ media' u' x, ((r.withTrack S u media).publishers media').lookup u' = some x →
      ((r.withTrack S u media).sessionOf u').isSome := by
    intro media' u' x hx
    rw [sessionOf_withTrack]
    by_cases hu : u' = u
    · rw [hu, hS]
      rfl
    · rw [publisher_withTrack_ne (.inl hu)] at hx
      exact hpublisher media' u' x hx
  obtain ⟨tracks, sessions, heq, hregistered⟩ := tracksToAdd_some (r := r.withTrack S u media) hS hpublisher'
  refine .inr ⟨S, tracks, sessions, hS, Option.not_isSome_iff_eq_none.mp hnew, ?_, hregistered⟩
  simp only [heq]

end MediaRoom

/-! ## What holds at every section -/

variable {P : Type} {v v' : Memory P} {k : Nat}

/-- A publisher of another member's room has been given an SSRC. Once true, this stays true. -/
def Legit (v : Memory P) (S : SessionInfo) (media : Media) (u : Int) (i : Nat) (x : UInt32) : Prop :=
  u ≠ S.uid ∧ ∃ T s r, v.sessions i = some (T, s) ∧ T.uid = u ∧ T.room = S.room ∧ v.rooms S.room = some r ∧
    (i, media, x) ∈ r.registered

/-- An outgoing track is that of its session for its mid, and was made for a publisher that has its SSRC. -/
def Bound (v : Memory P) (S : SessionInfo) (media : Media) (u : Int) (o : OutgoingTrack) : Prop :=
  o.track = ⟨S.instanceId, trackMid media o.ssrc u⟩ ∧ Legit v S media u o.publisherSessionId o.ssrc

/-- SSRCs are given in turn. -/
structure Numbered (r : MediaRoom) : Prop where
  next : r.nextSsrc = 100000 + UInt32.ofNat r.registered.length
  given : ∀ newer i media x older, r.registered = newer ++ (i, media, x) :: older →
    x = 100000 + UInt32.ofNat older.length
  /-- A track gets one. -/
  once : ∀ i media x y, (i, media, x) ∈ r.registered → (i, media, y) ∈ r.registered → x = y

/-- As long as no number comes round, an SSRC was given once. -/
theorem Numbered.unique {r : MediaRoom} (h : Numbered r) (hlength : r.registered.length ≤ 2 ^ 32) {i j : Nat}
    {media media' : Media} {x : UInt32} (hi : (i, media, x) ∈ r.registered) (hj : (j, media', x) ∈ r.registered) :
    i = j ∧ media = media' := by
  obtain ⟨newer, older, hsplit⟩ := List.append_of_mem hi
  obtain ⟨newer', older', hsplit'⟩ := List.append_of_mem hj
  have hx := h.given newer i media x older hsplit
  have hx' := h.given newer' j media' x older' hsplit'
  have holder : older.length < 2 ^ 32 := by
    rw [hsplit, List.length_append, List.length_cons] at hlength
    omega
  have holder' : older'.length < 2 ^ 32 := by
    rw [hsplit', List.length_append, List.length_cons] at hlength
    omega
  have heq : older.length = older'.length := by
    have hofNat : UInt32.ofNat older.length = UInt32.ofNat older'.length :=
      UInt32.add_right_inj 100000 |>.mp (hx.symm.trans hx')
    have htoNat := congrArg UInt32.toNat hofNat
    rwa [UInt32.toNat_ofNat_of_lt' holder, UInt32.toNat_ofNat_of_lt' holder'] at htoNat
  have hlist : newer ++ (i, media, x) :: older = newer' ++ (j, media', x) :: older' := hsplit.symm.trans hsplit'
  have htail := List.append_inj_right' hlist (by rw [List.length_cons, List.length_cons, heq])
  obtain ⟨hhead, _⟩ := List.cons.inj htail
  cases hhead
  exact ⟨rfl, rfl⟩

/-- The rooms and sessions of a meeting. -/
structure Core (k : Nat) (v : Memory P) : Prop where
  room : ∀ {a r}, v.rooms a = some r → r.meetingId = k
  listed : ∀ {a}, v.meetings k = some a → ∃ r, v.rooms a = some r
  session : ∀ {i S s}, v.sessions i = some (S, s) →
    S.instanceId = i ∧ 0 < i ∧ S.meetingId = k ∧ ∃ r, v.rooms S.room = some r
  member : ∀ {a r u peer}, v.rooms a = some r → r.getPeer u = some peer → ∃ S s, peer.session = some S ∧
    S.uid = u ∧ S.room = a ∧ v.sessions S.instanceId = some (S, s)
  publisher : ∀ {a r media u x}, v.rooms a = some r → (r.publishers media).lookup u = some x →
    ∃ S, r.sessionOf u = some S ∧ (S.instanceId, media, x) ∈ r.registered
  registered : ∀ {a r i media x}, v.rooms a = some r → (i, media, x) ∈ r.registered → ∃ S s,
    v.sessions i = some (S, s) ∧ S.room = a ∧
      (r.sessionOf S.uid = some S → (r.publishers media).lookup S.uid = some x)
  numbered : ∀ {a r}, v.rooms a = some r → Numbered r
  bound : ∀ {i S s media u o}, v.sessions i = some (S, s) → (media, u, o) ∈ s.bindings → Bound v S media u o
  outgoing : ∀ {i S s media u o}, v.sessions i = some (S, s) → s.outgoing media u = some o →
    (media, u, o) ∈ s.bindings

namespace Core

variable {a : Nat} {r : MediaRoom} {S : SessionInfo}

theorem sessionOf (h : Core k v) (ha : v.rooms a = some r) {u : Int} (hS : r.sessionOf u = some S) :
    S.uid = u ∧ S.room = a ∧ ∃ s, v.sessions S.instanceId = some (S, s) := by
  obtain ⟨peer, hpeer, hsession⟩ := Option.bind_eq_some_iff.mp hS
  obtain ⟨S', s, hS', hu, hroom, hs⟩ := h.member ha hpeer
  cases hsession.symm.trans hS'
  exact ⟨hu, hroom, s, hs⟩

/-- A member has one SSRC for each media, and it is the one its room has. -/
theorem ssrc_eq (h : Core k v) (ha : v.rooms a = some r) {u : Int} (hS : r.sessionOf u = some S) {media : Media}
    {x : UInt32} (hx : (S.instanceId, media, x) ∈ r.registered) : (r.publishers media).lookup u = some x := by
  obtain ⟨hu, _, s, hs⟩ := h.sessionOf ha hS
  obtain ⟨S', s', hs', _, hlookup⟩ := h.registered ha hx
  cases hs.symm.trans hs'
  rw [← hu] at hS ⊢
  exact hlookup hS

end Core

/-- What there was of sessions and registrations is still there. -/
structure Extends (v v' : Memory P) : Prop where
  sessions : ∀ {i S s}, v.sessions i = some (S, s) → ∃ s', v'.sessions i = some (S, s')
  rooms : ∀ {a r}, v.rooms a = some r → ∃ r', v'.rooms a = some r' ∧ r.registered ⊆ r'.registered

theorem Legit.extend {S : SessionInfo} {media : Media} {u : Int} {i : Nat} {x : UInt32} (h : Legit v S media u i x)
    (hext : Extends v v') : Legit v' S media u i x := by
  obtain ⟨hne, T, s, r, hs, hu, hroom, hr, hmem⟩ := h
  obtain ⟨s', hs'⟩ := hext.sessions hs
  obtain ⟨r', hr', hsub⟩ := hext.rooms hr
  exact ⟨hne, T, s', r', hs', hu, hroom, hr', hsub hmem⟩

/-- A binding that may be made: its session is there, and its publisher has its SSRC. -/
def Makeable (v : Memory P) (b : OutgoingTrackBinding) : Prop :=
  (∃ s, v.sessions b.session.instanceId = some (b.session, s)) ∧
    Legit v b.session b.media b.publisherUid b.publisherSessionId b.ssrc

theorem Makeable.extend {b : OutgoingTrackBinding} (h : Makeable v b) (hext : Extends v v') : Makeable v' b := by
  obtain ⟨⟨s, hs⟩, hlegit⟩ := h
  exact ⟨hext.sessions hs, hlegit.extend hext⟩

/-- The mesh, but for the bindings that are still to be made and the tracks that are still to be dropped. -/
structure Meshed (v : Memory P) (pending : List OutgoingTrackBinding) (stale : SessionInfo → Int → Prop) : Prop where
  complete : ∀ {a r uS uT S T media x}, v.rooms a = some r → r.sessionOf uS = some S → r.sessionOf uT = some T →
    uS ≠ uT → r.Full uS → r.Full uT → (r.publishers media).lookup uT = some x →
      ⟨S, uT, T.instanceId, media, x⟩ ∈ pending ∨ ∃ s o, v.sessions S.instanceId = some (S, s) ∧
        s.outgoing media uT = some o ∧ o.publisherSessionId = T.instanceId ∧ o.ssrc = x
  current : ∀ {a r uS S s media u o}, v.rooms a = some r → r.sessionOf uS = some S →
    v.sessions S.instanceId = some (S, s) → s.outgoing media u = some o →
      stale S u ∨ ∃ T, r.sessionOf u = some T ∧ T.instanceId = o.publisherSessionId
  makeable : ∀ b ∈ pending, Makeable v b

/-- No track is to be dropped. -/
def noStale : SessionInfo → Int → Prop := fun _ _ => False

/-- What holds of the view of a meeting while a handler is between two sections. -/
structure Good (k : Nat) (v : Memory P) (pending : List OutgoingTrackBinding) (stale : SessionInfo → Int → Prop) :
    Prop where
  core : Core k v
  meshed : Meshed v pending stale

/-! ### Changes of a session -/

section

variable {i a : Nat} {S : SessionInfo} {s s' : MediaSession P} {r r' : MediaRoom}

theorem setSession_sessions {j : Nat} : (v.setSession i S s).sessions j = if j = i then some (S, s) else v.sessions j :=
  Function.update_apply _ _ _ _

theorem setRoom_rooms {b : Nat} : (v.setRoom a r).rooms b = if b = a then some r else v.rooms b :=
  Function.update_apply _ _ _ _

theorem extends_setSession (hs : v.sessions i = some (S, s)) : Extends v (v.setSession i S s') where
  sessions {j T t} ht := by
    rw [setSession_sessions]
    split
    · next hj =>
      subst hj
      cases hs.symm.trans ht
      exact ⟨s', rfl⟩
    · exact ⟨t, ht⟩
  rooms hr := ⟨_, hr, List.Subset.refl _⟩

theorem extends_setRoom (hsub : ∀ r, v.rooms a = some r → r.registered ⊆ r'.registered) :
    Extends v (v.setRoom a r') where
  sessions ht := ⟨_, ht⟩
  rooms {b q} hq := by
    rw [setRoom_rooms]
    split
    · next hb =>
      subst hb
      exact ⟨r', rfl, hsub q hq⟩
    · exact ⟨q, hq, List.Subset.refl _⟩

theorem subset_of_room (ha : v.rooms a = some r) (hsub : r.registered ⊆ r'.registered) :
    ∀ q, v.rooms a = some q → q.registered ⊆ r'.registered := by
  intro q hq
  cases ha.symm.trans hq
  exact hsub

/-- A session changes. -/
theorem Core.setSession (h : Core k v) (hs : v.sessions i = some (S, s))
    (hbound : ∀ {media u o}, (media, u, o) ∈ s'.bindings → Bound v S media u o)
    (houtgoing : ∀ {media u o}, s'.outgoing media u = some o → (media, u, o) ∈ s'.bindings) :
    Core k (v.setSession i S s') := by
  have hext : Extends v (v.setSession i S s') := extends_setSession hs
  have hget : ∀ {j T t}, (v.setSession i S s').sessions j = some (T, t) →
      (T = S ∧ t = s' ∧ j = i) ∨ v.sessions j = some (T, t) := by
    intro j T t ht
    rw [setSession_sessions] at ht
    split at ht
    · next hj =>
      cases ht
      exact .inl ⟨rfl, rfl, hj⟩
    · exact .inr ht
  refine ⟨h.room, h.listed, ?_, ?_, h.publisher, ?_, h.numbered, ?_, ?_⟩
  · intro j T t ht
    rcases hget ht with ⟨rfl, rfl, rfl⟩ | ht
    · exact h.session hs
    · exact h.session ht
  · intro a r u peer ha hpeer
    obtain ⟨T, t, hT, hu, hroom, ht⟩ := h.member ha hpeer
    obtain ⟨t', ht'⟩ := hext.sessions ht
    exact ⟨T, t', hT, hu, hroom, ht'⟩
  · intro a r j media x ha hx
    obtain ⟨T, t, ht, hroom, hlookup⟩ := h.registered ha hx
    obtain ⟨t', ht'⟩ := hext.sessions ht
    exact ⟨T, t', ht', hroom, hlookup⟩
  · intro j T t media u o ht ho
    have hold : Bound v T media u o := by
      rcases hget ht with ⟨rfl, rfl, rfl⟩ | ht
      · exact hbound ho
      · exact h.bound ht ho
    exact ⟨hold.1, hold.2.extend hext⟩
  · intro j T t media u o ht ho
    rcases hget ht with ⟨rfl, rfl, rfl⟩ | ht
    · exact houtgoing ho
    · exact h.outgoing ht ho

/-- A call that leaves the outgoing tracks of a session alone. -/
theorem Good.keepTracks {pending : List OutgoingTrackBinding} {stale : SessionInfo → Int → Prop}
    (h : Good k v pending stale) (hs : v.sessions i = some (S, s)) (hout : s'.outgoing = s.outgoing)
    (hbindings : s'.bindings = s.bindings) : Good k (v.setSession i S s') pending stale := by
  have hext : Extends v (v.setSession i S s') := extends_setSession hs
  refine ⟨h.core.setSession hs (fun ho => h.core.bound hs (hbindings ▸ ho)) (fun ho => ?_), ?_, ?_, ?_⟩
  · rw [hbindings]
    exact h.core.outgoing hs (hout ▸ ho)
  · intro a r uS uT A B media x ha hA hB hne hfullA hfullB hx
    refine (h.meshed.complete ha hA hB hne hfullA hfullB hx).imp id ?_
    rintro ⟨t, o, ht, ho, hrest⟩
    rw [setSession_sessions]
    split
    · next hi =>
      subst hi
      cases hs.symm.trans ht
      exact ⟨s', o, rfl, hout ▸ ho, hrest⟩
    · exact ⟨t, o, ht, ho, hrest⟩
  · intro a r uS A t media u o ha hA ht ho
    rw [setSession_sessions] at ht
    split at ht
    · next hi =>
      cases ht
      subst hi
      exact h.meshed.current ha hA hs (hout ▸ ho)
    · exact h.meshed.current ha hA ht ho
  · exact fun b hb => (h.meshed.makeable b hb).extend hext

/-- The tracks for one publisher are to be dropped from these sessions. -/
def staleFor (u : Int) (sessions : List SessionInfo) : SessionInfo → Int → Prop := fun S w => w = u ∧ S ∈ sessions

/-- A session drops its tracks for a publisher that has left its room. -/
theorem Good.dropTracks {pending : List OutgoingTrackBinding} {u : Int} {rest : List SessionInfo}
    (h : Good k v pending (staleFor u (S :: rest))) (hs : v.sessions S.instanceId = some (S, s))
    (ha : v.rooms S.room = some r) (hgone : r.sessionOf u = none) :
    Good k (v.setSession S.instanceId S (s.removeOutgoingTracks u)) pending (staleFor u rest) := by
  have hext : Extends v (v.setSession S.instanceId S (s.removeOutgoingTracks u)) := extends_setSession hs
  have hout : ∀ {media w}, w ≠ u → (s.removeOutgoingTracks u).outgoing media w = s.outgoing media w :=
    fun hw => Function.update_of_ne hw _ _
  have hnone : ∀ {media}, (s.removeOutgoingTracks u).outgoing media u = none := Function.update_self _ _ _
  refine ⟨h.core.setSession hs (fun ho => h.core.bound hs ho) (fun {media w o} ho => ?_), ?_, ?_, ?_⟩
  · by_cases hw : w = u
    · rw [hw, hnone] at ho
      cases ho
    · have hmem := h.core.outgoing hs (hout hw ▸ ho)
      exact hmem
  · intro b q uS uT A B media x hb hA hB hne hfullA hfullB hx
    refine (h.meshed.complete hb hA hB hne hfullA hfullB hx).imp id ?_
    rintro ⟨t, o, ht, ho, hrest⟩
    rw [setSession_sessions]
    split
    · next hi =>
      rw [hi, hs] at ht
      cases ht
      have hw : uT ≠ u := by
        rintro rfl
        obtain rfl : b = S.room := (h.core.sessionOf hb hA).2.1.symm
        cases ha.symm.trans hb
        exact absurd (hgone.symm.trans hB) nofun
      exact ⟨_, o, rfl, (hout hw).trans ho, hrest⟩
    · exact ⟨t, o, ht, ho, hrest⟩
  · intro b q uS A t media w o hb hA ht ho
    rw [setSession_sessions] at ht
    split at ht
    · cases ht
      have hw : w ≠ u := by
        rintro rfl
        rw [hnone] at ho
        cases ho
      rw [hout hw] at ho
      exact (h.meshed.current hb hA hs ho).elim (fun hstale => absurd hstale.1 hw) .inr
    · next hi =>
      refine (h.meshed.current hb hA ht ho).imp ?_ id
      rintro ⟨rfl, hmem⟩
      refine ⟨rfl, (List.mem_cons.mp hmem).resolve_left ?_⟩
      rintro rfl
      exact hi rfl
  · exact fun b hb => (h.meshed.makeable b hb).extend hext

/-- A binding is made, or there was one already. -/
theorem Good.addTrack {rtc : Rtc P} {b : OutgoingTrackBinding} {bs : List OutgoingTrackBinding} {uS : Int}
    {T : SessionInfo} (h : Good k v (b :: bs) noStale) (ha : v.rooms a = some r) (hS : r.sessionOf uS = some b.session)
    (hT : r.sessionOf b.publisherUid = some T) (hid : T.instanceId = b.publisherSessionId)
    (hs : v.sessions b.session.instanceId = some (b.session, s))
    (hthrew : (s.addOutgoingTrack rtc b.session.instanceId b.publisherUid b.publisherSessionId b.media b.ssrc).threw =
      false) : Good k (v.setSession b.session.instanceId b.session
        (s.addOutgoingTrack rtc b.session.instanceId b.publisherUid b.publisherSessionId b.media b.ssrc).session) bs
        noStale := by
  have hroom : b.session.room = a := (h.core.sessionOf ha hS).2.1
  unfold MediaSession.addOutgoingTrack at hthrew ⊢
  by_cases hold : (s.outgoing b.media b.publisherUid).isSome = true
  · -- An entry for this publisher is that of its current instance.
    rw [if_pos hold]
    obtain ⟨o, ho⟩ := Option.isSome_iff_exists.mp hold
    have hkeep : Good k (v.setSession b.session.instanceId b.session s) (b :: bs) noStale := h.keepTracks hs rfl rfl
    refine ⟨hkeep.core, ?_, hkeep.meshed.current, fun c hc => hkeep.meshed.makeable c (List.mem_cons_of_mem _ hc)⟩
    intro c q uA uB A B media x hc hA hB hne hfullA hfullB hx
    rcases hkeep.meshed.complete hc hA hB hne hfullA hfullB hx with hmem | hentry
    · refine (List.mem_cons.mp hmem).elim (fun heq => .inr ?_) .inl
      cases heq
      obtain rfl : c = a := (h.core.sessionOf hc hA).2.1.symm.trans hroom
      cases ha.symm.trans hc
      have hcurrent := (h.meshed.current ha hS hs ho).resolve_left id
      obtain ⟨T', hT', hid'⟩ := hcurrent
      cases hT.symm.trans hT'
      obtain ⟨_, hlegit⟩ := h.core.bound hs (h.core.outgoing hs ho)
      obtain ⟨_, _, _, q', _, _, _, hq', hregistered⟩ := hlegit
      rw [hroom] at hq'
      cases ha.symm.trans hq'
      rw [← hid'] at hregistered
      have hssrc := h.core.ssrc_eq ha hT hregistered
      refine ⟨s, o, ?_, ho, hid'.symm.trans hid, Option.some.inj (hssrc.symm.trans hx)⟩
      rw [setSession_sessions, if_pos rfl]
    · exact .inr hentry
  · rw [if_neg hold] at hthrew ⊢
    have hold : s.outgoing b.media b.publisherUid = none := Option.not_isSome_iff_eq_none.mp hold
    dsimp only at hthrew ⊢
    cases hadd : rtc.addTrack s.connection b.media (trackMid b.media b.ssrc b.publisherUid) b.ssrc with
    | none =>
      rw [hadd] at hthrew
      cases hthrew
    | some connection =>
      dsimp only
      let o : OutgoingTrack :=
        ⟨⟨b.session.instanceId, trackMid b.media b.ssrc b.publisherUid⟩, b.ssrc, b.publisherSessionId⟩
      let s' : MediaSession P := { s with
        connection := connection
        outgoing := Function.update s.outgoing b.media
          (Function.update (s.outgoing b.media) b.publisherUid (some o))
        bindings := (b.media, b.publisherUid, o) :: s.bindings }
      have hself : s'.outgoing b.media b.publisherUid = some o := by
        simp only [s', Function.update_self]
      have hother : ∀ {media w}, ¬ (media = b.media ∧ w = b.publisherUid) → s'.outgoing media w = s.outgoing media w := by
        intro media w hne
        by_cases hmedia : media = b.media
        · subst hmedia
          simp only [s', Function.update_self]
          exact Function.update_of_ne (fun hw => hne ⟨rfl, hw⟩) _ _
        · simp only [s', Function.update_of_ne hmedia]
      have hext : Extends v (v.setSession b.session.instanceId b.session s') := extends_setSession hs
      have hbound : ∀ {media w o'}, (media, w, o') ∈ s'.bindings → Bound v b.session media w o' := by
        intro media w o' ho
        rcases List.mem_cons.mp ho with heq | ho
        · cases heq
          exact ⟨rfl, (h.meshed.makeable b List.mem_cons_self).2⟩
        · exact h.core.bound hs ho
      have houtgoing : ∀ {media w o'}, s'.outgoing media w = some o' → (media, w, o') ∈ s'.bindings := by
        intro media w o' ho
        by_cases heq : media = b.media ∧ w = b.publisherUid
        · obtain ⟨rfl, rfl⟩ := heq
          cases hself.symm.trans ho
          exact List.mem_cons_self
        · exact List.mem_cons_of_mem _ (h.core.outgoing hs (hother heq ▸ ho))
      refine ⟨h.core.setSession hs hbound houtgoing, ?_, ?_, ?_⟩
      · intro c q uA uB A B media x hc hA hB hne hfullA hfullB hx
        rcases h.meshed.complete hc hA hB hne hfullA hfullB hx with hmem | ⟨t, o', ht, ho', hrest⟩
        · refine (List.mem_cons.mp hmem).elim (fun heq => .inr ?_) .inl
          cases heq
          exact ⟨s', o, (setSession_sessions.trans (if_pos rfl)), hself, rfl, rfl⟩
        · refine .inr ?_
          rw [setSession_sessions]
          split
          · next hi =>
            rw [hi, hs] at ht
            cases ht
            refine ⟨s', o', rfl, (hother ?_).trans ho', hrest⟩
            rintro ⟨rfl, rfl⟩
            exact absurd (hold.symm.trans ho') nofun
          · exact ⟨t, o', ht, ho', hrest⟩
      · intro c q uA A t media w o' hc hA ht ho'
        rw [setSession_sessions] at ht
        split at ht
        · cases ht
          by_cases heq : media = b.media ∧ w = b.publisherUid
          · obtain ⟨rfl, rfl⟩ := heq
            cases hself.symm.trans ho'
            obtain rfl : c = a := (h.core.sessionOf hc hA).2.1.symm.trans hroom
            cases ha.symm.trans hc
            exact .inr ⟨T, hT, hid⟩
          · exact h.meshed.current hc hA hs (hother heq ▸ ho')
        · exact h.meshed.current hc hA ht ho'
      · exact fun c hc => (h.meshed.makeable c (List.mem_cons_of_mem _ hc)).extend hext

/-! ### Changes of a room -/

/-- A room changes, or is made. -/
theorem Core.setRoom (h : Core k v) (hsub : ∀ r, v.rooms a = some r → r.registered ⊆ r'.registered)
    (hmeeting : r'.meetingId = k)
    (hmember : ∀ {u peer}, r'.getPeer u = some peer → ∃ S s, peer.session = some S ∧ S.uid = u ∧ S.room = a ∧
      v.sessions S.instanceId = some (S, s))
    (hpublisher : ∀ {media u x}, (r'.publishers media).lookup u = some x →
      ∃ S, r'.sessionOf u = some S ∧ (S.instanceId, media, x) ∈ r'.registered)
    (hregistered : ∀ {i media x}, (i, media, x) ∈ r'.registered → ∃ S s, v.sessions i = some (S, s) ∧ S.room = a ∧
      (r'.sessionOf S.uid = some S → (r'.publishers media).lookup S.uid = some x))
    (hnumbered : Numbered r') : Core k (v.setRoom a r') := by
  have hext : Extends v (v.setRoom a r') := extends_setRoom hsub
  have hget : ∀ {b q}, (v.setRoom a r').rooms b = some q → (b = a ∧ q = r') ∨ v.rooms b = some q := by
    intro b q hq
    rw [setRoom_rooms] at hq
    split at hq
    · next hb =>
      cases hq
      exact .inl ⟨hb, rfl⟩
    · exact .inr hq
  refine ⟨?_, ?_, ?_, ?_, ?_, ?_, ?_, ?_, h.outgoing⟩
  · intro b q hq
    rcases hget hq with ⟨rfl, rfl⟩ | hq
    · exact hmeeting
    · exact h.room hq
  · intro b hb
    obtain ⟨q, hq⟩ := h.listed hb
    obtain ⟨q', hq', _⟩ := hext.rooms hq
    exact ⟨q', hq'⟩
  · intro i S s hs
    obtain ⟨hi, hpos, hk, q, hq⟩ := h.session hs
    obtain ⟨q', hq', _⟩ := hext.rooms hq
    exact ⟨hi, hpos, hk, q', hq'⟩
  · intro b q u peer hq hpeer
    rcases hget hq with ⟨rfl, rfl⟩ | hq
    · exact hmember hpeer
    · exact h.member hq hpeer
  · intro b q media u x hq hx
    rcases hget hq with ⟨rfl, rfl⟩ | hq
    · exact hpublisher hx
    · exact h.publisher hq hx
  · intro b q i media x hq hx
    rcases hget hq with ⟨rfl, rfl⟩ | hq
    · exact hregistered hx
    · exact h.registered hq hx
  · intro b q hq
    rcases hget hq with ⟨rfl, rfl⟩ | hq
    · exact hnumbered
    · exact h.numbered hq
  · intro i S s media u o hs ho
    have hold := h.bound hs ho
    exact ⟨hold.1, hold.2.extend hext⟩

/-- The mesh of the other rooms does not change with a room. -/
theorem Meshed.setRoom {pending pending' : List OutgoingTrackBinding} {stale stale' : SessionInfo → Int → Prop}
    (h : Meshed v pending stale) (hpending : pending ⊆ pending') (hstale : ∀ S u, stale S u → stale' S u)
    (hcomplete : ∀ {uS uT S T media x}, r'.sessionOf uS = some S → r'.sessionOf uT = some T → uS ≠ uT →
      r'.Full uS → r'.Full uT → (r'.publishers media).lookup uT = some x →
        ⟨S, uT, T.instanceId, media, x⟩ ∈ pending' ∨ ∃ s o, v.sessions S.instanceId = some (S, s) ∧
          s.outgoing media uT = some o ∧ o.publisherSessionId = T.instanceId ∧ o.ssrc = x)
    (hcurrent : ∀ {uS S s media u o}, r'.sessionOf uS = some S → v.sessions S.instanceId = some (S, s) →
      s.outgoing media u = some o → stale' S u ∨ ∃ T, r'.sessionOf u = some T ∧ T.instanceId = o.publisherSessionId)
    (hmakeable : ∀ b ∈ pending', Makeable (v.setRoom a r') b) : Meshed (v.setRoom a r') pending' stale' := by
  have hget : ∀ {b q}, (v.setRoom a r').rooms b = some q → q = r' ∨ v.rooms b = some q := by
    intro b q hq
    rw [setRoom_rooms] at hq
    split at hq
    · cases hq
      exact .inl rfl
    · exact .inr hq
  refine ⟨?_, ?_, hmakeable⟩
  · intro b q uS uT S T media x hq hS hT hne hfullS hfullT hx
    rcases hget hq with rfl | hq
    · exact hcomplete hS hT hne hfullS hfullT hx
    · exact (h.complete hq hS hT hne hfullS hfullT hx).imp (fun hmem => hpending hmem) id
  · intro b q uS S s media u o hq hS hs ho
    rcases hget hq with rfl | hq
    · exact hcurrent hS hs ho
    · exact (h.current hq hS hs ho).imp (hstale S u) id

/-- A member leaves; the others still have its tracks. -/
theorem Good.without {pending : List OutgoingTrackBinding} (h : Good k v pending noStale) (ha : v.rooms a = some r)
    (u : Int) : Good k (v.setRoom a (r.without u)) pending
      (staleFor u ((r.without u).memberSessions.map Prod.snd)) := by
  have hfull : ∀ {w}, (r.without u).Full w → r.Full w := by
    intro w hw media
    obtain ⟨x, hx⟩ := Option.isSome_iff_exists.mp (hw media)
    rw [(MediaRoom.publisher_of_without hx).2]
    rfl
  have hsub : ∀ q, v.rooms a = some q → q.registered ⊆ (r.without u).registered :=
    subset_of_room ha (List.Subset.refl _)
  have hext : Extends v (v.setRoom a (r.without u)) := extends_setRoom hsub
  have hmeeting := h.core.room ha
  refine ⟨h.core.setRoom hsub hmeeting ?_ ?_ ?_ ?_,
    h.meshed.setRoom (List.Subset.refl _) (fun _ _ => False.elim) ?_ ?_ ?_⟩
  · intro w peer hpeer
    have hpeer : (r.peers.erase u).lookup w = some peer := hpeer
    by_cases hw : w = u
    · rw [hw, AList.lookup_erase] at hpeer
      cases hpeer
    · rw [AList.lookup_erase_ne hw] at hpeer
      exact h.core.member ha hpeer
  · intro media w x hx
    obtain ⟨hw, hx⟩ := MediaRoom.publisher_of_without hx
    obtain ⟨S, hS, hmem⟩ := h.core.publisher ha hx
    exact ⟨S, (MediaRoom.sessionOf_without_ne hw).trans hS, hmem⟩
  · intro i media x hx
    obtain ⟨S, s, hs, hroom, hlookup⟩ := h.core.registered ha hx
    refine ⟨S, s, hs, hroom, fun hS => ?_⟩
    obtain ⟨hw, hS⟩ := MediaRoom.sessionOf_of_without hS
    exact (AList.lookup_erase_ne hw).trans (hlookup hS)
  · exact { h.core.numbered ha with }
  · intro uS uT S T media x hS hT hne hfullS hfullT hx
    exact h.meshed.complete ha (MediaRoom.sessionOf_of_without hS).2 (MediaRoom.sessionOf_of_without hT).2 hne
      (hfull hfullS) (hfull hfullT) (MediaRoom.publisher_of_without hx).2
  · intro uS S s media w o hS hs ho
    obtain ⟨T, hT, hid⟩ := (h.meshed.current ha (MediaRoom.sessionOf_of_without hS).2 hs ho).resolve_left id
    by_cases hw : w = u
    · exact .inl ⟨hw, MediaRoom.mem_sessions.mpr ⟨uS, hS⟩⟩
    · exact .inr ⟨T, (MediaRoom.sessionOf_without_ne hw).trans hT, hid⟩
  · exact fun b hb => (h.meshed.makeable b hb).extend hext

/-- A session joins that has no tracks yet, in the place of nobody. -/
theorem Good.addPeer {u : Int} (h : Good k v [] noStale) (ha : v.rooms a = some r) (hnone : r.sessionOf u = none)
    (hs : v.sessions S.instanceId = some (S, s)) (hu : S.uid = u) (hroom : S.room = a)
    (hout : ∀ media w, s.outgoing media w = none) (hnew : ∀ media x, (S.instanceId, media, x) ∉ r.registered) :
    Good k (v.setRoom a (r.addPeer ⟨u, some S⟩)) [] noStale := by
  have hself : (r.addPeer ⟨u, some S⟩).sessionOf u = some S := MediaRoom.sessionOf_addPeer
  have hother : ∀ {w}, w ≠ u → (r.addPeer ⟨u, some S⟩).sessionOf w = r.sessionOf w :=
    fun hw => MediaRoom.sessionOf_addPeer_ne hw
  -- Whoever publishes was a member before.
  have hpublishes : ∀ {media w x}, (r.publishers media).lookup w = some x → w ≠ u := by
    rintro media w x hx rfl
    obtain ⟨T, hT, _⟩ := h.core.publisher ha hx
    exact absurd (hnone.symm.trans hT) nofun
  have hmeeting := h.core.room ha
  have hsub : ∀ q, v.rooms a = some q → q.registered ⊆ (r.addPeer ⟨u, some S⟩).registered :=
    subset_of_room ha (List.Subset.refl _)
  refine ⟨h.core.setRoom hsub hmeeting ?_ ?_ ?_ ?_,
    h.meshed.setRoom (List.Subset.refl _) (fun _ _ => id) ?_ ?_ nofun⟩
  · intro w peer hpeer
    have hpeer : (r.peers.insert u ⟨u, some S⟩).lookup w = some peer := hpeer
    by_cases hw : w = u
    · rw [hw, AList.lookup_insert] at hpeer
      cases hpeer
      exact ⟨S, s, rfl, hu.trans hw.symm, hroom, hs⟩
    · rw [AList.lookup_insert_ne hw] at hpeer
      exact h.core.member ha hpeer
  · intro media w x hx
    obtain ⟨T, hT, hmem⟩ := h.core.publisher ha hx
    exact ⟨T, (hother (hpublishes hx)).trans hT, hmem⟩
  · intro i media x hx
    obtain ⟨T, t, ht, htroom, hlookup⟩ := h.core.registered ha hx
    refine ⟨T, t, ht, htroom, fun hT => ?_⟩
    by_cases hw : T.uid = u
    · rw [hw, hself] at hT
      cases hT
      have hi := (h.core.session ht).1
      exact absurd hx (hi ▸ hnew media x)
    · exact hlookup (hother hw ▸ hT)
  · exact { h.core.numbered ha with }
  · intro uS uT A B media x hA hB hne hfullA hfullB hx
    obtain ⟨y, hy⟩ := Option.isSome_iff_exists.mp (hfullA .video)
    rw [hother (hpublishes hy)] at hA
    rw [hother (hpublishes hx)] at hB
    exact h.meshed.complete ha hA hB hne hfullA hfullB hx
  · intro uS A t media w o hA ht ho
    by_cases hw : uS = u
    · rw [hw, hself] at hA
      cases hA
      cases hs.symm.trans ht
      exact absurd ((hout media w).symm.trans ho) nofun
    · rw [hother hw] at hA
      obtain ⟨T, hT, hid⟩ := (h.meshed.current ha hA ht ho).resolve_left id
      have hne : w ≠ u := by
        rintro rfl
        exact absurd (hnone.symm.trans hT) nofun
      exact .inr ⟨T, (hother hne).trans hT, hid⟩

theorem Numbered.withTrack (h : Numbered r) (u : Int) {media : Media}
    (hnew : ∀ x, (S.instanceId, media, x) ∉ r.registered) : Numbered (r.withTrack S u media) := by
  refine ⟨?_, ?_, ?_⟩
  · have hlength : (r.withTrack S u media).registered.length = r.registered.length + 1 := List.length_cons
    rw [hlength, UInt32.ofNat_add, ← UInt32.add_assoc, ← h.next]
    rfl
  · intro newer i media' x older heq
    cases newer with
    | nil =>
      cases heq
      exact h.next
    | cons e newer =>
      have heq : r.registered = newer ++ (i, media', x) :: older := (List.cons.inj heq).2
      exact h.given newer i media' x older heq
  · intro i media' x y hx hy
    rcases List.mem_cons.mp hx with heqx | hx
    · cases heqx
      rcases List.mem_cons.mp hy with heqy | hy
      · cases heqy
        rfl
      · exact absurd hy (hnew y)
    · rcases List.mem_cons.mp hy with heqy | hy
      · cases heqy
        exact absurd hx (hnew x)
      · exact h.once i media' x y hx hy

/-- A track of a member gets its SSRC; the tracks that follow from it are still to be made. -/
theorem Good.withTrack {u : Int} {media : Media} {tracks : List OutgoingTrackBinding} {sessions : List SessionInfo}
    (h : Good k v [] noStale) (ha : v.rooms a = some r) (hS : r.sessionOf u = some S)
    (hnew : (r.publishers media).lookup u = none) (htracks : (r.withTrack S u media).Registered u S tracks sessions) :
    Good k (v.setRoom a (r.withTrack S u media)) tracks noStale := by
  have hsub : ∀ q, v.rooms a = some q → q.registered ⊆ (r.withTrack S u media).registered :=
    subset_of_room ha fun _ hx => List.mem_cons_of_mem _ hx
  have hkeeps : ∀ {media' w x}, (r.publishers media').lookup w = some x →
      ((r.withTrack S u media).publishers media').lookup w = some x := by
    intro media' w x hx
    refine (MediaRoom.publisher_withTrack_ne ?_).trans hx
    by_contra hsame
    simp only [not_or, not_not] at hsame
    rw [hsame.1, hsame.2, hnew] at hx
    cases hx
  have hunregistered : ∀ x, (S.instanceId, media, x) ∉ r.registered := by
    intro x hx
    exact absurd (hnew.symm.trans (h.core.ssrc_eq ha hS hx)) nofun
  have hcore : Core k (v.setRoom a (r.withTrack S u media)) := by
    have hmeeting := h.core.room ha
    refine h.core.setRoom hsub hmeeting (fun hpeer => h.core.member ha hpeer) ?_ ?_
      ((h.core.numbered ha).withTrack u hunregistered)
    · intro media' w x hx
      by_cases hsame : w = u ∧ media' = media
      · obtain ⟨rfl, rfl⟩ := hsame
        rw [MediaRoom.publisher_withTrack] at hx
        cases hx
        exact ⟨S, hS, List.mem_cons_self⟩
      · rw [MediaRoom.publisher_withTrack_ne (not_and_or.mp hsame)] at hx
        obtain ⟨T, hT, hmem⟩ := h.core.publisher ha hx
        exact ⟨T, hT, List.mem_cons_of_mem _ hmem⟩
    · intro i media' x hx
      rcases List.mem_cons.mp hx with heq | hx
      · cases heq
        obtain ⟨hu, hroom, s, hs⟩ := h.core.sessionOf ha hS
        refine ⟨S, s, hs, hroom, fun _ => ?_⟩
        rw [hu]
        exact MediaRoom.publisher_withTrack
      · obtain ⟨T, t, ht, hroom, hlookup⟩ := h.core.registered ha hx
        exact ⟨T, t, ht, hroom, fun hT => hkeeps (hlookup hT)⟩
  refine ⟨hcore, h.meshed.setRoom (List.nil_subset _) (fun _ _ => id) ?_ ?_ ?_⟩
  · intro uS uT A B media' x hA hB hne hfullA hfullB hx
    by_cases huS : uS = u
    · subst huS
      exact .inl (htracks.complete hfullA _ _ _ _ _ _ hA hB hne (.inl ⟨rfl, hfullB⟩) hx)
    by_cases huT : uT = u
    · subst huT
      exact .inl (htracks.complete hfullB _ _ _ _ _ _ hA hB hne (.inr rfl) hx)
    -- The others were connected before.
    have hfull : ∀ {w}, w ≠ u → (r.withTrack S u media).Full w → r.Full w := by
      intro w hw hfull media''
      rw [← MediaRoom.publisher_withTrack_ne (.inl hw)]
      exact hfull media''
    rw [MediaRoom.publisher_withTrack_ne (.inl huT)] at hx
    refine (h.meshed.complete ha hA hB hne (hfull huS hfullA) (hfull huT hfullB) hx).imp ?_ id
    exact fun hmem => absurd hmem List.not_mem_nil
  · intro uS A s media' w o hA hs ho
    have hA : r.sessionOf uS = some A := hA
    have hold := h.meshed.current ha hA hs ho
    exact hold
  · intro b hb
    obtain ⟨uS, T, hA, hT, hne, hid, hx⟩ := htracks.binds b hb
    have hr' : (v.setRoom a (r.withTrack S u media)).rooms a = some (r.withTrack S u media) := by
      rw [setRoom_rooms, if_pos rfl]
    obtain ⟨hu, hroom, s, hs⟩ := hcore.sessionOf hr' hA
    obtain ⟨huT, hroomT, t, ht⟩ := hcore.sessionOf hr' hT
    obtain ⟨T', hT', hmem⟩ := hcore.publisher hr' hx
    cases hT.symm.trans hT'
    refine ⟨⟨s, hs⟩, ?_, T, t, _, ?_, huT, hroomT.trans hroom.symm, by rw [hroom]; exact hr', ?_⟩
    · rw [hu]
      exact hne.symm
    · rw [hid]
      exact ht
    · rw [hid]
      exact hmem

/-- A room is made. -/
theorem Good.addRoom (h : Good k v [] noStale) (hfree : v.rooms a = none) :
    Good k ((v.setRoom a { meetingId := k }).setMeeting k (some a)) [] noStale := by
  have hnobody : ∀ {w}, MediaRoom.sessionOf { meetingId := k } w = none := rfl
  have hcore : Core k (v.setRoom a { meetingId := k }) := by
    refine h.core.setRoom (fun r ha => absurd (hfree.symm.trans ha) nofun) rfl ?_ ?_ ?_ ?_
    · exact fun hpeer => absurd hpeer nofun
    · exact fun hx => absurd hx nofun
    · exact fun hx => absurd hx List.not_mem_nil
    · exact ⟨rfl, fun newer i media x older heq => absurd heq (by simp), fun _ _ _ _ hx => absurd hx List.not_mem_nil⟩
  have hmeshed : Meshed (v.setRoom a { meetingId := k }) [] noStale := by
    refine h.meshed.setRoom (List.Subset.refl _) (fun _ _ => id) ?_ ?_ nofun
    · exact fun hS => absurd (hnobody.symm.trans hS) nofun
    · exact fun hS => absurd (hnobody.symm.trans hS) nofun
  refine ⟨{ hcore with listed := fun {b} hb => ?_ }, { hmeshed with }⟩
  have hb : Function.update v.meetings k (some a) k = some b := hb
  rw [Function.update_self] at hb
  cases hb
  exact ⟨_, setRoom_rooms.trans (if_pos rfl)⟩

/-- An empty room is taken out. -/
theorem Good.dropRoom (h : Good k v [] noStale) : Good k (v.setMeeting k none) [] noStale := by
  refine ⟨{ h.core with listed := fun {b} hb => ?_ }, { h.meshed with }⟩
  have hb : Function.update v.meetings k none k = some b := hb
  rw [Function.update_self] at hb
  cases hb

/-- A session is made, that is nobody's yet. -/
theorem Good.addSession {connection : P} (h : Good k v [] noStale) (hfree : v.sessions i = none)
    (hi : S.instanceId = i) (hpos : 0 < i) (hk : S.meetingId = k) (hroom : ∃ r, v.rooms S.room = some r) :
    Good k (v.setSession i S { connection := connection }) [] noStale := by
  have hget : ∀ {j T t}, (v.setSession i S { connection := connection }).sessions j = some (T, t) →
      (T = S ∧ t = { connection := connection } ∧ j = i) ∨ v.sessions j = some (T, t) := by
    intro j T t ht
    rw [setSession_sessions] at ht
    split at ht
    · next hj =>
      cases ht
      exact .inl ⟨rfl, rfl, hj⟩
    · exact .inr ht
  have hkeep : ∀ {j p}, v.sessions j = some p →
      (v.setSession i S { connection := connection }).sessions j = some p := by
    intro j p hp
    rw [setSession_sessions, if_neg]
    · exact hp
    · rintro rfl
      exact absurd (hfree.symm.trans hp) nofun
  have hext : Extends v (v.setSession i S { connection := connection }) :=
    ⟨fun hs => ⟨_, hkeep hs⟩, fun hr => ⟨_, hr, List.Subset.refl _⟩⟩
  refine ⟨⟨h.core.room, h.core.listed, ?_, ?_, h.core.publisher, ?_, h.core.numbered, ?_, ?_⟩, ?_, ?_, nofun⟩
  · intro j T t ht
    rcases hget ht with ⟨rfl, rfl, rfl⟩ | ht
    · exact ⟨hi, hpos, hk, hroom⟩
    · exact h.core.session ht
  · intro b q u peer hb hpeer
    obtain ⟨T, t, hT, hu, hb, ht⟩ := h.core.member hb hpeer
    exact ⟨T, t, hT, hu, hb, hkeep ht⟩
  · intro b q j media x hb hx
    obtain ⟨T, t, ht, hrest⟩ := h.core.registered hb hx
    exact ⟨T, t, hkeep ht, hrest⟩
  · intro j T t media u o ht ho
    rcases hget ht with ⟨rfl, rfl, rfl⟩ | ht
    · exact absurd ho List.not_mem_nil
    · have hold := h.core.bound ht ho
      exact ⟨hold.1, hold.2.extend hext⟩
  · intro j T t media u o ht ho
    rcases hget ht with ⟨rfl, rfl, rfl⟩ | ht
    · exact absurd ho nofun
    · exact h.core.outgoing ht ho
  · intro b q uS uT A B media x hb hA hB hne hfullA hfullB hx
    refine (h.meshed.complete hb hA hB hne hfullA hfullB hx).imp id ?_
    rintro ⟨t, o, ht, hrest⟩
    exact ⟨t, o, hkeep ht, hrest⟩
  · intro b q uS A t media w o hb hA ht ho
    obtain ⟨_, _, t', ht'⟩ := h.core.sessionOf hb hA
    cases (hkeep ht').symm.trans ht
    exact h.meshed.current hb hA ht' ho

/-- A binding one of whose ends has left need not be made. -/
theorem Good.dropBinding {b : OutgoingTrackBinding} {bs : List OutgoingTrackBinding} (h : Good k v (b :: bs) noStale)
    (ha : v.rooms b.session.room = some r) (hgone : r.sessionOf b.session.uid = some b.session →
      ∀ T, r.sessionOf b.publisherUid = some T → T.instanceId ≠ b.publisherSessionId) : Good k v bs noStale := by
  refine ⟨h.core, ?_, h.meshed.current, fun c hc => h.meshed.makeable c (List.mem_cons_of_mem _ hc)⟩
  intro c q uA uB A B media x hc hA hB hne hfullA hfullB hx
  refine (h.meshed.complete hc hA hB hne hfullA hfullB hx).imp (fun hmem => ?_) id
  refine (List.mem_cons.mp hmem).resolve_left fun heq => ?_
  subst heq
  obtain ⟨rfl, rfl, _⟩ := h.core.sessionOf hc hA
  cases ha.symm.trans hc
  exact hgone hA B hB rfl

end

end SyncRtc.MediaServer
