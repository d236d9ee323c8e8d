import SyncRtc.MediaServer.LogicSystem

/-!
# The handlers of one meeting, whatever the others do

A handler only touches the rooms and sessions of its own meeting. What it sees of the memory, its **view**, is therefore
changed by nobody else while it runs, and a handler is verified over views alone: `machine` says what a section does to
the view of its own meeting, and asks at every section that it touches nothing else. From this, `running_of_reachable`
is the rule for the whole server: what every handler keeps of the view of its meeting holds whenever no handler runs
there.
-/

set_option autoImplicit false

namespace SyncRtc.MediaServer

variable {P : Type} (rtc : Rtc P)

namespace Memory

/-- What belongs to a meeting. -/
def view (k : Nat) (m : Memory P) : Memory P where
  meetings k' := if k' = k then m.meetings k' else none
  rooms room := (m.rooms room).filter fun r => decide (r.meetingId = k)
  sessions i := (m.sessions i).filter fun s => decide (s.1.meetingId = k)

/-- Addresses and instance ids that are to come are free. -/
structure Fresh (m : Memory P) : Prop where
  rooms : ∀ room, m.nextRoom ≤ room → m.rooms room = none
  sessions : ∀ i, m.nextSessionId ≤ i → m.sessions i = none
  positive : 0 < m.nextSessionId

/-- What a section touches belongs to the meeting of the view. -/
def Within (k : Nat) (v : Memory P) : Section → Prop
  | .findRoom meetingId => meetingId = k
  | .findOrAddRoom meetingId => meetingId = k
  | .dropRoom room => (v.rooms room).isSome
  | .isStopped _ => True
  | .getPeer room _ => (v.rooms room).isSome
  | .addPeer room _ => (v.rooms room).isSome
  | .removePeer room _ _ => (v.rooms room).isSome
  | .peerCount room => (v.rooms room).isSome
  | .getSessionsForConnection room _ => (v.rooms room).isSome
  | .registerPublisherTrack room _ _ => (v.rooms room).isSome
  | .createSession room request _ => request.meetingId = k ∧ (v.rooms room).isSome
  | .setRemoteOffer session _ => (v.sessions session.instanceId).isSome
  | .setRemoteAnswer session _ => (v.sessions session.instanceId).isSome
  | .addRemoteCandidate session _ _ => (v.sessions session.instanceId).isSome
  | .requestRenegotiation session => (v.sessions session.instanceId).isSome
  | .addOutgoingTrack binding => (v.sessions binding.session.instanceId).isSome
  | .removeOutgoingTracks session _ => (v.sessions session.instanceId).isSome
  | .send _ _ => True

variable {m : Memory P} {k k' room i : Nat} {r : MediaRoom} {info : SessionInfo} {s : MediaSession P}

theorem view_rooms : (m.view k).rooms room = some r ↔ m.rooms room = some r ∧ r.meetingId = k := by
  simp only [view, Option.filter_eq_some_iff, decide_eq_true_eq]

theorem view_sessions : (m.view k).sessions i = some (info, s) ↔ m.sessions i = some (info, s) ∧ info.meetingId = k := by
  simp only [view, Option.filter_eq_some_iff, decide_eq_true_eq]

theorem view_meetings : (m.view k).meetings k = m.meetings k := if_pos rfl

/-- Two memories that agree on what belongs to a meeting. -/
theorem view_congr {m' : Memory P} (hmeetings : m'.meetings k = m.meetings k)
    (hrooms : ∀ room, (m'.rooms room).filter (fun r => decide (r.meetingId = k)) =
      (m.rooms room).filter fun r => decide (r.meetingId = k))
    (hsessions : ∀ i, (m'.sessions i).filter (fun s => decide (s.1.meetingId = k)) =
      (m.sessions i).filter fun s => decide (s.1.meetingId = k)) : m'.view k = m.view k := by
  have hm : (m'.view k).meetings = (m.view k).meetings := by
    funext j
    simp only [view]
    split
    · next hj => rw [hj, hmeetings]
    · rfl
  have hr : (m'.view k).rooms = (m.view k).rooms := funext hrooms
  have hs : (m'.view k).sessions = (m.view k).sessions := funext hsessions
  simp only [view] at hm hr hs ⊢
  rw [hm, hr, hs]

/-! ## Sections of a room -/

/-- What is done to a room of the meeting is done to it in the view. -/
theorem view_setRoom (hr : r.meetingId = k) : (m.setRoom room r).view k = (m.view k).setRoom room r := by
  have hrooms : ((m.setRoom room r).view k).rooms = ((m.view k).setRoom room r).rooms := by
    funext j
    simp only [view, setRoom]
    by_cases hj : j = room
    · rw [hj, Function.update_self, Function.update_self, Option.filter_some, if_pos (decide_eq_true hr)]
    · rw [Function.update_of_ne hj, Function.update_of_ne hj]
  simp only [view, setRoom] at hrooms ⊢
  rw [hrooms]

/-- Another meeting does not see it. -/
theorem view_setRoom_ne (hold : ∀ r', m.rooms room = some r' → r'.meetingId ≠ k) (hr : r.meetingId ≠ k) :
    (m.setRoom room r).view k = m.view k := by
  refine view_congr rfl (fun j => ?_) fun _ => rfl
  simp only [setRoom]
  by_cases hj : j = room
  · rw [hj, Function.update_self, Option.filter_some, if_neg (by simp only [decide_eq_true_eq]; exact hr)]
    symm
    rw [Option.filter_eq_none_iff]
    intro r' hr'
    simp only [decide_eq_true_eq]
    exact hold r' hr'
  · rw [Function.update_of_ne hj]

theorem onRoom_some {α : Type} {missing : α} {f : MediaRoom → α × MediaRoom} (h : m.rooms room = some r) :
    m.onRoom room missing f = ((f r).1, m.setRoom room (f r).2) := by
  simp only [onRoom, h]

theorem onRoom_view {α : Type} (missing : α) {f : MediaRoom → α × MediaRoom} (h : (m.view k).rooms room = some r)
    (hf : (f r).2.meetingId = k) : (m.onRoom room missing f).1 = (f r).1 ∧
      (m.onRoom room missing f).2.view k = (m.view k).setRoom room (f r).2 := by
  rw [onRoom_some (view_rooms.mp h).1]
  exact ⟨rfl, view_setRoom hf⟩

/-- A section that keeps the meeting of its room is not seen by another meeting. -/
theorem onRoom_view_ne {α : Type} {missing : α} {f : MediaRoom → α × MediaRoom}
    (hf : ∀ r, (f r).2.meetingId = r.meetingId) (hroom : ((m.view k).rooms room).isSome) (hk : k' ≠ k) :
    (m.onRoom room missing f).2.view k' = m.view k' := by
  obtain ⟨r, hr⟩ := Option.isSome_iff_exists.mp hroom
  obtain ⟨hm, hmeeting⟩ := view_rooms.mp hr
  rw [onRoom_some hm]
  refine view_setRoom_ne (fun r' hr' => ?_) ?_
  · rw [hm] at hr'
    cases hr'
    rw [hmeeting]
    exact hk.symm
  · rw [hf, hmeeting]
    exact hk.symm

theorem setRoom_self (h : m.rooms room = some r) : m.setRoom room r = m := by
  simp only [setRoom, ← h, Function.update_eq_self]

def setMeeting (m : Memory P) (k : Nat) (found : Option Nat) : Memory P :=
  { m with meetings := Function.update m.meetings k found }

theorem view_setMeeting {found : Option Nat} : (m.setMeeting k found).view k = (m.view k).setMeeting k found := by
  have hmeetings : ((m.setMeeting k found).view k).meetings = ((m.view k).setMeeting k found).meetings := by
    funext j
    simp only [view, setMeeting]
    by_cases hj : j = k
    · rw [if_pos hj, hj, Function.update_self, Function.update_self]
    · rw [if_neg hj, Function.update_of_ne hj, if_neg hj]
  simp only [view, setMeeting] at hmeetings ⊢
  rw [hmeetings]

/-! ## Calls of a session -/

def setSession (m : Memory P) (i : Nat) (info : SessionInfo) (s : MediaSession P) : Memory P :=
  { m with sessions := Function.update m.sessions i (some (info, s)) }

theorem view_setSession (h : info.meetingId = k) : (m.setSession i info s).view k = (m.view k).setSession i info s := by
  have hsessions : ((m.setSession i info s).view k).sessions = ((m.view k).setSession i info s).sessions := by
    funext j
    simp only [view, setSession]
    by_cases hj : j = i
    · rw [hj, Function.update_self, Function.update_self, Option.filter_some, if_pos (decide_eq_true h)]
    · rw [Function.update_of_ne hj, Function.update_of_ne hj]
  simp only [view, setSession] at hsessions ⊢
  rw [hsessions]

theorem view_setSession_ne (hold : ∀ p, m.sessions i = some p → p.1.meetingId ≠ k) (h : info.meetingId ≠ k) :
    (m.setSession i info s).view k = m.view k := by
  refine view_congr rfl (fun _ => rfl) fun j => ?_
  simp only [setSession]
  by_cases hj : j = i
  · rw [hj, Function.update_self, Option.filter_some, if_neg (by simp only [decide_eq_true_eq]; exact h)]
    symm
    rw [Option.filter_eq_none_iff]
    intro p hp
    simp only [decide_eq_true_eq]
    exact hold p hp
  · rw [Function.update_of_ne hj]

/-- What is posted is no part of a view. -/
theorem view_notify (notices : List Notice) : (notices.foldl (fun m notice => m.notify info notice) m).view k =
    m.view k := by
  induction notices generalizing m with
  | nil => rfl
  | cons notice notices ih =>
    rw [List.foldl_cons, ih]
    cases notice <;> rfl

theorem onSession_view {session : SessionInfo} {f : MediaSession P → Outcome P}
    (h : (m.view k).sessions session.instanceId = some (info, s)) :
    (m.onSession session f).1 = (f s).threw ∧
      (m.onSession session f).2.view k = (m.view k).setSession session.instanceId info (f s).session := by
  obtain ⟨hm, hmeeting⟩ := view_sessions.mp h
  simp only [onSession, hm]
  exact ⟨trivial, (view_notify _).trans (view_setSession hmeeting)⟩

theorem onSession_view_ne {session : SessionInfo} {f : MediaSession P → Outcome P}
    (h : ((m.view k).sessions session.instanceId).isSome) (hk : k' ≠ k) :
    (m.onSession session f).2.view k' = m.view k' := by
  obtain ⟨⟨info, s⟩, hs⟩ := Option.isSome_iff_exists.mp h
  obtain ⟨hm, hmeeting⟩ := view_sessions.mp hs
  have hne : info.meetingId ≠ k' := by
    rw [hmeeting]
    exact hk.symm
  simp only [onSession, hm]
  refine (view_notify _).trans (view_setSession_ne (fun p hp => ?_) hne)
  rw [hm] at hp
  cases hp
  exact hne

end Memory

/-! ## Meetings of rooms -/

namespace MediaRoom

variable {r : MediaRoom}

theorem removePeer_meetingId {uid : Int} {expected : Nat} {remaining : List SessionInfo} {r' : MediaRoom}
    (h : r.removePeer uid expected = some (remaining, r')) : r'.meetingId = r.meetingId := by
  unfold removePeer at h
  split at h
  · cases h
  · cases h
    rfl

theorem registerPublisherTrack_meetingId (uid : Int) (media : Media) :
    (r.registerPublisherTrack uid media).2.meetingId = r.meetingId := by
  unfold registerPublisherTrack
  split
  · rfl
  · split <;> rfl

end MediaRoom

namespace Memory

variable {m : Memory P} {k k' : Nat}

/-- A section of another meeting changes nothing in a view. -/
theorem answer_view_ne (hfresh : m.Fresh) {c : Section} (hc : (m.view k).Within k c) (hk : k' ≠ k) :
    (m.answer rtc c).2.view k' = m.view k' := by
  cases c with
  | findRoom meetingId => rfl
  | findOrAddRoom meetingId =>
    obtain rfl : meetingId = k := hc
    simp only [answer]
    split
    · rfl
    · refine view_congr (Function.update_of_ne hk _ _) (fun j => ?_) fun _ => rfl
      simp only [setRoom]
      by_cases hj : j = m.nextRoom
      · rw [hj, Function.update_self, hfresh.rooms _ (Nat.le_refl _), Option.filter_some, Option.filter_none]
        rw [if_neg]
        simp only [decide_eq_true_eq]
        exact hk.symm
      · rw [Function.update_of_ne hj]
  | dropRoom room =>
    obtain ⟨r, hr⟩ := Option.isSome_iff_exists.mp hc
    obtain ⟨hm, hmeeting⟩ := view_rooms.mp hr
    simp only [answer, hm]
    split
    · rw [hmeeting]
      exact view_congr (Function.update_of_ne hk _ _) (fun _ => rfl) fun _ => rfl
    · rfl
  | isStopped session => rfl
  | getPeer room uid => exact onRoom_view_ne (fun _ => rfl) hc hk
  | addPeer room peer => exact onRoom_view_ne (fun _ => rfl) hc hk
  | removePeer room uid expected =>
    refine onRoom_view_ne (fun r => ?_) hc hk
    split
    · rfl
    · next hremove => exact MediaRoom.removePeer_meetingId hremove
  | peerCount room => exact onRoom_view_ne (fun _ => rfl) hc hk
  | getSessionsForConnection room connection => exact onRoom_view_ne (fun _ => rfl) hc hk
  | registerPublisherTrack room uid media =>
    exact onRoom_view_ne (fun r => r.registerPublisherTrack_meetingId uid media) hc hk
  | createSession room request session =>
    simp only [answer]
    split
    · rfl
    · refine view_setSession_ne (m := { m with nextSessionId := m.nextSessionId + 1 }) (fun p hp => ?_) ?_
      · rw [hfresh.sessions _ (Nat.le_refl _)] at hp
        cases hp
      · rw [hc.1]
        exact hk.symm
  | setRemoteOffer session sdp => exact onSession_view_ne hc hk
  | setRemoteAnswer session sdp => exact onSession_view_ne hc hk
  | addRemoteCandidate session candidate mid => exact onSession_view_ne hc hk
  | requestRenegotiation session => exact onSession_view_ne hc hk
  | addOutgoingTrack binding => exact onSession_view_ne hc hk
  | removeOutgoingTracks session uid => exact onSession_view_ne hc hk
  | send session response => rfl

/-! ## Free addresses stay free -/

theorem Fresh.setRoom (h : m.Fresh) {room : Nat} {r : MediaRoom} (hroom : (m.rooms room).isSome) :
    (m.setRoom room r).Fresh := by
  refine { h with rooms := fun j hj => ?_ }
  have hne : j ≠ room := by
    rintro rfl
    rw [h.rooms j hj] at hroom
    cases hroom
  exact (Function.update_of_ne hne _ _).trans (h.rooms j hj)

theorem Fresh.onRoom (h : m.Fresh) {α : Type} {room : Nat} {missing : α} {f : MediaRoom → α × MediaRoom} :
    (m.onRoom room missing f).2.Fresh := by
  unfold Memory.onRoom
  split
  · exact h
  · next hr =>
    refine h.setRoom ?_
    rw [hr]
    rfl

theorem Fresh.setSession (h : m.Fresh) {i : Nat} {info : SessionInfo} {s : MediaSession P}
    (hi : i < m.nextSessionId) : (m.setSession i info s).Fresh := by
  refine { h with sessions := fun j hj => ?_ }
  have hj : m.nextSessionId ≤ j := hj
  have hne : j ≠ i := by omega
  exact (Function.update_of_ne hne _ _).trans (h.sessions j hj)

theorem Fresh.notify (h : m.Fresh) (info : SessionInfo) (notices : List Notice) :
    (notices.foldl (fun m notice => m.notify info notice) m).Fresh := by
  induction notices generalizing m with
  | nil => exact h
  | cons notice notices ih =>
    refine ih ?_
    cases notice <;> exact { h with }

theorem Fresh.onSession (h : m.Fresh) {session : SessionInfo} {f : MediaSession P → Outcome P} :
    (m.onSession session f).2.Fresh := by
  unfold Memory.onSession
  split
  · exact h
  · next hs =>
    refine (h.setSession ?_).notify _ _
    by_contra hle
    rw [h.sessions _ (Nat.not_lt.mp hle)] at hs
    cases hs

theorem Fresh.answer (h : m.Fresh) (c : Section) : (m.answer rtc c).2.Fresh := by
  cases c with
  | findRoom meetingId => exact h
  | findOrAddRoom meetingId =>
    simp only [Memory.answer]
    split
    · exact h
    · refine ⟨fun j hj => ?_, h.sessions, h.positive⟩
      have hj : m.nextRoom + 1 ≤ j := hj
      have hne : j ≠ m.nextRoom := by omega
      exact (Function.update_of_ne hne _ _).trans (h.rooms j (by omega))
  | dropRoom room =>
    simp only [Memory.answer]
    split
    · exact h
    · split
      · exact { h with }
      · exact h
  | createSession room request session =>
    have hnext : Fresh { m with nextSessionId := m.nextSessionId + 1 } :=
      ⟨h.rooms, fun j hj => h.sessions j (Nat.le_of_succ_le hj), Nat.succ_pos _⟩
    simp only [Memory.answer]
    split
    · exact hnext
    · exact hnext.setSession (Nat.lt_succ_self _)
  | isStopped session => exact h
  | getPeer room uid => exact h.onRoom
  | addPeer room peer => exact h.onRoom
  | removePeer room uid expected => exact h.onRoom
  | peerCount room => exact h.onRoom
  | getSessionsForConnection room connection => exact h.onRoom
  | registerPublisherTrack room uid media => exact h.onRoom
  | setRemoteOffer session sdp => exact h.onSession
  | setRemoteAnswer session sdp => exact h.onSession
  | addRemoteCandidate session candidate mid => exact h.onSession
  | requestRenegotiation session => exact h.onSession
  | addOutgoingTrack binding => exact h.onSession
  | removeOutgoingTracks session uid => exact h.onSession
  | send session response => exact { h with }

end Memory

/-! ## The machine of a meeting -/

/-- Sections over the view of a meeting. At each of them `I` holds. -/
def machine (I : Memory P → Prop) (k : Nat) : Prog.Machine sections (Memory P) where
  pre c v := I v ∧ v.Within k c
  rel c v result v' := ∃ m : Memory P, m.Fresh ∧ m.view k = v ∧ (m.answer rtc c).1 = result ∧ (m.answer rtc c).2.view k = v'

variable {rtc} {I : Memory P → Prop} {k : Nat} {v : Memory P} {β : Type} {Q : β → Memory P → Prop}

section

variable {room : Nat} {r : MediaRoom}

/-- The rule for a section of a room. -/
theorem wp_onRoom {c : Section} {missing : c.Res} {f : MediaRoom → c.Res × MediaRoom} {g : c.Res → Prog sections β}
    (hc : ∀ m : Memory P, m.answer rtc c = m.onRoom room missing f) (hpre : I v ∧ v.Within k c)
    (hr : v.rooms room = some r) (hf : (f r).2.meetingId = k)
    (hg : (g (f r).1).wp (machine rtc I k) Q (v.setRoom room (f r).2)) :
    ((call c).bind g).wp (machine rtc I k) Q v := by
  refine Prog.wp_step hpre ?_
  rintro result v' ⟨m, _, rfl, rfl, rfl⟩
  rw [hc]
  obtain ⟨hresult, hview⟩ := Memory.onRoom_view missing hr hf
  rw [hresult, hview]
  exact hg

/-- The rule for a section that only looks at a room. -/
theorem wp_lookRoom {c : Section} {missing : c.Res} {f : MediaRoom → c.Res} {g : c.Res → Prog sections β}
    (hc : ∀ m : Memory P, m.answer rtc c = m.onRoom room missing fun r => (f r, r)) (hpre : I v ∧ v.Within k c)
    (hr : v.rooms room = some r) (hmeeting : r.meetingId = k) (hg : (g (f r)).wp (machine rtc I k) Q v) :
    ((call c).bind g).wp (machine rtc I k) Q v := by
  refine wp_onRoom hc hpre hr hmeeting ?_
  rw [Memory.setRoom_self hr]
  exact hg

/-- The rule for a call of a session. -/
theorem wp_onSession {c : Section} {session info : SessionInfo} {s : MediaSession P} {f : MediaSession P → Outcome P}
    {g : c.Res → Prog sections β} (out : Bool → c.Res)
    (hc : ∀ m : Memory P, m.answer rtc c = (out (m.onSession session f).1, (m.onSession session f).2))
    (hpre : I v ∧ v.Within k c) (hs : v.sessions session.instanceId = some (info, s))
    (hg : (g (out (f s).threw)).wp (machine rtc I k) Q (v.setSession session.instanceId info (f s).session)) :
    ((call c).bind g).wp (machine rtc I k) Q v := by
  refine Prog.wp_step hpre ?_
  rintro result v' ⟨m, _, rfl, rfl, rfl⟩
  rw [hc]
  obtain ⟨hresult, hview⟩ := Memory.onSession_view (f := f) hs
  rw [hresult, hview]
  exact hg

end

theorem wp_findRoom {g : Option Nat → Prog sections β} (hI : I v) (hg : (g (v.meetings k)).wp (machine rtc I k) Q v) :
    ((call (.findRoom k)).bind g).wp (machine rtc I k) Q v := by
  refine Prog.wp_step ⟨hI, rfl⟩ ?_
  rintro result v' ⟨m, _, rfl, rfl, rfl⟩
  rw [Memory.view_meetings] at hg
  exact hg

/-- A room is found, or made at a free address. -/
theorem wp_findOrAddRoom {g : Nat → Prog sections β} (hI : I v)
    (hold : ∀ room, v.meetings k = some room → (g room).wp (machine rtc I k) Q v)
    (hnew : ∀ room, v.meetings k = none → v.rooms room = none → (g room).wp (machine rtc I k) Q
      ((v.setRoom room { meetingId := k }).setMeeting k (some room))) :
    ((call (.findOrAddRoom k)).bind g).wp (machine rtc I k) Q v := by
  refine Prog.wp_step ⟨hI, rfl⟩ ?_
  rintro result v' ⟨m, hfresh, rfl, rfl, rfl⟩
  rw [Memory.view_meetings] at hold hnew
  simp only [Memory.answer]
  cases hm : m.meetings k with
  | some room => exact hold room hm
  | none =>
    have hroom : (m.view k).rooms m.nextRoom = none := by
      simp only [Memory.view, hfresh.rooms _ (Nat.le_refl _), Option.filter_none]
    have hgoal := hnew m.nextRoom hm hroom
    rw [← Memory.view_setRoom (show MediaRoom.meetingId { meetingId := k } = k from rfl), ← Memory.view_setMeeting]
      at hgoal
    exact hgoal

theorem wp_dropRoom {room : Nat} {r : MediaRoom} {g : Unit → Prog sections β} (hI : I v) (hr : v.rooms room = some r)
    (hkeep : (g ()).wp (machine rtc I k) Q v)
    (hdrop : r.peerCount = 0 → (g ()).wp (machine rtc I k) Q (v.setMeeting k none)) :
    ((call (.dropRoom room)).bind g).wp (machine rtc I k) Q v := by
  refine Prog.wp_step ⟨hI, Option.isSome_iff_exists.mpr ⟨r, hr⟩⟩ ?_
  rintro result v' ⟨m, _, rfl, rfl, rfl⟩
  obtain ⟨hm, hmeeting⟩ := Memory.view_rooms.mp hr
  simp only [Memory.answer, hm]
  split
  · next hempty =>
    have hgoal := hdrop hempty.2
    rw [← Memory.view_setMeeting, ← hmeeting] at hgoal
    rw [← hmeeting]
    exact hgoal
  · exact hkeep

theorem wp_isStopped {session : Nat} {g : Bool → Prog sections β} (hI : I v)
    (hg : ∀ stopped, (g stopped).wp (machine rtc I k) Q v) :
    ((call (.isStopped session)).bind g).wp (machine rtc I k) Q v := by
  refine Prog.wp_step ⟨hI, trivial⟩ ?_
  rintro result v' ⟨m, _, rfl, rfl, rfl⟩
  exact hg _

theorem wp_send {session : Nat} {response : MediaSignalResponse} {g : Unit → Prog sections β} (hI : I v)
    (hg : (g ()).wp (machine rtc I k) Q v) : ((call (.send session response)).bind g).wp (machine rtc I k) Q v := by
  refine Prog.wp_step ⟨hI, trivial⟩ ?_
  rintro result v' ⟨m, _, rfl, rfl, rfl⟩
  exact hg

/-- A session is made under an instance id that is free. -/
theorem wp_createSession {room session : Nat} {request : MediaSignalRequest}
    {g : Option SessionInfo → Prog sections β} (hI : I v) (hk : request.meetingId = k) (hroom : (v.rooms room).isSome)
    (hnone : (g none).wp (machine rtc I k) Q v)
    (hsome : ∀ i connection, v.sessions i = none → 0 < i →
      (g (some ⟨i, k, request.uid, request.signalId, session, room⟩)).wp (machine rtc I k) Q
        (v.setSession i ⟨i, k, request.uid, request.signalId, session, room⟩ { connection := connection })) :
    ((call (.createSession room request session)).bind g).wp (machine rtc I k) Q v := by
  refine Prog.wp_step ⟨hI, hk, hroom⟩ ?_
  rintro result v' ⟨m, hfresh, rfl, rfl, rfl⟩
  simp only [Memory.answer]
  cases rtc.create m.nextSessionId with
  | none => exact hnone
  | some connection =>
    have hfree : (m.view k).sessions m.nextSessionId = none := by
      simp only [Memory.view, hfresh.sessions _ (Nat.le_refl _), Option.filter_none]
    have hgoal := hsome m.nextSessionId connection hfree hfresh.positive
    have hmeeting : SessionInfo.meetingId
        ⟨m.nextSessionId, k, request.uid, request.signalId, session, room⟩ = k := rfl
    rw [← Memory.view_setSession hmeeting] at hgoal
    simp only [hk]
    exact hgoal

/-! ## The server -/

namespace System

variable {σ : System P}

/-- Every handler is on the way to what handlers keep. -/
structure Running (rtc : Rtc P) (I G : Nat → Memory P → Prop) (σ : System P) : Prop where
  fresh : σ.memory.Fresh
  queued : ∀ k, ∀ e ∈ σ.memory.queues k, e.meetingId = k
  workers : ∀ k, (σ.workers k).wp (machine rtc (I k) k) (fun _ => G k) (σ.memory.view k)

section

variable {I G : Nat → Memory P → Prop}

theorem Running.idle (h : σ.Running rtc I G) {k : Nat} (hk : σ.workers k = .pure ()) : G k (σ.memory.view k) := by
  have hw := h.workers k
  rw [hk] at hw
  exact hw

theorem Running.holds (h : σ.Running rtc I G) (hG : ∀ k v, G k v → I k v) (k : Nat) : I k (σ.memory.view k) := by
  have hw := h.workers k
  cases hp : σ.workers k with
  | pure _ => exact hG k _ (h.idle hp)
  | call c _ =>
    rw [hp] at hw
    exact hw.1.1

/-- What is posted is kept in the queue of its room, and seen in no view. -/
theorem Running.post (h : σ.Running rtc I G) (events : List MediaRoomEvent) :
    Running rtc I G { σ with memory := events.foldl Memory.post σ.memory } := by
  induction events generalizing σ with
  | nil => exact h
  | cons event events ih =>
    refine ih (σ := { σ with memory := σ.memory.post event }) ⟨{ h.fresh with }, fun k e he => ?_, h.workers⟩
    by_cases hk : k = event.meetingId
    · subst hk
      simp only [Memory.post, Function.update_self] at he
      rcases List.mem_append.mp he with he | he
      · exact h.queued _ e he
      · rw [List.mem_singleton.mp he]
    · simp only [Memory.post, Function.update_of_ne hk] at he
      exact h.queued k e he

/-- What a section posts is a track that is ready. -/
theorem queued_notify {m : Memory P} {R : Nat → MediaRoomEvent → Prop} (h : ∀ k, ∀ e ∈ m.queues k, R k e)
    (hready : ∀ k u i media, R k (.trackReady k u i media)) (info : SessionInfo) (notices : List Notice) (k : Nat) :
    ∀ e ∈ (notices.foldl (fun m notice => m.notify info notice) m).queues k, R k e := by
  induction notices generalizing m with
  | nil => exact h k
  | cons notice notices ih =>
    refine ih fun j e he => ?_
    cases notice with
    | localDescription _ => exact h j e he
    | trackReady media =>
      by_cases hj : j = info.meetingId
      · subst hj
        have he : e ∈ (m.queues info.meetingId) ++ [.trackReady info.meetingId info.uid info.instanceId media] := by
          simpa only [Memory.notify, Memory.post, MediaRoomEvent.meetingId, Function.update_self] using he
        rcases List.mem_append.mp he with he | he
        · exact h _ e he
        · rw [List.mem_singleton.mp he]
          exact hready _ _ _ _
      · have he : e ∈ m.queues j := by
          simpa only [Memory.notify, Memory.post, MediaRoomEvent.meetingId, Function.update_of_ne hj] using he
        exact h j e he

theorem queued_answer {m : Memory P} {R : Nat → MediaRoomEvent → Prop} (h : ∀ k, ∀ e ∈ m.queues k, R k e)
    (hready : ∀ k u i media, R k (.trackReady k u i media)) (c : Section) (k : Nat) :
    ∀ e ∈ (m.answer rtc c).2.queues k, R k e := by
  have honRoom : ∀ {α : Type} {room : Nat} {missing : α} {f : MediaRoom → α × MediaRoom},
      ∀ e ∈ (m.onRoom room missing f).2.queues k, R k e := by
    intro α room missing f
    unfold Memory.onRoom
    split <;> exact h k
  have honSession : ∀ {session : SessionInfo} {f : MediaSession P → Outcome P},
      ∀ e ∈ (m.onSession session f).2.queues k, R k e := by
    intro session f
    unfold Memory.onSession
    split
    · exact h k
    · next info s _ =>
      exact queued_notify
        (m := { m with sessions := Function.update m.sessions session.instanceId (some (info, (f s).session)) })
        h hready _ _ k
  cases c with
  | findRoom meetingId => exact h k
  | findOrAddRoom meetingId =>
    simp only [Memory.answer]
    split <;> exact h k
  | dropRoom room =>
    simp only [Memory.answer]
    split
    · exact h k
    · split <;> exact h k
  | createSession room request session =>
    simp only [Memory.answer]
    split <;> exact h k
  | isStopped session => exact h k
  | getPeer room uid => exact honRoom
  | addPeer room peer => exact honRoom
  | removePeer room uid expected => exact honRoom
  | peerCount room => exact honRoom
  | getSessionsForConnection room connection => exact honRoom
  | registerPublisherTrack room uid media => exact honRoom
  | setRemoteOffer session sdp => exact honSession
  | setRemoteAnswer session sdp => exact honSession
  | addRemoteCandidate session candidate mid => exact honSession
  | requestRenegotiation session => exact honSession
  | addOutgoingTrack binding => exact honSession
  | removeOutgoingTracks session uid => exact honSession
  | send session response => exact h k

/-- A worker goes on: its own view changes as its machine has it, the others stay. -/
theorem Running.run (h : σ.Running rtc I G) {k : Nat} {c : Section} {g : c.Res → Handler}
    (hw : σ.workers k = .call c g) : Running rtc I G { σ with
      memory := (σ.memory.answer rtc c).2
      workers := Function.update σ.workers k (g (σ.memory.answer rtc c).1) } := by
  have hwp := h.workers k
  rw [hw] at hwp
  obtain ⟨⟨_, hwithin⟩, hnext⟩ := hwp
  refine ⟨h.fresh.answer rtc c, queued_answer h.queued (fun _ _ _ _ => rfl) c, fun j => ?_⟩
  by_cases hj : j = k
  · subst hj
    simp only [Function.update_self]
    exact hnext _ _ ⟨σ.memory, h.fresh, rfl, rfl, rfl⟩
  · simp only [Function.update_of_ne hj]
    rw [Memory.answer_view_ne rtc h.fresh hwithin hj]
    exact h.workers j

/-- What every handler keeps of the view of its meeting: `I` at every section, and `G` from its start to its end. -/
def Handled (rtc : Rtc P) (I G : Nat → Memory P → Prop) : Prop :=
  ∀ e v, G e.meetingId v → (handleRoomEvent e).wp (machine rtc (I e.meetingId) e.meetingId) (fun _ => G e.meetingId) v

theorem Running.step (hI : Handled rtc I G) (h : σ.Running rtc I G) {e : ServerEvent} {σ' : System P}
    (hs : σ.step rtc e = some σ') : σ'.Running rtc I G := by
  cases e with
  | request session request =>
    simp only [System.step] at hs
    split at hs
    · cases hs
    · cases hs
      exact ⟨h.fresh, h.queued, h.workers⟩
  | post session =>
    simp only [System.step] at hs
    obtain ⟨request, _, rfl⟩ := Option.map_eq_some_iff.mp hs
    have hremembered : ∀ ids posting,
        Running rtc I G { σ with memory := { σ.memory with meetingIds := ids }, posting := posting } :=
      fun _ _ => ⟨{ h.fresh with }, h.queued, h.workers⟩
    exact (hremembered _ _).post [_]
  | stop session =>
    cases hs
    exact ⟨{ h.fresh with }, h.queued, h.workers⟩
  | signalDisconnected session =>
    simp only [System.step] at hs
    split at hs
    · cases hs
      exact h.post _
    · cases hs
  | localDescription instanceId description =>
    simp only [System.step] at hs
    obtain ⟨⟨info, s⟩, _, rfl⟩ := Option.map_eq_some_iff.mp hs
    exact h.post [_]
  | localCandidate instanceId candidate mid =>
    simp only [System.step] at hs
    obtain ⟨⟨info, s⟩, _, rfl⟩ := Option.map_eq_some_iff.mp hs
    exact h.post [_]
  | take k =>
    simp only [System.step] at hs
    split at hs
    · next _ event events hworker hqueue =>
      cases hs
      have hmeeting : event.meetingId = k := by
        refine h.queued k event ?_
        rw [hqueue]
        exact List.mem_cons_self
      subst hmeeting
      refine ⟨{ h.fresh with }, fun j e he => ?_, fun j => ?_⟩
      · by_cases hj : j = event.meetingId
        · subst hj
          simp only [Function.update_self] at he
          refine h.queued _ e ?_
          rw [hqueue]
          exact List.mem_cons_of_mem _ he
        · simp only [Function.update_of_ne hj] at he
          exact h.queued j e he
      · by_cases hj : j = event.meetingId
        · subst hj
          simp only [Function.update_self]
          exact hI event _ (h.idle hworker)
        · simp only [Function.update_of_ne hj]
          exact h.workers j
    · cases hs
  | run k =>
    simp only [System.step] at hs
    split at hs
    · next c g hworker =>
      cases hs
      exact h.run hworker
    · cases hs
  | packet thread instanceId media packet =>
    simp only [System.step] at hs
    split at hs
    · split at hs
      · cases hs
        exact ⟨h.fresh, h.queued, h.workers⟩
      · cases hs
    · cases hs
  | choose thread =>
    simp only [System.step] at hs
    split at hs
    · split at hs
      · cases hs
        exact ⟨h.fresh, h.queued, h.workers⟩
      · split at hs
        · cases hs
          exact ⟨h.fresh, h.queued, h.workers⟩
        · cases hs
          exact ⟨h.fresh, h.queued, h.workers⟩
    · cases hs
  | send thread isOpen =>
    simp only [System.step] at hs
    split at hs
    · split at hs
      · cases hs
        exact ⟨h.fresh, h.queued, h.workers⟩
      · cases hs
        exact ⟨h.fresh, h.queued, h.workers⟩
    · cases hs

/-- The rule for the server: what handlers keep is kept whenever no handler is on its way. -/
theorem running_of_reachable (hI : Handled rtc I G) (hstart : ∀ k, G k {}) (h : σ.Reachable rtc) : σ.Running rtc I G := by
  refine Reach.invariant ⟨⟨fun _ _ => rfl, fun _ _ => rfl, Nat.one_pos⟩,
    fun _ _ he => absurd he List.not_mem_nil, fun k => ?_⟩
    (fun _ _ _ hi _ hs => hi.step hI hs) h
  have hview : (Memory.view k {} : Memory P) = {} := by
    simp only [Memory.view, Option.filter_none, ite_self]
  simp only [hview]
  exact hstart k

end

end System

end SyncRtc.MediaServer
