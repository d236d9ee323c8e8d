import SyncRtc.Laws.MediaTidy

/-!
# What is left of a connection

A connection that has stopped lets nobody in any more, and its disconnect task takes out of a room whoever came over it,
in whatever order its last offers are handled. What still comes from an old connection, an old signal or an old instance
is looked at and dropped. And a room that nobody is in is not kept.
-/

set_option autoImplicit false

namespace SyncRtc.MediaServer

open Prog (Makes)

variable {P : Type} {rtc : Rtc P} {σ : System P} {k : Nat}

/-! ## Rooms are tidy in every run -/

/-- A meeting is tidy in every state of a run, for any set of connections that has all those that mentioned it. -/
theorem kept_of_reachable {A : Nat → Prop} (h : σ.Reachable rtc) (hA : ∀ c, k ∈ σ.memory.meetingIds c → A c) :
    (σ.workers k).wp (tidying rtc (fun _ => True) A k) (fun _ => Kept A k) (σ.memory.view k) := by
  induction h with
  | start =>
    have hempty : (Memory.view k {} : Memory P) = {} := by simp only [Memory.view, Option.filter_none, ite_self]
    rw [hempty]
    exact ⟨⟨by simp, by simp⟩, by simp⟩
  | next h _ hs ih =>
    have hbefore := fun c hc => hA c ((connections_step hs).2 c k hc)
    refine watched_step h trivial (fun event hevent _ hkept => ?_) (ih hbefore) hs
    obtain rfl := (running_core h).queued k event hevent
    refine kept_handleRoomEvent event hkept ?_
    rintro session request rfl
    exact .inl (hbefore session (posted_of_reachable h _ _ hevent))

theorem tidy_of_wp {H : Memory P → Prop} {A : Nat → Prop} {p : Handler} {v : Memory P}
    (h : p.wp (tidying rtc H A k) (fun _ => Kept A k) v) : Tidy A k v := by
  cases p with
  | pure _ => exact Kept.toTidy h
  | call c g => exact h.1

/-! ## The disconnect task -/

/-- No member of the meeting came over a connection. -/
def Clear (c : Nat) (v : Memory P) : Prop :=
  ∀ a r u S, v.rooms a = some r → r.sessionOf u = some S → S.signalSession ≠ c

section

variable {I : Section → Memory P → Prop} {H : Memory P → Prop} {v v' : Memory P} {a c : Nat}

/-- Those that came over a connection are in one room, and still to be removed. -/
def Remain (a c : Nat) (rest : List SessionInfo) (v : Memory P) : Prop :=
  ∀ b r u S, v.rooms b = some r → r.sessionOf u = some S → S.signalSession = c → b = a ∧ S ∈ rest

theorem Remain.shrink {rest : List SessionInfo} (h : Remain a c rest v) (hshrinks : v.Shrinks v') :
    Remain a c rest v' := by
  intro b r u S hr hS hc
  obtain ⟨r', hold, hmember⟩ := hshrinks.sessionOf hr hS
  exact h b r' u S hold hmember hc

/-- Nobody is let in. -/
def Section.Joinless (c : Section) : Prop := ∀ room peer, c ≠ .addPeer room peer

theorem remain_joinless {β : Type} {p : Prog sections β} {rest : List SessionInfo} (hp : p.Makes Section.Joinless)
    (h : Remain a c rest v) : p.wp (watched rtc H (fun _ _ => True) k) (fun _ => Remain a c rest) v :=
  hp.wp (fun _ _ _ _ => trivial) (fun _ _ _ _ hc hw hrel => hw.shrink (shrinks_of_rel hrel hc)) h

theorem joinless_removePeer (u : Int) (expected : Nat) : (removePeer a u expected).Makes Section.Joinless :=
  Makes.step nofun fun _ => Makes.each fun _ _ => (Prog.makes_perform _).mpr nofun

theorem joinless_dropEmpty : ((call (.peerCount a)).bind fun (count : Nat) =>
    if count ≠ 0 then pure () else call (.dropRoom a)).Makes Section.Joinless :=
  Makes.step nofun fun (_ : Nat) => Makes.ite (Prog.makes_pure ()) ((Prog.makes_perform _).mpr nofun)

/-- A member that is removed is gone, whatever else it takes. -/
theorem remain_removePeer {S : SessionInfo} {rest : List SessionInfo} (h : Remain a c (S :: rest) v) :
    (removePeer a S.uid S.instanceId).wp (watched rtc H (fun _ _ => True) k) (fun _ => Remain a c rest) v := by
  refine Prog.wp_step trivial fun remaining v₁ hrel => ?_
  have hshrinks := shrinks_of_rel hrel nofun
  refine remain_joinless (Makes.each fun T _ => (Prog.makes_perform _).mpr nofun) ?_
  intro b q u T hq hT hc
  obtain ⟨rfl, hmem⟩ := h.shrink hshrinks b q u T hq hT hc
  refine ⟨rfl, (List.mem_cons.mp hmem).resolve_left ?_⟩
  rintro rfl
  -- The session that was to be removed would still be that of its member.
  obtain ⟨r, hr, hold⟩ := hshrinks.sessionOf hq hT
  obtain ⟨hcore, _, m, _, rfl, _, rfl⟩ := hrel
  obtain ⟨hroom, hmeeting⟩ := Memory.view_rooms.mp hr
  obtain ⟨rfl, _⟩ := hcore.sessionOf hr hold
  have hexpected : r.removePeer T.uid T.instanceId ≠ none :=
    MediaRoom.removePeer_ne_none (.inr (by rw [hold, Option.map_some]))
  obtain ⟨⟨others, r'⟩, hremove⟩ := Option.ne_none_iff_exists'.mp hexpected
  obtain ⟨rfl, _⟩ := MediaRoom.removePeer_some hremove
  have hgone : (m.answer rtc (.removePeer b T.uid T.instanceId)).2 = m.setRoom b (r.without T.uid) := by
    refine (congrArg Prod.snd (Memory.onRoom_some hroom)).trans ?_
    simp only [hremove]
  rw [hgone] at hq
  have hq := (Memory.view_rooms.mp hq).1
  rw [setRoom_rooms, if_pos rfl] at hq
  cases hq
  rw [MediaRoom.sessionOf_without] at hT
  cases hT

theorem mem_getSessionsForConnection {r : MediaRoom} {u : Int} {S : SessionInfo} (hS : r.sessionOf u = some S) :
    S ∈ r.getSessionsForConnection S.signalSession :=
  List.mem_filter.mpr ⟨MediaRoom.mem_sessions.mpr ⟨u, hS⟩, decide_eq_true rfl⟩

/-- The disconnect task of a connection that has stopped. -/
theorem clear_handleSignalDisconnected {A : Nat → Prop} (h : Tidy A k v) :
    (handleSignalDisconnected k c).wp (watched rtc (fun m => m.stopped c = true) (fun _ _ => True) k)
      (fun _ => Clear c) v := by
  have hmember : ∀ {b r u S}, v.rooms b = some r → r.sessionOf u = some S → v.meetings k = some b := by
    intro b r u S hr hS
    obtain ⟨peer, hpeer, _⟩ := Option.bind_eq_some_iff.mp hS
    exact h.listed hr hpeer
  refine wp_stopped trivial fun m hm => ?_
  rw [hm]
  refine wp_find trivial (fun hnone b r u S hr hS => ?_) fun a ha => wp_lookAt trivial (fun _ => rfl) id fun r hr _ => ?_
  · exact absurd (hnone.symm.trans (hmember hr hS)) nofun
  have hstart : Remain a c (r.getSessionsForConnection c) v := by
    intro b q u S hq hS hc
    obtain rfl : a = b := Option.some.inj (ha.symm.trans (hmember hq hS))
    cases hr.symm.trans hq
    exact ⟨rfl, hc ▸ mem_getSessionsForConnection hS⟩
  refine Prog.wp_seq (Prog.wp_each_rest (J := Remain a c) (fun S rest w _ hw => ?_) hstart) fun _ w hw => ?_
  · exact Prog.wp_seq (remain_removePeer hw) fun _ w' hw' => remain_joinless joinless_dropEmpty hw'
  · refine Prog.wp_mono (fun _ w' hw' => ?_) (remain_joinless joinless_dropEmpty hw)
    exact fun b q u S hq hS hc => absurd (hw' b q u S hq hS hc).2 List.not_mem_nil

end

/-- The worker of a room has taken the disconnect task of a connection, and come to its end. -/
inductive DisconnectRan (rtc : Rtc P) (k c : Nat) (σ : System P) : Prop
  | mk {σ₀ σ₁ σ₂ : System P} {events : List MediaRoomEvent} (before : σ₀.Reachable rtc)
      (queued : σ₀.memory.queues k = .disconnected k c :: events) (taken : σ₀.step rtc (.take k) = some σ₁)
      (running : Reach (System.step rtc) (fun _ e => e ≠ .take k) σ₁ σ₂) (done : σ₂.workers k = .pure ())
      (after : Reach (System.step rtc) (fun _ _ => True) σ₂ σ)

/-- Whoever takes the task has stopped, and takes it where the last handler has left the room tidy. -/
theorem taken_of_step {σ₀ σ₁ : System P} {event : MediaRoomEvent} {events : List MediaRoomEvent}
    (hqueue : σ₀.memory.queues k = event :: events) (hs : σ₀.step rtc (.take k) = some σ₁) :
    σ₀.workers k = .pure () ∧ σ₁.workers k = handleRoomEvent event ∧
      σ₁.memory = { σ₀.memory with queues := Function.update σ₀.memory.queues k events } := by
  simp only [System.step] at hs
  split at hs
  · next hworker hqueue' =>
    obtain ⟨rfl, rfl⟩ := List.cons.inj (hqueue.symm.trans hqueue')
    cases hs
    exact ⟨hworker, Function.update_self _ _ _, rfl⟩
  · cases hs

/-- From the end of the disconnect task on, no room of the meeting has a session of the connection. -/
theorem clear_of_disconnectRan {c : Nat} (h : DisconnectRan rtc k c σ) : Clear c (σ.memory.view k) := by
  obtain ⟨before, queued, taken, running, done, after⟩ := h
  rename_i σ₀ σ₁ σ₂ events
  obtain ⟨hidle, hworker, hmemory⟩ := taken_of_step queued taken
  have hstopped₀ : σ₀.memory.stopped c = true := by
    refine posted_of_reachable before k (.disconnected k c) ?_
    rw [queued]
    exact List.mem_cons_self
  have hbefore : Tidy (fun _ => True) k (σ₀.memory.view k) := tidy_of_wp (kept_of_reachable before fun _ _ => trivial)
  have hstays : ∀ (τ : System P) e τ', System.step rtc τ e = some τ' → τ.memory.stopped c = true →
      τ'.memory.stopped c = true := fun _ _ _ hs => (connections_step hs).1 c
  -- While the task runs, nobody else touches the meeting.
  have htask : (σ₁.workers k).wp (watched rtc (fun m => m.stopped c = true) (fun _ _ => True) k) (fun _ => Clear c)
      (σ₁.memory.view k) := by
    rw [hworker, hmemory]
    exact clear_handleSignalDisconnected hbefore
  have hstopped₁ : σ₁.memory.stopped c = true := hstays _ _ _ taken hstopped₀
  obtain ⟨hreach₂, hstopped₂, hclear⟩ :=
    watched_run (before.next trivial taken) hstopped₁ hstays (fun _ _ hok => absurd rfl hok) htask running
  have hkept : (σ₂.workers k).wp (tidying rtc (fun _ => True) (fun _ => True) k) (fun _ => Kept (fun _ => True) k)
      (σ₂.memory.view k) := kept_of_reachable hreach₂ fun _ _ => trivial
  rw [done] at hclear hkept
  -- From then on, nobody comes over the connection.
  have hnobody : Kept (· ≠ c) k (σ₂.memory.view k) :=
    { listed := (Kept.toTidy hkept).listed, permitted := hclear _ _ _ _, occupied := Kept.occupied hkept }
  have hidle : (σ₂.workers k).wp (tidying rtc (fun m => m.stopped c = true) (· ≠ c) k) (fun _ => Kept (· ≠ c) k)
      (σ₂.memory.view k) := by
    rw [done]
    exact hnobody
  have hlater : ∀ (τ : System P) event, True → event.meetingId = k → Kept (· ≠ c) k (τ.memory.view k) →
      (handleRoomEvent event).wp (tidying rtc (fun m => m.stopped c = true) (· ≠ c) k) (fun _ => Kept (· ≠ c) k)
        (τ.memory.view k) := by
    rintro τ event _ rfl hkept
    refine kept_handleRoomEvent event hkept fun session request _ => ?_
    by_cases hc : session = c
    · exact .inr fun m hm => hc ▸ hm
    · exact .inl hc
  obtain ⟨_, _, hafter⟩ := watched_run hreach₂ hstopped₂ hstays hlater hidle after
  exact fun a r u S hr hS => (tidy_of_wp hafter).permitted hr hS

/-! ## What comes late -/

/-- Whose session an answer, a candidate, a leave or a callback is for. -/
def MediaRoomEvent.user : MediaRoomEvent → Option Int
  | .signal _ ⟨_, _, _, .offer _⟩ => none
  | .signal _ ⟨_, _, uid, _⟩ => some uid
  | .trackReady _ publisherUid _ _ => some publisherUid
  | .localSignal _ _ response => some response.uid
  | .disconnected _ _ => none

/-- It belongs to another connection, signal or instance than a session. -/
def MediaRoomEvent.Foreign (m : Memory P) (S : SessionInfo) : MediaRoomEvent → Prop
  | .signal session request => session ≠ S.signalSession ∨ request.signalId ≠ S.signalId
  | .trackReady _ _ i _ => i ≠ S.instanceId ∨ ∃ info s, m.sessions i = some (info, s) ∧
      (info.signalSession ≠ S.signalSession ∨ info.signalId ≠ S.signalId)
  | .localSignal session i response =>
    session ≠ S.signalSession ∨ response.signalId ≠ S.signalId ∨ i ≠ S.instanceId
  | .disconnected _ _ => False

/-- Whatever session the user has now, it belongs to another. -/
def MediaRoomEvent.Stale (m : Memory P) (event : MediaRoomEvent) : Prop :=
  ∃ u, event.user = some u ∧ ∀ a r S, m.meetings event.meetingId = some a → m.rooms a = some r →
    r.sessionOf u = some S → event.Foreign m S

/-- A section that only looks where an event belongs. -/
def Section.Looks : Section → Prop
  | .findRoom _ => True
  | .isStopped _ => True
  | .getPeer _ _ => True
  | _ => False

theorem answer_looks {m : Memory P} {c : Section} (hc : c.Looks) : (m.answer rtc c).2 = m := by
  cases c with
  | findRoom _ => rfl
  | isStopped _ => rfl
  | getPeer _ _ => exact Memory.setRoom_onRoom
  | _ => exact hc.elim

section

variable {H : Memory P → Prop} {m : Memory P}

theorem stale_forSession {session : Nat} {request : MediaSignalRequest} {body : Nat → SessionInfo → Handler}
    (h : ∀ a r S, m.meetings request.meetingId = some a → m.rooms a = some r → r.sessionOf request.uid = some S →
      session ≠ S.signalSession ∨ request.signalId ≠ S.signalId) :
    (forSession session request body).wp (watched rtc H (fun c _ => c.Looks) request.meetingId)
      (fun _ _ => True) (m.view request.meetingId) := by
  refine wp_find trivial (fun _ => trivial) fun a ha => wp_lookAt trivial (fun _ => rfl) id fun r hr _ => ?_
  split
  · trivial
  next S hS =>
  refine Prog.wp_ite (fun _ => trivial) fun hsame => absurd ?_ hsame
  exact (h a r S (Memory.view_meetings ▸ ha) (Memory.view_rooms.mp hr).1 hS).symm.imp Ne.symm Ne.symm

/-- What comes late is only looked at. -/
theorem stale_handleRoomEvent {event : MediaRoomEvent} (h : event.Stale m) :
    (handleRoomEvent event).wp (watched rtc H (fun c _ => c.Looks) event.meetingId) (fun _ _ => True)
      (m.view event.meetingId) := by
  obtain ⟨u, hu, hforeign⟩ := h
  cases event with
  | signal session request =>
    obtain ⟨signalId, meetingId, uid, signal⟩ := request
    refine wp_stopped trivial fun _ _ => Prog.wp_ite (fun _ => trivial) fun _ => ?_
    cases signal with
    | offer sdp => cases hu
    | answer sdp =>
      cases hu
      exact stale_forSession hforeign
    | candidate candidate mid =>
      cases hu
      exact stale_forSession hforeign
    | leave =>
      cases hu
      exact stale_forSession hforeign
  | trackReady meetingId publisherUid i media =>
    cases hu
    refine wp_find trivial (fun _ => trivial) fun a ha => wp_lookAt trivial (fun _ => rfl) id fun r hr hcore => ?_
    split
    · trivial
    next S hS =>
    refine Prog.wp_ite (fun _ => trivial) fun hsame => ?_
    have hid : S.instanceId = i := not_not.mp hsame
    rcases hforeign a r S (Memory.view_meetings ▸ ha) (Memory.view_rooms.mp hr).1 hS with hne | ⟨info, s, hs, hother⟩
    · exact absurd hid.symm hne
    · -- An instance is of one connection and one signal.
      obtain ⟨_, _, s', hs'⟩ := hcore.sessionOf hr hS
      have hs' := (Memory.view_sessions.mp hs').1
      rw [hid, hs] at hs'
      cases hs'
      exact hother.elim (fun hne => absurd rfl hne) fun hne => absurd rfl hne
  | localSignal session i response =>
    cases hu
    refine wp_find trivial (fun _ => trivial) fun a ha => wp_lookAt trivial (fun _ => rfl) id fun r hr _ => ?_
    split
    · trivial
    next S hS =>
    refine Prog.wp_ite (fun _ => trivial) fun hsame => wp_stopped trivial fun _ _ => ?_
    refine Prog.wp_ite (fun _ => trivial) fun hopen => ?_
    rw [not_or, not_not, not_not] at hsame
    rw [not_or, not_not] at hopen
    rcases hforeign a r S (Memory.view_meetings ▸ ha) (Memory.view_rooms.mp hr).1 hS with hne | hne | hne
    · exact absurd hopen.2.symm hne
    · exact absurd hsame.2.symm hne
    · exact absurd hsame.1.symm hne
  | disconnected a session => cases hu

end

/-! ## The server -/

/-- What a server makes of the connections it has lost and of what still comes from them. -/
structure Tended (rtc : Rtc P) (σ : System P) : Prop where
  /-- Once the disconnect task of a connection has run in every room it mentioned, no session made over it is in a room. -/
  lost : ∀ c, σ.memory.stopped c = true → (∀ k ∈ σ.memory.meetingIds c, DisconnectRan rtc k c σ) →
    ∀ a r u S, σ.memory.rooms a = some r → r.sessionOf u = some S → S.signalSession ≠ c
  /-- The handler of an event that has become stale changes nothing and sends nothing, whatever else goes on. -/
  stale : ∀ k event events σ₁ σ₂ σ₃, σ.memory.queues k = event :: events → event.Stale σ.memory →
    σ.step rtc (.take k) = some σ₁ → Reach (System.step rtc) (fun _ e => e ≠ .take k) σ₁ σ₂ →
    σ₂.step rtc (.run k) = some σ₃ → σ₃.memory = σ₂.memory
  /-- Between two events of its worker a room in `m_rooms` has a member. -/
  occupied : ∀ k a, σ.workers k = .pure () → σ.memory.meetings k = some a →
    ∃ r, σ.memory.rooms a = some r ∧ r.peerCount ≠ 0

theorem tended_of_reachable (h : σ.Reachable rtc) : Tended rtc σ where
  lost := by
    intro c _ hran a r u S hr hS hc
    have hview : (σ.memory.view r.meetingId).rooms a = some r := Memory.view_rooms.mpr ⟨hr, rfl⟩
    have hmentioned : r.meetingId ∈ σ.memory.meetingIds S.signalSession :=
      (tidy_of_wp (kept_of_reachable (A := fun c => r.meetingId ∈ σ.memory.meetingIds c) h fun _ => id)).permitted hview hS
    exact clear_of_disconnectRan (hran _ (hc ▸ hmentioned)) a r u S hview hS hc
  stale := by
    intro k event events σ₁ σ₂ σ₃ hqueue hstale htake hrun hs
    obtain ⟨_, hworker, hmemory⟩ := taken_of_step hqueue htake
    obtain rfl : event.meetingId = k := by
      refine (running_core h).queued k event ?_
      rw [hqueue]
      exact List.mem_cons_self
    have hstart : (σ₁.workers event.meetingId).wp
        (watched rtc (fun _ => True) (fun c _ => c.Looks) event.meetingId) (fun _ _ => True)
        (σ₁.memory.view event.meetingId) := by
      rw [hworker, hmemory]
      exact stale_handleRoomEvent hstale
    obtain ⟨_, _, hlooks⟩ := watched_run (h.next trivial htake) trivial (fun _ _ _ _ _ => trivial)
      (fun _ _ hok => absurd rfl hok) hstart hrun
    cases stepped hs with
    | aside hmemory _ => exact hmemory
    | posts notices hnotices hmemory _ =>
      simp only [System.step] at hs
      split at hs
      · next hcall =>
        cases hs
        rw [hcall] at hlooks
        exact answer_looks hlooks.1
      · cases hs
    | run _ hcall hmemory _ =>
      rw [hcall] at hlooks
      rw [hmemory]
      exact answer_looks hlooks.1
  occupied := by
    intro k a hidle ha
    have hkept : (σ.workers k).wp (tidying rtc (fun _ => True) (fun _ => True) k) (fun _ => Kept (fun _ => True) k)
        (σ.memory.view k) := kept_of_reachable h fun _ _ => trivial
    rw [hidle] at hkept
    have hlisted : (σ.memory.view k).meetings k = some a := Memory.view_meetings.trans ha
    obtain ⟨r, hr⟩ := ((running_core h).holds (fun _ _ hgood => hgood.core) k).listed hlisted
    exact ⟨r, (Memory.view_rooms.mp hr).1, Kept.occupied hkept hlisted hr⟩

/-- A worker handles the next event it is given. -/
def handleNext (k : Nat) : List ServerEvent := .take k :: List.replicate 24 (.run k)

/-- A connection stops between the check of its last offer and its posting, and the next one uses its signal id. -/
def lastOffer : List ServerEvent :=
  [.request 5 ⟨1, 7, 1, .offer ""⟩, .post 5] ++ handleNext 7 ++
    [.request 5 ⟨2, 7, 2, .offer ""⟩, .stop 5, .post 5, .signalDisconnected 5,
      .request 6 ⟨1, 7, 1, .offer ""⟩, .post 6] ++
    handleNext 7 ++ handleNext 7 ++ handleNext 7

/-- The steps of the handler that runs. -/
def ServerEvent.isRun : ServerEvent → Bool
  | .run _ => true
  | _ => false

/-- The connection is gone from the room, which has a member of the next one. -/
theorem tended_after_lastOffer : ∃ (σ : System Listing) (r : MediaRoom), σ.memory.stopped 5 = true ∧
    σ.memory.meetings 7 = some 1 ∧ σ.memory.rooms 1 = some r ∧ (r.sessionOf 1).map SessionInfo.signalSession = some 6 ∧
    ∀ a r u S, σ.memory.rooms a = some r → r.sessionOf u = some S → S.signalSession ≠ 5 := by
  have hrun : ((play (System.step listing) (fun _ _ => true) lastOffer {}).any fun σ₀ =>
      decide ((σ₀.memory.queues 7).head? = some (.disconnected 7 5)) &&
      (System.step listing σ₀ (.take 7)).any fun σ₁ =>
      (play (System.step listing) (fun _ e => e.isRun) (List.replicate 24 (.run 7)) σ₁).any fun σ₂ =>
      isIdle (σ₂.workers 7) &&
      (play (System.step listing) (fun _ _ => true) (handleNext 7 ++ handleNext 7) σ₂).any fun σ =>
      σ.memory.stopped 5 && decide (σ.memory.meetingIds 5 = [7, 7]) && decide (σ.memory.meetings 7 = some 1) &&
      (σ.memory.rooms 1).any fun r => decide ((r.sessionOf 1).map SessionInfo.signalSession = some 6)) = true := by
    decide +kernel
  obtain ⟨σ₀, hplay₀, hrun⟩ := (Option.any_eq_true _ _).mp hrun
  obtain ⟨hqueue, hrun⟩ := Bool.and_eq_true_iff.mp hrun
  obtain ⟨σ₁, htake, hrun⟩ := (Option.any_eq_true _ _).mp hrun
  obtain ⟨σ₂, hplay₂, hrun⟩ := (Option.any_eq_true _ _).mp hrun
  obtain ⟨hidle, hrun⟩ := Bool.and_eq_true_iff.mp hrun
  obtain ⟨σ, hplay, hrun⟩ := (Option.any_eq_true _ _).mp hrun
  obtain ⟨hrun, hmember⟩ := Bool.and_eq_true_iff.mp hrun
  obtain ⟨hrun, hlisted⟩ := Bool.and_eq_true_iff.mp hrun
  obtain ⟨hstopped, hids⟩ := Bool.and_eq_true_iff.mp hrun
  obtain ⟨r, hr, hmember⟩ := (Option.any_eq_true _ _).mp hmember
  obtain ⟨events, hevents⟩ := List.head?_eq_some_iff.mp (of_decide_eq_true hqueue)
  have hreach₀ : σ₀.Reachable listing := reach_play (fun _ _ _ => trivial) hplay₀
  have hhandler : Reach (System.step listing) (fun _ e => e ≠ .take 7) σ₁ σ₂ := by
    refine reach_play (fun _ e he => ?_) hplay₂
    rintro rfl
    cases he
  have hafter : Reach (System.step listing) (fun _ _ => True) σ₂ σ := reach_play (fun _ _ _ => trivial) hplay
  have hreach : σ.Reachable listing :=
    ((hreach₀.next trivial htake).trans (hhandler.mono fun _ _ _ => trivial)).trans hafter
  refine ⟨σ, r, hstopped, of_decide_eq_true hlisted, hr, of_decide_eq_true hmember, ?_⟩
  refine (tended_of_reachable hreach).lost 5 hstopped fun k hk => ?_
  rw [of_decide_eq_true hids] at hk
  obtain rfl : k = 7 := by simpa using hk
  exact .mk hreach₀ hevents htake hhandler (idle_of_isIdle hidle) hafter

end SyncRtc.MediaServer
