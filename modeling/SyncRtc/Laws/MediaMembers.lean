import SyncRtc.Laws.MediaHandlers

/-!
# Who is a member while handlers run

The mesh is known to hold at every section. Over the machine `watched` a further fact about handlers takes that for
granted, and whatever is known of the whole memory: which connections have stopped, say. Here it is who the members of
a room are. Only an offer lets a member in, over the connection it came on; all else that handlers do makes rooms
smaller, and a handler that has taken somebody out of a room ends by dropping the room if it is empty.
-/

set_option autoImplicit false

namespace SyncRtc.MediaServer

variable {P : Type} {rtc : Rtc P}

/-! ## Members of a room -/

namespace MediaRoom

variable {r : MediaRoom}

theorem peerCount_eq_zero : r.peerCount = 0 ↔ ∀ u, r.getPeer u = none := by
  unfold peerCount getPeer
  rw [List.length_eq_zero_iff]
  constructor
  · intro hempty u
    rw [AList.lookup_eq_none, AList.mem_keys, AList.keys, hempty]
    exact List.not_mem_nil
  · intro hnone
    refine List.eq_nil_iff_forall_not_mem.mpr ?_
    rintro ⟨u, peer⟩ hmem
    exact absurd ((AList.mem_lookup_iff.mpr hmem).symm.trans (hnone u)) nofun

theorem getPeer_of_removePeer {uid : Int} {expected : Nat} {remaining : List SessionInfo} {r' : MediaRoom} {u : Int}
    {peer : MediaPeer} (h : r.removePeer uid expected = some (remaining, r')) (hpeer : r'.getPeer u = some peer) :
    r.getPeer u = some peer := by
  obtain ⟨rfl, -⟩ := removePeer_some h
  by_cases hu : u = uid
  · subst hu
    have hnone : (r.without u).getPeer u = none := AList.lookup_erase u _
    exact absurd (hnone.symm.trans hpeer) nofun
  · have hkept : (r.without uid).getPeer u = r.getPeer u := AList.lookup_erase_ne hu
    exact hkept ▸ hpeer

theorem getPeer_registerPublisherTrack (uid u : Int) (media : Media) :
    (r.registerPublisherTrack uid media).2.getPeer u = r.getPeer u := by
  unfold registerPublisherTrack
  split
  · rfl
  · split <;> rfl

end MediaRoom

/-! ## What sections do to members -/

/-- No member comes with a section, and `m_rooms` stays as it is. -/
def Section.Quiet : Section → Prop
  | .findOrAddRoom _ => False
  | .dropRoom _ => False
  | .addPeer _ _ => False
  | _ => True

/-- A section that changes no room either. -/
def Section.Aside : Section → Prop
  | .removePeer _ _ _ => False
  | .registerPublisherTrack _ _ _ => False
  | c => c.Quiet

namespace Memory

variable {m v v' : Memory P} {c : Section} {k : Nat}

/-- Who is a member after a section was one before. -/
def Shrinks (v v' : Memory P) : Prop :=
  ∀ a r' u peer, v'.rooms a = some r' → r'.getPeer u = some peer →
    ∃ r, v.rooms a = some r ∧ r.meetingId = r'.meetingId ∧ r.getPeer u = some peer

theorem Shrinks.rfl : Shrinks v v := fun _ r _ _ hr hpeer => ⟨r, hr, Eq.refl _, hpeer⟩

theorem Shrinks.sessionOf (h : Shrinks v v') {a : Nat} {r' : MediaRoom} {u : Int} {S : SessionInfo}
    (hr : v'.rooms a = some r') (hS : r'.sessionOf u = some S) : ∃ r, v.rooms a = some r ∧ r.sessionOf u = some S := by
  obtain ⟨peer, hpeer, hsession⟩ := Option.bind_eq_some_iff.mp hS
  obtain ⟨r, hold, _, hmember⟩ := h _ _ _ _ hr hpeer
  refine ⟨r, hold, ?_⟩
  rw [MediaRoom.sessionOf, hmember, Option.bind_some, hsession]

theorem Shrinks.view (h : Shrinks m v) : Shrinks (m.view k) (v.view k) := by
  intro a r' u peer hr hpeer
  obtain ⟨hr', hk⟩ := view_rooms.mp hr
  obtain ⟨r, hold, hmeeting, hmember⟩ := h _ _ _ _ hr' hpeer
  exact ⟨r, view_rooms.mpr ⟨hold, hmeeting.trans hk⟩, hmeeting, hmember⟩

theorem shrinks_setRoom {room : Nat} {r r' : MediaRoom} (hr : m.rooms room = some r)
    (hmeeting : r'.meetingId = r.meetingId) (hpeers : ∀ u peer, r'.getPeer u = some peer → r.getPeer u = some peer) :
    Shrinks m (m.setRoom room r') := by
  intro a q u peer hq hpeer
  rw [setRoom_rooms] at hq
  split at hq
  · next ha =>
    cases hq
    exact ⟨r, ha ▸ hr, hmeeting.symm, hpeers u peer hpeer⟩
  · exact ⟨q, hq, rfl, hpeer⟩

theorem shrinks_onRoom {α : Type} {room : Nat} {missing : α} {f : MediaRoom → α × MediaRoom}
    (hmeeting : ∀ r, (f r).2.meetingId = r.meetingId)
    (hpeers : ∀ r u peer, (f r).2.getPeer u = some peer → r.getPeer u = some peer) :
    Shrinks m (m.onRoom room missing f).2 := by
  unfold onRoom
  split
  · exact Shrinks.rfl
  · next r hr => exact shrinks_setRoom hr (hmeeting r) (hpeers r)

theorem setRoom_onRoom {α : Type} {room : Nat} {missing : α} {f : MediaRoom → α} :
    (m.onRoom room missing fun r => (f r, r)).2 = m := by
  unfold onRoom
  split
  · rfl
  · next r hr => exact setRoom_self hr

theorem notify_rooms (info : SessionInfo) (notices : List Notice) :
    (notices.foldl (fun m notice => m.notify info notice) m).rooms = m.rooms ∧
      (notices.foldl (fun m notice => m.notify info notice) m).meetings = m.meetings := by
  induction notices generalizing m with
  | nil => exact ⟨rfl, rfl⟩
  | cons notice notices ih =>
    obtain ⟨hrooms, hmeetings⟩ := ih (m := m.notify info notice)
    rw [List.foldl_cons, hrooms, hmeetings]
    cases notice <;> exact ⟨rfl, rfl⟩

theorem onSession_rooms {session : SessionInfo} {f : MediaSession P → Outcome P} :
    (m.onSession session f).2.rooms = m.rooms ∧ (m.onSession session f).2.meetings = m.meetings := by
  unfold onSession
  split
  · exact ⟨rfl, rfl⟩
  · exact notify_rooms _ _

theorem answer_aside (hc : c.Aside) :
    (m.answer rtc c).2.rooms = m.rooms ∧ (m.answer rtc c).2.meetings = m.meetings := by
  have hlook : ∀ {α : Type} {room : Nat} {missing : α} {f : MediaRoom → α},
      (m.onRoom room missing fun r => (f r, r)).2.rooms = m.rooms ∧
        (m.onRoom room missing fun r => (f r, r)).2.meetings = m.meetings := by
    intro α room missing f
    rw [setRoom_onRoom]
    exact ⟨rfl, rfl⟩
  cases c with
  | findOrAddRoom _ => exact hc.elim
  | dropRoom _ => exact hc.elim
  | addPeer _ _ => exact hc.elim
  | removePeer _ _ _ => exact hc.elim
  | registerPublisherTrack _ _ _ => exact hc.elim
  | findRoom _ => exact ⟨rfl, rfl⟩
  | isStopped _ => exact ⟨rfl, rfl⟩
  | getPeer _ _ => exact hlook
  | peerCount _ => exact hlook
  | getSessionsForConnection _ _ => exact hlook
  | createSession room request session =>
    simp only [answer]
    split <;> exact ⟨rfl, rfl⟩
  | setRemoteOffer _ _ => exact onSession_rooms
  | setRemoteAnswer _ _ => exact onSession_rooms
  | addRemoteCandidate _ _ _ => exact onSession_rooms
  | requestRenegotiation _ => exact onSession_rooms
  | addOutgoingTrack _ => exact onSession_rooms
  | removeOutgoingTracks _ _ => exact onSession_rooms
  | send _ _ => exact ⟨rfl, rfl⟩

theorem answer_shrinks (hc : ∀ room peer, c ≠ .addPeer room peer) : Shrinks m (m.answer rtc c).2 := by
  by_cases haside : c.Aside
  · intro a r u peer hr hpeer
    rw [(answer_aside haside).1] at hr
    exact ⟨r, hr, rfl, hpeer⟩
  cases c with
  | findOrAddRoom meetingId =>
    simp only [answer]
    split
    · exact Shrinks.rfl
    · intro a r u peer hr hpeer
      have hr : (m.setRoom m.nextRoom { meetingId := meetingId }).rooms a = some r := hr
      rw [setRoom_rooms] at hr
      split at hr
      · cases hr
        have hnone : MediaRoom.getPeer { meetingId := meetingId } u = none := AList.lookup_empty u
        exact absurd (hnone.symm.trans hpeer) (by simp)
      · exact ⟨r, hr, rfl, hpeer⟩
  | dropRoom room =>
    simp only [answer]
    split
    · exact Shrinks.rfl
    · split <;> exact Shrinks.rfl
  | addPeer room peer => exact absurd rfl (hc room peer)
  | removePeer room uid expected =>
    refine shrinks_onRoom (fun r => ?_) fun r u peer hpeer => ?_
    · split
      · rfl
      · next hremove => exact MediaRoom.removePeer_meetingId hremove
    · split at hpeer
      · exact hpeer
      · next hremove => exact MediaRoom.getPeer_of_removePeer hremove hpeer
  | registerPublisherTrack room uid media =>
    refine shrinks_onRoom (fun r => r.registerPublisherTrack_meetingId uid media) fun r u peer hpeer => ?_
    exact (r.getPeer_registerPublisherTrack uid u media) ▸ hpeer
  | _ => exact absurd trivial haside

theorem answer_quiet (hc : c.Quiet) : (m.answer rtc c).2.meetings = m.meetings := by
  by_cases haside : c.Aside
  · exact (answer_aside haside).2
  have honRoom : ∀ {α : Type} {room : Nat} {missing : α} {f : MediaRoom → α × MediaRoom},
      (m.onRoom room missing f).2.meetings = m.meetings := by
    intro α room missing f
    unfold onRoom
    split <;> rfl
  cases c with
  | findOrAddRoom _ => exact hc.elim
  | dropRoom _ => exact hc.elim
  | addPeer _ _ => exact hc.elim
  | removePeer _ _ _ => exact honRoom
  | registerPublisherTrack _ _ _ => exact honRoom
  | _ => exact absurd trivial haside

/-- No section stops a connection or lets it mention a room. -/
theorem answer_connections : (m.answer rtc c).2.stopped = m.stopped ∧ (m.answer rtc c).2.meetingIds = m.meetingIds := by
  have honRoom : ∀ {α : Type} {room : Nat} {missing : α} {f : MediaRoom → α × MediaRoom},
      (m.onRoom room missing f).2.stopped = m.stopped ∧ (m.onRoom room missing f).2.meetingIds = m.meetingIds := by
    intro α room missing f
    unfold onRoom
    split <;> exact ⟨rfl, rfl⟩
  have hnotify : ∀ (m : Memory P) info (notices : List Notice),
      (notices.foldl (fun m notice => m.notify info notice) m).stopped = m.stopped ∧
        (notices.foldl (fun m notice => m.notify info notice) m).meetingIds = m.meetingIds := by
    intro m info notices
    induction notices generalizing m with
    | nil => exact ⟨rfl, rfl⟩
    | cons notice notices ih =>
      obtain ⟨hstopped, hids⟩ := ih (m.notify info notice)
      rw [List.foldl_cons, hstopped, hids]
      cases notice <;> exact ⟨rfl, rfl⟩
  have honSession : ∀ {session : SessionInfo} {f : MediaSession P → Outcome P},
      (m.onSession session f).2.stopped = m.stopped ∧ (m.onSession session f).2.meetingIds = m.meetingIds := by
    intro session f
    unfold onSession
    split
    · exact ⟨rfl, rfl⟩
    · exact hnotify _ _ _
  cases c with
  | findRoom _ => exact ⟨rfl, rfl⟩
  | findOrAddRoom _ =>
    simp only [answer]
    split <;> exact ⟨rfl, rfl⟩
  | dropRoom _ =>
    simp only [answer]
    split
    · exact ⟨rfl, rfl⟩
    · split <;> exact ⟨rfl, rfl⟩
  | createSession _ _ _ =>
    simp only [answer]
    split <;> exact ⟨rfl, rfl⟩
  | isStopped _ => exact ⟨rfl, rfl⟩
  | getPeer _ _ => exact honRoom
  | addPeer _ _ => exact honRoom
  | removePeer _ _ _ => exact honRoom
  | peerCount _ => exact honRoom
  | getSessionsForConnection _ _ => exact honRoom
  | registerPublisherTrack _ _ _ => exact honRoom
  | setRemoteOffer _ _ => exact honSession
  | setRemoteAnswer _ _ => exact honSession
  | addRemoteCandidate _ _ _ => exact honSession
  | requestRenegotiation _ => exact honSession
  | addOutgoingTrack _ => exact honSession
  | removeOutgoingTracks _ _ => exact honSession
  | send _ _ => exact ⟨rfl, rfl⟩

end Memory

/-! ## The machine -/

/-- Sections over the view of a meeting in a memory of which `H` is known. At each of them `I` holds. -/
def watched (rtc : Rtc P) (H : Memory P → Prop) (I : Section → Memory P → Prop) (k : Nat) :
    Prog.Machine sections (Memory P) where
  pre := I
  rel c v result v' := Core k v ∧ v.Within k c ∧
    ∃ m : Memory P, H m ∧ m.view k = v ∧ (m.answer rtc c).1 = result ∧ (m.answer rtc c).2.view k = v'

variable {H : Memory P → Prop} {I : Section → Memory P → Prop} {Q : Memory P → Prop} {k : Nat}

/-- What is posted is no part of a view. -/
theorem view_posts (m : Memory P) (events : List MediaRoomEvent) : (events.foldl Memory.post m).view k = m.view k := by
  induction events generalizing m with
  | nil => rfl
  | cons event events ih => exact ih (m.post event)

/-! ## What a step does -/

section

variable {σ σ' : System P} {e : ServerEvent}

/-- What a step can do to the memory and to the workers. -/
inductive Stepped (rtc : Rtc P) (σ σ' : System P) : ServerEvent → Prop
  | aside {e : ServerEvent} (hmemory : σ'.memory = σ.memory) (hworkers : σ'.workers = σ.workers) : Stepped rtc σ σ' e
  | stop (session : Nat)
      (hmemory : σ'.memory = { σ.memory with stopped := Function.update σ.memory.stopped session true })
      (hworkers : σ'.workers = σ.workers) : Stepped rtc σ σ' (.stop session)
  | request (session : Nat) (request : MediaSignalRequest)
      (hmemory : σ'.memory = Memory.post { σ.memory with
        meetingIds := Function.update σ.memory.meetingIds session (request.meetingId :: σ.memory.meetingIds session) }
        (.signal session request))
      (hworkers : σ'.workers = σ.workers) : Stepped rtc σ σ' (.post session)
  | posts {e : ServerEvent} (events : List MediaRoomEvent)
      (hevents : ∀ event ∈ events, (∃ a c, event = .disconnected a c ∧ σ.memory.stopped c = true) ∨
        ∃ c i response, event = .localSignal c i response)
      (hmemory : σ'.memory = events.foldl Memory.post σ.memory)
      (hworkers : σ'.workers = σ.workers) : Stepped rtc σ σ' e
  | take (k : Nat) {event : MediaRoomEvent} {events : List MediaRoomEvent} (hworker : σ.workers k = .pure ())
      (hqueue : σ.memory.queues k = event :: events)
      (hmemory : σ'.memory = { σ.memory with queues := Function.update σ.memory.queues k events })
      (hworkers : σ'.workers = Function.update σ.workers k (handleRoomEvent event)) : Stepped rtc σ σ' (.take k)
  | run (k : Nat) {c : Section} {g : c.Res → Handler} (hworker : σ.workers k = .call c g)
      (hmemory : σ'.memory = (σ.memory.answer rtc c).2)
      (hworkers : σ'.workers = Function.update σ.workers k (g (σ.memory.answer rtc c).1)) : Stepped rtc σ σ' (.run k)

theorem stepped (hs : σ.step rtc e = some σ') : Stepped rtc σ σ' e := by
  cases e with
  | request session request =>
    simp only [System.step] at hs
    split at hs
    · cases hs
    · cases hs
      exact .aside rfl rfl
  | post session =>
    obtain ⟨request, _, rfl⟩ := Option.map_eq_some_iff.mp hs
    exact .request session request rfl rfl
  | stop session =>
    cases hs
    exact .stop session rfl rfl
  | signalDisconnected session =>
    simp only [System.step] at hs
    split at hs
    · next hstopped =>
      cases hs
      refine .posts _ (fun event hevent => .inl ?_) rfl rfl
      obtain ⟨a, _, rfl⟩ := List.mem_map.mp hevent
      exact ⟨a, session, rfl, hstopped.1⟩
    · cases hs
  | localDescription instanceId description =>
    obtain ⟨_, _, rfl⟩ := Option.map_eq_some_iff.mp hs
    refine .posts [_] (fun event hevent => .inr ?_) rfl rfl
    exact ⟨_, _, _, List.mem_singleton.mp hevent⟩
  | localCandidate instanceId candidate mid =>
    obtain ⟨_, _, rfl⟩ := Option.map_eq_some_iff.mp hs
    refine .posts [_] (fun event hevent => .inr ?_) rfl rfl
    exact ⟨_, _, _, List.mem_singleton.mp hevent⟩
  | take k =>
    simp only [System.step] at hs
    split at hs
    · next hworker hqueue =>
      cases hs
      exact .take k hworker hqueue rfl rfl
    · cases hs
  | run k =>
    simp only [System.step] at hs
    split at hs
    · next hworker =>
      cases hs
      exact .run k hworker rfl rfl
    · cases hs
  | packet thread instanceId media packet =>
    simp only [System.step] at hs
    split at hs
    · split at hs
      · cases hs
        exact .aside rfl rfl
      · cases hs
    · cases hs
  | choose thread =>
    simp only [System.step] at hs
    split at hs
    · split at hs
      · cases hs
        exact .aside rfl rfl
      · split at hs
        · cases hs
          exact .aside rfl rfl
        · cases hs
          exact .aside rfl rfl
    · cases hs
  | send thread isOpen =>
    simp only [System.step] at hs
    split at hs
    · split at hs
      · cases hs
        exact .aside rfl rfl
      · cases hs
        exact .aside rfl rfl
    · cases hs

/-- A step, as the handler of one meeting sees it: its worker goes on, or takes its next event, or nothing of the
meeting is touched. -/
theorem watched_step (h : σ.Reachable rtc) (hH : H σ.memory)
    (htake : ∀ event ∈ σ.memory.queues k, e = .take k → Q (σ.memory.view k) →
      (handleRoomEvent event).wp (watched rtc H I k) (fun _ => Q) (σ.memory.view k))
    (hw : (σ.workers k).wp (watched rtc H I k) (fun _ => Q) (σ.memory.view k)) (hs : σ.step rtc e = some σ') :
    (σ'.workers k).wp (watched rtc H I k) (fun _ => Q) (σ'.memory.view k) := by
  cases stepped hs with
  | aside hmemory hworkers =>
    rw [hmemory, hworkers]
    exact hw
  | stop session hmemory hworkers =>
    rw [hmemory, hworkers]
    exact hw
  | request session request hmemory hworkers =>
    rw [hmemory, hworkers]
    exact hw
  | posts events _ hmemory hworkers =>
    rw [hmemory, hworkers, view_posts]
    exact hw
  | take j hworker hqueue hmemory hworkers =>
    rw [hmemory, hworkers]
    by_cases hj : k = j
    · subst hj
      rw [hworker] at hw
      rw [Function.update_self]
      refine htake _ ?_ rfl hw
      rw [hqueue]
      exact List.mem_cons_self
    · rw [Function.update_of_ne hj]
      exact hw
  | run j hworker hmemory hworkers =>
    have hrunning := running_core h
    have hwithin := hrunning.workers j
    rw [hworker] at hwithin
    rw [hmemory, hworkers]
    by_cases hj : k = j
    · subst hj
      rw [hworker] at hw
      rw [Function.update_self]
      exact hw.2 _ _ ⟨hwithin.1.1, hwithin.1.2, σ.memory, hH, rfl, rfl, rfl⟩
    · rw [Function.update_of_ne hj, Memory.answer_view_ne rtc hrunning.fresh hwithin.1.2 hj]
      exact hw

/-- A run, as the handler of one meeting sees it. -/
theorem watched_run {ok : System P → ServerEvent → Prop} (h : σ.Reachable rtc) (hH : H σ.memory)
    (hmono : ∀ τ e τ', System.step rtc τ e = some τ' → H τ.memory → H τ'.memory)
    (htake : ∀ (τ : System P) event, ok τ (.take k) → event.meetingId = k → Q (τ.memory.view k) →
      (handleRoomEvent event).wp (watched rtc H I k) (fun _ => Q) (τ.memory.view k))
    (hw : (σ.workers k).wp (watched rtc H I k) (fun _ => Q) (σ.memory.view k))
    (hrun : Reach (System.step rtc) ok σ σ') :
    σ'.Reachable rtc ∧ H σ'.memory ∧ (σ'.workers k).wp (watched rtc H I k) (fun _ => Q) (σ'.memory.view k) := by
  induction hrun with
  | start => exact ⟨h, hH, hw⟩
  | @next τ τ' e _ hok hs ih =>
    obtain ⟨hreach, hold, hwp⟩ := ih
    refine ⟨hreach.next trivial hs, hmono _ _ _ hs hold, ?_⟩
    refine watched_step hreach hold (fun event hevent he hq => ?_) hwp hs
    subst he
    exact htake τ event hok ((running_core hreach).queued k event hevent) hq

/-! ## Connections and what they post -/

theorem posts_connections (m : Memory P) (events : List MediaRoomEvent) :
    (events.foldl Memory.post m).stopped = m.stopped ∧ (events.foldl Memory.post m).meetingIds = m.meetingIds := by
  induction events generalizing m with
  | nil => exact ⟨rfl, rfl⟩
  | cons event events ih => exact ih (m.post event)

/-- A connection that has stopped stays so, and what it has mentioned is remembered. -/
theorem connections_step (hs : σ.step rtc e = some σ') :
    (∀ c, σ.memory.stopped c = true → σ'.memory.stopped c = true) ∧
      ∀ c k, k ∈ σ.memory.meetingIds c → k ∈ σ'.memory.meetingIds c := by
  cases stepped hs with
  | aside hmemory _ =>
    rw [hmemory]
    exact ⟨fun _ => id, fun _ _ => id⟩
  | stop session hmemory _ =>
    rw [hmemory]
    refine ⟨fun c hc => ?_, fun _ _ => id⟩
    by_cases heq : c = session
    · rw [heq]
      exact Function.update_self _ _ _
    · exact (Function.update_of_ne heq _ _).trans hc
  | request session request hmemory _ =>
    rw [hmemory]
    refine ⟨fun _ => id, fun c k hk => ?_⟩
    by_cases heq : c = session
    · subst heq
      simp only [Memory.post, Function.update_self]
      exact List.mem_cons_of_mem _ hk
    · simp only [Memory.post, Function.update_of_ne heq]
      exact hk
  | posts events _ hmemory _ =>
    obtain ⟨hstopped, hids⟩ := posts_connections σ.memory events
    rw [hmemory, hstopped, hids]
    exact ⟨fun _ => id, fun _ _ => id⟩
  | take j _ _ hmemory _ =>
    rw [hmemory]
    exact ⟨fun _ => id, fun _ _ => id⟩
  | run j _ hmemory _ =>
    rw [hmemory, Memory.answer_connections.1, Memory.answer_connections.2]
    exact ⟨fun _ => id, fun _ _ => id⟩

/-- A request is posted by a connection that has mentioned its room, a disconnect task for one that has stopped. -/
def Posted (m : Memory P) (k : Nat) : MediaRoomEvent → Prop
  | .signal session _ => k ∈ m.meetingIds session
  | .disconnected _ session => m.stopped session = true
  | .trackReady _ _ _ _ => True
  | .localSignal _ _ _ => True

theorem posted_post {m : Memory P} (h : ∀ k, ∀ event ∈ m.queues k, Posted m k event) {event : MediaRoomEvent}
    (hevent : Posted m event.meetingId event) (k : Nat) : ∀ event' ∈ (m.post event).queues k, Posted m k event' := by
  intro event' he
  by_cases hk : k = event.meetingId
  · subst hk
    simp only [Memory.post, Function.update_self] at he
    rcases List.mem_append.mp he with he | he
    · exact h _ event' he
    · rw [List.mem_singleton.mp he]
      exact hevent
  · simp only [Memory.post, Function.update_of_ne hk] at he
    exact h k event' he

theorem posted_posts {m : Memory P} {events : List MediaRoomEvent} (h : ∀ k, ∀ event ∈ m.queues k, Posted m k event)
    (hevents : ∀ event ∈ events, Posted m event.meetingId event) (k : Nat) :
    ∀ event ∈ (events.foldl Memory.post m).queues k, Posted m k event := by
  induction events generalizing m with
  | nil => exact h k
  | cons event events ih =>
    exact ih (m := m.post event) (posted_post h (hevents event List.mem_cons_self))
      fun event' he => hevents event' (List.mem_cons_of_mem _ he)

theorem Posted.mono {m m' : Memory P} {event : MediaRoomEvent} (h : Posted m k event)
    (hstopped : ∀ c, m.stopped c = true → m'.stopped c = true)
    (hids : ∀ c k, k ∈ m.meetingIds c → k ∈ m'.meetingIds c) : Posted m' k event := by
  cases event with
  | signal session request => exact hids session k h
  | disconnected a session => exact hstopped session h
  | trackReady a u i media => trivial
  | localSignal session i response => trivial

theorem posted_of_reachable (h : σ.Reachable rtc) : ∀ k, ∀ event ∈ σ.memory.queues k, Posted σ.memory k event := by
  refine Reach.invariant (I := fun σ : System P => ∀ k, ∀ event ∈ σ.memory.queues k, Posted σ.memory k event)
    (fun _ _ he => absurd he List.not_mem_nil) ?_ h
  intro σ e σ' ih _ hs k event he
  obtain ⟨hstopped, hids⟩ := connections_step hs
  cases stepped hs with
  | aside hmemory _ =>
    rw [hmemory] at he ⊢
    exact ih k event he
  | stop session hmemory _ =>
    refine (ih k event ?_).mono hstopped hids
    rw [hmemory] at he
    exact he
  | request session request hmemory _ =>
    rw [hmemory] at he hstopped hids ⊢
    let m : Memory P := { σ.memory with
      meetingIds := Function.update σ.memory.meetingIds session (request.meetingId :: σ.memory.meetingIds session) }
    have hmentioned : Posted m request.meetingId (.signal session request) := by
      unfold Posted
      simp only [m, Function.update_self]
      exact List.mem_cons_self
    have hbefore : ∀ k, ∀ event ∈ m.queues k, Posted m k event :=
      fun k event he => (ih k event he).mono hstopped hids
    exact posted_post (m := m) hbefore (show Posted m (MediaRoomEvent.signal session request).meetingId _ from hmentioned) k event he
  | posts events hevents hmemory _ =>
    refine Posted.mono (posted_posts ih (fun event he => ?_) k event (hmemory ▸ he)) hstopped hids
    rcases hevents event he with ⟨a, c, rfl, hc⟩ | ⟨c, i, response, rfl⟩
    · exact hc
    · trivial
  | take j _ hqueue hmemory _ =>
    refine (ih k event ?_).mono hstopped hids
    rw [hmemory] at he
    by_cases hk : k = j
    · subst hk
      rw [hqueue]
      simp only [Function.update_self] at he
      exact List.mem_cons_of_mem _ he
    · simp only [Function.update_of_ne hk] at he
      exact he
  | run j _ hmemory _ =>
    rw [hmemory] at he
    exact (System.queued_answer ih (fun _ _ _ _ => trivial) _ k event he).mono hstopped hids

end

end SyncRtc.MediaServer
