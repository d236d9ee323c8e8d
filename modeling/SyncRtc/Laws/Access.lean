import SyncRtc.Realtime.System

/-!
# What one call leaves alone

For each part of the server, the calls that can change it. A later argument about one part cites the
lemma of that part and never unfolds `exec`.
-/

set_option autoImplicit false

namespace SyncRtc

namespace Server

variable {σ : Server} {o : Oracle}

@[simp] theorem setSession_self (s : SessionId) (v : Session) : (σ.setSession s v).sessions s = v := by
  simp only [setSession, Function.update_self]

theorem setSession_of_ne {s t : SessionId} (h : t ≠ s) (v : Session) :
    (σ.setSession s v).sessions t = σ.sessions t := by
  simp only [setSession, Function.update_of_ne h]

@[simp] theorem setRoom_self (m : MeetingId) (v : Room) : (σ.setRoom m v).rooms m = v := by
  simp only [setRoom, Function.update_self]

theorem setRoom_of_ne {m n : MeetingId} (h : n ≠ m) (v : Room) : (σ.setRoom m v).rooms n = σ.rooms n := by
  simp only [setRoom, Function.update_of_ne h]

@[simp] theorem setConn_self (s : SessionId) (v : Conn) : (σ.setConn s v).conns s = v := by
  simp only [setConn, Function.update_self]

theorem setConn_of_ne {s t : SessionId} (h : t ≠ s) (v : Conn) : (σ.setConn s v).conns t = σ.conns t := by
  simp only [setConn, Function.update_of_ne h]

/-! ## The calls with cases of their own -/

/-- A send changes the log of frames, or closes the session it was for. -/
theorem send_cases (s : SessionId) (id : RequestID) (payload : Reply) :
    σ.send o s id payload = (false, σ) ∨
    σ.send o s id payload = (false, σ.setSession s { σ.sessions s with closed := true }) ∨
    σ.send o s id payload = (true, { σ with sent := σ.sent ++ [⟨s, id, payload⟩] }) := by
  unfold send
  split
  · exact .inl rfl
  · split
    · exact .inl rfl
    · split
      · exact .inr (.inl rfl)
      · exact .inr (.inr rfl)

theorem sendMediaSignal_cases (epoch : Nat) (message : Reply) :
    σ.sendMediaSignal o epoch message = (false, σ) ∨
    σ.sendMediaSignal o epoch message = (false, { σ with link := { σ.link with connected := false } }) ∨
    σ.sendMediaSignal o epoch message = (true, { σ with forwarded := σ.forwarded ++ [(epoch, message)] }) := by
  unfold sendMediaSignal
  split
  · exact .inl rfl
  · split
    · exact .inr (.inl rfl)
    · exact .inr (.inr rfl)

theorem submitRoom_cases (m : MeetingId) (task : Task) :
    σ.submitRoom o m task = (false, σ) ∨
    σ.submitRoom o m task =
      (true, σ.setRoom m { σ.rooms m with queue := (σ.rooms m).queue ++ [task] }) :=
  ite_eq_or_eq _ _ _

/-- What an accepted or refused event of the MediaServer link leaves of a session. -/
theorem acceptMediaEvent_session (event : MediaEvent) (epoch : Nat) (s : SessionId) :
    ∃ id, (σ.acceptMediaEvent event epoch).2.sessions s = { σ.sessions s with mediaSignalId := id } := by
  unfold acceptMediaEvent
  split
  · exact ⟨_, rfl⟩
  · split
    · exact ⟨_, rfl⟩
    · dsimp only
      split
      · exact ⟨0, rfl⟩
      · exact ⟨_, rfl⟩

theorem acceptMediaEvent_rest (event : MediaEvent) (epoch : Nat) :
    (σ.acceptMediaEvent event epoch).2 =
      { σ with
        sessions := (σ.acceptMediaEvent event epoch).2.sessions
        signals := (σ.acceptMediaEvent event epoch).2.signals
        mediaEpoch := (σ.acceptMediaEvent event epoch).2.mediaEpoch } := by
  unfold acceptMediaEvent
  split
  · rfl
  · split <;> rfl

theorem reserveUser_rest (u : Uid) (m : MeetingId) :
    (σ.reserveUser u m).2 = { σ with users := (σ.reserveUser u m).2.users } := by
  unfold reserveUser
  split
  · rfl
  · split <;> rfl

theorem finishJoin_rest (u : Uid) (m : MeetingId) (joined : Bool) :
    σ.finishJoin u m joined = { σ with users := (σ.finishJoin u m joined).users } := by
  unfold finishJoin
  split
  · rfl
  · split <;> rfl

theorem releaseUser_rest (u : Uid) (m : MeetingId) :
    σ.releaseUser u m = { σ with users := (σ.releaseUser u m).users } := by
  unfold releaseUser
  split <;> rfl

end Server

/-! ## The parts -/

variable {σ : Server} {o : Oracle} {c : Call}

/-- No call touches the connections, the running operations, the clocks or the numbering of
sessions. -/
structure SameThreads (σ σ' : Server) : Prop where
  conns : σ'.conns = σ.conns
  active : ∀ m, (σ'.rooms m).active = (σ.rooms m).active
  timer : σ'.timer = σ.timer
  control : σ'.controlOp = σ.controlOp ∧ σ'.control = σ.control
  nextSession : σ'.nextSession = σ.nextSession
  clocks : σ'.wall = σ.wall ∧ σ'.steady = σ.steady

theorem SameThreads.refl (σ : Server) : SameThreads σ σ := ⟨rfl, fun _ => rfl, rfl, ⟨rfl, rfl⟩, rfl, ⟨rfl, rfl⟩⟩

theorem sameThreads_setRoom (m : MeetingId) (v : Room) (h : v.active = (σ.rooms m).active) :
    SameThreads σ (σ.setRoom m v) := by
  refine ⟨rfl, fun n => ?_, rfl, ⟨rfl, rfl⟩, rfl, ⟨rfl, rfl⟩⟩
  by_cases hn : n = m
  · subst hn
    rw [Server.setRoom_self, h]
  · rw [Server.setRoom_of_ne hn]

theorem exec_threads (c : Call) (o : Oracle) (σ : Server) : SameThreads σ (exec c o σ).2 := by
  cases c with
  | setRoom m d =>
    simp only [exec]
    split
    · exact .refl σ
    · exact sameThreads_setRoom m _ rfl
  | submitRoom m task =>
    rcases Server.submitRoom_cases (σ := σ) (o := o) m task with h | h
    · simp only [exec, h]
      exact .refl σ
    · simp only [exec, h]
      exact sameThreads_setRoom m _ rfl
  | send s id payload =>
    rcases Server.send_cases (σ := σ) (o := o) s id payload with h | h | h <;> simp only [exec, h]
    · exact .refl σ
    · exact ⟨rfl, fun _ => rfl, rfl, ⟨rfl, rfl⟩, rfl, ⟨rfl, rfl⟩⟩
    · exact ⟨rfl, fun _ => rfl, rfl, ⟨rfl, rfl⟩, rfl, ⟨rfl, rfl⟩⟩
  | sendMediaSignal epoch message =>
    rcases Server.sendMediaSignal_cases (σ := σ) (o := o) epoch message with h | h | h <;>
      simp only [exec, h] <;> exact ⟨rfl, fun _ => rfl, rfl, ⟨rfl, rfl⟩, rfl, ⟨rfl, rfl⟩⟩
  | acceptMediaEvent event epoch =>
    simp only [exec]
    rw [Server.acceptMediaEvent_rest]
    exact ⟨rfl, fun _ => rfl, rfl, ⟨rfl, rfl⟩, rfl, ⟨rfl, rfl⟩⟩
  | reserveUser u m =>
    simp only [exec]
    rw [Server.reserveUser_rest]
    exact ⟨rfl, fun _ => rfl, rfl, ⟨rfl, rfl⟩, rfl, ⟨rfl, rfl⟩⟩
  | finishJoin u m joined =>
    simp only [exec]
    rw [Server.finishJoin_rest]
    exact ⟨rfl, fun _ => rfl, rfl, ⟨rfl, rfl⟩, rfl, ⟨rfl, rfl⟩⟩
  | releaseUser u m =>
    simp only [exec]
    rw [Server.releaseUser_rest]
    exact ⟨rfl, fun _ => rfl, rfl, ⟨rfl, rfl⟩, rfl, ⟨rfl, rfl⟩⟩
  | newResumeTicket =>
    simp only [exec]
    split <;> exact ⟨rfl, fun _ => rfl, rfl, ⟨rfl, rfl⟩, rfl, ⟨rfl, rfl⟩⟩
  | clearMediaSignalId s expected =>
    simp only [exec]
    split <;> exact ⟨rfl, fun _ => rfl, rfl, ⟨rfl, rfl⟩, rfl, ⟨rfl, rfl⟩⟩
  | _ => exact ⟨rfl, fun _ => rfl, rfl, ⟨rfl, rfl⟩, rfl, ⟨rfl, rfl⟩⟩

/-- The queues of the rooms grow by `submitRoom` alone. -/
theorem exec_queue (h : ∀ m task, c ≠ .submitRoom m task) (m : MeetingId) :
    ((exec c o σ).2.rooms m).queue = (σ.rooms m).queue := by
  cases c with
  | submitRoom m task => exact absurd rfl (h m task)
  | setRoom n d =>
    simp only [exec]
    split
    · rfl
    · by_cases hn : m = n
      · subst hn
        rw [Server.setRoom_self]
      · rw [Server.setRoom_of_ne hn]
  | send s id payload =>
    rcases Server.send_cases (σ := σ) (o := o) s id payload with h | h | h <;>
      (simp only [exec, h]; try rfl)
  | sendMediaSignal epoch message =>
    rcases Server.sendMediaSignal_cases (σ := σ) (o := o) epoch message with h | h | h <;>
      simp only [exec, h]
  | acceptMediaEvent event epoch => simp only [exec]; rw [Server.acceptMediaEvent_rest]
  | reserveUser u n => simp only [exec]; rw [Server.reserveUser_rest]
  | finishJoin u n joined => simp only [exec]; rw [Server.finishJoin_rest]
  | releaseUser u n => simp only [exec]; rw [Server.releaseUser_rest]
  | newResumeTicket => simp only [exec]; split <;> rfl
  | clearMediaSignalId s expected => simp only [exec]; split <;> rfl
  | _ => rfl

/-- The containers of a room change by `setRoom` alone. -/
theorem exec_data (m : MeetingId) (h : ∀ d, c ≠ .setRoom m d) :
    ((exec c o σ).2.rooms m).data = (σ.rooms m).data := by
  cases c with
  | setRoom n d =>
    have hn : m ≠ n := fun e => h d (e ▸ rfl)
    simp only [exec]
    split
    · rfl
    · rw [Server.setRoom_of_ne hn]
  | submitRoom n task =>
    rcases Server.submitRoom_cases (σ := σ) (o := o) n task with h | h
    · simp only [exec, h]
    · simp only [exec, h]
      by_cases hn : m = n
      · subst hn
        rw [Server.setRoom_self]
      · rw [Server.setRoom_of_ne hn]
  | send s id payload =>
    rcases Server.send_cases (σ := σ) (o := o) s id payload with h | h | h <;>
      (simp only [exec, h]; try rfl)
  | sendMediaSignal epoch message =>
    rcases Server.sendMediaSignal_cases (σ := σ) (o := o) epoch message with h | h | h <;>
      simp only [exec, h]
  | acceptMediaEvent event epoch => simp only [exec]; rw [Server.acceptMediaEvent_rest]
  | reserveUser u n => simp only [exec]; rw [Server.reserveUser_rest]
  | finishJoin u n joined => simp only [exec]; rw [Server.finishJoin_rest]
  | releaseUser u n => simp only [exec]; rw [Server.releaseUser_rest]
  | newResumeTicket => simp only [exec]; split <;> rfl
  | clearMediaSignalId s expected => simp only [exec]; split <;> rfl
  | _ => rfl

/-- The two stores change by storage calls alone. -/
theorem exec_storage (h : ∀ site q, c ≠ .query site q) : (exec c o σ).2.storage = σ.storage := by
  cases c with
  | query site q => exact absurd rfl (h site q)
  | setRoom n d => simp only [exec]; split <;> rfl
  | submitRoom n task =>
    rcases Server.submitRoom_cases (σ := σ) (o := o) n task with hc | hc <;> simp only [exec, hc]; rfl
  | send s id payload =>
    rcases Server.send_cases (σ := σ) (o := o) s id payload with hc | hc | hc <;> simp only [exec, hc]; rfl
  | sendMediaSignal epoch message =>
    rcases Server.sendMediaSignal_cases (σ := σ) (o := o) epoch message with hc | hc | hc <;>
      simp only [exec, hc]
  | acceptMediaEvent event epoch => simp only [exec]; rw [Server.acceptMediaEvent_rest]
  | reserveUser u n => simp only [exec]; rw [Server.reserveUser_rest]
  | finishJoin u n joined => simp only [exec]; rw [Server.finishJoin_rest]
  | releaseUser u n => simp only [exec]; rw [Server.releaseUser_rest]
  | newResumeTicket => simp only [exec]; split <;> rfl
  | clearMediaSignalId s expected => simp only [exec]; split <;> rfl
  | _ => rfl

/-- Frames are sent by sends alone. -/
theorem exec_sent (h : ∀ s id payload, c ≠ .send s id payload) : (exec c o σ).2.sent = σ.sent := by
  cases c with
  | send s id payload => exact absurd rfl (h s id payload)
  | setRoom n d => simp only [exec]; split <;> rfl
  | submitRoom n task =>
    rcases Server.submitRoom_cases (σ := σ) (o := o) n task with hc | hc <;> simp only [exec, hc]; rfl
  | sendMediaSignal epoch message =>
    rcases Server.sendMediaSignal_cases (σ := σ) (o := o) epoch message with hc | hc | hc <;>
      simp only [exec, hc]
  | acceptMediaEvent event epoch => simp only [exec]; rw [Server.acceptMediaEvent_rest]
  | reserveUser u n => simp only [exec]; rw [Server.reserveUser_rest]
  | finishJoin u n joined => simp only [exec]; rw [Server.finishJoin_rest]
  | releaseUser u n => simp only [exec]; rw [Server.releaseUser_rest]
  | newResumeTicket => simp only [exec]; split <;> rfl
  | clearMediaSignalId s expected => simp only [exec]; split <;> rfl
  | _ => rfl

/-- What the call `c` keeps of the session `s`: its meeting, unless `c` sets it; its user, unless `c`
sets it. A session is never opened again, and whether its object is left is not for calls to say. -/
structure SessionKept (c : Call) (s : SessionId) (v v' : Session) : Prop where
  alive : v'.alive = v.alive
  closed : v.closed = true → v'.closed = true
  meeting : (∀ m, c ≠ .setMeetingId s m) → v'.meetingId = v.meetingId
  user : (∀ u token, c ≠ .setUser s u token) → v'.userId = v.userId ∧ v'.authToken = v.authToken

theorem SessionKept.refl (c : Call) (s : SessionId) (v : Session) : SessionKept c s v v :=
  ⟨rfl, id, fun _ => rfl, fun _ => ⟨rfl, rfl⟩⟩

/-- An update of one session keeps what the update of its value keeps. -/
theorem sessionKept_setSession {s t : SessionId} {v : Session}
    (h : s = t → SessionKept c s (σ.sessions s) v) :
    SessionKept c s (σ.sessions s) ((σ.setSession t v).sessions s) := by
  by_cases ht : s = t
  · subst ht
    rw [Server.setSession_self]
    exact h rfl
  · rw [Server.setSession_of_ne ht]
    exact .refl c s _

theorem exec_session (c : Call) (o : Oracle) (σ : Server) (s : SessionId) :
    SessionKept c s (σ.sessions s) ((exec c o σ).2.sessions s) := by
  cases c with
  | setMeetingId t m =>
    refine sessionKept_setSession ?_
    rintro rfl
    exact ⟨rfl, id, fun h => absurd rfl (h m), fun _ => ⟨rfl, rfl⟩⟩
  | requestClose t =>
    refine sessionKept_setSession ?_
    rintro rfl
    exact ⟨rfl, fun _ => rfl, fun _ => rfl, fun _ => ⟨rfl, rfl⟩⟩
  | setUser t u token =>
    refine sessionKept_setSession ?_
    rintro rfl
    exact ⟨rfl, id, fun _ => rfl, fun h => absurd rfl (h u token)⟩
  | setMediaSignalId t id =>
    refine sessionKept_setSession ?_
    rintro rfl
    exact ⟨rfl, fun h => h, fun _ => rfl, fun _ => ⟨rfl, rfl⟩⟩
  | clearMediaSignalId t expected =>
    simp only [exec]
    split
    · refine sessionKept_setSession ?_
      rintro rfl
      exact ⟨rfl, id, fun _ => rfl, fun _ => ⟨rfl, rfl⟩⟩
    · exact .refl _ s _
  | send t id payload =>
    rcases Server.send_cases (σ := σ) (o := o) t id payload with h | h | h <;> simp only [exec, h]
    · exact .refl _ s _
    · refine sessionKept_setSession ?_
      rintro rfl
      exact ⟨rfl, fun _ => rfl, fun _ => rfl, fun _ => ⟨rfl, rfl⟩⟩
    · exact .refl _ s _
  | acceptMediaEvent event epoch =>
    obtain ⟨id, h⟩ := Server.acceptMediaEvent_session (σ := σ) event epoch s
    simp only [exec, h]
    exact ⟨rfl, fun h => h, fun _ => rfl, fun _ => ⟨rfl, rfl⟩⟩
  | setRoom m d =>
    simp only [exec]
    split <;> exact .refl _ s _
  | submitRoom m task =>
    rcases Server.submitRoom_cases (σ := σ) (o := o) m task with h | h <;> simp only [exec, h] <;>
      exact .refl _ s _
  | sendMediaSignal epoch message =>
    rcases Server.sendMediaSignal_cases (σ := σ) (o := o) epoch message with h | h | h <;>
      simp only [exec, h] <;> exact .refl _ s _
  | reserveUser u n =>
    simp only [exec]
    rw [Server.reserveUser_rest]
    exact .refl _ s _
  | finishJoin u n joined =>
    simp only [exec]
    rw [Server.finishJoin_rest]
    exact .refl _ s _
  | releaseUser u n =>
    simp only [exec]
    rw [Server.releaseUser_rest]
    exact .refl _ s _
  | newResumeTicket =>
    simp only [exec]
    split <;> exact .refl _ s _
  | _ => exact .refl _ s _

/-- A session is closed by `requestClose` and by a send of its own alone. -/
theorem exec_closed {s : SessionId} (hclose : c ≠ .requestClose s) (hsend : ∀ id payload, c ≠ .send s id payload) :
    ((exec c o σ).2.sessions s).closed = (σ.sessions s).closed := by
  have keep : ∀ {t : SessionId} {v : Session}, (s = t → v.closed = (σ.sessions s).closed) →
      ((σ.setSession t v).sessions s).closed = (σ.sessions s).closed := by
    intro t v hv
    by_cases ht : s = t
    · subst ht
      rw [Server.setSession_self]
      exact hv rfl
    · rw [Server.setSession_of_ne ht]
  cases c with
  | setMeetingId t m =>
    refine keep ?_
    rintro rfl
    rfl
  | requestClose t =>
    refine keep ?_
    rintro rfl
    exact absurd rfl hclose
  | setUser t u token =>
    refine keep ?_
    rintro rfl
    rfl
  | setMediaSignalId t id =>
    refine keep ?_
    rintro rfl
    rfl
  | clearMediaSignalId t expected =>
    simp only [exec]
    split
    · refine keep ?_
      rintro rfl
      rfl
    · rfl
  | send t id payload =>
    have ht : s ≠ t := fun e => hsend id payload (e ▸ rfl)
    rcases Server.send_cases (σ := σ) (o := o) t id payload with h | h | h <;> simp only [exec, h]
    rw [Server.setSession_of_ne ht]
  | acceptMediaEvent event epoch =>
    obtain ⟨id, h⟩ := Server.acceptMediaEvent_session (σ := σ) event epoch s
    simp only [exec, h]
  | setRoom m d => simp only [exec]; split <;> rfl
  | submitRoom m task =>
    rcases Server.submitRoom_cases (σ := σ) (o := o) m task with h | h <;> simp only [exec, h]; rfl
  | sendMediaSignal epoch message =>
    rcases Server.sendMediaSignal_cases (σ := σ) (o := o) epoch message with h | h | h <;> simp only [exec, h]
  | reserveUser u n => simp only [exec]; rw [Server.reserveUser_rest]
  | finishJoin u n joined => simp only [exec]; rw [Server.finishJoin_rest]
  | releaseUser u n => simp only [exec]; rw [Server.releaseUser_rest]
  | newResumeTicket => simp only [exec]; split <;> rfl
  | _ => rfl

/-- Tickets that were drawn stay drawn. -/
theorem exec_issued {t : String} (h : t ∈ σ.issued) : t ∈ (exec c o σ).2.issued := by
  cases c with
  | newResumeTicket =>
    simp only [exec]
    split
    · exact h
    · exact List.mem_cons_of_mem _ h
  | setRoom m d => simp only [exec]; split <;> exact h
  | submitRoom m task =>
    rcases Server.submitRoom_cases (σ := σ) (o := o) m task with hc | hc <;> simp only [exec, hc] <;> exact h
  | send s id payload =>
    rcases Server.send_cases (σ := σ) (o := o) s id payload with hc | hc | hc <;> simp only [exec, hc] <;> exact h
  | sendMediaSignal epoch message =>
    rcases Server.sendMediaSignal_cases (σ := σ) (o := o) epoch message with hc | hc | hc <;>
      simp only [exec, hc] <;> exact h
  | acceptMediaEvent event epoch => simp only [exec]; rw [Server.acceptMediaEvent_rest]; exact h
  | reserveUser u n => simp only [exec]; rw [Server.reserveUser_rest]; exact h
  | finishJoin u n joined => simp only [exec]; rw [Server.finishJoin_rest]; exact h
  | releaseUser u n => simp only [exec]; rw [Server.releaseUser_rest]; exact h
  | clearMediaSignalId s expected => simp only [exec]; split <;> exact h
  | _ => exact h

end SyncRtc
