import SyncRtc.Laws.Queues

/-!
# What holds between any two steps

The invariant of the whole server, for every run and whatever fails. It says of every running operation
that the rest of it is verified against its machine, from a view that the server's state agrees with,
and of the state what no operation can break: queues and waiting connections are in step, a session
that works in a room is in that room or in none, and every room keeps to its history.

`Wired distinct t σ` leaves out the operation of thread `t`, which is in the middle of its step; between
two steps `t` is `none`. Where `distinct` holds no ticket is drawn twice.
-/

set_option autoImplicit false

namespace SyncRtc

open Prog

namespace Server

/-- Whom a connection waits for. -/
def awaited (σ : Server) (s : SessionId) : Option (Command × MeetingId) := (σ.conns s).state.awaits

/-- What a room has still to finish. -/
def tasks (σ : Server) (m : MeetingId) : List Task := (σ.rooms m).tasks

/-- The connection has ended, and everything it had to say has been dealt with. -/
def Gone (σ : Server) (s : SessionId) : Prop :=
  s < σ.nextSession ∧ (σ.conns s).isOpen = false ∧ (σ.conns s).commands = []

/-- The sessions whose object is left. -/
def live (σ : Server) (s : SessionId) : Prop := (σ.sessions s).alive = true

/-- The session is closed and not in the room, or its connection has ended for good. -/
def Shut (σ : Server) (m : MeetingId) (s : SessionId) : Prop :=
  ((σ.sessions s).closed = true ∧ (σ.sessions s).meetingId ≠ m) ∨ σ.Gone s

/-- The session a thread's operation works for. -/
def worker (σ : Server) : Thread → Option SessionId
  | .conn s => match (σ.conns s).state with
    | .running _ _ => some s
    | _ => none
  | .room m => (σ.rooms m).active.bind fun a => a.1.session?
  | _ => none

end Server

/-- The calls of the timer's operation. -/
def TimerCall : Call → Prop
  | .reservePool _ | .wallNow => True
  | .query _ (.zRangeByScore _) => True
  | .query _ (.zRem m _) => m = 0
  | .submitRoom m task => m ≠ 0 ∧ task.session? = none
  | _ => False

/-- The calls of the operation of MediaServer's events. -/
def ControlCall : Call → Prop
  | .acceptMediaEvent _ _ | .findSignal _ | .invalidate _ => True
  | .submitRoom m task => m ≠ 0 ∧ task.session? = none
  | _ => False

/-- The state agrees with what a connection's operation has seen. -/
def ConnView.Of (v : ConnView) (σ : Server) (s : SessionId) : Prop :=
  ∀ m, v.seen = some m → (σ.sessions s).meetingId = 0 ∨ (σ.sessions s).meetingId = m

/-- The state agrees with what a room's operation knows. -/
structure Ledger.Of (v : Ledger) (σ : Server) (m : MeetingId) (task : Task) : Prop where
  data : v.data = (σ.rooms m).data
  own : ∀ s, task.session? = some s →
    (σ.sessions s).userId = v.uid ∧ (σ.sessions s).authToken = v.token ∧ (σ.sessions s).alive = true
  issued : ∀ t ∈ v.issued, t ∈ σ.issued
  clock : v.clock ≤ σ.steady
  out : ∀ x, v.out x → (σ.sessions x).meetingId ≠ m
  shut : ∀ x, v.shut x → σ.Shut m x

/-- The time an event was recorded with. -/
def RoomEvent.time : RoomEvent → Nat
  | .disconnected _ _ time => time
  | .expired _ checkedAt => checkedAt
  | _ => 0

/-- What a room has recorded: a legal history, under tickets that were drawn and clock readings that
are past. -/
structure Kept (distinct : Prop) (d : RoomData) (issued : List String) (now : Nat) : Prop where
  recorded : d.Recorded
  drawn : ∀ t ∈ tickets d.history, t ∈ issued
  once : distinct → (tickets d.history).Nodup
  past : ∀ e ∈ d.history, e.time ≤ now

/-- The rest of a room's operation is verified, whichever of the sessions left now are gone by the time
it asks for them. -/
def Ready (distinct : Prop) (σ : Server) (m : MeetingId) (task : Task) (op : Op Unit) : Prop :=
  ∃ v : Ledger, v.Of σ m task ∧
    ∀ live, (∀ s, live s → σ.live s) → op.wp (ledger distinct live m task) anyEnd v

/-- The invariant, but for the operation of thread `t`. -/
structure Wired (distinct : Prop) (t : Option Thread) (σ : Server) : Prop where
  placed : Placed σ.awaited σ.tasks
  line : ∀ s, Line (decide (s < σ.nextSession)) (σ.conns s).isOpen (σ.conns s).commands
  dead : ∀ s, (σ.sessions s).alive = false → σ.Gone s
  inside : ∀ s c m, σ.awaited s = some (c, m) → (σ.sessions s).meetingId = 0 ∨ (σ.sessions s).meetingId = m
  kept : ∀ m, Kept distinct (σ.rooms m).data σ.issued σ.steady
  conn : ∀ s command op, (σ.conns s).state = .running command op → t ≠ some (.conn s) →
    ∃ v : ConnView, v.Of σ s ∧ op.wp (connMachine s command) (ConnEnd command) v
  room : ∀ m task op, (σ.rooms m).active = some (task, op) → t ≠ some (.room m) →
    Ready distinct σ m task op
  timer : ∀ op, σ.timer = some op → t ≠ some .timer → op.Makes TimerCall
  control : ∀ op, σ.controlOp = some op → t ≠ some .control → op.Makes ControlCall

section

variable {distinct : Prop} {σ σ' : Server} {m : MeetingId} {task : Task} {op : Op Unit}

/-- What the operation of a room depends on. -/
theorem Ready.mono (h : Ready distinct σ m task op) (hdata : (σ'.rooms m).data = (σ.rooms m).data)
    (hown : ∀ s, task.session? = some s → σ.live s →
      (σ'.sessions s).userId = (σ.sessions s).userId ∧
      (σ'.sessions s).authToken = (σ.sessions s).authToken ∧ σ'.live s)
    (hlive : ∀ s, σ'.live s → σ.live s) (hissued : ∀ t ∈ σ.issued, t ∈ σ'.issued)
    (hsteady : σ.steady ≤ σ'.steady)
    (hmeeting : ∀ s, (σ.sessions s).meetingId ≠ m → (σ'.sessions s).meetingId ≠ m)
    (hclosed : ∀ s, (σ.sessions s).closed = true → (σ'.sessions s).closed = true)
    (hgone : ∀ s, σ.Gone s → σ'.Gone s) : Ready distinct σ' m task op := by
  obtain ⟨v, hv, hwp⟩ := h
  refine ⟨v, ⟨hv.data.trans hdata.symm, fun s hs => ?_, fun t ht => hissued t (hv.issued t ht),
    hv.clock.trans hsteady, fun x hx => hmeeting x (hv.out x hx), fun x hx => ?_⟩,
    fun live hl => hwp live fun s hs => hlive s (hl s hs)⟩
  · obtain ⟨huser, htoken, halive⟩ := hv.own s hs
    obtain ⟨huser', htoken', halive'⟩ := hown s hs halive
    exact ⟨huser'.trans huser, htoken'.trans htoken, halive'⟩
  · exact (hv.shut x hx).imp (fun h => ⟨hclosed x h.1, hmeeting x h.2⟩) (hgone x)

/-- An operation of a room does not depend on the control part of the server. -/
theorem Ready.same (h : Ready distinct σ m task op) (hdata : (σ'.rooms m).data = (σ.rooms m).data)
    (hsessions : σ'.sessions = σ.sessions) (hissued : σ'.issued = σ.issued) (hsteady : σ'.steady = σ.steady)
    (hgone : ∀ s, σ.Gone s → σ'.Gone s) : Ready distinct σ' m task op := by
  refine h.mono hdata (fun s _ hs => ?_) (fun s hs => ?_) (fun t ht => hissued ▸ ht) hsteady.ge
    (fun s hs => ?_) (fun s hs => ?_) hgone
  · rw [Server.live, hsessions]
    exact ⟨rfl, rfl, hs⟩
  · rwa [Server.live, hsessions] at hs
  · rwa [hsessions]
  · rwa [hsessions]

end

/-! ## What one call may do -/

/-- What a call of thread `t` is restricted to, whichever thread it is. -/
structure Disciplined (distinct : Prop) (σ : Server) (t : Thread) (c : Call) : Prop where
  room : ∀ m d, c = .setRoom m d → t = .room m ∧
    ∃ task v, (v : Ledger).Of σ m task ∧ Change distinct σ.live task v d
  meeting : ∀ s m, c = .setMeetingId s m → m = 0 ∨ (t = .room m ∧ σ.worker t = some s)
  user : ∀ s u token, c = .setUser s u token → σ.worker t = some s
  submit : ∀ m task, c = .submitRoom m task → m ≠ 0 ∧
    (task.session? = none ∨ ∃ s command, t = .conn s ∧ task = .dispatch s command)

section

variable {distinct : Prop} {σ : Server} {t : Thread}

/-- A call that no discipline is for. -/
def Call.isFree : Call → Bool
  | .setRoom .. | .setMeetingId .. | .setUser .. | .submitRoom .. => false
  | _ => true

theorem disciplined_of_free {c : Call} (h : c.isFree = true) : Disciplined distinct σ t c := by
  refine ⟨fun m d e => ?_, fun s m e => ?_, fun s u token e => ?_, fun m task e => ?_⟩
  all_goals
    rw [e] at h
    cases h

/-- What a thread may submit. -/
theorem disciplined_submitRoom {m : MeetingId} {task : Task}
    (h : m ≠ 0 ∧ (task.session? = none ∨ ∃ s command, t = .conn s ∧ task = .dispatch s command)) :
    Disciplined distinct σ t (.submitRoom m task) := by
  refine ⟨fun _ _ e => ?_, fun _ _ e => ?_, fun _ _ _ e => ?_, fun _ _ e => ?_⟩
  all_goals cases e
  exact h

theorem disciplined_setUser {s : SessionId} {u : Uid} {token : String} (h : σ.worker t = some s) :
    Disciplined distinct σ t (.setUser s u token) := by
  refine ⟨fun _ _ e => ?_, fun _ _ e => ?_, fun _ _ _ e => ?_, fun _ _ e => ?_⟩
  all_goals cases e
  exact h

theorem disciplined_conn {s : SessionId} {command : Command} {op : Op (Option MeetingId)}
    (hs : (σ.conns s).state = .running command op) {c : Call} {v : ConnView} (h : connPre s command c v) :
    Disciplined distinct σ (.conn s) c := by
  have hworker : σ.worker (.conn s) = some s := by simp only [Server.worker, hs]
  cases c with
  | submitRoom m task =>
    obtain ⟨-, hm, rfl, -⟩ := h
    exact disciplined_submitRoom ⟨hm, .inr ⟨s, command, rfl, rfl⟩⟩
  | setUser t u token => exact disciplined_setUser (hworker.trans (congrArg some h.2.symm))
  | setRoom m d => exact h.2.elim
  | setMeetingId t m => exact h.2.elim
  | _ => exact disciplined_of_free rfl

theorem disciplined_room {m : MeetingId} {task : Task} {op : Op Unit}
    (ha : (σ.rooms m).active = some (task, op)) {c : Call} {v : Ledger} (hv : v.Of σ m task)
    (h : ledgerPre distinct σ.live m task c v) : Disciplined distinct σ (.room m) c := by
  have hworker : σ.worker (.room m) = task.session? := by simp only [Server.worker, ha, Option.bind_some]
  cases c with
  | setRoom n d =>
    obtain ⟨rfl, hchange⟩ := h
    refine ⟨fun n' d' e => ?_, fun _ _ e => ?_, fun _ _ _ e => ?_, fun _ _ e => ?_⟩
    all_goals cases e
    exact ⟨rfl, task, v, hv, hchange⟩
  | setMeetingId s n =>
    refine ⟨fun _ _ e => ?_, fun s' n' e => ?_, fun _ _ _ e => ?_, fun _ _ e => ?_⟩
    all_goals cases e
    rcases h with h0 | ⟨rfl, hs⟩
    · exact .inl h0
    · exact .inr ⟨rfl, hworker.trans hs⟩
  | setUser s u token =>
    obtain ⟨⟨r, rfl, -⟩, -⟩ := h
    exact disciplined_setUser hworker
  | submitRoom n task => exact h.elim
  | _ => exact disciplined_of_free rfl

theorem disciplined_timer {c : Call} (h : TimerCall c) : Disciplined distinct σ t c := by
  cases c with
  | submitRoom m task => exact disciplined_submitRoom ⟨h.1, .inl h.2⟩
  | setRoom m d => exact h.elim
  | setMeetingId s m => exact h.elim
  | setUser s u token => exact h.elim
  | _ => exact disciplined_of_free rfl

theorem disciplined_control {c : Call} (h : ControlCall c) : Disciplined distinct σ t c := by
  cases c with
  | submitRoom m task => exact disciplined_submitRoom ⟨h.1, .inl h.2⟩
  | setRoom m d => exact h.elim
  | setMeetingId s m => exact h.elim
  | setUser s u token => exact h.elim
  | _ => exact disciplined_of_free rfl

end

/-! ## A call leaves the other operations in step -/

section

variable {distinct : Prop} {σ : Server} {t : Thread} {c : Call} {o : Oracle}

theorem worker_room {m : MeetingId} {s : SessionId} (h : σ.worker (.room m) = some s) :
    ∃ command op, (σ.rooms m).active = some (.dispatch s command, op) := by
  obtain ⟨⟨task, op⟩, ha, hs⟩ := Option.bind_eq_some_iff.mp h
  obtain ⟨command, rfl⟩ := session?_eq_some hs
  exact ⟨command, op, ha⟩

theorem active_mem_tasks {m : MeetingId} {task : Task} {op : Op Unit}
    (h : (σ.rooms m).active = some (task, op)) : task ∈ σ.tasks m := by
  simp only [Server.tasks, Room.tasks, h, Option.map_some, Option.toList_some]
  exact List.mem_append_left _ List.mem_cons_self

/-- The session a room works for waits for that room. -/
theorem Placed.worker (h : Placed σ.awaited σ.tasks) {m : MeetingId} {s : SessionId}
    (hs : σ.worker (.room m) = some s) : ∃ command, σ.awaited s = some (command, m) := by
  obtain ⟨command, op, ha⟩ := worker_room hs
  exact ⟨command, h.waits m s command (active_mem_tasks ha)⟩

theorem worker_conn {s s' : SessionId} (h : σ.worker (.conn s) = some s') :
    s' = s ∧ σ.awaited s = none := by
  simp only [Server.worker] at h
  split at h
  · next hstate =>
    cases h
    exact ⟨rfl, by simp only [Server.awaited, hstate, ConnState.awaits]⟩
  · cases h

/-- A session is worked for by one thread at a time. -/
theorem Placed.worker_unique (h : Placed σ.awaited σ.tasks) {t t' : Thread} {s : SessionId}
    (ht : σ.worker t = some s) (ht' : σ.worker t' = some s) : t = t' := by
  have key : ∀ {t : Thread}, σ.worker t = some s →
      (t = .conn s ∧ σ.awaited s = none) ∨ ∃ m command, t = .room m ∧ σ.awaited s = some (command, m) := by
    intro t ht
    cases t with
    | conn s' =>
      obtain ⟨rfl, hnone⟩ := worker_conn ht
      exact .inl ⟨rfl, hnone⟩
    | room m =>
      obtain ⟨command, hwait⟩ := h.worker ht
      exact .inr ⟨m, command, rfl, hwait⟩
    | timer => cases ht
    | control => cases ht
  rcases key ht with ⟨rfl, hn⟩ | ⟨m, command, rfl, hw⟩ <;>
    rcases key ht' with ⟨rfl, hn'⟩ | ⟨m', command', rfl, hw'⟩
  · rfl
  · rw [hn] at hw'
    cases hw'
  · rw [hn'] at hw
    cases hw
  · rw [hw] at hw'
    cases hw'
    rfl

/-- A call leaves the meeting of a session as it is, ends it, or brings the session it works for into
the room it runs in. -/
theorem Disciplined.meetingId (h : Disciplined distinct σ t c) (s : SessionId) :
    ((exec c o σ).2.sessions s).meetingId = (σ.sessions s).meetingId ∨
    ((exec c o σ).2.sessions s).meetingId = 0 ∨
    (t = .room ((exec c o σ).2.sessions s).meetingId ∧ σ.worker t = some s) := by
  by_cases hc : ∃ m, c = .setMeetingId s m
  · obtain ⟨m, rfl⟩ := hc
    have hset : ((exec (.setMeetingId s m) o σ).2.sessions s).meetingId = m := by
      simp only [exec, Server.setSession_self]
    rw [hset]
    exact .inr (h.meeting s m rfl)
  · exact .inl ((exec_session c o σ s).meeting fun m hm => hc ⟨m, hm⟩)

/-- A call leaves the login of every session it does not work for. -/
theorem Disciplined.login (h : Disciplined distinct σ t c) {s : SessionId} (hs : σ.worker t ≠ some s) :
    ((exec c o σ).2.sessions s).userId = (σ.sessions s).userId ∧
    ((exec c o σ).2.sessions s).authToken = (σ.sessions s).authToken :=
  (exec_session c o σ s).user fun u token hc => hs (h.user s u token hc)

/-- What a room records stays within what was drawn and what is past. -/
theorem Kept.change {d d' : RoomData} {task : Task} {v : Ledger} {issued : List String} {now : Nat}
    (h : Kept distinct d issued now) (hd : v.data = d) (hissued : ∀ t ∈ v.issued, t ∈ issued)
    (hclock : v.clock ≤ now) {live : SessionId → Prop} (hc : Change distinct live task v d') :
    Kept distinct d' issued now := by
  subst hd
  cases hc with
  | sessions hm hh =>
    refine ⟨⟨hh ▸ h.recorded.legal, ?_⟩, hh ▸ h.drawn, hh ▸ h.once, hh ▸ h.past⟩
    rw [hm, hh]
    exact h.recorded.members
  | event e hm hh allowed author fresh moved =>
    have hmembers := h.recorded.members
    constructor
    · constructor
      · rw [hh]
        exact .cons (hmembers ▸ allowed) h.recorded.legal
      · rw [hm, hh, replay, ← hmembers]
    · rw [hh]
      intro t ht
      cases hticket : e.ticket? with
      | none =>
        rw [tickets, List.filterMap_cons_none hticket] at ht
        exact h.drawn t ht
      | some ticket =>
        rw [tickets, List.filterMap_cons_some hticket] at ht
        rcases List.mem_cons.mp ht with rfl | ht
        · cases e with
          | joined u s token ticket =>
            cases hticket
            exact hissued _ author.2.2.2
          | _ => cases hticket
        · exact h.drawn t ht
    · intro hdistinct
      rw [hh]
      cases hticket : e.ticket? with
      | none =>
        rw [tickets, List.filterMap_cons_none hticket]
        exact h.once hdistinct
      | some ticket =>
        rw [tickets, List.filterMap_cons_some hticket]
        exact List.nodup_cons.mpr ⟨fresh hdistinct ticket hticket, h.once hdistinct⟩
    · rw [hh]
      intro e' he'
      rcases List.mem_cons.mp he' with rfl | he'
      · cases e' with
        | disconnected u s time => exact author.2.2.trans hclock
        | expired u checkedAt => exact author.2.trans hclock
        | _ => exact Nat.zero_le _
      · exact h.past e' he'

theorem Kept.mono {d : RoomData} {issued issued' : List String} {now now' : Nat}
    (h : Kept distinct d issued now) (hissued : ∀ t ∈ issued, t ∈ issued') (hnow : now ≤ now') :
    Kept distinct d issued' now' :=
  ⟨h.recorded, fun t ht => hissued t (h.drawn t ht), h.once, fun e he => (h.past e he).trans hnow⟩

/-- The containers of a room after a disciplined call. -/
theorem Disciplined.kept (h : Disciplined distinct σ t c) {m : MeetingId}
    (hk : Kept distinct (σ.rooms m).data σ.issued σ.steady) :
    Kept distinct ((exec c o σ).2.rooms m).data (exec c o σ).2.issued (exec c o σ).2.steady := by
  have hsteady : (exec c o σ).2.steady = σ.steady := (exec_threads c o σ).clocks.2
  by_cases hc : ∃ d, c = .setRoom m d
  · obtain ⟨d, rfl⟩ := hc
    obtain ⟨-, task, v, hv, hchange⟩ := h.room m d rfl
    by_cases hm : m = 0
    · simpa only [exec, if_pos hm] using hk
    · simp only [exec, if_neg hm, Server.setRoom_self]
      exact hk.change hv.data hv.issued hv.clock hchange
  · rw [exec_data m fun d hd => hc ⟨d, hd⟩, hsteady]
    exact hk.mono (fun t ht => exec_issued ht) (le_refl _)

/-- A call that hands nothing over leaves every operation but its own in step. -/
theorem Wired.afterCall (h : Wired distinct none σ) (hd : Disciplined distinct σ t c)
    (hs : ∀ m task, c ≠ .submitRoom m task) : Wired distinct (some t) (exec c o σ).2 := by
  have hthreads := exec_threads c o σ
  have hawaited : (exec c o σ).2.awaited = σ.awaited := by
    funext s
    simp only [Server.awaited, hthreads.conns]
  have htasks : (exec c o σ).2.tasks = σ.tasks := by
    funext m
    simp only [Server.tasks, Room.tasks, hthreads.active m, exec_queue hs m]
  have hgone : ∀ s, (exec c o σ).2.Gone s ↔ σ.Gone s := by
    intro s
    simp only [Server.Gone, hthreads.conns, hthreads.nextSession]
  -- another thread's session keeps its login, and can only lose its meeting
  have hother : ∀ {t' : Thread} {s : SessionId}, t ≠ t' → σ.worker t' = some s → σ.worker t ≠ some s :=
    fun hne ht' ht => hne (h.placed.worker_unique ht ht')
  constructor
  · rw [hawaited, htasks]
    exact h.placed
  · intro s
    rw [hthreads.conns, hthreads.nextSession]
    exact h.line s
  · intro s hdead
    rw [hgone]
    exact h.dead s ((exec_session c o σ s).alive ▸ hdead)
  · intro s command m hwait
    rw [hawaited] at hwait
    rcases hd.meetingId (o := o) s with hsame | hzero | ⟨ht, hworker⟩
    · rw [hsame]
      exact h.inside s command m hwait
    · exact .inl hzero
    · obtain ⟨command', hwait'⟩ := h.placed.worker (ht ▸ hworker)
      rw [hwait] at hwait'
      cases hwait'
      exact .inr rfl
  · exact fun m => hd.kept (h.kept m)
  · intro s command op hstate hne
    rw [hthreads.conns] at hstate
    obtain ⟨v, hv, hwp⟩ := h.conn s command op hstate nofun
    refine ⟨v, fun m hm => ?_, hwp⟩
    have hworker : σ.worker (.conn s) = some s := by simp only [Server.worker, hstate]
    rcases hd.meetingId (o := o) s with hsame | hzero | ⟨ht, hworker'⟩
    · rw [hsame]
      exact hv m hm
    · exact .inl hzero
    · exact absurd hworker' (hother (fun e => hne (congrArg some e)) hworker)
  · intro m task op ha hne
    rw [hthreads.active m] at ha
    have hne' : t ≠ .room m := fun e => hne (congrArg some e)
    have hm : m ≠ 0 := h.placed.ne_zero (active_mem_tasks ha)
    refine (h.room m task op ha nofun).mono ?_ (fun s hsession hs => ?_) (fun s hs => ?_)
      (fun x hx => exec_issued hx) hthreads.clocks.2.ge (fun s hs => ?_)
      (fun s => (exec_session c o σ s).closed) (fun s => (hgone s).mpr)
    · exact exec_data m fun d hc => hne' (hd.room m d hc).1
    · have hworker : σ.worker (.room m) = some s := by
        simp only [Server.worker, ha, Option.bind_some, hsession]
      obtain ⟨huser, htoken⟩ := hd.login (o := o) (hother hne' hworker)
      exact ⟨huser, htoken, (exec_session c o σ s).alive.trans hs⟩
    · exact (exec_session c o σ s).alive.symm.trans hs
    · rcases hd.meetingId (o := o) s with hsame | hzero | ⟨ht, -⟩
      · rwa [hsame]
      · rw [hzero]
        exact Ne.symm hm
      · rintro rfl
        exact hne' ht
  · intro op ht hne
    exact h.timer op (hthreads.timer ▸ ht) nofun
  · intro op hc hne
    exact h.control op (hthreads.control.1 ▸ hc) nofun

end

/-! ## An operation goes on, or ends -/

section

variable {distinct : Prop} {σ : Server}

theorem Wired.weaken {t : Option Thread} (h : Wired distinct none σ) : Wired distinct t σ :=
  ⟨h.placed, h.line, h.dead, h.inside, h.kept, fun s c op hs _ => h.conn s c op hs nofun,
    fun m task op ha _ => h.room m task op ha nofun, fun op ht _ => h.timer op ht nofun,
    fun op hc _ => h.control op hc nofun⟩

/-- Only the operations, the two levels of queues and what they depend on matter. -/
theorem Wired.congr {t : Option Thread} {σ' : Server} (h : Wired distinct t σ) (hconns : σ'.conns = σ.conns)
    (hnext : σ'.nextSession = σ.nextSession) (hrooms : σ'.rooms = σ.rooms)
    (hsessions : ∀ s, (σ'.sessions s).meetingId = (σ.sessions s).meetingId ∧
      (σ'.sessions s).userId = (σ.sessions s).userId ∧ (σ'.sessions s).authToken = (σ.sessions s).authToken)
    (halive : ∀ s, σ'.live s ↔ σ.live s)
    (hclosed : ∀ s, (σ.sessions s).closed = true → (σ'.sessions s).closed = true)
    (hissued : σ'.issued = σ.issued) (hsteady : σ.steady ≤ σ'.steady)
    (htimer : ∀ op, σ'.timer = some op → t ≠ some .timer → op.Makes TimerCall)
    (hcontrol : ∀ op, σ'.controlOp = some op → t ≠ some .control → op.Makes ControlCall) :
    Wired distinct t σ' := by
  have hawaited : σ'.awaited = σ.awaited := by
    funext s
    simp only [Server.awaited, hconns]
  have htasks : σ'.tasks = σ.tasks := by
    funext m
    simp only [Server.tasks, hrooms]
  constructor
  · rw [hawaited, htasks]
    exact h.placed
  · intro s
    rw [hconns, hnext]
    exact h.line s
  · intro s hdead
    have hdead' : (σ.sessions s).alive = false := by
      cases ha : (σ.sessions s).alive with
      | false => rfl
      | true =>
        have ha' : (σ'.sessions s).alive = true := (halive s).mpr ha
        rw [hdead] at ha'
        cases ha'
    simp only [Server.Gone, hconns, hnext]
    exact h.dead s hdead'
  · intro s command m hwait
    rw [(hsessions s).1]
    exact h.inside s command m (hawaited ▸ hwait)
  · intro m
    rw [hrooms, hissued]
    exact (h.kept m).mono (fun _ => id) hsteady
  · intro s command op hstate hne
    rw [hconns] at hstate
    obtain ⟨v, hv, hwp⟩ := h.conn s command op hstate hne
    refine ⟨v, fun m hm => ?_, hwp⟩
    rw [(hsessions s).1]
    exact hv m hm
  · intro m task op ha hne
    rw [hrooms] at ha
    refine (h.room m task op ha hne).mono (by rw [hrooms]) (fun s _ hs => ?_) (fun s => (halive s).mp)
      (fun t ht => hissued ▸ ht) hsteady (fun s hs => ?_) hclosed (fun s hs => ?_)
    · exact ⟨(hsessions s).2.1, (hsessions s).2.2, (halive s).mpr hs⟩
    · rwa [(hsessions s).1]
    · simp only [Server.Gone, hconns, hnext]
      exact hs
  · exact htimer
  · exact hcontrol

/-- The operation of a connection has made a step, and has not handed its command over. -/
theorem Wired.connAfter {s : SessionId} {command : Command} {rest : List Command}
    {op : Op (Option MeetingId)} {v : ConnView} (h : Wired distinct (some (.conn s)) σ)
    (hwait : σ.awaited s = none) (hc : (σ.conns s).commands = command :: rest) (hv : v.Of σ s)
    (hhanded : v.handed = none) (hwp : op.wp (connMachine s command) (ConnEnd command) v) :
    Wired distinct none (σ.setConn s ⟨rest, .after command op, (σ.conns s).isOpen⟩) := by
  have hop : op = .pure none ∨ ∃ c k, op = .call c k := by
    rcases op with (_ | m) | ⟨c, k⟩
    · exact .inl rfl
    · have hend := hwp.1
      rw [hhanded] at hend
      cases hend
    · exact .inr ⟨c, k, rfl⟩
  have hawaited : (σ.setConn s ⟨rest, .after command op, (σ.conns s).isOpen⟩).awaited = σ.awaited := by
    funext s'
    by_cases hs : s' = s
    · subst hs
      simp only [Server.awaited, Server.setConn_self] at hwait ⊢
      rcases hop with rfl | ⟨c, k, rfl⟩ <;> exact hwait.symm
    · simp only [Server.awaited, Server.setConn_of_ne hs]
  have hline : ∀ s', Line (decide (s' < σ.nextSession))
      ((σ.setConn s ⟨rest, .after command op, (σ.conns s).isOpen⟩).conns s').isOpen
      ((σ.setConn s ⟨rest, .after command op, (σ.conns s).isOpen⟩).conns s').commands := by
    intro s'
    by_cases hs : s' = s
    · subst hs
      have hl := h.line s'
      rw [hc] at hl
      rw [Server.setConn_self]
      rcases hop with rfl | ⟨c, k, rfl⟩
      · exact hl.finish
      · exact hl
    · rw [Server.setConn_of_ne hs]
      exact h.line s'
  have hgone : ∀ s', σ.Gone s' → (σ.setConn s ⟨rest, .after command op, (σ.conns s).isOpen⟩).Gone s' := by
    rintro s' ⟨hlt, hclosed, hnone⟩
    have hs : s' ≠ s := by
      rintro rfl
      rw [hc] at hnone
      cases hnone
    simp only [Server.Gone, Server.setConn_of_ne hs]
    exact ⟨hlt, hclosed, hnone⟩
  constructor
  · rw [hawaited]
    exact h.placed
  · exact hline
  · exact fun s' hdead => hgone s' (h.dead s' hdead)
  · intro s' command' m hw
    rw [hawaited] at hw
    exact h.inside s' command' m hw
  · exact h.kept
  · intro s' command' op' hstate _
    by_cases hs : s' = s
    · subst hs
      rw [Server.setConn_self] at hstate
      rcases hop with rfl | ⟨c, k, rfl⟩
      · cases hstate
      · cases hstate
        exact ⟨v, hv, hwp⟩
    · rw [Server.setConn_of_ne hs] at hstate
      exact h.conn s' command' op' hstate fun e => hs (by cases e; rfl)
  · exact fun m task op' ha _ => (h.room m task op' ha nofun).same rfl rfl rfl rfl hgone
  · exact fun op' ht _ => h.timer op' ht nofun
  · exact fun op' hc' _ => h.control op' hc' nofun

/-- The operation of a connection has handed its command to a room. -/
theorem Wired.connHanded {s : SessionId} {command : Command} {m : MeetingId}
    {op : Op (Option MeetingId)} (h : Wired distinct none σ) (hstate : (σ.conns s).state = .running command op)
    (hm : m ≠ 0) (hin : (σ.sessions s).meetingId = 0 ∨ (σ.sessions s).meetingId = m) :
    Wired distinct none
      ((σ.setRoom m { σ.rooms m with queue := (σ.rooms m).queue ++ [.dispatch s command] }).setConn s
        { σ.conns s with state := .waiting command m }) := by
  have hwait : σ.awaited s = none := by simp only [Server.awaited, hstate, ConnState.awaits]
  have hcommands : (σ.conns s).commands = command :: (σ.conns s).queue := by
    simp only [Conn.commands, hstate, ConnState.command, Option.toList_some, List.singleton_append]
  have hplaced := h.placed.submit hwait command hm
  set σ' := (σ.setRoom m { σ.rooms m with queue := (σ.rooms m).queue ++ [.dispatch s command] }).setConn s
    { σ.conns s with state := .waiting command m } with hσ'
  have hconns : ∀ s', s' ≠ s → σ'.conns s' = σ.conns s' := fun s' hs => Server.setConn_of_ne hs _
  have hself : σ'.conns s = { σ.conns s with state := .waiting command m } := Server.setConn_self _ _
  have hrooms : ∀ n, n ≠ m → σ'.rooms n = σ.rooms n := fun n hn => Server.setRoom_of_ne hn _
  have hroom : σ'.rooms m = { σ.rooms m with queue := (σ.rooms m).queue ++ [.dispatch s command] } :=
    Server.setRoom_self _ _
  have hdata : ∀ n, (σ'.rooms n).data = (σ.rooms n).data ∧ (σ'.rooms n).active = (σ.rooms n).active := by
    intro n
    by_cases hn : n = m
    · subst hn
      rw [hroom]
      exact ⟨rfl, rfl⟩
    · rw [hrooms n hn]
      exact ⟨rfl, rfl⟩
  have hawaited : σ'.awaited = Function.update σ.awaited s (some (command, m)) := by
    funext s'
    by_cases hs : s' = s
    · subst hs
      rw [Function.update_self]
      simp only [Server.awaited, hself, ConnState.awaits]
    · rw [Function.update_of_ne hs]
      simp only [Server.awaited, hconns s' hs]
  have htasks : σ'.tasks = Function.update σ.tasks m (σ.tasks m ++ [.dispatch s command]) := by
    funext n
    by_cases hn : n = m
    · subst hn
      rw [Function.update_self]
      simp only [Server.tasks, hroom, Room.tasks, List.append_assoc]
    · rw [Function.update_of_ne hn]
      simp only [Server.tasks, hrooms n hn]
  have hgone : ∀ s', σ.Gone s' → σ'.Gone s' := by
    rintro s' ⟨hlt, hclosed, hnone⟩
    have hs : s' ≠ s := by
      rintro rfl
      rw [hcommands] at hnone
      cases hnone
    refine ⟨hlt, ?_, ?_⟩ <;> rw [hconns s' hs]
    · exact hclosed
    · exact hnone
  constructor
  · rw [hawaited, htasks]
    exact hplaced
  · intro s'
    by_cases hs : s' = s
    · subst hs
      have hl := h.line s'
      rw [hcommands] at hl
      rw [hself]
      exact hl
    · rw [hconns s' hs]
      exact h.line s'
  · exact fun s' hdead => hgone s' (h.dead s' hdead)
  · intro s' command' m' hw
    rw [hawaited] at hw
    by_cases hs : s' = s
    · subst hs
      rw [Function.update_self] at hw
      cases hw
      exact hin
    · rw [Function.update_of_ne hs] at hw
      exact h.inside s' command' m' hw
  · intro n
    rw [(hdata n).1]
    exact h.kept n
  · intro s' command' op' hst _
    have hs : s' ≠ s := by
      rintro rfl
      rw [hself] at hst
      cases hst
    rw [hconns s' hs] at hst
    exact h.conn s' command' op' hst nofun
  · intro n task op' ha _
    rw [(hdata n).2] at ha
    exact (h.room n task op' ha nofun).same (hdata n).1 rfl rfl rfl hgone
  · exact fun op' ht _ => h.timer op' ht nofun
  · exact fun op' hc' _ => h.control op' hc' nofun

/-- A room has taken in a task that works for nobody. -/
theorem Wired.append {t : Option Thread} {m : MeetingId} {task : Task} (h : Wired distinct t σ) (hm : m ≠ 0)
    (htask : task.session? = none) :
    Wired distinct t (σ.setRoom m { σ.rooms m with queue := (σ.rooms m).queue ++ [task] }) := by
  have hrooms : ∀ n, n ≠ m →
      (σ.setRoom m { σ.rooms m with queue := (σ.rooms m).queue ++ [task] }).rooms n = σ.rooms n :=
    fun n hn => Server.setRoom_of_ne hn _
  have hdata : ∀ n,
      ((σ.setRoom m { σ.rooms m with queue := (σ.rooms m).queue ++ [task] }).rooms n).data = (σ.rooms n).data ∧
      ((σ.setRoom m { σ.rooms m with queue := (σ.rooms m).queue ++ [task] }).rooms n).active =
        (σ.rooms n).active := by
    intro n
    by_cases hn : n = m
    · subst hn
      rw [Server.setRoom_self]
      exact ⟨rfl, rfl⟩
    · rw [hrooms n hn]
      exact ⟨rfl, rfl⟩
  have htasks : (σ.setRoom m { σ.rooms m with queue := (σ.rooms m).queue ++ [task] }).tasks =
      Function.update σ.tasks m (σ.tasks m ++ [task]) := by
    funext n
    by_cases hn : n = m
    · subst hn
      rw [Function.update_self]
      simp only [Server.tasks, Server.setRoom_self, Room.tasks, List.append_assoc]
    · rw [Function.update_of_ne hn]
      simp only [Server.tasks, hrooms n hn]
  constructor
  · rw [htasks]
    exact h.placed.append hm htask
  · exact h.line
  · exact h.dead
  · exact h.inside
  · intro n
    rw [(hdata n).1]
    exact h.kept n
  · exact h.conn
  · intro n task' op' ha hne
    rw [(hdata n).2] at ha
    exact (h.room n task' op' ha hne).same (hdata n).1 rfl rfl rfl fun _ hs => hs
  · exact h.timer
  · exact h.control

/-- The operation of a room has made a step. -/
theorem Wired.roomAfter {m : MeetingId} {task : Task} {rest : List Task} {op : Op Unit}
    (h : Wired distinct (some (.room m)) σ) (ht : σ.tasks m = task :: rest)
    (hop : Ready distinct σ m task op) :
    Wired distinct none
      { σ.setRoom m ⟨(σ.rooms m).data, rest, task.after op⟩ with conns := task.resume σ.conns op } := by
  set σ' : Server := { σ.setRoom m ⟨(σ.rooms m).data, rest, task.after op⟩ with
    conns := task.resume σ.conns op } with hσ'
  have hrooms : ∀ n, n ≠ m → σ'.rooms n = σ.rooms n := fun n hn => Server.setRoom_of_ne hn _
  have hroom : σ'.rooms m = ⟨(σ.rooms m).data, rest, task.after op⟩ := Server.setRoom_self _ _
  have hdata : ∀ n, (σ'.rooms n).data = (σ.rooms n).data := by
    intro n
    by_cases hn : n = m
    · subst hn
      rw [hroom]
    · rw [hrooms n hn]
  have hactive : ∀ n task' op', (σ'.rooms n).active = some (task', op') →
      (n = m ∧ task' = task ∧ op' = op) ∨ (n ≠ m ∧ (σ.rooms n).active = some (task', op')) := by
    intro n task' op' ha
    by_cases hn : n = m
    · subst hn
      rw [hroom] at ha
      rcases task.after_cases op with ⟨c, k, -, hafter, -⟩ | ⟨-, hafter⟩
      · have ha' : task.after op = some (task', op') := ha
        rw [hafter] at ha'
        cases ha'
        exact .inl ⟨rfl, rfl, rfl⟩
      · have ha' : task.after op = some (task', op') := ha
        rw [hafter] at ha'
        cases ha'
    · rw [hrooms n hn] at ha
      exact .inr ⟨hn, ha⟩
  have hroomOps : (∀ s, σ.Gone s → σ'.Gone s) → ∀ n task' op', (σ'.rooms n).active = some (task', op') →
      Ready distinct σ' n task' op' := by
    intro hgone n task' op' ha
    rcases hactive n task' op' ha with ⟨rfl, rfl, rfl⟩ | ⟨hn, ha'⟩
    · exact hop.same (hdata n) rfl rfl rfl hgone
    · have hready := h.room n task' op' ha' fun e => hn (by cases e; rfl)
      exact hready.same (hdata n) rfl rfl rfl hgone
  have htasksOther : ∀ n, n ≠ m → σ'.tasks n = σ.tasks n := fun n hn => by
    simp only [Server.tasks, hrooms n hn]
  rcases task.after_cases op with ⟨c, k, -, hafter, hconns⟩ | ⟨rfl, hafter⟩
  · -- it goes on
    have hconns' : σ'.conns = σ.conns := hconns σ.conns
    have hawaited : σ'.awaited = σ.awaited := by
      funext s
      simp only [Server.awaited, hconns']
    have htasks : σ'.tasks = σ.tasks := by
      funext n
      by_cases hn : n = m
      · subst hn
        rw [ht]
        simp only [Server.tasks, hroom, Room.tasks, hafter, Option.map_some, Option.toList_some,
          List.singleton_append]
      · exact htasksOther n hn
    have hgone : ∀ s, σ.Gone s → σ'.Gone s := by
      intro s hs
      simp only [Server.Gone, hconns']
      exact hs
    constructor
    · rw [hawaited, htasks]
      exact h.placed
    · intro s
      rw [hconns']
      exact h.line s
    · exact fun s hdead => hgone s (h.dead s hdead)
    · exact fun s command n hw => h.inside s command n (hawaited ▸ hw)
    · intro n
      rw [hdata n]
      exact h.kept n
    · intro s command op' hstate _
      rw [hconns'] at hstate
      exact h.conn s command op' hstate (by simp)
    · exact fun n task' op' ha _ => hroomOps hgone n task' op' ha
    · exact fun op' ht' _ => h.timer op' ht' (by simp)
    · exact fun op' hc' _ => h.control op' hc' (by simp)
  · -- it has ended, and lets the connection that waits for it go on
    have hawaited : σ'.awaited = task.release σ.awaited := by
      funext s
      cases task with
      | dispatch t c =>
        by_cases hs : s = t
        · subst hs
          simp only [Server.awaited, hσ', Task.resume, Task.release, Function.update_self, ConnState.awaits]
        · simp only [Server.awaited, hσ', Task.resume, Task.release, Function.update_of_ne hs]
      | expire uid => rfl
      | mediaReply epoch signal registered message => rfl
    have htasks : σ'.tasks = Function.update σ.tasks m rest := by
      funext n
      by_cases hn : n = m
      · subst hn
        rw [Function.update_self]
        simp only [Server.tasks, hroom, Room.tasks, hafter, Option.map_none, Option.toList_none,
          List.nil_append]
      · rw [Function.update_of_ne hn]
        exact htasksOther n hn
    -- the connection the task works for, if any, is at the task's command
    have hconn : ∀ s, (task.session? ≠ some s ∧ σ'.conns s = σ.conns s) ∨
        ∃ c, task = .dispatch s c ∧ (σ.conns s).state = .waiting c m ∧
          σ'.conns s = { σ.conns s with state := .idle } := by
      intro s
      cases task with
      | dispatch t c =>
        by_cases hs : s = t
        · subst hs
          refine .inr ⟨c, rfl, ?_, Function.update_self _ _ _⟩
          have hw := h.placed.waits m s c (ht ▸ List.mem_cons_self)
          simp only [Server.awaited] at hw
          unfold ConnState.awaits at hw
          split at hw
          · next hstate =>
            cases hw
            exact hstate
          · cases hw
        · exact .inl ⟨fun e => hs (Option.some.inj e).symm, Function.update_of_ne hs _ _⟩
      | expire uid => exact .inl ⟨(Option.some_ne_none _).symm, rfl⟩
      | mediaReply epoch signal registered message => exact .inl ⟨(Option.some_ne_none _).symm, rfl⟩
    have hgone : ∀ s, σ.Gone s → σ'.Gone s := by
      rintro s ⟨hlt, hclosed, hnone⟩
      rcases hconn s with ⟨-, hsame⟩ | ⟨c, -, hstate, -⟩
      · refine ⟨hlt, ?_, ?_⟩ <;> rw [hsame]
        · exact hclosed
        · exact hnone
      · simp only [Conn.commands, hstate, ConnState.command, Option.toList_some, List.singleton_append] at hnone
        cases hnone
    constructor
    · rw [hawaited, htasks]
      exact h.placed.finish ht
    · intro s
      rcases hconn s with ⟨-, hsame⟩ | ⟨c, -, hstate, hidle⟩
      · rw [hsame]
        exact h.line s
      · have hl := h.line s
        simp only [Conn.commands, hstate, ConnState.command, Option.toList_some, List.singleton_append] at hl
        rw [hidle]
        exact hl.finish
    · exact fun s hdead => hgone s (h.dead s hdead)
    · intro s command n hw
      rcases hconn s with ⟨-, hsame⟩ | ⟨c, -, -, hidle⟩
      · refine h.inside s command n ?_
        simp only [Server.awaited, hsame] at hw
        exact hw
      · simp only [Server.awaited, hidle, ConnState.awaits] at hw
        cases hw
    · intro n
      rw [hdata n]
      exact h.kept n
    · intro s command op' hstate _
      rcases hconn s with ⟨-, hsame⟩ | ⟨c, -, -, hidle⟩
      · rw [hsame] at hstate
        exact h.conn s command op' hstate (by simp)
      · rw [hidle] at hstate
        cases hstate
    · exact fun n task' op' ha _ => hroomOps hgone n task' op' ha
    · exact fun op' ht' _ => h.timer op' ht' (by simp)
    · exact fun op' hc' _ => h.control op' hc' (by simp)

end

/-! ## The machines describe the calls -/

section

variable {distinct : Prop} {σ : Server} {o : Oracle}

theorem MeetingTable.byId_zero (t : MeetingTable) : t.byId 0 = none := by
  refine List.find?_eq_none.mpr fun r _ hr => r.idPos ?_
  exact of_decide_eq_true hr

/-- What a connection's operation is told about the session and the meetings is so. -/
theorem conn_simulates {s : SessionId} {command : Command} {v : ConnView} (hv : v.Of σ s) {c : Call}
    (hpre : connPre s command c v) (hc : ∀ m task, c ≠ .submitRoom m task) :
    ∃ v', connRel s c v (exec c o σ).1 v' ∧ v'.handed = none ∧ v'.Of (exec c o σ).2 s := by
  have hsame : (∀ m, c ≠ .setMeetingId s m) →
      ((exec c o σ).2.sessions s).meetingId = (σ.sessions s).meetingId := (exec_session c o σ s).meeting
  have keep : (∀ m, c ≠ .setMeetingId s m) → v.Of (exec c o σ).2 s := by
    intro h m hm
    rw [hsame h]
    exact hv m hm
  cases c with
  | submitRoom m task => exact absurd rfl (hc m task)
  | getSession t =>
    by_cases ht : t = s
    · subst ht
      refine ⟨{ v with seen := some (σ.sessions t).meetingId }, ⟨fun h => absurd rfl h, fun _ => ⟨hv, rfl⟩⟩,
        hpre.1, ?_⟩
      intro m hm
      cases hm
      exact .inr rfl
    · exact ⟨v, ⟨fun _ => rfl, fun h => absurd h ht⟩, hpre.1, keep (by simp)⟩
  | query site q =>
    cases q with
    | getMeetingInfoById m =>
      refine ⟨v, ⟨rfl, ?_⟩, hpre.1, keep (by simp)⟩
      rintro rfl info hfound
      simp only [exec, Query.run] at hfound
      split at hfound
      · cases hfound
      · simp only [Query.apply, MeetingTable.byId_zero] at hfound
        cases hfound
    | getMeetingInfoByCode code =>
      refine ⟨v, ⟨rfl, ?_⟩, hpre.1, keep (by simp)⟩
      intro info hfound
      simp only [exec, Query.run] at hfound
      split at hfound
      · cases hfound
      · obtain ⟨row, -, rfl⟩ := Option.map_eq_some_iff.mp hfound
        exact row.idPos
    | _ => exact ⟨v, rfl, hpre.1, keep (by simp)⟩
  | setMeetingId t m => exact hpre.2.elim
  | setRoom m d => exact hpre.2.elim
  | _ => exact ⟨v, rfl, hpre.1, keep (by simp)⟩

variable (distinct) in
/-- What a room's operation is told about its room and its session is so. `hfresh` is the assumption
that no ticket is drawn twice. -/
theorem room_simulates {m : MeetingId} {task : Task} {v : Ledger} (hm : m ≠ 0) (hv : v.Of σ m task)
    (hk : Kept distinct (σ.rooms m).data σ.issued σ.steady) {c : Call}
    (hpre : ledgerPre distinct σ.live m task c v)
    (hhere : ∀ s, task.session? = some s → (σ.sessions s).meetingId = 0 ∨ (σ.sessions s).meetingId = m)
    (hfresh : distinct → c = .newResumeTicket → o.text ∉ σ.issued) :
    ∃ v', (∀ live, (∀ s, live s → σ.live s) → ledgerRel distinct live m task c v (exec c o σ).1 v') ∧
      v'.Of (exec c o σ).2 m task := by
  have hthreads := exec_threads c o σ
  have hsteady : (exec c o σ).2.steady = σ.steady := hthreads.clocks.2
  have hgone : ∀ s, σ.Gone s → (exec c o σ).2.Gone s := by
    intro s hs
    simp only [Server.Gone, hthreads.conns, hthreads.nextSession]
    exact hs
  have keep : (∀ d, c ≠ .setRoom m d) → (∀ s u token, c ≠ .setUser s u token) → (∀ s n, c ≠ .setMeetingId s n) →
      v.Of (exec c o σ).2 m task := by
    intro hroom huser hmeeting
    have hout : ∀ x, ((exec c o σ).2.sessions x).meetingId = (σ.sessions x).meetingId :=
      fun x => (exec_session c o σ x).meeting (hmeeting x)
    refine ⟨hv.data.trans (exec_data m hroom).symm, fun s hs => ?_, fun t ht => exec_issued (hv.issued t ht),
      hsteady ▸ hv.clock, fun x hx => ?_, fun x hx => ?_⟩
    · have hsession := exec_session c o σ s
      obtain ⟨hu, ht, ha⟩ := hv.own s hs
      obtain ⟨hu', ht'⟩ := hsession.user (huser s)
      exact ⟨hu'.trans hu, ht'.trans ht, hsession.alive.trans ha⟩
    · rw [hout x]
      exact hv.out x hx
    · refine (hv.shut x hx).imp (fun hs => ⟨(exec_session c o σ x).closed hs.1, ?_⟩) (hgone x)
      rw [hout x]
      exact hs.2
  cases c with
  | getRoom n =>
    refine ⟨v, fun live _ => ⟨rfl, ?_⟩, keep (by simp) (by simp) (by simp)⟩
    rintro rfl
    simp only [exec, Server.roomData, if_neg hm]
    exact hv.data.symm
  | setRoom n d =>
    obtain ⟨rfl, -⟩ := hpre
    refine ⟨{ v with data := d }, fun live _ => (if_pos rfl).symm, ?_, ?_, ?_, ?_, ?_, ?_⟩
    · simp only [exec, if_neg hm, Server.setRoom_self]
    all_goals simp only [exec, if_neg hm]
    · exact hv.own
    · exact hv.issued
    · exact hv.clock
    · exact hv.out
    · exact hv.shut
  | getSession s =>
    exact ⟨v, fun live _ => ⟨rfl, fun hs => ⟨(hv.own s hs).1, (hv.own s hs).2.1⟩, hhere s⟩, keep (by simp) (by simp) (by simp)⟩
  | lock s =>
    refine ⟨v, fun live hlive => ⟨rfl, ?_, ?_⟩, keep (by simp) (by simp) (by simp)⟩
    · simp only [exec]
      split
      · exact .inr rfl
      · exact .inl rfl
    · rintro (hs | hs)
      · exact if_pos (hv.own s hs).2.2
      · exact if_pos (hlive s hs)
  | setMeetingId s n =>
    refine ⟨v.move m s n, fun live _ => rfl, hv.data, fun x hx => ?_, hv.issued, hv.clock, fun x hx => ?_,
      fun x hx => ?_⟩
    · obtain ⟨hu, ht, ha⟩ := hv.own x hx
      have hsession := exec_session (.setMeetingId s n) o σ x
      obtain ⟨hu', ht'⟩ := hsession.user (by simp)
      exact ⟨hu'.trans hu, ht'.trans ht, hsession.alive.trans ha⟩
    · simp only [exec]
      rcases hx with ⟨hne, hx⟩ | ⟨rfl, hn⟩
      · rw [Server.setSession_of_ne hne]
        exact hv.out x hx
      · rw [Server.setSession_self]
        exact hn
    · obtain ⟨hx, hn⟩ := hx
      refine (hv.shut x hx).imp (fun hs => ?_) (hgone x)
      simp only [exec]
      by_cases hxs : x = s
      · subst hxs
        rw [Server.setSession_self]
        exact ⟨hs.1, hn rfl⟩
      · rw [Server.setSession_of_ne hxs]
        exact hs
  | requestClose s =>
    obtain ⟨hdata, hown, hissued, hclock, hout, hshut⟩ := keep (by simp) (by simp) (by simp)
    refine ⟨{ v with shut := fun x => v.shut x ∨ (x = s ∧ v.out s) }, fun live _ => rfl, hdata, hown, hissued, hclock,
      hout, fun x hx => ?_⟩
    rcases hx with hx | ⟨rfl, hx⟩
    · exact hshut x hx
    · refine .inl ⟨?_, hout x hx⟩
      simp only [exec, Server.setSession_self]
  | setUser s u token =>
    have hmeeting : ∀ x, ((exec (.setUser s u token) o σ).2.sessions x).meetingId = (σ.sessions x).meetingId :=
      fun x => (exec_session (.setUser s u token) o σ x).meeting (by simp)
    refine ⟨{ v with uid := u, token := token }, fun live _ => rfl, hv.data, fun t ht => ?_, hv.issued, hv.clock,
      fun x hx => hmeeting x ▸ hv.out x hx, fun x hx => ?_⟩
    · obtain ⟨⟨r, rfl, -⟩, -⟩ := hpre
      have hst : t = s := (Option.some.inj ht).symm
      subst hst
      simp only [exec, Server.setSession_self]
      exact ⟨trivial, trivial, (hv.own t ht).2.2⟩
    · refine (hv.shut x hx).imp (fun hs => ?_) (hgone x)
      exact ⟨(exec_session (.setUser s u token) o σ x).closed hs.1, hmeeting x ▸ hs.2⟩
  | newResumeTicket =>
    cases hfail : o.fail with
    | true =>
      refine ⟨v, fun live _ => ?_, keep (by simp) (by simp) (by simp)⟩
      simp only [ledgerRel, exec, hfail, if_true]
    | false =>
      have hexec : exec .newResumeTicket o σ = (some o.text, { σ with issued := o.text :: σ.issued }) := by
        simp only [exec, hfail, Bool.false_eq_true, if_false]
      refine ⟨{ v with issued := o.text :: v.issued }, fun live _ => ?_, ?_⟩
      · rw [hexec]
        refine ⟨rfl, fun hdistinct hmem => hfresh hdistinct rfl (hk.drawn _ ?_)⟩
        exact hv.data ▸ hmem
      · rw [hexec]
        refine ⟨hv.data, hv.own, fun t ht => ?_, hv.clock, hv.out, hv.shut⟩
        rcases List.mem_cons.mp ht with rfl | ht
        · exact List.mem_cons_self
        · exact List.mem_cons_of_mem _ (hv.issued t ht)
  | steadyNow =>
    exact ⟨{ v with clock := σ.steady }, fun live _ => ⟨hv.clock, rfl⟩, hv.data, hv.own, hv.issued, le_refl _, hv.out,
      hv.shut⟩
  | submitRoom n task' => exact hpre.elim
  | _ => exact ⟨v, fun live _ => rfl, keep (by simp) (by simp) (by simp)⟩

end

/-! ## Every step -/

/-- The step draws a ticket that was not drawn before, if it draws one. -/
def Server.FreshTickets (σ : Server) (e : Event) : Prop :=
  ∀ t o, e = .step t o → σ.nextCall? t = some .newResumeTicket → o.text ∉ σ.issued

theorem makes_scan : reconnectTimeoutCheckHandler.Makes TimerCall := by
  refine Makes.step trivial fun reserved => ?_
  split
  · trivial
  refine Makes.step trivial fun now => Makes.step trivial fun due => ?_
  split
  · trivial
  · refine Makes.each fun candidate _ => ?_
    unfold scanOne
    split
    · next h0 => exact Makes.step h0 fun _ => trivial
    · next hm => exact Makes.step ⟨hm, rfl⟩ fun _ => trivial

theorem makes_control (event : MediaEvent) (epoch : Nat) (message : Payload) :
    (controlOp event epoch message).Makes ControlCall := by
  refine Makes.step trivial fun accepted => ?_
  split
  · trivial
  split
  · trivial
  dsimp only
  split
  · trivial
  · refine Makes.step trivial fun found => ?_
    split
    · trivial
    · next signal =>
      split
      · trivial
      · next hsignal =>
        push Not at hsignal
        refine Makes.step ⟨hsignal.2, rfl⟩ fun accepted' => ?_
        split
        · exact Makes.step trivial fun _ => trivial
        · trivial

section

variable {distinct : Prop} {σ σ' : Server}

theorem wired_initial (h : σ.Initial) : Wired distinct none σ := by
  have hconns : ∀ s, σ.conns s = {} := h.conns
  have hrooms : ∀ m, σ.rooms m = {} := h.rooms
  have hnone : ∀ s, σ.awaited s = none := by
    intro s
    simp only [Server.awaited, hconns, ConnState.awaits]
  have htasks : ∀ m, σ.tasks m = [] := by
    intro m
    simp only [Server.tasks, hrooms]
    rfl
  constructor
  · constructor
    · intro m s c hmem
      rw [htasks] at hmem
      cases hmem
    · intro s c m hw
      rw [hnone] at hw
      cases hw
    · intro m
      rw [htasks]
      exact List.nodup_nil
    · exact htasks 0
  · intro s
    rw [hconns, h.nextSession]
    exact ⟨fun _ => ⟨rfl, rfl⟩, nofun, fun _ => .inl rfl⟩
  · intro s hdead
    rw [h.sessions] at hdead
    cases hdead
  · intro s c m hw
    rw [hnone] at hw
    cases hw
  · intro m
    rw [hrooms]
    exact ⟨⟨.nil, rfl⟩, nofun, fun _ => List.nodup_nil, nofun⟩
  · intro s command op hstate
    rw [hconns] at hstate
    cases hstate
  · intro m task op ha
    rw [hrooms] at ha
    cases ha
  · intro op ht
    rw [h.timer] at ht
    cases ht
  · intro op hc
    rw [h.control.2] at hc
    cases hc

theorem commands_running {c : Conn} {command : Command} {op : Op (Option MeetingId)}
    (h : c.state = .running command op) : c.commands = command :: c.queue := by
  simp only [Conn.commands, h, ConnState.command, Option.toList_some, List.singleton_append]

theorem commands_idle {c : Conn} (h : c.state = .idle) : c.commands = c.queue := by
  simp only [Conn.commands, h, ConnState.command, Option.toList_none, List.nil_append]

/-- A connection's commands, when nothing else of it changes but whether it is open. -/
theorem Wired.setConn {t : Option Thread} {s : SessionId} {v : Conn} {n : SessionId}
    (h : Wired distinct t σ) (hn : σ.nextSession ≤ n) (hstate : v.state = (σ.conns s).state)
    (hline : Line (decide (s < n)) v.isOpen v.commands)
    (hother : ∀ s', s' ≠ s → Line (decide (s' < n)) (σ.conns s').isOpen (σ.conns s').commands)
    (hgone : ¬ σ.Gone s) : Wired distinct t { σ.setConn s v with nextSession := n } := by
  have hawaited : Server.awaited { σ.setConn s v with nextSession := n } = σ.awaited := by
    funext s'
    by_cases hs : s' = s
    · subst hs
      simp only [Server.awaited, Server.setConn_self, hstate]
    · simp only [Server.awaited, Server.setConn_of_ne hs]
  have hkeep : ∀ s', σ.Gone s' → Server.Gone { σ.setConn s v with nextSession := n } s' := by
    intro s' hg
    have hs : s' ≠ s := fun e => hgone (e ▸ hg)
    obtain ⟨hlt, hclosed, hnone⟩ := hg
    simp only [Server.Gone, Server.setConn_of_ne hs]
    exact ⟨Nat.lt_of_lt_of_le hlt hn, hclosed, hnone⟩
  constructor
  · rw [hawaited]
    exact h.placed
  · intro s'
    by_cases hs : s' = s
    · subst hs
      simp only [Server.setConn_self]
      exact hline
    · simp only [Server.setConn_of_ne hs]
      exact hother s' hs
  · exact fun s' hdead => hkeep s' (h.dead s' hdead)
  · intro s' c m hw
    rw [hawaited] at hw
    exact h.inside s' c m hw
  · exact h.kept
  · intro s' command op hst hne
    have hst' : (σ.conns s').state = .running command op := by
      by_cases hs : s' = s
      · subst hs
        simp only [Server.setConn_self] at hst
        exact hstate ▸ hst
      · simpa only [Server.setConn_of_ne hs] using hst
    exact h.conn s' command op hst' hne
  · exact fun m task op ha hne => (h.room m task op ha hne).same rfl rfl rfl rfl hkeep
  · exact h.timer
  · exact h.control

/-- An update of a session that keeps who it is and where it is. -/
theorem Wired.setSession {t : Option Thread} {s : SessionId} {v : Session} (h : Wired distinct t σ)
    (hv : v.meetingId = (σ.sessions s).meetingId ∧ v.userId = (σ.sessions s).userId ∧
      v.authToken = (σ.sessions s).authToken ∧ v.alive = (σ.sessions s).alive ∧
      ((σ.sessions s).closed = true → v.closed = true)) :
    Wired distinct t (σ.setSession s v) := by
  have hsession : ∀ s', ((σ.setSession s v).sessions s').meetingId = (σ.sessions s').meetingId ∧
      ((σ.setSession s v).sessions s').userId = (σ.sessions s').userId ∧
      ((σ.setSession s v).sessions s').authToken = (σ.sessions s').authToken ∧
      ((σ.setSession s v).sessions s').alive = (σ.sessions s').alive ∧
      ((σ.sessions s').closed = true → ((σ.setSession s v).sessions s').closed = true) := by
    intro s'
    by_cases hs : s' = s
    · subst hs
      rw [Server.setSession_self]
      exact hv
    · rw [Server.setSession_of_ne hs]
      exact ⟨rfl, rfl, rfl, rfl, id⟩
  refine h.congr rfl rfl rfl (fun s' => ?_) (fun s' => ?_) (fun s' => (hsession s').2.2.2.2) rfl (le_refl _)
    h.timer h.control
  · exact ⟨(hsession s').1, (hsession s').2.1, (hsession s').2.2.1⟩
  · rw [Server.live, (hsession s').2.2.2.1]
    exact Iff.rfl

/-- Every step of every run. -/
theorem wired_step {e : Event} (h : Wired distinct none σ) (hfresh : distinct → σ.FreshTickets e)
    (hstep : σ.step e = some σ') : Wired distinct none σ' := by
  cases step_cases hstep with
  | accept =>
    have hline := (h.line σ.nextSession).fresh (decide_eq_false (Nat.lt_irrefl _))
    have hstate : (σ.conns σ.nextSession).state = .idle := by
      cases hst : (σ.conns σ.nextSession).state with
      | idle => rfl
      | running command op => simp [Conn.commands, hst, ConnState.command] at hline
      | waiting command m => simp [Conn.commands, hst, ConnState.command] at hline
    refine h.setConn (Nat.le_succ _) hstate.symm ?_ ?_ fun hg => Nat.lt_irrefl _ hg.1
    · rw [decide_eq_true (Nat.lt_succ_self _)]
      exact ⟨by simp, fun _ => List.not_mem_nil, by simp⟩
    · intro s hs
      have hiff : decide (s < σ.nextSession + 1) = decide (s < σ.nextSession) := by
        rw [decide_eq_decide]
        exact ⟨fun hlt => Nat.lt_of_le_of_ne (Nat.le_of_lt_succ hlt) hs, Nat.lt_succ_of_lt⟩
      rw [hiff]
      exact h.line s
  | overflow s r ho => exact h.setSession ⟨rfl, rfl, rfl, rfl, fun _ => rfl⟩
  | frame s r ho =>
    have hl := h.line s
    refine h.setConn (le_refl _) rfl ?_ (fun s' _ => h.line s') fun hg => ?_
    · rw [ho] at hl ⊢
      rw [Conn.commands, ← List.append_assoc]
      exact hl.request r
    · rw [hg.2.1] at ho
      cases ho
  | close s ho =>
    have h' : Wired distinct none (σ.setSession s { σ.sessions s with closed := true }) :=
      h.setSession ⟨rfl, rfl, rfl, rfl, fun _ => rfl⟩
    have hl := h'.line s
    refine h'.setConn (le_refl _) rfl ?_ (fun s' _ => h'.line s') fun hg => ?_
    · rw [show ((σ.setSession s { σ.sessions s with closed := true }).conns s).isOpen = true from ho] at hl
      rw [Conn.commands, ← List.append_assoc]
      exact hl.close
    · have hclosed := hg.2.1
      rw [show ((σ.setSession s { σ.sessions s with closed := true }).conns s).isOpen = true from ho] at hclosed
      cases hclosed
  | release s hc hs =>
    have hgone : σ.Gone s := by
      refine ⟨hs, ?_, ?_⟩ <;> rw [hc]
      rfl
    have hwait : σ.awaited s = none := by simp only [Server.awaited, hc, ConnState.awaits]
    have hsession : ∀ s', ((σ.setSession s { σ.sessions s with alive := false }).sessions s').meetingId =
        (σ.sessions s').meetingId ∧
        (s' ≠ s → (σ.setSession s { σ.sessions s with alive := false }).sessions s' = σ.sessions s') := by
      intro s'
      by_cases hs' : s' = s
      · subst hs'
        rw [Server.setSession_self]
        exact ⟨rfl, fun hne => absurd rfl hne⟩
      · rw [Server.setSession_of_ne hs']
        exact ⟨rfl, fun _ => rfl⟩
    constructor
    · exact h.placed
    · exact h.line
    · intro s' hdead
      by_cases hs' : s' = s
      · exact hs' ▸ hgone
      · rw [(hsession s').2 hs'] at hdead
        exact h.dead s' hdead
    · intro s' c m hw
      rw [(hsession s').1]
      exact h.inside s' c m hw
    · exact h.kept
    · intro s' command op hst hne
      obtain ⟨v, hv, hwp⟩ := h.conn s' command op hst hne
      refine ⟨v, fun m hm => ?_, hwp⟩
      rw [(hsession s').1]
      exact hv m hm
    · intro m task op ha hne
      refine (h.room m task op ha hne).mono rfl (fun s' hs' hl => ?_) (fun s' hs' => ?_) (fun _ ht => ht)
        (le_refl _) (fun s' hs' => ?_) (fun s' hs' => ?_) (fun _ hg => hg)
      · obtain ⟨command, rfl⟩ := session?_eq_some hs'
        have hw := h.placed.waits m s' command (active_mem_tasks ha)
        have hne' : s' ≠ s := by
          rintro rfl
          rw [hwait] at hw
          cases hw
        rw [Server.live, (hsession s').2 hne']
        exact ⟨rfl, rfl, hl⟩
      · have hne' : s' ≠ s := by
          rintro rfl
          rw [Server.live, Server.setSession_self] at hs'
          cases hs'
        rwa [Server.live, (hsession s').2 hne'] at hs'
      · rwa [(hsession s').1]
      · by_cases hs'' : s' = s
        · subst hs''
          rw [Server.setSession_self]
          exact hs'
        · rw [(hsession s').2 hs'']
          exact hs'
    · exact h.timer
    · exact h.control
  | tick ht =>
    refine h.congr rfl rfl rfl (fun _ => ⟨rfl, rfl, rfl⟩) (fun _ => Iff.rfl) (fun _ => id) rfl (le_refl _) ?_ h.control
    intro op hop _
    rcases pending_cases reconnectTimeoutCheckHandler with ⟨-, hp⟩ | hp
    · rw [show Server.pending reconnectTimeoutCheckHandler = some op from hop] at hp
      cases hp
    · rw [show Server.pending reconnectTimeoutCheckHandler = some op from hop] at hp
      cases hp
      exact makes_scan
  | link l q he =>
    exact h.congr rfl rfl rfl (fun _ => ⟨rfl, rfl, rfl⟩) (fun _ => Iff.rfl) (fun _ => id) rfl (le_refl _) h.timer h.control
  | clocks wall elapsed =>
    exact h.congr rfl rfl rfl (fun _ => ⟨rfl, rfl, rfl⟩) (fun _ => Iff.rfl) (fun _ => id) rfl (Nat.le_add_right _ _)
      h.timer h.control
  | startConn s command rest hs hq =>
    have hwait : σ.awaited s = none := by simp only [Server.awaited, hs, ConnState.awaits]
    have hcommands : (σ.conns s).commands = command :: rest := (commands_idle hs).trans hq
    have hafter := h.weaken.connAfter (v := {}) hwait hcommands (fun _ hm => by cases hm) rfl (wp_route s command)
    rw [resumeConn_eq]
    simpa only [Server.setConn, Function.update_self, Function.update_idem] using hafter
  | startRoom m task rest ha hq =>
    have htasks : σ.tasks m = task :: rest := by
      simp only [Server.tasks, Room.tasks, ha, hq, Option.map_none, Option.toList_none, List.nil_append]
    have hmem : task ∈ σ.tasks m := htasks ▸ List.mem_cons_self
    have hm : m ≠ 0 := h.placed.ne_zero hmem
    have hop : Ready distinct σ m task (task.op m) := by
      have hown : ∀ s, task.session? = some s → (σ.sessions s).alive = true := by
        intro s hsession
        obtain ⟨command, rfl⟩ := session?_eq_some hsession
        have hw := h.placed.waits m s command hmem
        cases hal : (σ.sessions s).alive with
        | true => rfl
        | false =>
          have hnone := (h.dead s hal).2.2
          simp only [Server.awaited] at hw
          unfold ConnState.awaits at hw
          split at hw
          · next hstate => simp [Conn.commands, hstate, ConnState.command] at hnone
          · cases hw
      refine ⟨⟨(σ.rooms m).data, (task.session?.elim 0 fun s => (σ.sessions s).userId),
        (task.session?.elim "" fun s => (σ.sessions s).authToken), [], 0, fun _ => False, fun _ => False⟩,
        ⟨rfl, ?_, by simp, Nat.zero_le _, by simp, by simp⟩, fun live _ => wp_task hm⟩
      intro s hsession
      simp only [hsession, Option.elim_some, true_and]
      exact hown s hsession
    have hafter := h.weaken.roomAfter htasks hop
    rw [resumeRoom_eq]
    simpa only [Server.setRoom, Function.update_self, Function.update_idem] using hafter
  | startControl event epoch message rest hc =>
    refine h.congr rfl rfl rfl (fun _ => ⟨rfl, rfl, rfl⟩) (fun _ => Iff.rfl) (fun _ => id) rfl (le_refl _) h.timer ?_
    intro op hop _
    rcases pending_cases (controlOp event epoch message) with ⟨-, hp⟩ | hp
    · rw [show Server.pending (controlOp event epoch message) = some op from hop] at hp
      cases hp
    · rw [show Server.pending (controlOp event epoch message) = some op from hop] at hp
      cases hp
      exact makes_control event epoch message
  | conn s command c k o hs =>
    obtain ⟨v, hv, hpre, hk⟩ := h.conn s command _ hs (Option.some_ne_none _).symm
    have hwait : σ.awaited s = none := by simp only [Server.awaited, hs, ConnState.awaits]
    rw [resumeConn_eq]
    by_cases hc : ∀ m task, c ≠ .submitRoom m task
    · have hd : Disciplined distinct σ (.conn s) c := disciplined_conn hs hpre
      have hconns := (exec_threads c o σ).conns
      obtain ⟨v', hrel, hhanded, hv'⟩ := conn_simulates (o := o) hv hpre hc
      have hcommands : ((exec c o σ).2.conns s).commands = command :: (σ.conns s).queue := by
        rw [hconns]
        exact commands_running hs
      have hafter := (h.afterCall (o := o) hd hc).connAfter
        (by simpa only [Server.awaited, hconns] using hwait) hcommands hv' hhanded (hk _ _ hrel)
      rw [hconns] at hafter ⊢
      exact hafter
    · push Not at hc
      obtain ⟨m, task, rfl⟩ := hc
      obtain ⟨hhanded, hm, rfl, hseen⟩ := hpre
      rcases Server.submitRoom_cases (σ := σ) (o := o) m (.dispatch s command) with hexec | hexec
      · have hrel : connRel s (.submitRoom m (.dispatch s command)) v false v := by
          refine ⟨fun hterminal => ?_, rfl⟩
          cases hterminal
          simp [Server.submitRoom] at hexec
        have hafter := h.weaken.connAfter hwait (commands_running hs) hv hhanded
          (hk false v hrel)
        simpa only [exec, hexec] using hafter
      · have hend := hk true { v with handed := some m } ⟨fun _ => rfl, rfl⟩
        have hin : (σ.sessions s).meetingId = 0 ∨ (σ.sessions s).meetingId = m := by
          rcases hseen with h0 | hm'
          · exact .inl ((hv 0 h0).elim id id)
          · exact hv m hm'
        have hop : k true = .pure (some m) := by
          cases hkt : k true with
          | pure r =>
            rw [hkt] at hend
            exact congrArg Prog.pure hend.1
          | call c' k' =>
            rw [hkt] at hend
            have hnone : (some m : Option MeetingId) = none := by
              have hpre' := hend.1
              cases c' <;> exact hpre'.1
            cases hnone
        have hafter := h.connHanded hs hm hin
        simp only [exec, hexec]
        rw [hop]
        exact hafter
  | room m task c k o ha =>
    obtain ⟨v, hv, hwp⟩ := h.room m task _ ha (Option.some_ne_none _).symm
    have hpre : ledgerPre distinct σ.live m task c v := (hwp σ.live fun _ hs => hs).1
    have hmem : task ∈ σ.tasks m := active_mem_tasks ha
    have hm : m ≠ 0 := h.placed.ne_zero hmem
    have hd : Disciplined distinct σ (.room m) c := disciplined_room ha hv hpre
    have hc : ∀ n task', c ≠ .submitRoom n task' := by
      rintro n task' rfl
      exact hpre.elim
    have hthreads := exec_threads c o σ
    have hhere : ∀ s, task.session? = some s → (σ.sessions s).meetingId = 0 ∨ (σ.sessions s).meetingId = m := by
      intro s hs
      obtain ⟨command, rfl⟩ := session?_eq_some hs
      exact h.inside s command m (h.placed.waits m s command hmem)
    obtain ⟨v', hrel, hv'⟩ := room_simulates distinct hm hv (h.kept m) hpre hhere fun hdistinct hticket =>
      hfresh hdistinct (.room m) o rfl (by simp only [Server.nextCall?, ha, Option.bind_some, Prog.next?, hticket])
    have htasks : (exec c o σ).2.tasks m = task :: (σ.rooms m).queue := by
      simp only [Server.tasks, Room.tasks, hthreads.active m, exec_queue hc m, ha, Option.map_some,
        Option.toList_some, List.singleton_append]
    have hready : Ready distinct (exec c o σ).2 m task (k (exec c o σ).1) := by
      refine ⟨v', hv', fun live hlive => ?_⟩
      have hlive' : ∀ s, live s → σ.live s := fun s hs =>
        (exec_session c o σ s).alive.symm.trans (hlive s hs)
      exact (hwp live hlive').2 _ _ (hrel live hlive')
    have hafter := (h.afterCall (o := o) hd hc).roomAfter htasks hready
    rw [resumeRoom_eq]
    have hqueue : ((exec c o σ).2.rooms m).queue = (σ.rooms m).queue := exec_queue hc m
    rw [← hqueue] at hafter
    exact hafter
  | timer c k o ht =>
    obtain ⟨hcall, hk⟩ := h.timer _ ht (Option.some_ne_none _).symm
    have hfinish : ∀ {σ₁ : Server}, Wired distinct (some .timer) σ₁ → ∀ r,
        Wired distinct none { σ₁ with timer := Server.pending (k r) } := by
      intro σ₁ h₁ r
      have h₂ : Wired distinct (some .timer) { σ₁ with timer := Server.pending (k r) } :=
        h₁.congr rfl rfl rfl (fun _ => ⟨rfl, rfl, rfl⟩) (fun _ => Iff.rfl) (fun _ => id) rfl (le_refl _)
          (fun op _ hne => absurd rfl hne) h₁.control
      refine ⟨h₂.placed, h₂.line, h₂.dead, h₂.inside, h₂.kept, fun s command op hst _ => h₂.conn s command op hst (by simp),
        fun m task op ha _ => h₂.room m task op ha (by simp), fun op hop _ => ?_, fun op hc _ => h₂.control op hc (by simp)⟩
      rcases pending_cases (k r) with ⟨-, hp⟩ | hp
      · rw [show Server.pending (k r) = some op from hop] at hp
        cases hp
      · rw [show Server.pending (k r) = some op from hop] at hp
        cases hp
        exact hk r
    by_cases hc : ∀ m task, c ≠ .submitRoom m task
    · exact hfinish (h.afterCall (o := o) (disciplined_timer hcall) hc) _
    · push Not at hc
      obtain ⟨m, task, rfl⟩ := hc
      rcases Server.submitRoom_cases (σ := σ) (o := o) m task with hexec | hexec <;> simp only [exec, hexec]
      · exact hfinish h.weaken _
      · exact hfinish (h.weaken.append hcall.1 hcall.2) _
  | control c k o hcon =>
    obtain ⟨hcall, hk⟩ := h.control _ hcon (Option.some_ne_none _).symm
    have hfinish : ∀ {σ₁ : Server}, Wired distinct (some .control) σ₁ → ∀ r,
        Wired distinct none { σ₁ with controlOp := Server.pending (k r) } := by
      intro σ₁ h₁ r
      have h₂ : Wired distinct (some .control) { σ₁ with controlOp := Server.pending (k r) } :=
        h₁.congr rfl rfl rfl (fun _ => ⟨rfl, rfl, rfl⟩) (fun _ => Iff.rfl) (fun _ => id) rfl (le_refl _)
          h₁.timer (fun op _ hne => absurd rfl hne)
      refine ⟨h₂.placed, h₂.line, h₂.dead, h₂.inside, h₂.kept, fun s command op hst _ => h₂.conn s command op hst (by simp),
        fun m task op ha _ => h₂.room m task op ha (by simp), fun op ht _ => h₂.timer op ht (by simp), fun op hop _ => ?_⟩
      rcases pending_cases (k r) with ⟨-, hp⟩ | hp
      · rw [show Server.pending (k r) = some op from hop] at hp
        cases hp
      · rw [show Server.pending (k r) = some op from hop] at hp
        cases hp
        exact hk r
    by_cases hc : ∀ m task, c ≠ .submitRoom m task
    · exact hfinish (h.afterCall (o := o) (disciplined_control hcall) hc) _
    · push Not at hc
      obtain ⟨m, task, rfl⟩ := hc
      rcases Server.submitRoom_cases (σ := σ) (o := o) m task with hexec | hexec <;> simp only [exec, hexec]
      · exact hfinish h.weaken _
      · exact hfinish (h.weaken.append hcall.1 hcall.2) _

/-- The invariant holds in every state of every run. -/
theorem wired_reachable {ok : Server → Event → Prop} (hok : distinct → ∀ σ e, ok σ e → σ.FreshTickets e)
    (h : Reachable ok σ) : Wired distinct none σ := by
  obtain ⟨σ₀, h₀, hreach⟩ := h
  exact hreach.invariant (wired_initial h₀)
    fun σ e σ' hσ hokσ hstep => wired_step hσ (fun hd => hok hd σ e hokσ) hstep

end

end SyncRtc
