import SyncRtc.Laws.Wiring

/-!
# The operations that run, and one induction for all of them

A law about the running server says something of the shared state and, of every operation that runs,
that the rest of it is verified against a machine of its own. `step_runs` sorts every step of the server
into three kinds (an operation makes its call, an operation starts, the outside moves), and `law_reachable`
is the induction that every such law needs. A law then brings four facts: what holds at the start, that
an operation starts verified, that one call keeps the law, and that the law does not look at queues.
-/

set_option autoImplicit false

namespace SyncRtc

open Prog

/-- A program for what its calls are, whatever it answers. -/
def Prog.void {S : Signature} {α : Type} (p : Prog S α) : Prog S Unit := p.bind fun _ => .pure ()

/-- A thread and what it works on. -/
inductive Work where
  | conn (session : SessionId) (command : Command)
  | room (meeting : MeetingId) (task : Task)
  | timer
  | control

def Work.thread : Work → Thread
  | .conn s _ => .conn s
  | .room m _ => .room m
  | .timer => .timer
  | .control => .control

/-- The event that starts a work. -/
def Work.startEvent : Work → Event
  | .timer => .tick
  | w => .start w.thread

theorem Work.startEvent_ne_step (w : Work) (t : Thread) (o : Oracle) : w.startEvent ≠ .step t o := by
  cases w <;> exact nofun

/-- The session a work is for. -/
def Work.session? : Work → Option SessionId
  | .conn s _ => some s
  | .room _ task => task.session?
  | _ => none

namespace Server

/-- The rest of the operation a thread runs. -/
def Runs (σ : Server) : Work → Op Unit → Prop
  | .conn s command, op => ∃ p, (σ.conns s).state = .running command p ∧ op = p.void
  | .room m task, op => (σ.rooms m).active = some (task, op)
  | .timer, op => σ.timer = some op
  | .control, op => σ.controlOp = some op

/-- What a thread starts is the first of its queue. -/
def Waits (σ : Server) : Work → Prop
  | .conn s command => (σ.conns s).state = .idle ∧ ∃ rest, (σ.conns s).queue = command :: rest
  | .room m task => (σ.rooms m).active = none ∧ ∃ rest, (σ.rooms m).queue = task :: rest
  | _ => True

/-- Two servers that differ in their queues and running operations only. -/
structure SameData (σ σ' : Server) : Prop where
  sessions : σ'.sessions = σ.sessions
  users : σ'.users = σ.users
  storage : σ'.storage = σ.storage
  signals : σ'.signals = σ.signals ∧ σ'.nextSignal = σ.nextSignal
  media : σ'.mediaEpoch = σ.mediaEpoch ∧ σ'.link = σ.link
  logs : σ'.sent = σ.sent ∧ σ'.forwarded = σ.forwarded ∧ σ'.issued = σ.issued
  clocks : σ'.wall = σ.wall ∧ σ'.steady = σ.steady
  size : σ'.styledSize = σ.styledSize
  data : ∀ m, (σ'.rooms m).data = (σ.rooms m).data

/-- What the outside may do to what operations share: sessions are closed, those that have ended are let
go, time passes, and the link to MediaServer changes. -/
structure Drifts (σ σ' : Server) : Prop where
  users : σ'.users = σ.users
  storage : σ'.storage = σ.storage
  signals : σ'.signals = σ.signals ∧ σ'.nextSignal = σ.nextSignal ∧ σ'.mediaEpoch = σ.mediaEpoch
  logs : σ'.sent = σ.sent ∧ σ'.forwarded = σ.forwarded ∧ σ'.issued = σ.issued
  size : σ'.styledSize = σ.styledSize
  data : ∀ m, (σ'.rooms m).data = (σ.rooms m).data
  session : ∀ s, (σ'.sessions s).userId = (σ.sessions s).userId ∧
    (σ'.sessions s).authToken = (σ.sessions s).authToken ∧
    (σ'.sessions s).meetingId = (σ.sessions s).meetingId ∧
    (σ'.sessions s).mediaSignalId = (σ.sessions s).mediaSignalId
  closed : ∀ s, (σ.sessions s).closed = true → (σ'.sessions s).closed = true
  alive : ∀ s, (σ'.sessions s).alive = true → (σ.sessions s).alive = true
  steady : σ.steady ≤ σ'.steady

end Server

/-- The operation a work starts with. -/
def Work.Begins : Work → Op Unit → Prop
  | .conn s command, op => op = (route s command).void
  | .room m task, op => op = task.op m
  | .timer, op => op = reconnectTimeoutCheckHandler
  | .control, op => ∃ event epoch message, op = controlOp event epoch message

/-- The three kinds of steps. -/
inductive StepKind (σ : Server) (e : Event) (σ' : Server) : Prop where
  /-- The operation of `w` makes its next call. -/
  | call (w : Work) (c : Call) (k : c.Res → Op Unit) (o : Oracle) (he : e = .step w.thread o)
      (hruns : σ.Runs w (.call c k)) (hdata : (exec c o σ).2.SameData σ')
      (hrest : ∀ w' op, σ'.Runs w' op →
        (w' = w ∧ op = k (exec c o σ).1) ∨ (w'.thread ≠ w.thread ∧ σ.Runs w' op))
  /-- The operation of `w` starts. -/
  | start (w : Work) (op : Op Unit) (he : e = w.startEvent) (hwaits : σ.Waits w) (hbegins : w.Begins op)
      (hdata : σ.SameData σ')
      (hrest : ∀ w' op', σ'.Runs w' op' → (w' = w ∧ op' = op) ∨ (w'.thread ≠ w.thread ∧ σ.Runs w' op'))
  /-- The outside moves. -/
  | outside (he : ∀ t o, e ≠ .step t o) (hdrifts : σ.Drifts σ') (hrest : ∀ w op, σ'.Runs w op → σ.Runs w op)

section

variable {σ σ' : Server} {e : Event}

theorem Server.SameData.refl (σ : Server) : σ.SameData σ :=
  ⟨rfl, rfl, rfl, ⟨rfl, rfl⟩, ⟨rfl, rfl⟩, ⟨rfl, rfl, rfl⟩, ⟨rfl, rfl⟩, rfl, fun _ => rfl⟩

/-- The queue and the operation of a room are not data. -/
theorem sameData_setRoom (m : MeetingId) (r : Room) (hr : r.data = (σ.rooms m).data) (conns : SessionId → Conn) :
    σ.SameData { σ.setRoom m r with conns := conns } := by
  refine ⟨rfl, rfl, rfl, ⟨rfl, rfl⟩, ⟨rfl, rfl⟩, ⟨rfl, rfl, rfl⟩, ⟨rfl, rfl⟩, rfl, fun n => ?_⟩
  by_cases hn : n = m
  · subst hn
    exact (congrArg Room.data (Server.setRoom_self n r)).trans hr
  · exact congrArg Room.data (Server.setRoom_of_ne hn r)

/-- What a connection runs after a step of its operation. -/
theorem runs_after {command command' : Command} {p : Op (Option MeetingId)} {op : Op Unit}
    (h : ∃ q, ConnState.after command p = .running command' q ∧ op = q.void) :
    command' = command ∧ op = p.void := by
  obtain ⟨q, hq, rfl⟩ := h
  rcases p with (_ | m) | ⟨c, k⟩
  · cases hq
  · cases hq
  · cases hq
    exact ⟨rfl, rfl⟩

theorem runs_afterTask {task task' : Task} {p op : Op Unit} (h : task.after p = some (task', op)) :
    task' = task ∧ op = p := by
  cases p with
  | pure u => cases h
  | call c k =>
    cases h
    exact ⟨rfl, rfl⟩

theorem runs_pending {p op : Op Unit} (h : Server.pending p = some op) : op = p := by
  cases p with
  | pure u => cases h
  | call c k =>
    cases h
    rfl

/-- A thread runs what it ran before, when what says so is the same. -/
theorem runs_of_same {w : Work} {op : Op Unit} (h : σ'.Runs w op)
    (hconn : ∀ s, w.thread = .conn s → (σ'.conns s).state = (σ.conns s).state)
    (hroom : ∀ m, w.thread = .room m → (σ'.rooms m).active = (σ.rooms m).active)
    (htimer : w.thread = .timer → σ'.timer = σ.timer)
    (hcontrol : w.thread = .control → σ'.controlOp = σ.controlOp) : σ.Runs w op := by
  cases w with
  | conn s command =>
    obtain ⟨p, hp, rfl⟩ := h
    exact ⟨p, hconn s rfl ▸ hp, rfl⟩
  | room m task => exact (hroom m rfl).symm.trans h
  | timer => exact (htimer rfl).symm.trans h
  | control => exact (hcontrol rfl).symm.trans h

/-- The connections after a step of a room: those that wait for a task it has ended go on. -/
theorem running_of_resume {task : Task} {conns : SessionId → Conn} {op : Op Unit} {s : SessionId}
    {command : Command} {p : Op (Option MeetingId)} (h : (task.resume conns op s).state = .running command p) :
    (conns s).state = .running command p := by
  unfold Task.resume at h
  split at h
  · split at h
    · next t _ =>
      by_cases ht : s = t
      · subst ht
        rw [Function.update_self] at h
        cases h
      · rwa [Function.update_of_ne ht] at h
    · exact h
  · exact h

/-- What runs after a step of a room, besides the room. -/
theorem runs_beside {m : MeetingId} {task : Task} {p : Op Unit} {r : Room} {w : Work} {op : Op Unit}
    (hr : r.active = task.after p)
    (h : Server.Runs { σ.setRoom m r with conns := task.resume σ.conns p } w op) :
    (w = .room m task ∧ op = p) ∨ (w.thread ≠ .room m ∧ σ.Runs w op) := by
  cases w with
  | conn s command =>
    obtain ⟨q, hq, rfl⟩ := h
    exact .inr ⟨nofun, q, running_of_resume hq, rfl⟩
  | room n task' =>
    by_cases hn : n = m
    · subst hn
      have hactive : (({ σ.setRoom n r with conns := task.resume σ.conns p } : Server).rooms n).active =
          task.after p := (congrArg Room.active (Server.setRoom_self n r)).trans hr
      obtain ⟨rfl, rfl⟩ := runs_afterTask (hactive.symm.trans h)
      exact .inl ⟨rfl, rfl⟩
    · refine .inr ⟨fun heq => hn (Thread.room.inj heq), ?_⟩
      exact (congrArg Room.active (Server.setRoom_of_ne hn r)).symm.trans h
  | timer => exact .inr ⟨nofun, h⟩
  | control => exact .inr ⟨nofun, h⟩

/-- What runs after a step of a connection, besides the connection. -/
theorem runs_besideConn {s : SessionId} {command : Command} {p : Op (Option MeetingId)} {v : Conn} {w : Work}
    {op : Op Unit} (hv : v.state = .after command p) (h : (σ.setConn s v).Runs w op) :
    (w = .conn s command ∧ op = p.void) ∨ (w.thread ≠ .conn s ∧ σ.Runs w op) := by
  cases w with
  | conn t command' =>
    obtain ⟨q, hq, rfl⟩ := h
    by_cases ht : t = s
    · subst ht
      rw [Server.setConn_self, hv] at hq
      obtain ⟨rfl, hop⟩ := runs_after ⟨q, hq, rfl⟩
      exact .inl ⟨rfl, hop⟩
    · rw [Server.setConn_of_ne ht] at hq
      exact .inr ⟨fun heq => ht (Thread.conn.inj heq), q, hq, rfl⟩
  | room n task => exact .inr ⟨nofun, h⟩
  | timer => exact .inr ⟨nofun, h⟩
  | control => exact .inr ⟨nofun, h⟩

/-- A call leaves what runs as it is. -/
theorem runs_exec {c : Call} {o : Oracle} {w : Work} {op : Op Unit} (h : (exec c o σ).2.Runs w op) :
    σ.Runs w op := by
  have ht := exec_threads c o σ
  exact runs_of_same h (fun s _ => by rw [ht.conns]) (fun m _ => ht.active m) (fun _ => ht.timer)
    fun _ => ht.control.1

theorem Server.SameData.drifts (h : σ.SameData σ') : σ.Drifts σ' where
  users := h.users
  storage := h.storage
  signals := ⟨h.signals.1, h.signals.2, h.media.1⟩
  logs := h.logs
  size := h.size
  data := h.data
  session s := by rw [h.sessions]; exact ⟨rfl, rfl, rfl, rfl⟩
  closed s := by rw [h.sessions]; exact id
  alive s := by rw [h.sessions]; exact id
  steady := h.clocks.2.ge

/-- A session that is closed, or let go. -/
theorem drifts_setSession {s : SessionId} {v : Session} {conns : SessionId → Conn}
    (hv : v.userId = (σ.sessions s).userId ∧ v.authToken = (σ.sessions s).authToken ∧
      v.meetingId = (σ.sessions s).meetingId ∧ v.mediaSignalId = (σ.sessions s).mediaSignalId)
    (hclosed : (σ.sessions s).closed = true → v.closed = true)
    (halive : v.alive = true → (σ.sessions s).alive = true) :
    σ.Drifts { σ.setSession s v with conns := conns } := by
  have key : ∀ t, (t = s ∧ (σ.setSession s v).sessions t = v) ∨
      (σ.setSession s v).sessions t = σ.sessions t := by
    intro t
    by_cases ht : t = s
    · subst ht
      exact .inl ⟨rfl, Server.setSession_self t v⟩
    · exact .inr (Server.setSession_of_ne ht v)
  refine ⟨rfl, rfl, ⟨rfl, rfl, rfl⟩, ⟨rfl, rfl, rfl⟩, rfl, fun _ => rfl, fun t => ?_, fun t => ?_, fun t => ?_,
    le_rfl⟩
  · rcases key t with ⟨rfl, h⟩ | h <;> simp only [h]
    · exact hv
    · exact ⟨trivial, trivial, trivial, trivial⟩
  · rcases key t with ⟨rfl, h⟩ | h <;> simp only [h]
    · exact hclosed
    · exact id
  · rcases key t with ⟨rfl, h⟩ | h <;> simp only [h]
    · exact halive
    · exact id

/-- A connection in a state it was in before runs what it ran. -/
theorem runs_of_conn {s : SessionId} {v : Conn} {w : Work} {op : Op Unit} (h : (σ.setConn s v).Runs w op)
    (hv : v.state = (σ.conns s).state ∨ v.state = .idle) : σ.Runs w op := by
  cases w with
  | conn t command =>
    obtain ⟨p, hp, rfl⟩ := h
    by_cases ht : t = s
    · subst ht
      rw [Server.setConn_self] at hp
      rcases hv with hv | hv
      · exact ⟨p, hv.symm.trans hp, rfl⟩
      · rw [hv] at hp
        cases hp
    · rw [Server.setConn_of_ne ht] at hp
      exact ⟨p, hp, rfl⟩
  | room n task => exact h
  | timer => exact h
  | control => exact h

/-- A work that runs is for the session its thread works for. -/
theorem Server.Runs.worker {w : Work} {op : Op Unit} (h : σ.Runs w op) : σ.worker w.thread = w.session? := by
  cases w with
  | conn s command =>
    obtain ⟨p, hp, -⟩ := h
    simp only [Work.thread, Server.worker, hp, Work.session?]
  | room m task =>
    have hactive : (σ.rooms m).active = some (task, op) := h
    simp only [Work.thread, Server.worker, hactive, Option.bind_some, Work.session?]
  | timer => rfl
  | control => rfl

/-- The next call of a work is that of its thread. -/
theorem Server.Runs.next {w : Work} {c : Call} {k : c.Res → Op Unit} (h : σ.Runs w (.call c k)) : σ.nextCall? w.thread = some c := by
  cases w with
  | conn s command =>
    obtain ⟨p, hp, hcall⟩ := h
    cases p with
    | pure r => cases hcall
    | call c' k' =>
      cases hcall
      simp only [Server.nextCall?, Work.thread, hp, Prog.next?]
  | room m task =>
    have hactive : (σ.rooms m).active = some (task, .call c k) := h
    simp only [Server.nextCall?, Work.thread, hactive, Option.bind_some, Prog.next?]
  | timer =>
    have htimer : σ.timer = some (.call c k) := h
    simp only [Server.nextCall?, Work.thread, htimer, Option.bind_some, Prog.next?]
  | control =>
    have hcontrol : σ.controlOp = some (.call c k) := h
    simp only [Server.nextCall?, Work.thread, hcontrol, Option.bind_some, Prog.next?]

/-- The next call of a running operation keeps to what its thread may do. -/
theorem Server.Runs.disciplined {distinct : Prop} {w : Work} {c : Call} {k : c.Res → Op Unit}
    (hw : Wired distinct none σ) (h : σ.Runs w (.call c k)) : Disciplined distinct σ w.thread c := by
  cases w with
  | conn s command =>
    obtain ⟨p, hp, hcall⟩ := h
    cases p with
    | pure r => cases hcall
    | call c' k' =>
      cases hcall
      obtain ⟨v, -, hpre, -⟩ := hw.conn s command _ hp nofun
      exact disciplined_conn hp hpre
  | room m task =>
    have hactive : (σ.rooms m).active = some (task, .call c k) := h
    obtain ⟨v, hv, hwp⟩ := hw.room m task _ hactive nofun
    exact disciplined_room hactive hv (hwp σ.live fun _ hs => hs).1
  | timer => exact disciplined_timer (hw.timer _ h nofun).1
  | control => exact disciplined_control (hw.control _ h nofun).1

/-- Only the operation of a room brings a session into a meeting, and only the session it works for. -/
theorem meeting_kept {distinct : Prop} {s : SessionId} {w : Work} {c : Call} {k : c.Res → Op Unit} {o : Oracle}
    (hw : Wired distinct none σ) (hruns : σ.Runs w (.call c k))
    (hnot : ∀ m, w.thread = .room m → σ.worker w.thread ≠ some s) (hs : (σ.sessions s).meetingId = 0) :
    ((exec c o σ).2.sessions s).meetingId = 0 := by
  by_cases hset : ∃ n, c = .setMeetingId s n
  · obtain ⟨n, rfl⟩ := hset
    rcases (hruns.disciplined hw).meeting s n rfl with rfl | ⟨hroom, hworker⟩
    · simp only [exec, Server.setSession_self]
    · exact absurd hworker (hnot n hroom)
  · rw [(exec_session c o σ s).meeting fun n hc => hset ⟨n, hc⟩]
    exact hs

/-- A next call is that of an operation that runs. -/
theorem runs_of_next {t : Thread} {c : Call} (h : σ.nextCall? t = some c) :
    ∃ w k, w.thread = t ∧ σ.Runs w (.call c k) := by
  have called : ∀ {α : Type} {p : Op α}, p.next? = some c → ∃ k, p = .call c k := by
    intro α p hp
    cases p with
    | pure a => cases hp
    | call c' k =>
      cases hp
      exact ⟨k, rfl⟩
  cases t with
  | conn s =>
    simp only [Server.nextCall?] at h
    split at h
    · next command p hp =>
      obtain ⟨k, rfl⟩ := called h
      exact ⟨.conn s command, _, rfl, _, hp, rfl⟩
    · cases h
  | room m =>
    obtain ⟨⟨task, p⟩, hactive, hp⟩ := Option.bind_eq_some_iff.mp h
    obtain ⟨k, rfl⟩ := called hp
    exact ⟨.room m task, k, rfl, hactive⟩
  | timer =>
    obtain ⟨p, htimer, hp⟩ := Option.bind_eq_some_iff.mp h
    obtain ⟨k, rfl⟩ := called hp
    exact ⟨.timer, k, rfl, htimer⟩
  | control =>
    obtain ⟨p, hcontrol, hp⟩ := Option.bind_eq_some_iff.mp h
    obtain ⟨k, rfl⟩ := called hp
    exact ⟨.control, k, rfl, hcontrol⟩

/-- What an operation hands to a room is the command of its own connection, or nobody's. -/
theorem Server.Runs.hands {distinct : Prop} {w : Work} {m : MeetingId} {task : Task}
    {k : (Call.submitRoom m task).Res → Op Unit} (hw : Wired distinct none σ)
    (h : σ.Runs w (.call (.submitRoom m task) k)) :
    task.session? = none ∨ ∃ s command, w = .conn s command ∧ task = .dispatch s command := by
  rcases ((h.disciplined hw).submit m task rfl).2 with hnone | ⟨s, command, ht, rfl⟩
  · exact .inl hnone
  · cases w with
    | conn t command' =>
      obtain ⟨p, hp, hcall⟩ := h
      cases p with
      | pure r => cases hcall
      | call c' k' =>
        cases hcall
        obtain ⟨v, -, hpre, -⟩ := hw.conn t command' _ hp nofun
        exact .inr ⟨t, command', rfl, hpre.2.2.1⟩
    | _ => cases ht

/-- While a connection's operation runs nobody else brings its session into a meeting. -/
theorem meeting_beside {distinct : Prop} {s : SessionId} {command : Command} {w : Work} {c : Call}
    {k : c.Res → Op Unit} {o : Oracle} {op : Op Unit} (hw : Wired distinct none σ) (hruns : σ.Runs w (.call c k))
    (hconn : σ.Runs (.conn s command) op) (hne : w.thread ≠ .conn s) (hs : (σ.sessions s).meetingId = 0) :
    ((exec c o σ).2.sessions s).meetingId = 0 := by
  refine meeting_kept hw hruns (fun m _ hworker => ?_) hs
  exact hne (hw.placed.worker_unique hworker hconn.worker)

theorem mem_tasks {m : MeetingId} {task : Task} : task ∈ σ.tasks m ↔
    (∃ op, (σ.rooms m).active = some (task, op)) ∨ task ∈ (σ.rooms m).queue := by
  simp only [Server.tasks, Room.tasks, List.mem_append, Option.mem_toList, Option.map_eq_some_iff, Prod.exists]
  refine or_congr_left ⟨?_, ?_⟩
  · rintro ⟨t, op, hactive, rfl⟩
    exact ⟨op, hactive⟩
  · rintro ⟨op, hactive⟩
    exact ⟨task, op, hactive, rfl⟩

theorem tasks_exec {c : Call} {o : Oracle} {m : MeetingId} {task : Task} (ht : task ∈ (exec c o σ).2.tasks m) :
    task ∈ σ.tasks m ∨ c = .submitRoom m task := by
  rw [mem_tasks] at ht ⊢
  simp only [(exec_threads c o σ).active m] at ht
  by_cases hsubmit : ∃ n t, c = .submitRoom n t
  · obtain ⟨n, t, rfl⟩ := hsubmit
    simp only [exec] at ht
    rcases Server.submitRoom_cases (σ := σ) (o := o) n t with h | h
    · rw [h] at ht
      exact .inl ht
    · rw [h] at ht
      by_cases hn : m = n
      · subst hn
        rw [Server.setRoom_self, List.mem_append, List.mem_singleton] at ht
        rcases ht with hactive | hqueue | rfl
        · exact .inl (.inl hactive)
        · exact .inl (.inr hqueue)
        · exact .inr rfl
      · rw [Server.setRoom_of_ne hn] at ht
        exact .inl ht
  · rw [exec_queue fun n t hc => hsubmit ⟨n, t, hc⟩] at ht
    exact .inl ht

/-- What a room has to do after a step of its own operation. -/
theorem tasks_afterTask {n m : MeetingId} {task task' : Task} {p : Op Unit} {r : Room} {conns : SessionId → Conn}
    (hr : r.active = task'.after p)
    (ht : task ∈ Server.tasks { σ.setRoom n r with conns := conns } m) :
    task ∈ σ.tasks m ∨ n = m ∧ (task = task' ∨ task ∈ r.queue) := by
  rw [mem_tasks] at ht
  by_cases hm : m = n
  · subst hm
    have hroom : ({ σ.setRoom m r with conns := conns } : Server).rooms m = r := Server.setRoom_self m r
    rw [hroom, hr] at ht
    rcases ht with ⟨op, hactive⟩ | hqueue
    · exact .inr ⟨rfl, .inl (runs_afterTask hactive).1⟩
    · exact .inr ⟨rfl, .inr hqueue⟩
  · have hroom : ({ σ.setRoom n r with conns := conns } : Server).rooms m = σ.rooms m := Server.setRoom_of_ne hm r
    rw [hroom] at ht
    exact .inl (mem_tasks.mpr ht)

/-- A room gets its tasks from `submitRoom`. -/
theorem Stepped.tasks (h : Stepped σ e σ') {m : MeetingId} {task : Task} (ht : task ∈ σ'.tasks m) :
    task ∈ σ.tasks m ∨ ∃ t o, e = .step t o ∧ σ.nextCall? t = some (.submitRoom m task) := by
  have called : ∀ {t : Thread} {c : Call} {o : Oracle}, σ.nextCall? t = some c → task ∈ (exec c o σ).2.tasks m →
      task ∈ σ.tasks m ∨ ∃ t' o', Event.step t o = .step t' o' ∧ σ.nextCall? t' = some (.submitRoom m task) := by
    intro t c o hnext htask
    refine (tasks_exec htask).imp_right ?_
    rintro rfl
    exact ⟨t, o, rfl, hnext⟩
  cases h with
  | startConn s command rest hs hq =>
    rw [resumeConn_eq] at ht
    exact .inl ht
  | startRoom n t rest ha hq =>
    rw [resumeRoom_eq] at ht
    simp only [Server.setRoom, Function.update_self, Function.update_idem] at ht
    have hthis : ∀ x, x = t ∨ x ∈ rest → x ∈ σ.tasks n := by
      intro x hx
      rw [mem_tasks, hq]
      exact .inr (List.mem_cons.mpr hx)
    rcases tasks_afterTask (r := ⟨(σ.rooms n).data, rest, t.after (t.op n)⟩) rfl ht with hold | ⟨rfl, hnew⟩
    · exact .inl hold
    · exact .inl (hthis task hnew)
  | conn s command c k o hs =>
    rw [resumeConn_eq] at ht
    refine called ?_ ht
    simp only [Server.nextCall?, hs, Prog.next?]
  | room n t c k o ha =>
    rw [resumeRoom_eq] at ht
    have hthread := exec_threads c o σ
    refine called (c := c) (o := o) ?_ ?_
    · simp only [Server.nextCall?, ha, Prog.next?, Option.bind_some]
    rcases tasks_afterTask (σ := (exec c o σ).2) rfl ht with hold | ⟨rfl, rfl | hqueue⟩
    · exact hold
    · exact mem_tasks.mpr (.inl ⟨_, (hthread.active n).trans ha⟩)
    · exact mem_tasks.mpr (.inr hqueue)
  | timer c k o htimer =>
    refine called ?_ ht
    simp only [Server.nextCall?, htimer, Prog.next?, Option.bind_some]
  | control c k o hc =>
    refine called ?_ ht
    simp only [Server.nextCall?, hc, Prog.next?, Option.bind_some]
  | _ => exact .inl ht

/-- Every step is of one of the three kinds. -/
theorem step_runs (h : Stepped σ e σ') : StepKind σ e σ' := by
  have hconns : ∀ (conns : SessionId → Conn) (n : SessionId),
      σ.SameData { σ with conns := conns, nextSession := n } := fun _ _ =>
    ⟨rfl, rfl, rfl, ⟨rfl, rfl⟩, ⟨rfl, rfl⟩, ⟨rfl, rfl, rfl⟩, ⟨rfl, rfl⟩, rfl, fun _ => rfl⟩
  cases h with
  | accept =>
    refine .outside (by simp) (Server.SameData.drifts ?_) fun w op hw => ?_
    · exact hconns _ _
    · exact runs_of_conn (s := σ.nextSession) (v := { isOpen := true }) hw (.inr rfl)
  | overflow s r ho =>
    exact .outside (by simp) (drifts_setSession ⟨rfl, rfl, rfl, rfl⟩ (fun _ => rfl) id) fun _ _ h => h
  | frame s r ho =>
    refine .outside (by simp) (Server.SameData.drifts ?_) fun w op hw => ?_
    · exact hconns _ _
    · exact runs_of_conn hw (.inl rfl)
  | close s ho =>
    refine .outside (by simp) (drifts_setSession ⟨rfl, rfl, rfl, rfl⟩ (fun _ => rfl) id) fun w op hw => ?_
    exact runs_of_conn (σ := σ.setSession s { σ.sessions s with closed := true }) hw (.inl rfl)
  | release s hc hs =>
    exact .outside (by simp) (drifts_setSession ⟨rfl, rfl, rfl, rfl⟩ id fun h => by cases h) fun _ _ h => h
  | tick ht =>
    refine .start .timer _ rfl trivial rfl ?_ fun w op hw => ?_
    · exact ⟨rfl, rfl, rfl, ⟨rfl, rfl⟩, ⟨rfl, rfl⟩, ⟨rfl, rfl, rfl⟩, ⟨rfl, rfl⟩, rfl, fun _ => rfl⟩
    · cases w with
      | timer => exact .inl ⟨rfl, runs_pending hw⟩
      | _ => exact .inr ⟨by simp [Work.thread], hw⟩
  | link l q he =>
    refine .outside he ?_ fun _ _ h => h
    exact ⟨rfl, rfl, ⟨rfl, rfl, rfl⟩, ⟨rfl, rfl, rfl⟩, rfl, fun _ => rfl, fun _ => ⟨rfl, rfl, rfl, rfl⟩,
      fun _ => id, fun _ => id, le_rfl⟩
  | clocks wall elapsed =>
    refine .outside (by simp) ?_ fun _ _ h => h
    exact ⟨rfl, rfl, ⟨rfl, rfl, rfl⟩, ⟨rfl, rfl, rfl⟩, rfl, fun _ => rfl, fun _ => ⟨rfl, rfl, rfl, rfl⟩,
      fun _ => id, fun _ => id, Nat.le_add_right _ _⟩
  | startConn s command rest hs hq =>
    rw [resumeConn_eq]
    refine .start (.conn s command) _ rfl ⟨hs, rest, hq⟩ rfl ?_ fun w op hw => ?_
    · exact hconns _ _
    · rcases runs_besideConn rfl hw with h | ⟨hne, h⟩
      · exact .inl h
      · exact .inr ⟨hne, runs_of_conn h (.inl rfl)⟩
  | startRoom m task rest ha hq =>
    rw [resumeRoom_eq]
    refine .start (.room m task) _ rfl ⟨ha, rest, hq⟩ rfl ?_ fun w op hw => ?_
    · simp only [Server.setRoom, Function.update_self, Function.update_idem]
      exact sameData_setRoom m ⟨(σ.rooms m).data, rest, task.after (task.op m)⟩ rfl _
    · rcases runs_beside rfl hw with h | ⟨hne, h⟩
      · exact .inl h
      · refine .inr ⟨hne, runs_of_same h (fun _ _ => rfl) (fun n hn => ?_) (fun _ => rfl) fun _ => rfl⟩
        rw [Server.setRoom_of_ne fun heq => hne (hn.trans (congrArg Thread.room heq))]
  | startControl event epoch message rest hc =>
    refine .start .control _ rfl trivial ⟨event, epoch, message, rfl⟩ ?_ fun w op hw => ?_
    · exact ⟨rfl, rfl, rfl, ⟨rfl, rfl⟩, ⟨rfl, rfl⟩, ⟨rfl, rfl, rfl⟩, ⟨rfl, rfl⟩, rfl, fun _ => rfl⟩
    · cases w with
      | control => exact .inl ⟨rfl, runs_pending hw⟩
      | _ => exact .inr ⟨by simp [Work.thread], hw⟩
  | conn s command c k o hs =>
    rw [resumeConn_eq]
    refine .call (.conn s command) c (fun r => (k r).void) o rfl ⟨_, hs, rfl⟩ ?_ fun w op hw => ?_
    · exact ⟨rfl, rfl, rfl, ⟨rfl, rfl⟩, ⟨rfl, rfl⟩, ⟨rfl, rfl, rfl⟩, ⟨rfl, rfl⟩, rfl, fun _ => rfl⟩
    · exact (runs_besideConn rfl hw).imp id fun h => ⟨h.1, runs_exec h.2⟩
  | room m task c k o ha =>
    rw [resumeRoom_eq]
    refine .call (.room m task) c k o rfl ha ?_ fun w op hw => ?_
    · exact sameData_setRoom (σ := (exec c o σ).2) m
        { (exec c o σ).2.rooms m with active := task.after (k (exec c o σ).1) } rfl _
    · exact (runs_beside rfl hw).imp id fun h => ⟨h.1, runs_exec h.2⟩
  | timer c k o ht =>
    refine .call .timer c k o rfl ht ?_ fun w op hw => ?_
    · exact ⟨rfl, rfl, rfl, ⟨rfl, rfl⟩, ⟨rfl, rfl⟩, ⟨rfl, rfl, rfl⟩, ⟨rfl, rfl⟩, rfl, fun _ => rfl⟩
    · cases w with
      | timer => exact .inl ⟨rfl, runs_pending hw⟩
      | _ => exact .inr ⟨by simp [Work.thread], runs_exec (c := c) (o := o) hw⟩
  | control c k o hc =>
    refine .call .control c k o rfl hc ?_ fun w op hw => ?_
    · exact ⟨rfl, rfl, rfl, ⟨rfl, rfl⟩, ⟨rfl, rfl⟩, ⟨rfl, rfl, rfl⟩, ⟨rfl, rfl⟩, rfl, fun _ => rfl⟩
    · cases w with
      | control => exact .inl ⟨rfl, runs_pending hw⟩
      | _ => exact .inr ⟨by simp [Work.thread], runs_exec (c := c) (o := o) hw⟩

/-- A session that is closed stays closed. -/
theorem Stepped.closed (h : Stepped σ e σ') {s : SessionId} (hs : (σ.sessions s).closed = true) :
    (σ'.sessions s).closed = true := by
  cases step_runs h with
  | call w c k o he hruns hdata hrest =>
    rw [hdata.sessions]
    exact (exec_session c o σ s).closed hs
  | start w op he hwaits hbegins hdata hrest =>
    rw [hdata.sessions]
    exact hs
  | outside he hdrifts hrest => exact hdrifts.closed s hs

end

/-! ## Laws -/

/-- A law of the running server: what holds of the shared state, and, for the operation of a work, the
machine its rest is verified against and how the view of that machine agrees with the state. -/
structure Law (V : Type) where
  state : Server → Prop
  machine : Work → Machine calls V
  agrees : Work → V → Server → Prop

namespace Law

variable {V : Type} (L : Law V)

/-- The rest of every operation that runs is verified. -/
def Ready (σ : Server) : Prop :=
  ∀ w op, σ.Runs w op → ∃ v, L.agrees w v σ ∧ op.wp (L.machine w) (fun _ _ => True) v

/-- What it takes for a law to hold in every run whose steps satisfy `ok`. -/
structure Sound (ok : Server → Event → Prop) : Prop where
  initial : ∀ σ : Server, σ.Initial → L.state σ
  /-- An operation starts verified. -/
  begins : ∀ (σ : Server) w op, Wired False none σ → L.state σ → ok σ w.startEvent → σ.Waits w → w.Begins op →
    ∃ v, L.agrees w v σ ∧ op.wp (L.machine w) (fun _ _ => True) v
  /-- A call keeps the law of the state, and answers as the machine has it. -/
  call : ∀ (σ : Server) w c k o v, Wired False none σ → L.state σ → ok σ (.step w.thread o) →
    σ.Runs w (.call c k) → L.agrees w v σ → (L.machine w).pre c v →
    L.state (exec c o σ).2 ∧
      ∃ v', (L.machine w).rel c v (exec c o σ).1 v' ∧ L.agrees w v' (exec c o σ).2
  /-- A call of another work leaves the view of a work in step. -/
  beside : ∀ (σ : Server) w c k o v w' op' v', Wired False none σ → L.state σ →
    σ.Runs w (.call c k) → L.agrees w v σ → (L.machine w).pre c v →
    w'.thread ≠ w.thread → σ.Runs w' op' → L.agrees w' v' σ → L.agrees w' v' (exec c o σ).2
  /-- The law does not look at queues, nor at what the outside may change. -/
  drifts : ∀ σ σ' : Server, σ.Drifts σ' → (L.state σ → L.state σ') ∧ ∀ w v, L.agrees w v σ → L.agrees w v σ'

variable {L} {ok : Server → Event → Prop} {σ σ' : Server} {e : Event}

theorem Sound.step (h : L.Sound ok) (hw : Wired False none σ) (hi : L.state σ ∧ L.Ready σ) (hok : ok σ e)
    (hs : Stepped σ e σ') : L.state σ' ∧ L.Ready σ' := by
  obtain ⟨hstate, hready⟩ := hi
  cases step_runs hs with
  | call w c k o he hruns hdata hrest =>
    obtain ⟨v, hv, hpre, hwp⟩ := hready w _ hruns
    obtain ⟨hstate', v', hrel, hv'⟩ := h.call σ w c k o v hw hstate (he ▸ hok) hruns hv hpre
    obtain ⟨hkeep, hagree⟩ := h.drifts _ _ hdata.drifts
    refine ⟨hkeep hstate', fun w' op hw' => ?_⟩
    rcases hrest w' op hw' with ⟨rfl, rfl⟩ | ⟨hne, hruns'⟩
    · exact ⟨v', hagree _ _ hv', hwp _ _ hrel⟩
    · obtain ⟨u, hu, hwp'⟩ := hready w' op hruns'
      exact ⟨u, hagree _ _ (h.beside σ w c k o v w' op u hw hstate hruns hv hpre hne hruns' hu), hwp'⟩
  | start w op he hwaits hbegins hdata hrest =>
    obtain ⟨hkeep, hagree⟩ := h.drifts _ _ hdata.drifts
    refine ⟨hkeep hstate, fun w' op' hw' => ?_⟩
    rcases hrest w' op' hw' with ⟨rfl, rfl⟩ | ⟨-, hruns'⟩
    · obtain ⟨v, hv, hwp⟩ := h.begins σ _ _ hw hstate (he ▸ hok) hwaits hbegins
      exact ⟨v, hagree _ _ hv, hwp⟩
    · obtain ⟨u, hu, hwp⟩ := hready w' op' hruns'
      exact ⟨u, hagree _ _ hu, hwp⟩
  | outside he hdrifts hrest =>
    obtain ⟨hkeep, hagree⟩ := h.drifts _ _ hdrifts
    refine ⟨hkeep hstate, fun w op hw' => ?_⟩
    obtain ⟨u, hu, hwp⟩ := hready w op (hrest w op hw')
    exact ⟨u, hagree _ _ hu, hwp⟩

/-- At the start nothing runs. -/
theorem ready_initial (h : σ.Initial) : L.Ready σ := by
  intro w op hw
  cases w with
  | conn s command =>
    obtain ⟨p, hp, -⟩ := hw
    rw [h.conns] at hp
    cases hp
  | room m task =>
    have hactive : (σ.rooms m).active = some (task, op) := hw
    rw [h.rooms] at hactive
    cases hactive
  | timer => exact nomatch h.timer.symm.trans hw
  | control => exact nomatch h.control.2.symm.trans hw

/-- A sound law holds in every run. -/
theorem Sound.reachable (h : L.Sound ok) (hr : Reachable ok σ) : L.state σ ∧ L.Ready σ := by
  obtain ⟨σ₀, h₀, hreach⟩ := hr
  have hw : ∀ σ, Reach Server.step ok σ₀ σ → Wired False none σ := fun σ hr =>
    wired_reachable (fun hf => hf.elim) (⟨σ₀, h₀, hr⟩ : Reachable ok σ)
  exact Reach.invariant_of (I := fun σ => L.state σ ∧ L.Ready σ) hw ⟨h.initial σ₀ h₀, ready_initial h₀⟩
    (fun _ _ _ hw hi hok hs => h.step hw hi hok (step_cases hs)) hreach

end Law

/-! ## What operations may call -/

/-- The law that the operation of a work makes the calls of `P` only. -/
def Law.calling (P : Work → Call → Prop) : Law Unit where
  state _ := True
  machine w := ⟨fun c _ => P w c, fun _ _ _ _ => True⟩
  agrees _ _ _ := True

theorem Law.calling_sound {P : Work → Call → Prop} (h : ∀ (w : Work) (op : Op Unit), w.Begins op → op.Makes (P w))
    (ok : Server → Event → Prop) : (Law.calling P).Sound ok where
  initial _ _ := trivial
  begins _ w op _ _ _ _ hbegins :=
    ⟨(), trivial, (h w op hbegins).wp (I := fun _ => True) (fun _ _ hc _ => hc) (fun _ _ _ _ _ _ _ => trivial) trivial⟩
  call _ _ _ _ _ _ _ _ _ _ _ _ := ⟨trivial, (), trivial, trivial⟩
  beside _ _ _ _ _ _ _ _ _ _ _ _ _ _ _ _ _ := trivial
  drifts _ _ _ := ⟨fun _ => trivial, fun _ _ _ => trivial⟩

/-- What every operation calls from its start on, a running operation calls next. -/
theorem calls_reachable {P : Work → Call → Prop} (h : ∀ (w : Work) (op : Op Unit), w.Begins op → op.Makes (P w))
    {ok : Server → Event → Prop} {σ : Server} (hr : Reachable ok σ) {w : Work} {c : Call} {k : c.Res → Op Unit}
    (hruns : σ.Runs w (.call c k)) : P w c := by
  obtain ⟨v, -, hwp⟩ := ((Law.calling_sound h ok).reachable hr).2 w _ hruns
  exact hwp.1

end SyncRtc
