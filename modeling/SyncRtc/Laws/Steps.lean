import SyncRtc.Laws.Recording
import SyncRtc.Laws.Access
import SyncRtc.Laws.Routing

/-!
# What a step can do

`step_cases` says once what each event does to the server; later arguments split on it and never
unfold `Server.step`. The control part of the server is read off it in two functions: the commands a
connection has still to finish (`Conn.commands`) and the tasks a room has still to finish
(`Room.tasks`). A step leaves both alone, takes the first away, or appends one.
-/

set_option autoImplicit false

namespace SyncRtc

open Prog

/-- What an event does, when it is enabled. The three events of the MediaServer link change the link
and the queue of its events. -/
inductive Stepped (σ : Server) : Event → Server → Prop where
  | accept :
    Stepped σ .accept { σ.setConn σ.nextSession { isOpen := true } with nextSession := σ.nextSession + 1 }
  | overflow (s : SessionId) (r : Request) (ho : (σ.conns s).isOpen = true) :
    Stepped σ (.frame s r true) (σ.setSession s { σ.sessions s with closed := true })
  | frame (s : SessionId) (r : Request) (ho : (σ.conns s).isOpen = true) :
    Stepped σ (.frame s r false)
      (σ.setConn s { σ.conns s with queue := (σ.conns s).queue ++ [.request r] })
  | close (s : SessionId) (ho : (σ.conns s).isOpen = true) :
    Stepped σ (.close s)
      ((σ.setSession s { σ.sessions s with closed := true }).setConn s
        { σ.conns s with queue := (σ.conns s).queue ++ [.disconnected], isOpen := false })
  | release (s : SessionId) (hc : σ.conns s = {}) (hs : s < σ.nextSession) :
    Stepped σ (.release s) (σ.setSession s { σ.sessions s with alive := false })
  | tick (ht : σ.timer = none) :
    Stepped σ .tick { σ with timer := Server.pending reconnectTimeoutCheckHandler }
  | link {e : Event} (l : MediaLink) (q : List (MediaEvent × Nat × Payload)) (he : ∀ t o, e ≠ .step t o) :
    Stepped σ e { σ with link := l, control := q }
  | clocks (wall elapsed : Nat) :
    Stepped σ (.clocks wall elapsed) { σ with wall := wall, steady := σ.steady + elapsed }
  | startConn (s : SessionId) (command : Command) (rest : List Command)
      (hs : (σ.conns s).state = .idle) (hq : (σ.conns s).queue = command :: rest) :
    Stepped σ (.start (.conn s))
      ((σ.setConn s { σ.conns s with queue := rest }).resumeConn s command (route s command))
  | startRoom (m : MeetingId) (task : Task) (rest : List Task)
      (ha : (σ.rooms m).active = none) (hq : (σ.rooms m).queue = task :: rest) :
    Stepped σ (.start (.room m))
      ((σ.setRoom m { σ.rooms m with queue := rest }).resumeRoom m task (task.op m))
  | startControl (event : MediaEvent) (epoch : Nat) (message : Payload)
      (rest : List (MediaEvent × Nat × Payload)) (hc : σ.controlOp = none) :
    Stepped σ (.start .control)
      { σ with control := rest, controlOp := Server.pending (controlOp event epoch message) }
  | conn (s : SessionId) (command : Command) (c : Call) (k : c.Res → Op (Option MeetingId)) (o : Oracle)
      (hs : (σ.conns s).state = .running command (.call c k)) :
    Stepped σ (.step (.conn s) o) ((exec c o σ).2.resumeConn s command (k (exec c o σ).1))
  | room (m : MeetingId) (task : Task) (c : Call) (k : c.Res → Op Unit) (o : Oracle)
      (ha : (σ.rooms m).active = some (task, .call c k)) :
    Stepped σ (.step (.room m) o) ((exec c o σ).2.resumeRoom m task (k (exec c o σ).1))
  | timer (c : Call) (k : c.Res → Op Unit) (o : Oracle) (ht : σ.timer = some (.call c k)) :
    Stepped σ (.step .timer o) { (exec c o σ).2 with timer := Server.pending (k (exec c o σ).1) }
  | control (c : Call) (k : c.Res → Op Unit) (o : Oracle) (hc : σ.controlOp = some (.call c k)) :
    Stepped σ (.step .control o) { (exec c o σ).2 with controlOp := Server.pending (k (exec c o σ).1) }

section

variable {σ σ' : Server}

theorem start_cases {t : Thread} (h : σ.start t = some σ') : Stepped σ (.start t) σ' := by
  cases t with
  | conn s =>
    simp only [Server.start] at h
    split at h
    · next command rest hs hq =>
      cases h
      exact .startConn s command rest hs hq
    · cases h
  | room m =>
    simp only [Server.start] at h
    split at h
    · next task rest ha hq =>
      cases h
      exact .startRoom m task rest ha hq
    · cases h
  | timer => cases h
  | control =>
    simp only [Server.start] at h
    split at h
    · next event epoch message rest hc hq =>
      cases h
      exact .startControl event epoch message rest hc
    · cases h

theorem stepOp_cases {t : Thread} {o : Oracle} (h : σ.stepOp o t = some σ') : Stepped σ (.step t o) σ' := by
  cases t with
  | conn s =>
    simp only [Server.stepOp] at h
    split at h
    · next command c k hs =>
      cases h
      exact .conn s command c k o hs
    · cases h
  | room m =>
    simp only [Server.stepOp] at h
    split at h
    · next task c k ha =>
      cases h
      exact .room m task c k o ha
    · cases h
  | timer =>
    simp only [Server.stepOp] at h
    split at h
    · next c k ht =>
      cases h
      exact .timer c k o ht
    · cases h
  | control =>
    simp only [Server.stepOp] at h
    split at h
    · next c k hc =>
      cases h
      exact .control c k o hc
    · cases h

/-- Every step is one of these. -/
theorem step_cases {e : Event} (h : σ.step e = some σ') : Stepped σ e σ' := by
  cases e with
  | accept =>
    cases h
    exact .accept
  | frame s r refused =>
    simp only [Server.step] at h
    split at h
    · next ho =>
      cases refused with
      | true =>
        cases h
        exact .overflow s r ho
      | false =>
        cases h
        exact .frame s r ho
    · cases h
  | close s =>
    simp only [Server.step] at h
    split at h
    · next ho =>
      cases h
      exact .close s ho
    · cases h
  | release s =>
    simp only [Server.step] at h
    split at h
    · next hc =>
      split at h
      · next hs =>
        cases h
        exact .release s hc hs
      · cases h
    · cases h
  | tick =>
    simp only [Server.step] at h
    split at h
    · next ht =>
      cases h
      exact .tick ht
    · cases h
  | linkUp =>
    simp only [Server.step] at h
    split at h
    · cases h
      exact .link _ _ fun _ _ => Event.noConfusion
    · cases h
  | linkDown =>
    simp only [Server.step] at h
    split at h
    · cases h
    · cases h
      exact .link _ _ fun _ _ => Event.noConfusion
  | linkMessage message refused =>
    simp only [Server.step] at h
    split at h
    · cases h
    · split at h
      · cases h
        exact .link _ σ.control fun _ _ => Event.noConfusion
      · cases h
        exact .link σ.link _ fun _ _ => Event.noConfusion
  | start t => exact start_cases h
  | step t o => exact stepOp_cases h
  | clocks wall elapsed =>
    cases h
    exact .clocks wall elapsed

end

/-! ## Connections -/

/-- The command a connection is at. -/
def ConnState.command : ConnState → Option Command
  | .idle => none
  | .running command _ => some command
  | .waiting command _ => some command

/-- The commands a connection has still to finish. -/
def Conn.commands (c : Conn) : List Command := c.state.command.toList ++ c.queue

/-- The state of a connection after a step of its operation. -/
def ConnState.after (command : Command) : Op (Option MeetingId) → ConnState
  | .pure none => .idle
  | .pure (some m) => .waiting command m
  | op => .running command op

theorem resumeConn_eq (σ : Server) (s : SessionId) (command : Command) (op : Op (Option MeetingId)) :
    σ.resumeConn s command op = σ.setConn s { σ.conns s with state := .after command op } := by
  unfold Server.resumeConn ConnState.after
  rcases op with (_ | m) | ⟨c, k⟩ <;> rfl

/-- Whom a connection waits for. -/
def ConnState.awaits : ConnState → Option (Command × MeetingId)
  | .waiting command m => some (command, m)
  | _ => none

/-- An operation leaves a connection running, waiting, or done with its command. -/
theorem ConnState.after_command (command : Command) (op : Op (Option MeetingId)) :
    (ConnState.after command op).command = some command ∨
      (op = .pure none ∧ ConnState.after command op = .idle) := by
  rcases op with (_ | m) | ⟨c, k⟩
  · exact .inr ⟨rfl, rfl⟩
  · exact .inl rfl
  · exact .inl rfl

/-! ## Rooms -/

/-- The tasks a room has still to finish. -/
def Room.tasks (r : Room) : List Task := (r.active.map Prod.fst).toList ++ r.queue

/-- What a room runs after a step of its operation. -/
def Task.after (task : Task) : Op Unit → Option (Task × Op Unit)
  | .pure _ => none
  | op => some (task, op)

/-- The connections after a step of a room's operation: its end lets the one that waits for it go on. -/
def Task.resume (task : Task) (conns : SessionId → Conn) : Op Unit → SessionId → Conn
  | .pure _ => match task with
    | .dispatch s _ => Function.update conns s { conns s with state := .idle }
    | _ => conns
  | _ => conns

theorem resumeRoom_eq (σ : Server) (m : MeetingId) (task : Task) (op : Op Unit) :
    σ.resumeRoom m task op =
      { σ.setRoom m { σ.rooms m with active := task.after op } with conns := task.resume σ.conns op } := by
  cases op with
  | pure u => cases task <;> rfl
  | call c k => rfl

theorem Task.after_cases (task : Task) (op : Op Unit) :
    (∃ c k, op = .call c k ∧ task.after op = some (task, op) ∧ ∀ conns, task.resume conns op = conns) ∨
      (op = .pure () ∧ task.after op = none) := by
  cases op with
  | pure u => exact .inr ⟨rfl, rfl⟩
  | call c k => exact .inl ⟨c, k, rfl, rfl, fun _ => rfl⟩

theorem pending_cases (op : Op Unit) :
    (op = .pure () ∧ Server.pending op = none) ∨ Server.pending op = some op := by
  cases op with
  | pure u => exact .inl ⟨rfl, rfl⟩
  | call c k => exact .inr rfl

/-! ## What only calls change -/

/-- The reservations and the stores change by a call of a running operation or not at all. -/
theorem Stepped.stores {σ σ' : Server} {e : Event} (h : Stepped σ e σ') :
    (∃ t c o, e = .step t o ∧ σ.nextCall? t = some c ∧
      σ'.users = (exec c o σ).2.users ∧ σ'.storage = (exec c o σ).2.storage) ∨
    (σ'.users = σ.users ∧ σ'.storage = σ.storage) := by
  cases h with
  | startConn s command rest hs hq =>
    rw [resumeConn_eq]
    exact .inr ⟨rfl, rfl⟩
  | startRoom m task rest ha hq =>
    rw [resumeRoom_eq]
    exact .inr ⟨rfl, rfl⟩
  | conn s command c k o hs =>
    rw [resumeConn_eq]
    exact .inl ⟨.conn s, c, o, rfl, by simp only [Server.nextCall?, hs, Prog.next?], rfl, rfl⟩
  | room m task c k o ha =>
    rw [resumeRoom_eq]
    exact .inl ⟨.room m, c, o, rfl, by simp only [Server.nextCall?, ha, Prog.next?, Option.bind_some], rfl, rfl⟩
  | timer c k o ht =>
    exact .inl ⟨.timer, c, o, rfl, by simp only [Server.nextCall?, ht, Prog.next?, Option.bind_some], rfl, rfl⟩
  | control c k o hc =>
    exact .inl ⟨.control, c, o, rfl, by simp only [Server.nextCall?, hc, Prog.next?, Option.bind_some], rfl, rfl⟩
  | _ => exact .inr ⟨rfl, rfl⟩

end SyncRtc
