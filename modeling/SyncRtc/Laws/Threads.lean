import SyncRtc.Laws.Running
import SyncRtc.Laws.Books
import SyncRtc.Realtime.Process

/-!
# What a thread of the serial server is at

`System.lean` keeps the program of a connection, of a room, of the timer and of the control queue in four places.
Here they are one function of the thread, beside the line of commands before it and the job it is at; each step of the
serial server moves one thread, and the end of a room's task lets the connection that waits for it go on
(`Moved`).
-/

set_option autoImplicit false

namespace SyncRtc

open Prog

/-- The job as the serial server has it. -/
def Job.work : Job → Work
  | .connection s command => .conn s command
  | .room m task => .room m task
  | .timer => .timer
  | .control _ _ _ => .control

/-- The session whose command a room's task carries out. -/
def Job.session? : Job → Option SessionId
  | .room _ task => task.session?
  | _ => none

namespace Server

/-- What the thread's operation has left to do; a connection that waits for a room does nothing. -/
def doing (σ : Server) : Thread → Option (Op Unit)
  | .conn s =>
    match (σ.conns s).state with
    | .idle => some (.pure ())
    | .running _ op => some op.void
    | .waiting _ _ => none
  | .room m => some ((σ.rooms m).active.elim (.pure ()) Prod.snd)
  | .timer => some (σ.timer.getD (.pure ()))
  | .control => some (σ.controlOp.getD (.pure ()))

/-- The commands before the thread. The timer has none: it starts when it fires. -/
def line (σ : Server) : Thread → List Job
  | .conn s => (σ.conns s).queue.map (.connection s)
  | .room m => (σ.rooms m).queue.map (.room m)
  | .timer => []
  | .control => σ.control.map fun c => .control c.1 c.2.1 c.2.2

/-- The lines, with one more command. -/
def lineUp (σ : Server) (job : Job) : Thread → List Job :=
  Function.update σ.line job.thread (σ.line job.thread ++ [job])

/-- The command that the thread carries out, where the server keeps it. -/
def carries (σ : Server) : Thread → Option Job
  | .conn s => (σ.conns s).state.command.map (.connection s)
  | .room m => (σ.rooms m).active.map fun a => .room m a.1
  | _ => none

end Server

/-! ## The programs that hand something over -/

/-- A connection hands over its own command, and ends as soon as a room has taken it. -/
def HandsOver (s : SessionId) (command : Command) : Op (Option MeetingId) → Prop
  | .pure answer => answer = none
  | .call (.submitRoom m task) k =>
    task = .dispatch s command ∧ k true = .pure (some m) ∧ HandsOver s command (k false)
  | .call _ k => ∀ r, HandsOver s command (k r)

section HandsOver

variable {s : SessionId} {command : Command}

theorem handsOver_call {c : Call} {k : c.Res → Op (Option MeetingId)} (hc : NoHandOver c) :
    HandsOver s command (.call c k) ↔ ∀ r, HandsOver s command (k r) := by
  cases c with
  | submitRoom m task => exact absurd rfl (hc m task)
  | _ => exact Iff.rfl

theorem handsOver_bind {α : Type} {p : Op α} {f : α → Op (Option MeetingId)} (hp : p.Makes NoHandOver)
    (hf : ∀ a, HandsOver s command (f a)) : HandsOver s command (p.bind f) := by
  induction p with
  | pure a => exact hf a
  | call c k ih => exact (handsOver_call hp.1).mpr fun r => ih r (hp.2 r)

theorem handsOver_error (code : ErrorCode) : HandsOver s command ((routeError s code command).bind fun _ => .pure none) := by
  refine handsOver_bind ?_ fun _ => rfl
  cases command with
  | request r => exact (indoor_replyError r.id code).mono fun _ => indoor_noHandOver
  | disconnected => trivial

theorem target_noHandOver : (routeTarget s command).Makes NoHandOver := by
  unfold routeTarget
  repeat' first
    | exact trivial | split | dsimp only | refine Makes.step (fun _ _ h => Call.noConfusion h) fun _ => ?_

theorem handsOver_deliver (place : Except ErrorCode MeetingId) : HandsOver s command (deliver s command place) := by
  unfold deliver
  split
  · exact handsOver_error _
  split
  · exact handsOver_bind (task_noHandOver 0 (.dispatch s command)) fun _ => rfl
  · exact ⟨rfl, rfl, handsOver_error _⟩

theorem handsOver_route : HandsOver s command (route s command) := by
  cases command with
  | disconnected =>
    rw [route_disconnected]
    exact handsOver_bind target_noHandOver handsOver_deliver
  | request r =>
    rw [route_request]
    intro session
    show HandsOver s (.request r) (if session.closed then .pure none else
      (routeTarget s (.request r)).bind (deliver s (.request r)))
    split
    · rfl
    · exact handsOver_bind target_noHandOver handsOver_deliver

end HandsOver

/-! ## The data -/

section Data

variable {σ : Server}

theorem bare_setConn {s : SessionId} {v : Conn} (h : v.isOpen = (σ.conns s).isOpen) : (σ.setConn s v).bare = σ.bare := by
  simp only [Server.bare, Server.setConn, Server.mk.injEq, true_and, and_true]
  funext t
  rw [Function.update_apply]
  split
  · next heq => rw [heq, h]
  · rfl

theorem bare_setRoom {m : MeetingId} {v : Room} (h : v.data = (σ.rooms m).data) : (σ.setRoom m v).bare = σ.bare := by
  simp only [Server.bare, Server.setRoom, Server.mk.injEq, true_and, and_true]
  funext n
  rw [Function.update_apply]
  split
  · next heq => rw [heq, h]
  · rfl

theorem bare_resumeConn (s : SessionId) (command : Command) (op : Op (Option MeetingId)) :
    (σ.resumeConn s command op).bare = σ.bare := by
  rw [resumeConn_eq]
  exact bare_setConn rfl

theorem bare_resumeRoom (m : MeetingId) (task : Task) (op : Op Unit) : (σ.resumeRoom m task op).bare = σ.bare := by
  unfold Server.resumeRoom
  split
  · unfold Server.finishTask
    split
    · refine (bare_setConn ?_).trans (bare_setRoom ?_) <;> rfl
    · exact bare_setRoom rfl
  · exact bare_setRoom rfl

/-- A call works on the data alone. -/
theorem exec_bare {c : Call} (hc : NoHandOver c) (o : Oracle) (σ : Server) :
    exec c o σ.bare = Prod.map id Server.bare (exec c o σ) := by
  cases c with
  | submitRoom m task => exact absurd rfl (hc m task)
  | setRoom m d =>
    simp only [exec]
    split
    · rfl
    · simp only [Server.bare, Server.setRoom, Prod.map_apply, id_eq, Prod.mk.injEq, true_and, Server.mk.injEq, and_true]
      funext n
      rw [Function.update_apply, Function.update_apply]
      split <;> rfl
  | send s request payload =>
    simp only [exec, Server.send, apply_ite (Prod.map id Server.bare)]
    rfl
  | acceptMediaEvent event epoch =>
    simp only [exec, Server.acceptMediaEvent, apply_ite (Prod.map id Server.bare)]
    rfl
  | sendMediaSignal epoch message =>
    simp only [exec, Server.sendMediaSignal, apply_ite (Prod.map id Server.bare)]
    rfl
  | newResumeTicket =>
    simp only [exec, apply_ite (Prod.map id Server.bare)]
    rfl
  | clearMediaSignalId s expected =>
    simp only [exec, Prod.map_apply, id_eq, apply_ite Server.bare]
    rfl
  | reserveUser u m =>
    simp only [exec, Server.reserveUser, show σ.bare.users = σ.users from rfl]
    cases σ.users u with
    | none => rfl
    | some e =>
      simp only [apply_ite (Prod.map id Server.bare)]
      rfl
  | finishJoin u m joined =>
    simp only [exec, Server.finishJoin, Prod.map_apply, show σ.bare.users = σ.users from rfl]
    cases σ.users u with
    | none => rfl
    | some e =>
      simp only [apply_ite Server.bare]
      rfl
  | releaseUser u m =>
    simp only [exec, Server.releaseUser, Prod.map_apply, apply_ite Server.bare]
    rfl
  | _ => rfl

theorem bare_submitRoom (m : MeetingId) (task : Task) (o : Oracle) (σ : Server) :
    (exec (.submitRoom m task) o σ).2.bare = σ.bare := by
  rcases Server.submitRoom_cases (σ := σ) (o := o) m task with h | h
  · simp only [exec, h]
  · simp only [exec, h]
    exact bare_setRoom rfl

/-- A call changes no program. -/
theorem doing_exec (c : Call) (o : Oracle) (σ : Server) :
    (exec c o σ).2.doing = σ.doing ∧ (exec c o σ).2.carries = σ.carries := by
  have hthreads := exec_threads c o σ
  constructor
  · funext t
    cases t with
    | conn s => simp only [Server.doing, hthreads.conns]
    | room m => simp only [Server.doing, hthreads.active]
    | timer => simp only [Server.doing, hthreads.timer]
    | control => simp only [Server.doing, hthreads.control.1]
  · funext t
    cases t with
    | conn s => simp only [Server.carries, hthreads.conns]
    | room m => simp only [Server.carries, hthreads.active]
    | _ => rfl

theorem line_exec {c : Call} (hc : NoHandOver c) (o : Oracle) (σ : Server) : (exec c o σ).2.line = σ.line := by
  have hthreads := exec_threads c o σ
  funext t
  cases t with
  | conn s => simp only [Server.line, hthreads.conns]
  | room m => simp only [Server.line, exec_queue hc]
  | timer => rfl
  | control => simp only [Server.line, hthreads.control.2]

end Data

/-! ## What is kept of a program -/

/-- No program that has ended is kept, and a connection's hands over its own command. -/
structure Prompt (σ : Server) : Prop where
  conn : ∀ s command op, (σ.conns s).state = .running command op → op.next? ≠ none ∧ HandsOver s command op
  room : ∀ m task op, (σ.rooms m).active = some (task, op) → op.next? ≠ none
  timer : ∀ op, σ.timer = some op → op.next? ≠ none
  control : ∀ op, σ.controlOp = some op → op.next? ≠ none

section Prompt

variable {σ σ' : Server}

theorem next?_void {α : Type} (op : Op α) : op.void.next? = op.next? := by
  cases op <;> rfl

theorem kept_after {command command' : Command} {p q : Op (Option MeetingId)}
    (h : ConnState.after command p = .running command' q) : command' = command ∧ q = p ∧ q.next? ≠ none := by
  rcases p with (_ | m) | ⟨c, k⟩
  · cases h
  · cases h
  · cases h
    exact ⟨rfl, rfl, Option.some_ne_none c⟩

theorem kept_afterTask {task task' : Task} {p q : Op Unit} (h : task.after p = some (task', q)) : q.next? ≠ none := by
  cases p with
  | pure u => cases h
  | call c k =>
    cases h
    exact Option.some_ne_none c

theorem kept_pending {p q : Op Unit} (h : Server.pending p = some q) : q.next? ≠ none := by
  cases p with
  | pure u => cases h
  | call c k =>
    cases h
    exact Option.some_ne_none c

/-- The program of a connection, after a step that sets that of connection `s`. -/
theorem conn_setConn {s t : SessionId} {v : Conn} {command : Command} {op : Op (Option MeetingId)}
    (h : ((σ.setConn s v).conns t).state = .running command op) :
    t = s ∧ v.state = .running command op ∨ (σ.conns t).state = .running command op := by
  simp only [Server.setConn, Function.update_apply] at h
  split at h
  · next heq => exact .inl ⟨heq, h⟩
  · exact .inr h

theorem Prompt.setConn (h : Prompt σ) {s : SessionId} {v : Conn}
    (hv : ∀ command op, v.state = .running command op → op.next? ≠ none ∧ HandsOver s command op) :
    Prompt (σ.setConn s v) := by
  refine ⟨fun t command op ht => ?_, h.room, h.timer, h.control⟩
  rcases conn_setConn ht with ⟨rfl, hs⟩ | hold
  · exact hv command op hs
  · exact h.conn t command op hold

theorem Prompt.setRoom (h : Prompt σ) {m : MeetingId} {r : Room} {conns : SessionId → Conn}
    (hr : ∀ task op, r.active = some (task, op) → op.next? ≠ none)
    (hconns : ∀ s command op, (conns s).state = .running command op → (σ.conns s).state = .running command op) :
    Prompt { σ.setRoom m r with conns } := by
  refine ⟨fun s command op hs => h.conn s command op (hconns s command op hs), fun n task op hactive => ?_, h.timer,
    h.control⟩
  simp only [Server.setRoom, Function.update_apply] at hactive
  split at hactive
  · exact hr task op hactive
  · exact h.room n task op hactive

theorem Prompt.exec (h : Prompt σ) (c : Call) (o : Oracle) : Prompt (exec c o σ).2 := by
  have hthreads := exec_threads c o σ
  refine ⟨?_, fun m => ?_, ?_, ?_⟩
  · rw [hthreads.conns]
    exact h.conn
  · rw [hthreads.active]
    exact h.room m
  · rw [hthreads.timer]
    exact h.timer
  · rw [hthreads.control.1]
    exact h.control

/-- What a connection goes on with after a call hands over its own command as well. -/
theorem handsOver_next {s : SessionId} {command : Command} {c : Call} {k : c.Res → Op (Option MeetingId)}
    (h : HandsOver s command (.call c k)) (r : c.Res) (hr : (k r).next? ≠ none) : HandsOver s command (k r) := by
  by_cases hc : NoHandOver c
  · exact (handsOver_call hc).mp h r
  · simp only [NoHandOver, not_forall, not_not] at hc
    obtain ⟨m, task, rfl⟩ := hc
    cases r with
    | true =>
      rw [h.2.1] at hr
      exact absurd rfl hr
    | false => exact h.2.2

theorem Prompt.stepped (h : Prompt σ) {e : Event} (hs : Stepped σ e σ') : Prompt σ' := by
  cases hs with
  | accept =>
    have haccepted : Prompt (σ.setConn σ.nextSession { isOpen := true }) := h.setConn fun _ _ heq => nomatch heq
    exact ⟨haccepted.conn, haccepted.room, haccepted.timer, haccepted.control⟩
  | overflow s r ho => exact ⟨h.conn, h.room, h.timer, h.control⟩
  | frame s r ho => exact h.setConn (h.conn s)
  | close s ho =>
    have hclosed : Prompt (σ.setSession s { σ.sessions s with closed := true }) := ⟨h.conn, h.room, h.timer, h.control⟩
    exact hclosed.setConn (h.conn s)
  | release s hc hlt => exact ⟨h.conn, h.room, h.timer, h.control⟩
  | tick ht => exact ⟨h.conn, h.room, fun op hop => kept_pending (p := reconnectTimeoutCheckHandler) hop, h.control⟩
  | link l q he => exact ⟨h.conn, h.room, h.timer, h.control⟩
  | clocks wall elapsed => exact ⟨h.conn, h.room, h.timer, h.control⟩
  | startConn s command rest hidle hq =>
    rw [resumeConn_eq]
    have hpopped : Prompt (σ.setConn s { σ.conns s with queue := rest }) := h.setConn (h.conn s)
    refine hpopped.setConn fun command' op hop => ?_
    obtain ⟨rfl, rfl, hnext⟩ := kept_after hop
    exact ⟨hnext, handsOver_route⟩
  | startRoom m task rest ha hq =>
    rw [resumeRoom_eq]
    have hpopped : Prompt (σ.setRoom m { σ.rooms m with queue := rest }) :=
      h.setRoom (h.room m) fun _ _ _ hs => hs
    exact hpopped.setRoom (fun _ _ hop => kept_afterTask hop) fun _ _ _ hs => running_of_resume hs
  | startControl event epoch message rest hc =>
    exact ⟨h.conn, h.room, h.timer, fun op hop => kept_pending (p := controlOp event epoch message) hop⟩
  | conn s command c k o hstate =>
    rw [resumeConn_eq]
    have hexec := h.exec c o
    refine hexec.setConn fun command' op hop => ?_
    obtain ⟨rfl, rfl, hnext⟩ := kept_after hop
    exact ⟨hnext, handsOver_next (h.conn s _ _ hstate).2 _ hnext⟩
  | room m task c k o ha =>
    rw [resumeRoom_eq]
    exact (h.exec c o).setRoom (fun _ _ hop => kept_afterTask hop) fun _ _ _ hs => running_of_resume hs
  | timer c k o ht =>
    have hexec := h.exec c o
    exact ⟨hexec.conn, hexec.room, fun op hop => kept_pending hop, hexec.control⟩
  | control c k o hc =>
    have hexec := h.exec c o
    exact ⟨hexec.conn, hexec.room, hexec.timer, fun op hop => kept_pending hop⟩

theorem prompt_of_reachable {ok : Server → Event → Prop} (h : Reachable ok σ) : Prompt σ := by
  obtain ⟨σ₀, h₀, hreach⟩ := h
  refine hreach.invariant ⟨fun s command op hs => ?_, fun m task op hm => ?_, fun op hop => ?_, fun op hop => ?_⟩ ?_
  · rw [h₀.conns] at hs
    cases hs
  · rw [h₀.rooms] at hm
    cases hm
  · rw [h₀.timer] at hop
    cases hop
  · rw [h₀.control.2] at hop
    cases hop
  · exact fun _ _ _ hprompt _ hstep => hprompt.stepped (step_cases hstep)

/-! A thread that has nothing left to do is idle. -/

theorem Prompt.idleConn (h : Prompt σ) {s : SessionId} (hdoing : σ.doing (.conn s) = some (.pure ())) :
    (σ.conns s).state = .idle := by
  simp only [Server.doing] at hdoing
  split at hdoing
  · assumption
  · next command op hs =>
    have hnext := (h.conn s command op hs).1
    rw [← next?_void, Option.some.inj hdoing] at hnext
    exact absurd rfl hnext
  · cases hdoing

theorem Prompt.idleRoom (h : Prompt σ) {m : MeetingId} (hdoing : σ.doing (.room m) = some (.pure ())) :
    (σ.rooms m).active = none := by
  cases hactive : (σ.rooms m).active with
  | none => rfl
  | some a =>
    simp only [Server.doing, hactive, Option.elim_some, Option.some.injEq] at hdoing
    have hnext := h.room m a.1 a.2 hactive
    rw [hdoing] at hnext
    exact absurd rfl hnext

theorem Prompt.idleTimer (h : Prompt σ) (hdoing : σ.doing .timer = some (.pure ())) : σ.timer = none := by
  cases htimer : σ.timer with
  | none => rfl
  | some op =>
    simp only [Server.doing, htimer, Option.getD_some, Option.some.injEq] at hdoing
    exact absurd (hdoing ▸ rfl) (h.timer op htimer)

theorem Prompt.idleControl (h : Prompt σ) (hdoing : σ.doing .control = some (.pure ())) : σ.controlOp = none := by
  cases hcontrol : σ.controlOp with
  | none => rfl
  | some op =>
    simp only [Server.doing, hcontrol, Option.getD_some, Option.some.injEq] at hdoing
    exact absurd (hdoing ▸ rfl) (h.control op hcontrol)

end Prompt

/-! ## One thread moves -/

/-- Thread `t`, which carries out `job`, goes on with `body`. Where that is the end of a room's task, the connection
that waits for it has nothing left to do. -/
structure Moved (σ σ' : Server) (t : Thread) (job : Job) (body : Option (Op Unit)) : Prop where
  self : σ'.doing t = body
  others : ∀ t' ≠ t, σ'.doing t' = σ.doing t' ∨ σ'.doing t' = some (.pure ()) ∧ body = some (.pure ()) ∧
    ∃ s, job.session? = some s ∧ t' = .conn s
  released : body = some (.pure ()) → ∀ s, job.session? = some s → σ'.doing (.conn s) = some (.pure ())
  carries : ∀ t' ≠ t, ∀ job', σ'.carries t' = some job' → σ.carries t' = some job'
  own : ∀ job', σ'.carries t = some job' → job' = job

/-- What a connection has left to do with this answer or program. -/
def ConnState.rest : Op (Option MeetingId) → Option (Op Unit)
  | .pure (some _) => none
  | op => some op.void

section Moved

variable {σ σ₁ σ' : Server}

theorem Moved.before {t : Thread} {job : Job} {body : Option (Op Unit)} (h : Moved σ₁ σ' t job body)
    (hdoing : σ₁.doing = σ.doing) (hcarries : σ₁.carries = σ.carries) : Moved σ σ' t job body := by
  obtain ⟨hself, hothers, hreleased, hcarried, hown⟩ := h
  rw [hdoing] at hothers
  rw [hcarries] at hcarried
  exact ⟨hself, hothers, hreleased, hcarried, hown⟩

/-- The program of a connection is exchanged. -/
theorem moved_conn (σ : Server) (s : SessionId) (command : Command) (op : Op (Option MeetingId)) :
    Moved σ (σ.resumeConn s command op) (.conn s) (.connection s command) (ConnState.rest op) := by
  rw [resumeConn_eq]
  have hself : (σ.setConn s { σ.conns s with state := .after command op }).conns s =
      { σ.conns s with state := .after command op } := Server.setConn_self _ _
  have hothers (t' : Thread) (ht : t' ≠ .conn s) :
      (σ.setConn s { σ.conns s with state := .after command op }).doing t' = σ.doing t' ∧
        (σ.setConn s { σ.conns s with state := .after command op }).carries t' = σ.carries t' := by
    cases t' with
    | conn s' =>
      have hne : s' ≠ s := fun heq => ht (heq ▸ rfl)
      simp only [Server.doing, Server.carries, Server.setConn_of_ne hne, and_self]
    | _ => exact ⟨rfl, rfl⟩
  refine ⟨?_, fun t' ht => .inl (hothers t' ht).1, fun _ s' hs => ?_, fun t' ht job' hjob => ?_, fun job' hjob => ?_⟩
  · simp only [Server.doing, hself]
    rcases op with (_ | m) | ⟨c, k⟩ <;> rfl
  · cases hs
  · exact (hothers t' ht).2.symm.trans hjob
  · simp only [Server.carries, hself] at hjob
    rcases ConnState.after_command command op with hafter | ⟨-, hidle⟩
    · rw [hafter] at hjob
      exact (Option.some.inj hjob).symm
    · rw [hidle] at hjob
      cases hjob

theorem doing_of_conn {s : SessionId} (h : (σ'.conns s).state = (σ.conns s).state) :
    σ'.doing (.conn s) = σ.doing (.conn s) ∧ σ'.carries (.conn s) = σ.carries (.conn s) := by
  simp only [Server.doing, Server.carries, h, and_self]

theorem doing_of_room {m : MeetingId} (h : (σ'.rooms m).active = (σ.rooms m).active) :
    σ'.doing (.room m) = σ.doing (.room m) ∧ σ'.carries (.room m) = σ.carries (.room m) := by
  simp only [Server.doing, Server.carries, h, and_self]

/-- The connections, after the program of a room has been exchanged. -/
theorem resume_cases (task : Task) (conns : SessionId → Conn) (op : Op Unit) (s : SessionId) :
    task.resume conns op s = conns s ∨
      task.resume conns op s = { conns s with state := .idle } ∧ op = .pure () ∧ task.session? = some s := by
  rcases task.after_cases op with ⟨c, k, -, -, hresume⟩ | ⟨rfl, -⟩
  · exact .inl (congrFun (hresume conns) s)
  · cases task with
    | dispatch s' command =>
      by_cases hs : s = s'
      · subst hs
        have hidle : (Task.dispatch s command).resume conns (.pure ()) s = { conns s with state := .idle } :=
          Function.update_self _ _ _
        exact .inr ⟨hidle, rfl, rfl⟩
      · exact .inl (Function.update_of_ne hs _ _)
    | _ => exact .inl rfl

/-- The program of a room is exchanged. -/
theorem moved_room (σ : Server) (m : MeetingId) (task : Task) (op : Op Unit) :
    Moved σ (σ.resumeRoom m task op) (.room m) (.room m task) (some op) := by
  rw [resumeRoom_eq]
  let room : Room := { σ.rooms m with active := task.after op }
  have hself : (σ.setRoom m room).rooms m = room := Server.setRoom_self _ _
  have hroom (n : MeetingId) (hn : n ≠ m) : (σ.setRoom m room).rooms n = σ.rooms n := Server.setRoom_of_ne hn _
  have hidle {s : SessionId} {conns : SessionId → Conn} (hs : (conns s).state = .idle) :
      Server.doing { σ.setRoom m room with conns } (.conn s) = some (.pure ()) ∧
        Server.carries { σ.setRoom m room with conns } (.conn s) = none := by
    simp only [Server.doing, Server.carries, hs, ConnState.command, Option.map_none, and_self]
  refine ⟨?_, fun t' ht => ?_, fun hpure s hs => ?_, fun t' ht job' hjob => ?_, fun job' hjob => ?_⟩
  · show some ((σ.setRoom m room).rooms m |>.active.elim (.pure ()) Prod.snd) = some op
    rw [hself]
    cases op <;> rfl
  · cases t' with
    | conn s =>
      rcases resume_cases task σ.conns op s with hsame | ⟨hs, hpure, hsession⟩
      · exact .inl (doing_of_conn (congrArg Conn.state hsame)).1
      · exact .inr ⟨(hidle (congrArg Conn.state hs)).1, congrArg _ hpure, s, hsession, rfl⟩
    | room n => exact .inl (doing_of_room (congrArg Room.active (hroom n fun heq => ht (heq ▸ rfl)))).1
    | _ => exact .inl rfl
  · obtain ⟨command, rfl⟩ := session?_eq_some hs
    cases Option.some.inj hpure
    have hresumed : (Task.dispatch s command).resume σ.conns (.pure ()) s = { σ.conns s with state := .idle } :=
      Function.update_self _ _ _
    exact (hidle (congrArg Conn.state hresumed)).1
  · cases t' with
    | conn s =>
      rcases resume_cases task σ.conns op s with hsame | ⟨hs, -, -⟩
      · exact (doing_of_conn (congrArg Conn.state hsame)).2.symm.trans hjob
      · cases (hidle (congrArg Conn.state hs)).2.symm.trans hjob
    | room n => exact (doing_of_room (congrArg Room.active (hroom n fun heq => ht (heq ▸ rfl)))).2.symm.trans hjob
    | _ => exact hjob
  · have hactive : ((σ.setRoom m room).rooms m).active.map (fun a => Job.room m a.1) = some job' := hjob
    rw [hself] at hactive
    cases op with
    | pure u => cases hactive
    | call c k => exact (Option.some.inj hactive).symm

theorem rest_of_handsOver {s : SessionId} {command : Command} {op : Op (Option MeetingId)} (h : HandsOver s command op) :
    ConnState.rest op = some op.void := by
  cases op with
  | pure answer =>
    cases (show answer = none from h)
    rfl
  | call c k => rfl

end Moved

/-! ## The steps of the serial server, by thread -/

namespace Server

variable {σ : Server}

/-- The lines, after that of one thread has changed. -/
theorem line_setConn {s : SessionId} (v : Conn) :
    (σ.setConn s v).line = Function.update σ.line (.conn s) (v.queue.map (.connection s)) := by
  funext t
  cases t with
  | conn s' =>
    by_cases hs : s' = s
    · subst hs
      simp only [line, setConn_self, Function.update_self]
    · rw [Function.update_of_ne fun heq => hs (Thread.conn.inj heq)]
      simp only [line, setConn_of_ne hs]
  | _ => exact (Function.update_of_ne (by simp) _ _).symm

theorem line_setRoom {m : MeetingId} (r : Room) :
    (σ.setRoom m r).line = Function.update σ.line (.room m) (r.queue.map (.room m)) := by
  funext t
  cases t with
  | room n =>
    by_cases hn : n = m
    · subst hn
      simp only [line, setRoom_self, Function.update_self]
    · rw [Function.update_of_ne fun heq => hn (Thread.room.inj heq)]
      simp only [line, setRoom_of_ne hn]
  | _ => exact (Function.update_of_ne (by simp) _ _).symm

theorem line_resumeConn (s : SessionId) (command : Command) (op : Op (Option MeetingId)) :
    (σ.resumeConn s command op).line = σ.line := by
  rw [resumeConn_eq, line_setConn]
  exact Function.update_eq_self (Thread.conn s) σ.line

theorem line_of_same {σ' : Server} (hconns : ∀ s, (σ'.conns s).queue = (σ.conns s).queue)
    (hrooms : ∀ m, (σ'.rooms m).queue = (σ.rooms m).queue) (hcontrol : σ'.control = σ.control) : σ'.line = σ.line := by
  funext t
  cases t with
  | conn s => simp only [line, hconns]
  | room m => simp only [line, hrooms]
  | timer => rfl
  | control => simp only [line, hcontrol]

theorem line_resumeRoom (m : MeetingId) (task : Task) (op : Op Unit) : (σ.resumeRoom m task op).line = σ.line := by
  rw [resumeRoom_eq]
  refine line_of_same (fun s => ?_) (fun n => ?_) rfl
  · rcases resume_cases task σ.conns op s with hsame | ⟨hidle, -, -⟩
    · exact congrArg Conn.queue hsame
    · exact (congrArg Conn.queue hidle).trans rfl
  · by_cases hn : n = m
    · subst hn
      exact (congrArg Room.queue (setRoom_self n _)).trans rfl
    · exact congrArg Room.queue (setRoom_of_ne hn _)

theorem pending_getD (op : Op Unit) : (pending op).getD (.pure ()) = op := by
  cases op <;> rfl

/-- The program of the timer is exchanged. -/
theorem moved_timer (σ : Server) (op : Op Unit) : Moved σ { σ with timer := pending op } .timer .timer (some op) := by
  refine ⟨congrArg some (pending_getD op), fun t ht => .inl ?_, fun _ s hs => ?_, fun _ _ _ hjob => hjob,
    fun job' hjob => ?_⟩
  · cases t with
    | timer => exact absurd rfl ht
    | _ => rfl
  · cases hs
  · cases hjob

/-- The program of the control queue is exchanged. -/
theorem moved_control (σ : Server) (event : MediaEvent) (epoch : Nat) (message : Payload)
    (control : List (MediaEvent × Nat × Payload)) (op : Op Unit) :
    Moved σ { σ with control, controlOp := pending op } .control (.control event epoch message) (some op) := by
  refine ⟨congrArg some (pending_getD op), fun t ht => .inl ?_, fun _ s hs => ?_, fun t ht job' hjob => ?_,
    fun job' hjob => ?_⟩
  · cases t with
    | control => exact absurd rfl ht
    | _ => rfl
  · cases hs
  · cases t with
    | control => exact absurd rfl ht
    | _ => exact hjob
  · cases hjob

/-- A queue's first command is begun; the timer's when it fires. -/
theorem begins (h : Prompt σ) {job : Job} {rest : List Job} (hdoing : σ.doing job.thread = some (.pure ()))
    (hline : job ≠ .timer → σ.line job.thread = job :: rest) :
    ∃ e σ', σ.step e = some σ' ∧ σ'.bare = σ.bare ∧ Moved σ σ' job.thread job (some job.body) ∧
      (∀ t ≠ job.thread, σ'.line t = σ.line t) ∧ (job ≠ .timer → σ'.line job.thread = rest) := by
  cases job with
  | connection s command =>
    have hidle := h.idleConn hdoing
    obtain ⟨command', queue, hqueue, hcommand, rfl⟩ := List.map_eq_cons_iff.mp (hline Job.noConfusion)
    cases hcommand
    let v : Conn := { σ.conns s with queue }
    have hstep : σ.step (.start (.conn s)) = some ((σ.setConn s v).resumeConn s command (route s command)) := by
      simp only [step, start, hidle, hqueue, v]
    have hmoved := moved_conn (σ.setConn s v) s command (route s command)
    rw [rest_of_handsOver handsOver_route] at hmoved
    have hstate (t : SessionId) : ((σ.setConn s v).conns t).state = (σ.conns t).state := by
      by_cases ht : t = s
      · subst ht
        exact (congrArg Conn.state (setConn_self t v)).trans rfl
      · rw [setConn_of_ne ht]
    have hsame (t : Thread) : (σ.setConn s v).doing t = σ.doing t ∧ (σ.setConn s v).carries t = σ.carries t := by
      cases t with
      | conn t => exact doing_of_conn (hstate t)
      | _ => exact ⟨rfl, rfl⟩
    refine ⟨_, _, hstep, (bare_resumeConn s command _).trans (bare_setConn rfl),
      hmoved.before (funext fun t => (hsame t).1) (funext fun t => (hsame t).2), fun t ht => ?_, fun _ => ?_⟩
    · rw [line_resumeConn, line_setConn]
      exact Function.update_of_ne ht _ _
    · rw [line_resumeConn, line_setConn]
      exact Function.update_self _ _ _
  | room m task =>
    have hidle := h.idleRoom hdoing
    obtain ⟨task', queue, hqueue, htask, rfl⟩ := List.map_eq_cons_iff.mp (hline Job.noConfusion)
    cases htask
    let r : Room := { σ.rooms m with queue }
    have hstep : σ.step (.start (.room m)) = some ((σ.setRoom m r).resumeRoom m task (task.op m)) := by
      simp only [step, start, hidle, hqueue, r]
    have hactive (n : MeetingId) : ((σ.setRoom m r).rooms n).active = (σ.rooms n).active := by
      by_cases hn : n = m
      · subst hn
        exact (congrArg Room.active (setRoom_self n r)).trans rfl
      · rw [setRoom_of_ne hn]
    have hsame (t : Thread) : (σ.setRoom m r).doing t = σ.doing t ∧ (σ.setRoom m r).carries t = σ.carries t := by
      cases t with
      | room n => exact doing_of_room (hactive n)
      | _ => exact ⟨rfl, rfl⟩
    refine ⟨_, _, hstep, (bare_resumeRoom m task _).trans (bare_setRoom rfl),
      (moved_room (σ.setRoom m r) m task (task.op m)).before (funext fun t => (hsame t).1)
        (funext fun t => (hsame t).2), fun t ht => ?_, fun _ => ?_⟩
    · rw [line_resumeRoom, line_setRoom]
      exact Function.update_of_ne ht _ _
    · rw [line_resumeRoom, line_setRoom]
      exact Function.update_self _ _ _
  | timer =>
    have hidle := h.idleTimer hdoing
    have hstep : σ.step .tick = some { σ with timer := pending reconnectTimeoutCheckHandler } := by
      simp only [step, hidle]
    refine ⟨_, _, hstep, rfl, moved_timer σ _, fun t ht => ?_, fun hne => absurd rfl hne⟩
    exact congrFun (line_of_same (fun _ => rfl) (fun _ => rfl) rfl) t
  | control event epoch message =>
    have hidle := h.idleControl hdoing
    obtain ⟨c, queue, hqueue, hcommand, rfl⟩ := List.map_eq_cons_iff.mp (hline Job.noConfusion)
    cases hcommand
    have hstep : σ.step (.start .control) =
        some { σ with control := queue, controlOp := pending (SyncRtc.controlOp c.1 c.2.1 c.2.2) } := by
      simp only [step, start, hidle, hqueue]
    refine ⟨_, _, hstep, rfl, moved_control σ _ _ _ queue _, fun t ht => ?_, fun _ => rfl⟩
    cases t with
    | control => exact absurd rfl ht
    | _ => rfl

section Calls

variable {job : Job} {c : Call} {k : c.Res → Op Unit} {o : Oracle}

/-- What a connection is at, by what is left of it. -/
theorem running_of_doing {s : SessionId} {command : Command} (h : Prompt σ)
    (hcarries : ∀ job', σ.carries (.conn s) = some job' → job' = .connection s command)
    (hdoing : σ.doing (.conn s) = some (.call c k)) :
    ∃ k', (σ.conns s).state = .running command (.call c k') ∧ (∀ r, k r = (k' r).void) ∧
      HandsOver s command (.call c k') := by
  simp only [doing] at hdoing
  split at hdoing
  · cases hdoing
  · next command' op hstate =>
    have hcommand := hcarries (.connection s command') (by simp only [carries, hstate, ConnState.command, Option.map_some])
    cases hcommand
    cases op with
    | pure answer => cases hdoing
    | call c' k' =>
      cases hdoing
      exact ⟨k', hstate, fun r => rfl, (h.conn s command _ hstate).2⟩
  · cases hdoing

theorem stepConn {s : SessionId} {command : Command} {k' : c.Res → Op (Option MeetingId)}
    (hstate : (σ.conns s).state = .running command (.call c k')) (o : Oracle) :
    ∃ σ', σ.step (.step (.conn s) o) = some σ' ∧ σ'.bare = (exec c o σ).2.bare ∧ σ'.line = (exec c o σ).2.line ∧
      Moved σ σ' (.conn s) (.connection s command) (ConnState.rest (k' (exec c o σ).1)) := by
  have hsame := doing_exec c o σ
  refine ⟨_, ?_, bare_resumeConn s command _, line_resumeConn s command _, (moved_conn _ s command _).before hsame.1 hsame.2⟩
  simp only [step, stepOp, hstate]

/-- What any other thread is at. -/
theorem runs_of_doing (hcarries : ∀ job', σ.carries job.thread = some job' → job' = job)
    (hdoing : σ.doing job.thread = some (.call c k)) (hjob : job.waits = false) : σ.Runs job.work (.call c k) := by
  cases job with
  | connection s command => cases hjob
  | room m task =>
    have hop : (σ.rooms m).active.elim (.pure ()) Prod.snd = .call c k := Option.some.inj hdoing
    show (σ.rooms m).active = some (task, .call c k)
    cases ha : (σ.rooms m).active with
    | none =>
      rw [ha] at hop
      cases hop
    | some a =>
      have htask := hcarries (.room m a.1) (by simp only [Job.thread, carries, ha, Option.map_some])
      rw [ha] at hop
      cases htask
      exact congrArg some (Prod.ext rfl hop)
  | timer =>
    have hop : σ.timer.getD (.pure ()) = .call c k := Option.some.inj hdoing
    show σ.timer = some (.call c k)
    cases ht : σ.timer with
    | none =>
      rw [ht] at hop
      cases hop
    | some op =>
      rw [ht] at hop
      exact congrArg some hop
  | control event epoch message =>
    have hop : σ.controlOp.getD (.pure ()) = .call c k := Option.some.inj hdoing
    show σ.controlOp = some (.call c k)
    cases ht : σ.controlOp with
    | none =>
      rw [ht] at hop
      cases hop
    | some op =>
      rw [ht] at hop
      exact congrArg some hop

/-- Any thread but a connection goes on with the answer to its call. -/
theorem stepOther (hcarries : ∀ job', σ.carries job.thread = some job' → job' = job)
    (hdoing : σ.doing job.thread = some (.call c k)) (hjob : job.waits = false) (o : Oracle) :
    ∃ σ', σ.step (.step job.thread o) = some σ' ∧ σ'.bare = (exec c o σ).2.bare ∧ σ'.line = (exec c o σ).2.line ∧
      Moved σ σ' job.thread job (some (k (exec c o σ).1)) := by
  have hsame := doing_exec c o σ
  have hruns := runs_of_doing hcarries hdoing hjob
  cases job with
  | connection s command => cases hjob
  | room m task =>
    have hactive : (σ.rooms m).active = some (task, .call c k) := hruns
    refine ⟨_, ?_, bare_resumeRoom m task _, line_resumeRoom m task _, (moved_room _ m task _).before hsame.1 hsame.2⟩
    simp only [step, stepOp, Job.thread, hactive]
  | timer =>
    have htimer : σ.timer = some (.call c k) := hruns
    have hmoved := moved_timer (exec c o σ).2 (k (exec c o σ).1)
    refine ⟨{ (exec c o σ).2 with timer := pending (k (exec c o σ).1) }, ?_, rfl, ?_, hmoved.before hsame.1 hsame.2⟩
    · simp only [step, stepOp, Job.thread, htimer]
    · exact line_of_same (fun _ => rfl) (fun _ => rfl) rfl
  | control event epoch message =>
    have hcontrol : σ.controlOp = some (.call c k) := hruns
    have hmoved := moved_control (exec c o σ).2 event epoch message (exec c o σ).2.control (k (exec c o σ).1)
    refine ⟨{ (exec c o σ).2 with controlOp := pending (k (exec c o σ).1) }, ?_, rfl, ?_, hmoved.before hsame.1 hsame.2⟩
    · simp only [step, stepOp, Job.thread, hcontrol]
    · exact line_of_same (fun _ => rfl) (fun _ => rfl) rfl

/-- A call on the data is answered. -/
theorem advance (h : Prompt σ) (hcarries : ∀ job', σ.carries job.thread = some job' → job' = job)
    (hdoing : σ.doing job.thread = some (.call c k)) (hc : NoHandOver c) (o : Oracle) :
    ∃ σ', σ.step (.step job.thread o) = some σ' ∧ σ'.bare = (exec c o σ.bare).2 ∧ σ'.line = σ.line ∧
      Moved σ σ' job.thread job (some (k (exec c o σ.bare).1)) := by
  have hexec := exec_bare hc o σ
  rw [hexec, Prod.map_fst, Prod.map_snd]
  cases hjob : job.waits with
  | false =>
    obtain ⟨σ', hstep, hdata, hline, hmoved⟩ := stepOther hcarries hdoing hjob o
    exact ⟨σ', hstep, hdata, hline.trans (line_exec hc o σ), hmoved⟩
  | true =>
    cases job with
    | connection s command =>
      obtain ⟨k', hstate, hk, hhands⟩ := running_of_doing h hcarries hdoing
      obtain ⟨σ', hstep, hdata, hline, hmoved⟩ := stepConn hstate o
      rw [rest_of_handsOver ((handsOver_call hc).mp hhands _), ← hk] at hmoved
      exact ⟨σ', hstep, hdata, hline.trans (line_exec hc o σ), hmoved⟩
    | _ => cases hjob

end Calls

/-! ## A task for a room -/

section SubmitRoom

variable {job : Job} {m : MeetingId} {task : Task} {k : Bool → Op Unit}


theorem submitRoom_takes (m : MeetingId) (task : Task) :
    (exec (.submitRoom m task) {} σ).1 = true ∧ (exec (.submitRoom m task) {} σ).2.line = σ.lineUp (.room m task) := by
  refine ⟨rfl, ?_⟩
  show (σ.setRoom m { σ.rooms m with queue := (σ.rooms m).queue ++ [task] }).line = σ.lineUp (.room m task)
  rw [line_setRoom, List.map_append]
  rfl

theorem submitRoom_refuses (htask : (Job.room m task).terminal = false) :
    exec (.submitRoom m task) { refuse := true } σ = (false, σ) := by
  cases task with
  | dispatch s command =>
    cases command with
    | request r => rfl
    | disconnected => cases htask
  | _ => rfl

/-- The room refuses, and the thread goes on with that. -/
theorem refuse (h : Prompt σ) (hcarries : ∀ job', σ.carries job.thread = some job' → job' = job)
    (hdoing : σ.doing job.thread = some (.call (.submitRoom m task) k)) (htask : (Job.room m task).terminal = false) :
    ∃ σ', σ.step (.step job.thread { refuse := true }) = some σ' ∧ σ'.bare = σ.bare ∧ σ'.line = σ.line ∧
      Moved σ σ' job.thread job (some (k false)) := by
  cases hjob : job.waits with
  | false =>
    obtain ⟨σ', hstep, hdata, hline, hmoved⟩ := stepOther hcarries hdoing hjob { refuse := true }
    rw [submitRoom_refuses htask] at hdata hline hmoved
    exact ⟨σ', hstep, hdata, hline, hmoved⟩
  | true =>
    cases job with
    | connection s command =>
      obtain ⟨k', hstate, hk, hhands⟩ := running_of_doing h hcarries hdoing
      obtain ⟨σ', hstep, hdata, hline, hmoved⟩ := stepConn hstate { refuse := true }
      rw [submitRoom_refuses htask] at hdata hline hmoved
      rw [rest_of_handsOver hhands.2.2, ← hk] at hmoved
      exact ⟨σ', hstep, hdata, hline, hmoved⟩
    | _ => cases hjob

/-- Only a connection hands over the command of a session. -/
theorem session?_of_doing (h : Wired False none σ) (hcarries : ∀ job', σ.carries job.thread = some job' → job' = job)
    (hdoing : σ.doing job.thread = some (.call (.submitRoom m task) k)) (hjob : job.waits = false) :
    task.session? = none := by
  rcases (runs_of_doing hcarries hdoing hjob).hands h with hnone | ⟨s, command, hwork, -⟩
  · exact hnone
  · cases job with
    | connection s command => cases hjob
    | _ => cases hwork

/-- The room accepts what nobody waits for. -/
theorem spawn (hcarries : ∀ job', σ.carries job.thread = some job' → job' = job)
    (hdoing : σ.doing job.thread = some (.call (.submitRoom m task) k)) (hjob : job.waits = false) :
    ∃ σ', σ.step (.step job.thread {}) = some σ' ∧ σ'.bare = σ.bare ∧ σ'.line = σ.lineUp (.room m task) ∧
      Moved σ σ' job.thread job (some (k true)) := by
  obtain ⟨σ', hstep, hdata, hline, hmoved⟩ := stepOther hcarries hdoing hjob {}
  rw [(submitRoom_takes m task).1] at hmoved
  exact ⟨σ', hstep, hdata.trans (bare_submitRoom m task {} σ), hline.trans (submitRoom_takes m task).2, hmoved⟩

/-- The room accepts the command of a connection, which waits for it and has nothing left to do. -/
theorem hand {s : SessionId} {command : Command} (h : Prompt σ)
    (hcarries : ∀ job', σ.carries (.conn s) = some job' → job' = .connection s command)
    (hdoing : σ.doing (.conn s) = some (.call (.submitRoom m task) k)) :
    task = .dispatch s command ∧ k true = .pure () ∧
      ∃ σ', σ.step (.step (.conn s) {}) = some σ' ∧ σ'.bare = σ.bare ∧ σ'.line = σ.lineUp (.room m task) ∧
        Moved σ σ' (.conn s) (.connection s command) none := by
  obtain ⟨k', hstate, hk, htask, haccepted, -⟩ := running_of_doing h hcarries hdoing
  obtain ⟨σ', hstep, hdata, hline, hmoved⟩ := stepConn hstate {}
  rw [(submitRoom_takes m task).1, haccepted] at hmoved
  refine ⟨htask, ?_, σ', hstep, hdata.trans (bare_submitRoom m task {} σ), hline.trans (submitRoom_takes m task).2,
    hmoved⟩
  rw [hk, haccepted]
  rfl

end SubmitRoom

/-! ## The outside -/

/-- No thread moves. -/
structure Still (σ σ' : Server) : Prop where
  doing : σ'.doing = σ.doing
  carries : σ'.carries = σ.carries

section Outside

variable {s : SessionId}

theorem still_of_same {σ' : Server} (hconns : ∀ s, (σ'.conns s).state = (σ.conns s).state)
    (hrooms : ∀ m, (σ'.rooms m).active = (σ.rooms m).active) (htimer : σ'.timer = σ.timer)
    (hcontrol : σ'.controlOp = σ.controlOp) : Still σ σ' := by
  constructor
  · funext t
    cases t with
    | conn s => exact (doing_of_conn (hconns s)).1
    | room m => exact (doing_of_room (hrooms m)).1
    | timer => simp only [doing, htimer]
    | control => simp only [doing, hcontrol]
  · funext t
    cases t with
    | conn s => exact (doing_of_conn (hconns s)).2
    | room m => exact (doing_of_room (hrooms m)).2
    | _ => rfl

theorem still_setConn {v : Conn} (hv : v.state = (σ.conns s).state) : Still σ (σ.setConn s v) := by
  refine still_of_same (fun t => ?_) (fun _ => rfl) rfl rfl
  by_cases ht : t = s
  · subst ht
    rw [setConn_self, hv]
  · rw [setConn_of_ne ht]

theorem bare_setConn' (v : Conn) : (σ.setConn s v).bare = σ.bare.setConn s { isOpen := v.isOpen } := by
  simp only [bare, setConn, Server.mk.injEq, true_and, and_true]
  funext t
  rw [Function.update_apply, Function.update_apply]
  split <;> rfl

/-- A connection is accepted; nothing is known of it. -/
theorem takes_accept (hidle : (σ.conns σ.nextSession).state = .idle) (hqueue : (σ.conns σ.nextSession).queue = []) :
    ∃ σ', σ.step .accept = some σ' ∧
      σ'.bare = { σ.bare.setConn σ.nextSession { isOpen := true } with nextSession := σ.nextSession + 1 } ∧
      σ'.line = σ.line ∧ Still σ σ' := by
  let σ₁ := σ.setConn σ.nextSession { isOpen := true }
  have hstill : Still σ σ₁ := still_setConn hidle.symm
  have hsame : Still σ₁ { σ₁ with nextSession := σ.nextSession + 1 } :=
    still_of_same (fun _ => rfl) (fun _ => rfl) rfl rfl
  refine ⟨_, rfl, ?_, ?_, ⟨hsame.doing.trans hstill.doing, hsame.carries.trans hstill.carries⟩⟩
  · have hbare : σ₁.bare = σ.bare.setConn σ.nextSession { isOpen := true } := bare_setConn' _
    show { σ₁.bare with nextSession := σ.nextSession + 1 } = _
    rw [hbare]
  · refine line_of_same (fun t => ?_) (fun _ => rfl) rfl
    show (σ₁.conns t).queue = (σ.conns t).queue
    by_cases ht : t = σ.nextSession
    · rw [ht, hqueue, setConn_self]
    · rw [setConn_of_ne ht]

theorem takes_frame (hopen : (σ.conns s).isOpen = true) (r : Request) :
    ∃ σ', σ.step (.frame s r false) = some σ' ∧ σ'.bare = σ.bare ∧ σ'.line = σ.lineUp (.connection s (.request r)) ∧
      Still σ σ' := by
  refine ⟨σ.setConn s { σ.conns s with queue := (σ.conns s).queue ++ [.request r] }, ?_, bare_setConn rfl, ?_,
    still_setConn rfl⟩
  · simp only [step, hopen, if_true]
    rfl
  · rw [line_setConn, List.map_append]
    rfl

/-- A full queue closes the connection. -/
theorem takes_overflow (hopen : (σ.conns s).isOpen = true) (r : Request) :
    ∃ σ', σ.step (.frame s r true) = some σ' ∧
      σ'.bare = σ.bare.setSession s { σ.sessions s with closed := true } ∧ σ'.line = σ.line ∧ Still σ σ' := by
  refine ⟨σ.setSession s { σ.sessions s with closed := true }, ?_, rfl, ?_, ?_⟩
  · simp only [step, hopen, if_true]
  · exact line_of_same (fun _ => rfl) (fun _ => rfl) rfl
  · exact still_of_same (fun _ => rfl) (fun _ => rfl) rfl rfl

theorem takes_close (hopen : (σ.conns s).isOpen = true) :
    ∃ σ', σ.step (.close s) = some σ' ∧
      σ'.bare = (σ.bare.setSession s { σ.sessions s with closed := true }).setConn s {} ∧
      σ'.line = σ.lineUp (.connection s .disconnected) ∧ Still σ σ' := by
  let σ₁ := σ.setSession s { σ.sessions s with closed := true }
  let v : Conn := { σ.conns s with queue := (σ.conns s).queue ++ [.disconnected], isOpen := false }
  have hfirst : Still σ σ₁ := still_of_same (fun _ => rfl) (fun _ => rfl) rfl rfl
  have hstill : Still σ₁ (σ₁.setConn s v) := still_setConn rfl
  refine ⟨σ₁.setConn s v, ?_, bare_setConn' v, ?_,
    ⟨hstill.doing.trans hfirst.doing, hstill.carries.trans hfirst.carries⟩⟩
  · simp only [step, hopen, if_true]
    rfl
  · rw [line_setConn, show σ₁.line = σ.line from line_of_same (fun _ => rfl) (fun _ => rfl) rfl, List.map_append]
    rfl

theorem takes_release (hclosed : (σ.conns s).isOpen = false) (hidle : (σ.conns s).state = .idle)
    (hqueue : (σ.conns s).queue = []) (hknown : s < σ.nextSession) :
    ∃ σ', σ.step (.release s) = some σ' ∧
      σ'.bare = σ.bare.setSession s { σ.sessions s with alive := false } ∧ σ'.line = σ.line ∧ Still σ σ' := by
  have hconn : σ.conns s = { queue := [], state := .idle, isOpen := false } := by
    cases hc : σ.conns s with
    | mk queue state isOpen =>
      rw [hc] at hclosed hidle hqueue
      cases hclosed
      cases hidle
      cases hqueue
      rfl
  refine ⟨σ.setSession s { σ.sessions s with alive := false }, ?_, rfl, ?_, ?_⟩
  · simp only [step, hconn, if_pos hknown]
  · exact line_of_same (fun _ => rfl) (fun _ => rfl) rfl
  · exact still_of_same (fun _ => rfl) (fun _ => rfl) rfl rfl

theorem line_control {σ' : Server} {event : MediaEvent} {epoch : Nat} {message : Payload}
    (hconns : σ'.conns = σ.conns) (hrooms : σ'.rooms = σ.rooms)
    (hcontrol : σ'.control = σ.control ++ [(event, epoch, message)]) :
    σ'.line = σ.lineUp (.control event epoch message) := by
  funext t
  cases t with
  | control =>
    show σ'.control.map _ = σ.control.map _ ++ [_]
    rw [hcontrol, List.map_append]
    rfl
  | conn s => simp only [line, lineUp, Job.thread, Function.update_of_ne, ne_eq, reduceCtorEq, not_false_eq_true, hconns]
  | room m => simp only [line, lineUp, Job.thread, Function.update_of_ne, ne_eq, reduceCtorEq, not_false_eq_true, hrooms]
  | timer => rfl

theorem takes_linkUp (hdown : σ.link.active = 0) :
    ∃ σ', σ.step .linkUp = some σ' ∧
      σ'.bare = { σ.bare with
        link := { epoch := σ.link.epoch + 1, active := σ.link.epoch + 1, connected := true } } ∧
      σ'.line = σ.lineUp (.control .connected (σ.link.epoch + 1) .malformed) ∧ Still σ σ' := by
  have hstep : σ.step .linkUp = some { σ with
      link := { epoch := σ.link.epoch + 1, active := σ.link.epoch + 1, connected := true }
      control := σ.control ++ [(.connected, σ.link.epoch + 1, .malformed)] } := if_pos hdown
  refine ⟨_, hstep, rfl, line_control rfl rfl rfl, ?_⟩
  exact still_of_same (fun _ => rfl) (fun _ => rfl) rfl rfl

theorem takes_linkDown (hup : σ.link.active ≠ 0) :
    ∃ σ', σ.step .linkDown = some σ' ∧
      σ'.bare = { σ.bare with link := { σ.link with active := 0, connected := false } } ∧
      σ'.line = σ.lineUp (.control .disconnected σ.link.active .malformed) ∧ Still σ σ' := by
  have hstep : σ.step .linkDown = some { σ with
      link := { σ.link with active := 0, connected := false }
      control := σ.control ++ [(.disconnected, σ.link.active, .malformed)] } := if_neg hup
  refine ⟨_, hstep, rfl, line_control rfl rfl rfl, ?_⟩
  exact still_of_same (fun _ => rfl) (fun _ => rfl) rfl rfl

theorem takes_message (hup : σ.link.active ≠ 0) (message : Payload) :
    ∃ σ', σ.step (.linkMessage message false) = some σ' ∧ σ'.bare = σ.bare ∧
      σ'.line = σ.lineUp (.control .message σ.link.active message) ∧ Still σ σ' := by
  have hstep : σ.step (.linkMessage message false) =
      some { σ with control := σ.control ++ [(.message, σ.link.active, message)] } := if_neg hup
  refine ⟨_, hstep, rfl, line_control rfl rfl rfl, ?_⟩
  exact still_of_same (fun _ => rfl) (fun _ => rfl) rfl rfl

/-- A message for which the control queue has no room gives up the link. -/
theorem takes_surplus (hup : σ.link.active ≠ 0) (message : Payload) :
    ∃ σ', σ.step (.linkMessage message true) = some σ' ∧
      σ'.bare = { σ.bare with link := σ.link.invalidate σ.link.active } ∧ σ'.line = σ.line ∧ Still σ σ' := by
  have hstep : σ.step (.linkMessage message true) = some { σ with link := σ.link.invalidate σ.link.active } := if_neg hup
  refine ⟨_, hstep, rfl, ?_, ?_⟩
  · exact line_of_same (fun _ => rfl) (fun _ => rfl) rfl
  · exact still_of_same (fun _ => rfl) (fun _ => rfl) rfl rfl

theorem takes_clocks (wall elapsed : Nat) :
    ∃ σ', σ.step (.clocks wall elapsed) = some σ' ∧
      σ'.bare = { σ.bare with wall, steady := σ.steady + elapsed } ∧ σ'.line = σ.line ∧ Still σ σ' := by
  refine ⟨_, rfl, rfl, ?_, ?_⟩
  · exact line_of_same (fun _ => rfl) (fun _ => rfl) rfl
  · exact still_of_same (fun _ => rfl) (fun _ => rfl) rfl rfl

end Outside

end Server

end SyncRtc
