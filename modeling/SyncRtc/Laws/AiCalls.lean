import SyncRtc.Laws.Everyday
import SyncRtc.Laws.Running

/-!
# Who waits for the AI service

An AI request is routed like every other request of its session. Of a session in no meeting it is carried
out on the session's own connection, whose next command waits for it. Of a session in a meeting it goes to
the room's queue, and the whole room waits. The law: as long as no AI request is handed to a room, no room
waits for AIServer, and neither does the end of a connection whose session is in a meeting.
-/

set_option autoImplicit false

namespace SyncRtc

open Prog

namespace Server

/-- The operation of the thread is suspended on the pool of the AI calls. -/
def OnAi (σ : Server) (t : Thread) : Prop := ∃ question, σ.nextCall? t = some (.askAi question)

/-- Whom the end of a connection waits for: the operation of its own connection, the room that operation
waits for, or the operation of the room it is queued in. -/
inductive HeldUpBy (σ : Server) (s : SessionId) : Thread → Prop where
  | conn (h : .disconnected ∈ (σ.conns s).queue) : HeldUpBy σ s (.conn s)
  | awaited (command : Command) (m : MeetingId) (h : .disconnected ∈ (σ.conns s).queue)
      (hw : (σ.conns s).state = .waiting command m) : HeldUpBy σ s (.room m)
  | room (m : MeetingId) (h : .dispatch s .disconnected ∈ (σ.rooms m).queue) : HeldUpBy σ s (.room m)

/-- No meeting waits for AIServer. -/
structure FreeOfAi (σ : Server) : Prop where
  rooms : ∀ m, ¬ σ.OnAi (.room m)
  ends : ∀ s t, (σ.sessions s).meetingId ≠ 0 → σ.HeldUpBy s t → ¬ σ.OnAi t

end Server

/-- No AI request is started while its session is in a meeting. -/
def AsksOutside (σ : Server) (e : Event) : Prop :=
  ∀ s r rest, e = .start (.conn s) → (σ.conns s).queue = .request r :: rest → r.id = .aiAskRequest →
    (σ.sessions s).meetingId = 0

/-- The command a work carries out is an AI request. -/
def Work.IsAi : Work → Prop
  | .conn _ (.request r) | .room _ (.dispatch _ (.request r)) => r.id = .aiAskRequest
  | _ => False

/-! ## Only AI requests ask -/

def NoAi (c : Call) : Prop := ∀ question, c ≠ .askAi question

/-- What an operation of the work may call, as far as AIServer is concerned. -/
def AsksIfAi (w : Work) (c : Call) : Prop := (∃ question, c = .askAi question) → w.IsAi

section

variable {w : Work} {m : MeetingId} {s : SessionId}

theorem everyday_noAi {c : Call} (h : Everyday c) : NoAi c := by
  rintro question rfl
  exact h.elim

theorem noAi_asks {c : Call} (h : NoAi c) : AsksIfAi w c := by
  rintro ⟨question, hc⟩
  exact absurd hc (h question)

theorem everyday_asks {c : Call} (h : Everyday c) : AsksIfAi w c := noAi_asks (everyday_noAi h)

theorem offer_noAi (body : Payload) : (mediaOfferHandler s body).Makes NoAi := by
  unfold mediaOfferHandler mediaOfferBody publishChecks
  repeat' first
    | exact trivial | split | exact ⟨fun _ h => nomatch h, fun _ => trivial⟩ | dsimp only
    | refine Makes.step (fun _ h => nomatch h) fun _ => ?_ | refine Makes.bind ?_ fun _ => ?_

theorem dispatch_asks {command : Command} (h : ∀ r, command = .request r → r.id = .aiAskRequest → w.IsAi) :
    (dispatch m s command).Makes (AsksIfAi w) := by
  cases command with
  | disconnected =>
    have hend : (dispatch m s .disconnected).Makes Indoor := indoor_dispatch fun _ hr => nomatch hr
    exact hend.mono fun _ hc => everyday_asks hc.everyday
  | request r =>
    refine makes_dispatch (fun _ hc => everyday_asks hc.everyday) ?_
    by_cases hai : r.id = .aiAskRequest
    · have hw := h r rfl hai
      exact makes_of_forall (fun _ _ => hw) _
    · by_cases hoffer : r.id = .mediaOfferRequest
      · unfold handle
        rw [hoffer]
        exact (offer_noAi _).mono fun _ => noAi_asks
      · exact (indoor_handle fun hs => hs.elim hai hoffer).mono fun _ hc => everyday_asks hc.everyday

theorem begins_asks {op : Op Unit} (h : w.Begins op) : op.Makes (AsksIfAi w) := by
  cases w with
  | conn t command =>
    obtain rfl : op = (route t command).void := h
    refine (makes_route (fun _ => everyday_asks) (dispatch_asks ?_)).bind fun _ => trivial
    rintro r rfl hai
    exact hai
  | room n task =>
    obtain rfl : op = task.op n := h
    cases task with
    | dispatch t command =>
      refine dispatch_asks ?_
      rintro r rfl hai
      exact hai
    | expire uid => exact (indoor_expire uid).mono fun _ hc => everyday_asks hc.everyday
    | mediaReply epoch id registered message =>
      exact (indoor_mediaReply epoch id registered message).mono fun _ hc => everyday_asks hc.everyday
  | timer =>
    obtain rfl : op = reconnectTimeoutCheckHandler := h
    exact everyday_timer.mono fun _ => everyday_asks
  | control =>
    obtain ⟨event, epoch, message, rfl⟩ := h
    exact (everyday_controlOp event epoch message).mono fun _ => everyday_asks

/-! ## Where the session of an AI request is -/

def NoHandOver (c : Call) : Prop := ∀ m task, c ≠ .submitRoom m task

/-- An operation of a connection hands no AI request to a room. -/
def placePre : Work → Call → Unit → Prop
  | .conn _ (.request r), .submitRoom _ _, _ => r.id ≠ .aiAskRequest
  | _, _, _ => True

/-- It finds the session of an AI request in no meeting. -/
def placeRel : Work → (c : Call) → Unit → c.Res → Unit → Prop
  | .conn s (.request r), .getSession t, _, session, _ => r.id = .aiAskRequest → t = s → session.meetingId = 0
  | _, _, _, _, _ => True

def placeMachine (w : Work) : Machine calls Unit := ⟨placePre w, placeRel w⟩

/-- The session of an AI request that runs is in no meeting: nobody else brings it into one. -/
def placeLaw : Law Unit where
  state _ := True
  machine := placeMachine
  agrees w _ σ := ∀ s r, w = .conn s (.request r) → r.id = .aiAskRequest → (σ.sessions s).meetingId = 0

theorem place_pre {c : Call} {v : Unit} (h : ∀ s r, w = .conn s (.request r) → r.id ≠ .aiAskRequest) :
    placePre w c v := by
  cases w with
  | conn s command =>
    cases command with
    | disconnected => trivial
    | request r => cases c <;> first | exact h s r rfl | trivial
  | _ => trivial

theorem wp_place {α : Type} {p : Op α} {r : Request} {v : Unit} (h : p.Makes NoHandOver) :
    p.wp (placeMachine (.conn s (.request r))) (fun _ _ => True) v := by
  refine h.wp (I := fun _ => True) ?_ (fun _ _ _ _ _ _ _ => trivial) trivial
  intro c _ hc _
  cases c with
  | submitRoom m task => exact absurd rfl (hc m task)
  | _ => trivial

/-- The rule for a read of the session. -/
theorem wp_placeRead {α : Type} {r : Request} (hai : r.id = .aiAskRequest) {k : Session → Op α} {v : Unit}
    (hk : ∀ session : Session, session.meetingId = 0 →
      (k session).wp (placeMachine (.conn s (.request r))) (fun _ _ => True) v) :
    ((getSession s).bind k).wp (placeMachine (.conn s (.request r))) (fun _ _ => True) v :=
  wp_step trivial fun session _ hrel => hk session (hrel hai rfl)

/-- An AI request that is carried out on its connection is handed to nobody. -/
theorem dispatch_noHandOver {r : Request} (hai : r.id = .aiAskRequest) :
    (dispatch 0 s (.request r)).Makes NoHandOver := by
  have outside : ∀ {c : Call}, Outside s c → NoHandOver c := by
    rintro c hc n task rfl
    exact hc
  have hpass : fenceFor 0 r = .pass := if_neg fun h => h.1 rfl
  have hact : mayAct 0 s r = .pure true := if_neg fun h => h.1 rfl
  have hreserve : reserveFor r = .pure true := if_pos hai
  have hentry : isEntry r.id = false := by rw [hai]; rfl
  have hhandle : handle 0 s r = aiAskHandler s r.body := by unfold handle; rw [hai]
  have hhandler : hasHandler r.id = true := by rw [hai]; rfl
  simp only [dispatch, dispatchRequest, admitRequest, handleReserved, hpass, hact, hreserve, hentry, hhandle, hhandler,
    bind_eq, bind_pure_left, if_true, Bool.false_eq_true, if_false]
  refine Makes.step (outside trivial) fun session => ?_
  split
  · trivial
  · exact (makes_ai r.body).mono fun _ => outside

theorem wp_placeRoute {r : Request} (hai : r.id = .aiAskRequest) (v : Unit) :
    (route s (.request r)).wp (placeMachine (.conn s (.request r))) (fun _ _ => True) v := by
  have hjoin : ¬ r.id = .joinMeetingRequest := by rw [hai]; decide
  have hord : isOrdinary r.id = true := by rw [hai]; rfl
  have htarget : routeTarget s (.request r) = (getSession s).bind fun session => .pure (.ok session.meetingId) := by
    simp only [routeTarget, hjoin, hord, if_false, Bool.not_true, Bool.false_eq_true, and_false, bind_eq]
    rfl
  rw [route_request]
  refine wp_placeRead hai fun session _ => ?_
  split
  · trivial
  rw [htarget, bind_assoc]
  refine wp_placeRead hai fun session' hzero => ?_
  simp only [bind_pure_left, deliver, hzero, if_true]
  exact wp_seq (wp_place (dispatch_noHandOver hai)) fun _ _ _ => trivial

theorem wp_placeBegins {op : Op Unit} (h : w.Begins op) : op.wp (placeMachine w) (fun _ _ => True) () := by
  by_cases hai : ∃ s r, w = .conn s (.request r) ∧ r.id = .aiAskRequest
  · obtain ⟨s, r, rfl, hid⟩ := hai
    obtain rfl : op = (route s (.request r)).void := h
    exact wp_seq (wp_placeRoute hid ()) fun _ _ _ => trivial
  · have hany : op.Makes (S := calls) fun _ => True := makes_of_forall (fun _ => trivial) op
    refine hany.wp (I := fun _ => True) ?_ (fun _ _ _ _ _ _ _ => trivial) trivial
    intro c v _ _
    exact place_pre fun s r hw hid => hai ⟨s, r, hw, hid⟩

end

theorem place_sound : placeLaw.Sound AsksOutside where
  initial _ _ := trivial
  begins σ w op _ _ hok hwaits hbegins := by
    refine ⟨(), ?_, wp_placeBegins hbegins⟩
    rintro s r rfl hai
    obtain ⟨-, rest, hqueue⟩ := hwaits
    exact hok s r rest rfl hqueue hai
  call σ w c k o v hw _ _ hruns hv hpre := by
    refine ⟨trivial, (), ?_, ?_⟩
    · cases w with
      | conn s command =>
        cases command with
        | disconnected => trivial
        | request r =>
          cases c with
          | getSession t =>
            rintro hai rfl
            exact hv t r rfl hai
          | _ => trivial
      | _ => trivial
    · rintro s r rfl hai
      exact meeting_kept hw hruns (fun m hm => nomatch hm) (hv s r rfl hai)
  beside σ w c k o v w' op' v' hw _ hruns _ _ hne hruns' hv' s r heq hai := by
    subst heq
    exact meeting_beside hw hruns hruns' (fun h => hne h.symm) (hv' s r rfl hai)
  drifts σ σ' h := by
    refine ⟨fun _ => trivial, fun w v hv s r heq hai => ?_⟩
    rw [(h.session s).2.2.1]
    exact hv s r heq hai

/-! ## No room is handed an AI request -/

section

variable {σ : Server}

def NoAiTask (σ : Server) : Prop :=
  ∀ m s r, .dispatch s (.request r) ∈ σ.tasks m → r.id ≠ .aiAskRequest

theorem no_ai_task (h : Reachable AsksOutside σ) {m : MeetingId} {s : SessionId} {r : Request}
    (ht : .dispatch s (.request r) ∈ σ.tasks m) : r.id ≠ .aiAskRequest := by
  obtain ⟨σ₀, h₀, hreach⟩ := h
  have hall : NoAiTask σ := by
    refine Reach.invariant_of (I := NoAiTask) (J := Reachable AsksOutside) (fun _ hr => ⟨σ₀, h₀, hr⟩) ?_ ?_ hreach
    · intro m s r ht
      rw [Server.tasks, h₀.rooms] at ht
      exact absurd ht List.not_mem_nil
    · intro σ e σ' hr hold hok hstep m s r ht
      rcases (step_cases hstep).tasks ht with hmem | ⟨t, o, -, hnext⟩
      · exact hold m s r hmem
      · obtain ⟨w, k, -, hruns⟩ := runs_of_next hnext
        have hw : Wired False none σ := wired_reachable (fun hf => hf.elim) hr
        obtain ⟨_, -, hwp⟩ := (place_sound.reachable hr).2 w _ hruns
        rcases hruns.hands hw with hnone | ⟨s', command, rfl, htask⟩
        · cases hnone
        · cases htask
          exact hwp.1
  exact hall m s r ht

theorem room_not_on_ai (h : Reachable AsksOutside σ) (m : MeetingId) : ¬ σ.OnAi (.room m) := by
  rintro ⟨question, hnext⟩
  obtain ⟨w, k, hthread, hruns⟩ := runs_of_next hnext
  have hai : w.IsAi := calls_reachable (fun _ _ => begins_asks) h hruns ⟨question, rfl⟩
  cases w with
  | room n task =>
    cases task with
    | dispatch s command =>
      cases command with
      | request r => exact no_ai_task h (mem_tasks.mpr (.inl ⟨_, hruns⟩)) hai
      | disconnected => exact hai
    | _ => exact hai
  | _ => cases hthread

theorem conn_on_ai (h : Reachable AsksOutside σ) {s : SessionId} (hs : σ.OnAi (.conn s)) :
    (σ.sessions s).meetingId = 0 := by
  obtain ⟨question, hnext⟩ := hs
  obtain ⟨w, k, hthread, hruns⟩ := runs_of_next hnext
  have hai : w.IsAi := calls_reachable (fun _ _ => begins_asks) h hruns ⟨question, rfl⟩
  obtain ⟨_, hagrees, -⟩ := (place_sound.reachable h).2 w _ hruns
  cases w with
  | conn t command =>
    cases hthread
    cases command with
    | request r => exact hagrees s r rfl hai
    | disconnected => exact hai.elim
  | _ => cases hthread

/-- In a run that starts every AI request while its session is in no meeting, no meeting waits for AIServer. -/
theorem meetings_free_of_ai (h : Reachable AsksOutside σ) : σ.FreeOfAi where
  rooms := room_not_on_ai h
  ends := by
    intro s t hmeeting hheld hai
    cases hheld with
    | conn _ => exact hmeeting (conn_on_ai h hai)
    | awaited _ m => exact room_not_on_ai h m hai
    | room m => exact room_not_on_ai h m hai

end

/-! ## A room that waits -/

namespace Scenario

def ask : Request := ⟨.aiAskRequest, .value (.obj [("question", .str "q")])⟩

/-- User 1 asks on connection 0 and is gone, in a meeting or outside; the operation has come to its call. -/
def asksAndGoes (joined : Bool) : List Event :=
  connect 0 ++ (if joined then asks 0 join ++ work ++ asks 0 ask ++ lets (.room 7) 5 {}
    else .frame 0 ask false :: lets (.conn 0) 4 {}) ++ [.close 0]

/-- A check of `AsksOutside` by computation. -/
def asksOutside (σ : Server) : Event → Bool
  | .start (.conn s) => match (σ.conns s).queue with
    | .request r :: _ => decide (r.id = .aiAskRequest → (σ.sessions s).meetingId = 0)
    | _ => true
  | _ => true

theorem asksOutside_spec (σ : Server) (e : Event) (h : asksOutside σ e = true) : AsksOutside σ e := by
  rintro s r rest rfl hqueue hai
  simp only [asksOutside, hqueue, decide_eq_true_eq] at h
  exact h hai

/-- Whether the next call of a thread asks AIServer. -/
def onAi (t : Thread) (σ : Server) : Bool :=
  match σ.nextCall? t with
  | some (.askAi _) => true
  | _ => false

theorem onAi_spec {t : Thread} {σ : Server} (h : onAi t σ = true) : σ.OnAi t := by
  unfold onAi at h
  split at h
  · next question hq => exact ⟨question, hq⟩
  · cases h

end Scenario

open Scenario in
/-- A member asks in a meeting: its room waits for AIServer. -/
theorem room_waits_for_ai : ¬ ∀ σ : Server, Reachable (fun _ _ => True) σ → σ.FreeOfAi := by
  intro hall
  have hrun : ((play Server.step (fun _ _ => true) (asksAndGoes true) server).any (onAi (.room 7))) = true := by
    decide +kernel
  obtain ⟨σ, hplay, hσ⟩ := (Option.any_eq_true _ _).mp hrun
  exact (hall σ ⟨server, server_initial, reach_play (fun _ _ _ => trivial) hplay⟩).rooms 7 (onAi_spec hσ)

open Scenario in
/-- Outside a meeting the connection alone waits, and no meeting does. -/
theorem outside_waits_alone : ∃ σ : Server, σ.OnAi (.conn 0) ∧ σ.FreeOfAi := by
  have hrun : ((play Server.step asksOutside (asksAndGoes false) server).any (onAi (.conn 0))) = true := by
    decide +kernel
  obtain ⟨σ, hplay, hσ⟩ := (Option.any_eq_true _ _).mp hrun
  exact ⟨σ, onAi_spec hσ, meetings_free_of_ai ⟨server, server_initial, reach_play asksOutside_spec hplay⟩⟩

end SyncRtc
