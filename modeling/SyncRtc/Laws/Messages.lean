import SyncRtc.Laws.History
import SyncRtc.Laws.Privacy
import SyncRtc.Laws.Saving

/-!
# One row, one answer

A message is sent under a client id, and sent again under the same one when its answer was lost. The store
has one row for both, and what is answered and pushed is that row: never what the request says. The module
says so for every frame of every run, and then reads the history of a meeting page by page.

**What it does not establish.** That a request is answered at all; whom a push goes to is `Laws.Privacy`.
-/

set_option autoImplicit false

namespace SyncRtc

open Prog

/-! ## What tells of a message -/

/-- A push, or the answer to a request that has succeeded. -/
def TellsOf (id : RequestID) (payload : Reply) : Prop :=
  id = .meetingMessagePush ∨ id = .sendMeetingMessageResponse ∧ payload.errorCode = some 0

/-- What a push of a row and the answer with it are. -/
inductive ShowsRow (row : MeetingMessageInfo) : RequestID → Reply → Prop where
  | push (name : String) : ShowsRow row .meetingMessagePush (meetingMessageToJson row name true)
  | answer (name : String) : ShowsRow row .sendMeetingMessageResponse ((meetingMessageToJson row name true).withError .success)

/-- The request a work is about. -/
def Work.request? : Work → Option Request
  | .conn _ (.request r) => some r
  | .room _ (.dispatch _ (.request r)) => some r
  | _ => none

/-- What a request asks to be saved. -/
def Work.Asks (w : Work) (asked : MeetingMessageInfo) : Prop :=
  ∃ r request uid, w.request? = some r ∧ messageRequest r.body = .ok request ∧ asked = request.row uid

/-- What a work has been answered: what it asked to be saved, and the row. -/
abbrev Rows := List (MeetingMessageInfo × MeetingMessageInfo)

/-- Whatever tells of a message shows a row the work was answered for its own request. -/
def messagePre (w : Work) : Call → Rows → Prop
  | .send _ id payload, v => TellsOf id payload → ∃ asked row, (asked, row) ∈ v ∧ w.Asks asked ∧ ShowsRow row id payload
  | _, _ => True

def messageRel : (c : Call) → Rows → c.Res → Rows → Prop
  | .query _ (.saveMeetingMessage asked), v, saved, v' =>
    v' = match (saved : Option MeetingMessageInfo) with
      | none => v
      | some row => (asked, row) :: v
  | _, v, _, v' => v' = v

def messageMachine (w : Work) : Machine calls Rows := ⟨messagePre w, messageRel⟩

/-- The calls that tell of no message. -/
def Untold : Call → Prop
  | .send _ id payload => ¬ TellsOf id payload
  | _ => True

section

variable {w : Work} {v : Rows} {m : MeetingId} {s : SessionId} {α : Type}

theorem wp_untold {p : Op α} (hp : p.Makes Untold) : p.wp (messageMachine w) (fun _ _ => True) v := by
  refine hp.wp (I := fun _ => True) (fun c v' hc _ => ?_) (fun _ _ _ _ _ _ _ => trivial) trivial
  cases c with
  | send t id payload => exact fun htells => absurd htells hc
  | _ => exact trivial

/-- A frame of another kind. -/
theorem untold_of_ne {id : RequestID} (hpush : id ≠ .meetingMessagePush) (hid : id ≠ .sendMeetingMessageResponse)
    (payload : Reply) : ¬ TellsOf id payload := by
  rintro (h | ⟨h, -⟩)
  · exact hpush h
  · exact hid h

/-- An answer that is an error. -/
theorem untold_error {id : RequestID} (hpush : id ≠ .meetingMessagePush) {code : ErrorCode} (hcode : code.toInt ≠ 0)
    (value : Reply) : ¬ TellsOf id (value.withError code) := by
  rintro (h | ⟨-, h⟩)
  · exact hpush h
  · rw [Reply.errorCode_withError] at h
    exact hcode (Option.some.inj h)

theorem untold_of_silent {p : Op α} (hp : p.Makes Silent) : p.Makes Untold := by
  refine hp.mono fun c hc => ?_
  cases c <;> first | exact trivial | exact hc.elim

theorem untold_of_inner {p : Op α} (hp : p.Makes Inner) : p.Makes Untold := by
  refine hp.mono fun c hc => ?_
  cases c with
  | send t id payload =>
    refine untold_of_ne hc.2 (fun h => ?_) payload
    rw [h] at hc
    exact nomatch hc.1
  | _ => exact trivial

theorem untold_send {id : RequestID} (hid : id ≠ .meetingMessagePush ∧ id ≠ .sendMeetingMessageResponse) (value : Reply) :
    ((send s id value).bind fun _ => .pure ()).Makes Untold :=
  Makes.step (untold_of_ne hid.1 hid.2 value) fun _ => trivial

theorem untold_answer {p : Op Reply} {id : RequestID}
    (hid : id ≠ .meetingMessagePush ∧ id ≠ .sendMeetingMessageResponse) (h : p.Makes Untold) :
    (p.bind fun value => (send s id value).bind fun _ => .pure ()).Makes Untold := h.bind fun value => untold_send hid value

theorem untold_replyError (id : RequestID) {code : ErrorCode} (hcode : code.toInt ≠ 0) : (replyError s id code).Makes Untold := by
  unfold replyError
  split
  · trivial
  next response hresponse =>
  exact Makes.step (untold_error (responseId_ne_push hresponse) hcode []) fun _ => trivial

/-! ## Handlers that tell of no message -/

theorem untold_login (body : Payload) : (loginBody s body).Makes Untold := by
  unfold loginBody
  repeat' first
    | exact trivial | split | exact ⟨trivial, fun _ => trivial⟩ | dsimp only
    | refine Makes.step trivial fun _ => ?_

theorem untold_join (resuming : Bool) (body : Payload) : (joinMeetingHandler m s resuming body).Makes Untold := by
  have store : ∀ uid a value, (joinStore m uid resuming a value).Makes Untold := by
    intro uid a value
    unfold joinStore
    repeat' first
      | exact trivial | split | refine Makes.bind (untold_of_inner (inner_joinUndo _ _)) fun _ => ?_
      | refine Makes.step trivial fun _ => ?_
  refine Makes.bind ?_ fun value => Makes.step ?_ fun queued => ?_
  · unfold joinBody
    repeat' first
      | exact trivial | split | dsimp only
      | refine Makes.bind (untold_of_inner (inner_joinChecks _ _ _ _)) fun _ => ?_
      | refine Makes.bind (untold_of_silent (silent_joinPlace _ _ _ _ _)) fun _ => ?_
      | refine Makes.bind (untold_of_inner (inner_joinTicket _ _)) fun _ => ?_
      | refine Makes.bind (store _ _ _) fun _ => ?_
      | refine Makes.bind (untold_of_inner (inner_joinBind _ _ _ _)) fun _ => ?_
      | exact untold_of_inner (inner_joinAnswer _ _ _ _)
      | refine Makes.step trivial fun _ => ?_
  · cases resuming <;> exact untold_of_ne (by decide) (by decide) value
  · split
    · exact ⟨trivial, fun _ => trivial⟩
    · trivial

theorem untold_offer (body : Payload) : (mediaOfferHandler s body).Makes Untold := by
  refine (untold_of_silent (silent_offer s body)).bind fun value => ?_
  split
  · exact untold_send (by decide) _
  · trivial

theorem untold_candidate (body : Payload) : (mediaCandidateHandler s body).Makes Untold := by
  refine (untold_of_silent (silent_candidate s body)).bind fun value => ?_
  split
  · exact untold_send (by decide) _
  · trivial

theorem untold_mediaReply (epoch id : Nat) (registered : SessionId) (message : Payload) :
    (mediaReply m epoch id registered message).Makes Untold := by
  have frame : ∀ {root : Json} {id : RequestID} {value : Reply}, mediaFrame root = some (id, value) → ¬ TellsOf id value := by
    intro root id value h
    unfold mediaFrame at h
    split at h <;> cases h <;> exact untold_of_ne (by decide) (by decide) _
  have response : (mediaSignalResponseHandler m message).Makes Untold := by
    unfold mediaSignalResponseHandler
    repeat' first
      | exact trivial
      | split
      | exact Makes.step (frame (by assumption)) fun _ => trivial
      | refine Makes.step trivial fun _ => ?_
  unfold mediaReply
  repeat' first | exact trivial | split | exact response | refine Makes.step trivial fun _ => ?_

/-! ## SEND -/

theorem root_code {body : Payload} {code : ErrorCode} (h : body.root = .error code) : code.toInt ≠ 0 := by
  unfold Payload.root at h
  repeat' split at h
  all_goals first | (cases h; decide) | cases h

/-- A request that is refused as it stands. -/
theorem messageRequest_error {body : Payload} {reply : Reply} (h : messageRequest body = .error reply) :
    ¬ TellsOf .sendMeetingMessageResponse reply := by
  unfold messageRequest at h
  split at h
  · next code hroot =>
    cases h
    exact untold_error (by decide) (root_code hroot) []
  split at h
  · dsimp only at h
    split at h
    · cases h
      exact untold_error (by decide) (by decide) _
    split at h
    · cases h
    · cases h
      exact untold_error (by decide) (by decide) _
  · cases h
    exact untold_error (by decide) (by decide) []

/-- No check is failed with success. -/
theorem wp_checksFail (uid : Uid) (r : MessageRequest) : (messageChecks s uid r).wp (messageMachine w)
    (fun result _ => ∀ code, result = .error code → code.toInt ≠ 0) v := by
  have ended : ∀ (code : ErrorCode) (v' : Rows), code.toInt ≠ 0 → (Prog.pure (.error code) : Op (Except ErrorCode String)).wp
      (messageMachine w) (fun result _ => ∀ code, result = .error code → code.toInt ≠ 0) v' := by
    intro code v' hcode code' heq
    cases heq
    exact hcode
  have passed : ∀ (name : String) (v' : Rows), (Prog.pure (.ok name) : Op (Except ErrorCode String)).wp
      (messageMachine w) (fun result _ => ∀ code, result = .error code → code.toInt ≠ 0) v' := fun _ _ _ h => nomatch h
  unfold messageChecks
  repeat' first
    | exact ended _ _ (by decide) | exact passed _ _ | split | dsimp only
    | refine wp_step trivial fun _ _ _ => ?_

/-- A message is saved, and the row is what is pushed and answered. -/
theorem wp_tellMessage {r : Request} (hr : w.request? = some r) :
    (sendMeetingMessageHandler m s r.body).wp (messageMachine w) (fun _ _ => True) v := by
  refine wp_seq (P := fun value v' => messagePre w (.send s .sendMeetingMessageResponse value) v') ?_
    fun value v' hvalue => wp_step hvalue fun _ _ _ => trivial
  unfold sendMessageBody
  split
  · next reply hreply => exact fun htells => absurd htells (messageRequest_error hreply)
  next request hrequest =>
  dsimp only
  refine wp_step trivial fun session v₁ _ => wp_seq (wp_checksFail session.userId request) fun checked v₂ hchecked => ?_
  split
  · next code => exact fun htells => absurd htells (untold_error (by decide) (hchecked code rfl) _)
  next name =>
  refine wp_step (m := messageMachine w) (c := Call.query .messageSave (.saveMeetingMessage (request.row session.userId)))
    trivial fun saved v₃ hsaved => ?_
  split
  · exact fun htells => absurd htells (untold_error (by decide) (by decide) _)
  next row =>
  have hin : (request.row session.userId, row) ∈ v₃ := by
    have hv₃ : v₃ = (request.row session.userId, row) :: v₂ := hsaved
    rw [hv₃]
    exact List.mem_cons_self
  have hasks : w.Asks (request.row session.userId) := ⟨r, request, session.userId, hr, hrequest, rfl⟩
  -- the rounds of the push may tell what is known now, and they learn nothing
  let tells : Call → Prop := fun c => messagePre w c v₃ ∧ ∀ answer u u', messageRel c u answer u' → u' = u
  have round : ∀ item, (notifyOne .meetingMessagePush (meetingMessageToJson row name true)
      (request.isFor session.userId) item).Makes tells := by
    intro item
    refine Makes.step ⟨trivial, fun _ _ _ h => h⟩ fun locked => ?_
    split
    · trivial
    refine Makes.step ⟨trivial, fun _ _ _ h => h⟩ fun other => ?_
    dsimp only
    split
    · exact Makes.step ⟨fun _ => ⟨_, row, hin, hasks, .push name⟩, fun _ _ _ h => h⟩ fun _ => trivial
    · trivial
  have push : (broadcast m .meetingMessagePush (meetingMessageToJson row name true) (request.isFor session.userId)).Makes tells :=
    Makes.step ⟨trivial, fun _ _ _ h => h⟩ fun data => (Makes.select fun item _ => round item).bind fun kept =>
      Makes.step ⟨trivial, fun _ _ _ h => h⟩ fun _ => ⟨⟨trivial, fun _ _ _ h => h⟩, fun _ => trivial⟩
  have pushed : (broadcast m .meetingMessagePush (meetingMessageToJson row name true) (request.isFor session.userId)).wp
      (messageMachine w) (fun _ v' => v' = v₃) v₃ := by
    refine push.wp (I := fun u => u = v₃) (fun c u hc hu => ?_) (fun c u answer u' hc hu hrel => ?_) rfl
    · subst hu
      exact hc.1
    · exact (hc.2 answer u u' hrel).trans hu
  refine wp_seq pushed fun _ v' hv' => ?_
  subst hv'
  exact fun _ => ⟨_, row, hin, hasks, .answer name⟩

/-! ## Dispatch and routing -/

theorem wp_tellHandle {r : Request} (hr : w.request? = some r) :
    (handle m s r).wp (messageMachine w) (fun _ _ => True) v := by
  unfold handle
  split
  · exact wp_untold (untold_answer (by decide) (untold_login _))
  · exact wp_untold (untold_answer (by decide) (untold_of_silent (silent_ai s _)))
  · exact wp_untold (untold_answer (by decide) (untold_of_silent (silent_create s _)))
  · exact wp_untold (untold_answer (by decide) (untold_of_silent (silent_past s)))
  · exact wp_untold (untold_join false _)
  · exact wp_untold (untold_join true _)
  · exact wp_untold (untold_answer (by decide) (untold_of_inner (inner_start _)))
  · exact wp_untold (untold_answer (by decide) (untold_of_inner (inner_leave _)))
  · exact wp_untold (untold_answer (by decide) (untold_of_inner (inner_end _)))
  · exact wp_tellMessage hr
  · exact wp_untold (untold_answer (by decide) (untold_of_silent (silent_group s _)))
  · exact wp_untold (untold_answer (by decide) (untold_of_silent (silent_private s _)))
  · exact wp_untold (untold_offer _)
  · exact wp_untold (untold_candidate _)
  · exact wp_untold (untold_of_silent (silent_answerOffer s _))
  · trivial

/-- The room fence refuses with an error. -/
theorem fenceFor_error {r : Request} {code : ErrorCode} (h : fenceFor m r = .refuse code) : code.toInt ≠ 0 := by
  unfold fenceFor at h
  split at h
  · unfold roomFence at h
    repeat' first | split at h | dsimp only at h
    all_goals first | (cases h; decide) | cases h
  · cases h

theorem wp_tellDispatch {command : Command} (hr : ∀ r, command = .request r → w.request? = some r) :
    (dispatch m s command).wp (messageMachine w) (fun _ _ => True) v := by
  have error : ∀ id code v', ErrorCode.toInt code ≠ 0 → (replyError s id code).wp (messageMachine w) (fun _ _ => True) v' :=
    fun id code v' hcode => wp_untold (untold_replyError id hcode)
  cases command with
  | disconnected => exact wp_untold (Makes.step trivial fun _ => untold_of_inner inner_disconnected)
  | request r =>
    have hr := hr r rfl
    simp only [dispatch, dispatchRequest]
    split
    · refine wp_step trivial fun session v₁ _ => ?_
      split
      · trivial
      refine wp_seq (wp_untold (untold_of_silent (silent_mayAct m s r))) fun acts v₂ _ => ?_
      split
      · refine wp_seq (wp_untold (untold_of_silent (silent_reserveFor r))) fun reserved v₃ _ => ?_
        split
        · split
          · trivial
          · next code hfence => exact error _ _ _ (fenceFor_error hfence)
          · unfold handleReserved
            split
            · refine wp_step trivial fun session' v₄ _ => wp_step trivial fun granted v₅ _ => ?_
              split
              · refine wp_seq (wp_tellHandle hr) fun _ v₆ _ => wp_untold ?_
                exact Makes.step trivial fun _ => ⟨trivial, fun _ => trivial⟩
              · exact error _ _ _ (by decide)
            · exact wp_tellHandle hr
        · exact error _ _ _ (by decide)
      · exact error _ _ _ (by decide)
    · trivial

/-- What cannot be routed is refused with an error. -/
theorem wp_targetFails (command : Command) : (routeTarget s command).wp (messageMachine w)
    (fun result _ => ∀ code, result = .error code → code.toInt ≠ 0) v := by
  have refused : ∀ (code : ErrorCode) (v' : Rows), code.toInt ≠ 0 → (Prog.pure (.error code) : Op (Except ErrorCode MeetingId)).wp
      (messageMachine w) (fun result _ => ∀ code, result = .error code → code.toInt ≠ 0) v' := by
    intro code v' hcode code' heq
    cases heq
    exact hcode
  have found : ∀ (n : MeetingId) (v' : Rows), (Prog.pure (.ok n) : Op (Except ErrorCode MeetingId)).wp
      (messageMachine w) (fun result _ => ∀ code, result = .error code → code.toInt ≠ 0) v' := fun _ _ _ h => nomatch h
  cases command with
  | disconnected => exact wp_step trivial fun _ _ _ => found _ _
  | request r =>
    refine wp_step trivial fun session v₁ _ => ?_
    dsimp only
    split
    · split
      · exact refused _ _ (by decide)
      refine wp_step trivial fun again v₂ _ => ?_
      split
      · exact refused _ _ (by decide)
      split
      · next code hcode =>
        refine refused _ _ ?_
        unfold joinCode at hcode
        split at hcode
        · next code' hroot =>
          cases hcode
          exact root_code hroot
        · repeat' split at hcode
          all_goals first | (cases hcode; decide) | cases hcode
      refine wp_step trivial fun reserved v₃ _ => ?_
      split
      · exact refused _ _ (by decide)
      refine wp_step trivial fun info v₄ _ => ?_
      cases info with
      | none => exact refused _ _ (by decide)
      | some info => exact found _ _
    · repeat' first | exact refused _ _ (by decide) | exact found _ _ | split

theorem wp_tellRoute {command : Command} (hr : ∀ r, command = .request r → w.request? = some r) :
    (route s command).wp (messageMachine w) (fun _ _ => True) v := by
  have error : ∀ code, ErrorCode.toInt code ≠ 0 → (routeError s code command).Makes Untold := by
    intro code hcode
    cases command with
    | request r => exact untold_replyError r.id hcode
    | disconnected => trivial
  have delivered : ∀ target v', (∀ code, target = .error code → code.toInt ≠ 0) →
      (deliver s command target).wp (messageMachine w) (fun _ _ => True) v' := by
    intro target v' htarget
    unfold deliver
    split
    · next code => exact wp_untold ((error code (htarget code rfl)).bind fun _ => trivial)
    split
    · exact wp_seq (wp_tellDispatch hr) fun _ _ _ => trivial
    refine wp_step trivial fun accepted v₃ _ => ?_
    split
    · trivial
    · exact wp_untold ((error .network (by decide)).bind fun _ => trivial)
  cases command with
  | disconnected =>
    rw [route_disconnected]
    exact wp_seq (wp_targetFails .disconnected) delivered
  | request r =>
    rw [route_request]
    refine wp_step trivial fun session v₁ _ => ?_
    split
    · trivial
    · exact wp_seq (wp_targetFails (.request r)) delivered

/-- Every operation starts as the law asks. -/
theorem wp_tellBegins {op : Op Unit} (h : w.Begins op) : op.wp (messageMachine w) (fun _ _ => True) v := by
  cases w with
  | conn t command =>
    obtain rfl : op = (route t command).void := h
    refine wp_seq (wp_tellRoute ?_) fun _ _ _ => trivial
    rintro r rfl
    rfl
  | room n task =>
    obtain rfl : op = task.op n := h
    cases task with
    | dispatch t command =>
      refine wp_tellDispatch ?_
      rintro r rfl
      rfl
    | expire uid => exact wp_untold (untold_of_inner (inner_expire uid))
    | mediaReply epoch id registered message => exact wp_untold (untold_mediaReply epoch id registered message)
  | timer =>
    obtain rfl : op = reconnectTimeoutCheckHandler := h
    exact wp_untold (untold_of_inner inner_timer)
  | control =>
    obtain ⟨event, epoch, message, rfl⟩ := h
    exact wp_untold (untold_of_inner (inner_controlOp event epoch message))

end

/-! ## The law -/

/-- Whatever has been sent of a message shows a row of the store. -/
def Server.Truthful (σ : Server) : Prop :=
  ∀ f ∈ σ.sent, TellsOf f.id f.payload → ∃ row ∈ σ.storage.mysql.messages, ShowsRow row f.id f.payload

/-- What a work was answered is stored, under the key it asked for. -/
def messages : Law Rows where
  state := Server.Truthful
  machine := messageMachine
  agrees _ v σ := ∀ asked row, (asked, row) ∈ v → row ∈ σ.storage.mysql.messages ∧ σ.storage.mysql.SameKey row asked

section

variable {σ σ' : Server} {w : Work} {c : Call} {k : c.Res → Op Unit} {o : Oracle} {v : Rows}

/-- Only a save writes the table of messages. -/
theorem run_messages (q : Query) (o : Oracle) (st : Storage) : (∃ message, q = .saveMeetingMessage message) ∨
    (q.run o st).2.mysql.messages = st.mysql.messages ∧ (q.run o st).2.mysql.nextMessageId = st.mysql.nextMessageId ∧
      (q.run o st).2.mysql.collation = st.mysql.collation := by
  unfold Query.run
  split
  · exact .inr ⟨rfl, rfl, rfl⟩
  cases q with
  | saveMeetingMessage message => exact .inl ⟨message, rfl⟩
  | updateMeetingPart info u =>
    refine .inr ?_
    simp only [Query.apply, MySql.updateMeetingPart]
    repeat' first | exact ⟨rfl, rfl, rfl⟩ | split
  | createMeeting title creator hash =>
    refine .inr ?_
    simp only [Query.apply]
    split <;> exact ⟨rfl, rfl, rfl⟩
  | _ => exact .inr ⟨rfl, rfl, rfl⟩

/-- A save keeps the rows, and compares as before. -/
theorem saveMeetingMessage_rows (m : MySql) (o : Oracle) (message : MeetingMessageInfo) :
    m.messages <+: (m.saveMeetingMessage o message).2.messages ∧ (m.saveMeetingMessage o message).2.collation = m.collation := by
  unfold MySql.saveMeetingMessage
  split
  · exact ⟨List.prefix_rfl, rfl⟩
  split
  · exact ⟨List.prefix_rfl, rfl⟩
  · exact ⟨List.prefix_append _ _, rfl⟩

/-- What a save answers is a row under the key that was asked for. -/
theorem saveMeetingMessage_row {m : MySql} {message row : MeetingMessageInfo} (h : (m.saveMeetingMessage o message).1 = some row) :
    row ∈ (m.saveMeetingMessage o message).2.messages ∧ (m.saveMeetingMessage o message).2.SameKey row message := by
  unfold MySql.saveMeetingMessage at h ⊢
  split at h
  · cases h
  next hr =>
  rw [if_neg hr]
  split at h
  · next found hfound =>
    obtain rfl : found = row := by
      split at h
      · cases h
      · exact Option.some.inj h
    exact MySql.messageByUniqueKey_some hfound
  · dsimp only at h
    split at h
    · cases h
    · cases h
      exact ⟨List.mem_append_right _ (List.mem_singleton_self _), rfl, rfl, rfl⟩

/-- A call keeps the rows, and the store compares as before. -/
theorem exec_rows (c : Call) (o : Oracle) (σ : Server) :
    σ.storage.mysql.messages <+: (exec c o σ).2.storage.mysql.messages ∧
      (exec c o σ).2.storage.mysql.collation = σ.storage.mysql.collation := by
  by_cases hq : ∃ site q, c = .query site q
  · obtain ⟨site, q, rfl⟩ := hq
    change _ <+: (q.run o σ.storage).2.mysql.messages ∧ (q.run o σ.storage).2.mysql.collation = _
    rcases run_messages q o σ.storage with ⟨message, rfl⟩ | ⟨hrows, -, hcollation⟩
    · unfold Query.run
      split
      · exact ⟨List.prefix_rfl, rfl⟩
      · exact saveMeetingMessage_rows _ o message
    · rw [hrows, hcollation]
      exact ⟨List.prefix_rfl, rfl⟩
  · rw [exec_storage fun site q hc => hq ⟨site, q, hc⟩]
    exact ⟨List.prefix_rfl, rfl⟩

theorem rows_kept (hv : messages.agrees w v σ) : messages.agrees w v (exec c o σ).2 := by
  intro asked row hin
  obtain ⟨hrows, hcollation⟩ := exec_rows c o σ
  obtain ⟨hrow, hkey⟩ := hv asked row hin
  refine ⟨hrows.subset hrow, ?_⟩
  unfold MySql.SameKey at hkey ⊢
  rw [hcollation]
  exact hkey

theorem messages_call (hσ : σ.Truthful) (hv : messages.agrees w v σ) (hpre : messagePre w c v) :
    (exec c o σ).2.Truthful ∧ ∃ v', messageRel c v (exec c o σ).1 v' ∧ messages.agrees w v' (exec c o σ).2 := by
  have hkept : messages.agrees w v (exec c o σ).2 := rows_kept hv
  have hold : ∀ f ∈ σ.sent, TellsOf f.id f.payload →
      ∃ row ∈ (exec c o σ).2.storage.mysql.messages, ShowsRow row f.id f.payload := by
    intro f hf htells
    obtain ⟨row, hrow, hshows⟩ := hσ f hf htells
    exact ⟨row, (exec_rows c o σ).1.subset hrow, hshows⟩
  constructor
  · intro f hf htells
    by_cases hsend : ∃ t id payload, c = .send t id payload
    · obtain ⟨t, id, payload, rfl⟩ := hsend
      have hcases : f ∈ σ.sent ∨ f = ⟨t, id, payload⟩ := by
        simp only [exec] at hf
        rcases Server.send_cases (σ := σ) (o := o) t id payload with h | h | h <;> rw [h] at hf
        · exact .inl hf
        · exact .inl hf
        · exact (List.mem_append.mp hf).imp_right List.mem_singleton.mp
      rcases hcases with hf | rfl
      · exact hold f hf htells
      · obtain ⟨asked, row, hin, -, hshows⟩ := hpre htells
        exact ⟨row, (hkept asked row hin).1, hshows⟩
    · rw [exec_sent fun t id payload hc => hsend ⟨t, id, payload, hc⟩] at hf
      exact hold f hf htells
  · by_cases hsave : ∃ site asked, c = .query site (.saveMeetingMessage asked)
    · obtain ⟨site, asked, rfl⟩ := hsave
      refine ⟨_, rfl, fun asked' row hin => ?_⟩
      have hanswer : ∀ row, (exec (.query site (.saveMeetingMessage asked)) o σ).1 = some row →
          row ∈ (exec (.query site (.saveMeetingMessage asked)) o σ).2.storage.mysql.messages ∧
            (exec (.query site (.saveMeetingMessage asked)) o σ).2.storage.mysql.SameKey row asked := by
        intro row hrow
        simp only [exec, Query.run] at hrow ⊢
        split at hrow
        · cases hrow
        next hworks =>
        rw [if_neg hworks]
        exact saveMeetingMessage_row hrow
      split at hin
      · exact hkept asked' row hin
      next found hfound =>
      rcases List.mem_cons.mp hin with heq | hin
      · cases heq
        exact hanswer row hfound
      · exact hkept asked' row hin
    · refine ⟨v, ?_, hkept⟩
      cases c with
      | query site q => cases q <;> first | exact rfl | exact absurd ⟨_, _, rfl⟩ hsave
      | _ => exact rfl

end

theorem messages_sound (ok : Server → Event → Prop) : messages.Sound ok where
  initial σ h := by
    intro f hf
    rw [h.logs.1] at hf
    exact absurd hf List.not_mem_nil
  begins σ w op _ _ _ _ hbegins := by
    refine ⟨[], ?_, wp_tellBegins hbegins⟩
    intro asked row hin
    exact absurd hin List.not_mem_nil
  call σ w c k o v _ hσ _ _ hv hpre := messages_call hσ hv hpre
  beside σ w c k o v w' op' v' _ _ _ _ _ _ _ hv' := rows_kept hv'
  drifts σ σ' h := by
    refine ⟨fun hσ f hf => ?_, fun w v hv asked row hin => ?_⟩
    · rw [h.logs.1] at hf
      rw [h.storage]
      exact hσ f hf
    · rw [h.storage]
      exact hv asked row hin

/-! ## The table in a run -/

theorem MySql.Table.of_same {m m' : MySql} (h : m.Table) (hrows : m'.messages = m.messages)
    (hnext : m'.nextMessageId = m.nextMessageId) (hcollation : m'.collation = m.collation) : m.Grows m' := by
  refine ⟨⟨hrows ▸ h.keyed, ?_, hnext ▸ h.positive, ?_⟩, hrows ▸ List.prefix_rfl, hcollation⟩
  · rw [hrows, hnext]
    exact h.next
  · rw [hrows]
    refine h.unique.imp fun hne hsame => hne ?_
    unfold MySql.SameKey at hsame ⊢
    rw [← hcollation]
    exact hsame

theorem MySql.Table.exec {σ : Server} (h : σ.storage.mysql.Table) (c : Call) (o : Oracle) :
    σ.storage.mysql.Grows (exec c o σ).2.storage.mysql := by
  by_cases hq : ∃ site q, c = .query site q
  · obtain ⟨site, q, rfl⟩ := hq
    change σ.storage.mysql.Grows (q.run o σ.storage).2.mysql
    rcases run_messages q o σ.storage with ⟨message, rfl⟩ | ⟨hrows, hnext, hcollation⟩
    · unfold Query.run
      split
      · exact .refl h
      · exact h.save o message
    · exact h.of_same hrows hnext hcollation
  · rw [exec_storage fun site q hc => hq ⟨site, q, hc⟩]
    exact .refl h

/-- A step adds rows to the table, and that is all. -/
theorem Stepped.table {σ σ' : Server} {e : Event} (h : Stepped σ e σ') (ht : σ.storage.mysql.Table) :
    σ.storage.mysql.Grows σ'.storage.mysql := by
  cases step_runs h with
  | call w c k o he hruns hdata hrest =>
    rw [hdata.storage]
    exact ht.exec c o
  | start w op he hwaits hbegins hdata hrest =>
    rw [hdata.storage]
    exact .refl ht
  | outside he hdrifts hrest =>
    rw [hdrifts.storage]
    exact .refl ht

theorem table_reach {σ₀ σ : Server} {ok : Server → Event → Prop} (h : Reach Server.step ok σ₀ σ) (ht : σ₀.storage.mysql.Table) :
    σ.storage.mysql.Table :=
  h.invariant (I := fun σ => σ.storage.mysql.Table) ht fun _ _ _ ht _ hstep => ((step_cases hstep).table ht).table

/-! ## Frames under one key -/

def Frame.member (f : Frame) (name : String) : Json := (Json.obj f.payload).get name

/-- Two frames are about one key: of one meeting and sender, and of client ids that compare equal. -/
structure Frame.SameKey (m : MySql) (f g : Frame) : Prop where
  meeting : f.member "meeting_id" = g.member "meeting_id"
  sender : f.member "sender_user_id" = g.member "sender_user_id"
  clientMsgId : ∃ a b, f.member "client_msg_id" = .str a ∧ g.member "client_msg_id" = .str b ∧ m.collation a = m.collation b

/-- Two frames show one message. -/
structure Frame.SameMessage (f g : Frame) : Prop where
  messageId : f.member "message_id" = g.member "message_id"
  content : f.member "content" = g.member "content"
  receiver : f.member "receiver_user_id" = g.member "receiver_user_id"
  createdAt : f.member "created_at" = g.member "created_at"

/-- What a frame that shows a row has in the row's members. -/
structure Frame.Of (f : Frame) (row : MeetingMessageInfo) : Prop where
  messageId : f.member "message_id" = idText row.messageId
  meeting : f.member "meeting_id" = idText row.meetingId
  sender : f.member "sender_user_id" = .int row.senderUserId
  receiver : f.member "receiver_user_id" = row.receiverUserId.elim .null fun u => .int u
  clientMsgId : f.member "client_msg_id" = .str row.clientMsgId
  content : f.member "content" = .str row.content
  createdAt : f.member "created_at" = .str row.createdAt

/-- Sending is idempotent: the rows, whatever was sent of them, and what is about to be sent. -/
structure Server.MessagesOnce (σ : Server) : Prop where
  /-- A key has one row. -/
  rows : σ.storage.mysql.messages.Pairwise fun a b => ¬ σ.storage.mysql.SameKey a b
  /-- Two answers or pushes under one key show one message. -/
  frames : ∀ f ∈ σ.sent, ∀ g ∈ σ.sent, TellsOf f.id f.payload → TellsOf g.id g.payload → f.SameKey σ.storage.mysql g →
    f.SameMessage g
  /-- They show a row as it is stored. -/
  stored : ∀ f ∈ σ.sent, TellsOf f.id f.payload → ∃ row ∈ σ.storage.mysql.messages, ShowsRow row f.id f.payload
  /-- The request that is answered, or whose message is pushed, has asked under the key of the row. -/
  asked : ∀ (w : Work) (t : SessionId) (id : RequestID) (payload : Reply) (k : Bool → Op Unit),
    σ.Runs w (.call (.send t id payload) k) → TellsOf id payload →
      ∃ asked, w.Asks asked ∧ ∃ row ∈ σ.storage.mysql.messages, σ.storage.mysql.SameKey row asked ∧ ShowsRow row id payload

theorem frame_of_shows {f : Frame} {row : MeetingMessageInfo} (h : ShowsRow row f.id f.payload) : f.Of row := by
  have members : ∀ (name : String) (value : Reply), (value = meetingMessageToJson row name true ∨
      value = (meetingMessageToJson row name true).withError .success) → f.payload = value → f.Of row := by
    rintro name value (rfl | rfl) hpayload
    · constructor <;> rw [Frame.member, hpayload] <;> rfl
    · constructor <;> rw [Frame.member, hpayload, Reply.withError, Reply.get_set_of_ne (by decide)] <;> rfl
  generalize hid : f.id = id at h
  generalize hpayload : f.payload = payload at h
  cases h with
  | push name => exact members name _ (.inl rfl) hpayload
  | answer name => exact members name _ (.inr rfl) hpayload

theorem sameKey_of_frames {m : MySql} {f g : Frame} {a b : MeetingMessageInfo} (hf : f.Of a) (hg : g.Of b) (h : f.SameKey m g) :
    m.SameKey a b := by
  refine ⟨?_, ?_, ?_⟩
  · have hmeeting := h.meeting
    rw [hf.meeting, hg.meeting] at hmeeting
    exact toString_inj (Json.str.inj hmeeting)
  · have hsender := h.sender
    rw [hf.sender, hg.sender] at hsender
    exact Int.ofNat.inj (Json.int.inj hsender)
  · obtain ⟨x, y, hx, hy, hsame⟩ := h.clientMsgId
    rw [hf.clientMsgId] at hx
    rw [hg.clientMsgId] at hy
    rw [Json.str.inj hx, Json.str.inj hy]
    exact hsame

/-- **One row, one answer**, in every run over a table MySQL keeps. -/
theorem messagesOnce_reach {σ₀ σ : Server} {ok : Server → Event → Prop} (h₀ : σ₀.Initial) (ht : σ₀.storage.mysql.Table)
    (h : Reach Server.step ok σ₀ σ) : σ.MessagesOnce := by
  have htable := table_reach h ht
  obtain ⟨hstored, hready⟩ := (messages_sound ok).reachable ⟨σ₀, h₀, h⟩
  refine ⟨htable.unique, fun f hf g hg hftells hgtells hkey => ?_, hstored, fun w t id payload k hruns htells => ?_⟩
  · obtain ⟨a, ha, hfa⟩ := hstored f hf hftells
    obtain ⟨b, hb, hgb⟩ := hstored g hg hgtells
    have hfa := frame_of_shows hfa
    have hgb := frame_of_shows hgb
    obtain rfl := htable.eq_of_sameKey ha hb (sameKey_of_frames hfa hgb hkey)
    exact ⟨hfa.messageId.trans hgb.messageId.symm, hfa.content.trans hgb.content.symm, hfa.receiver.trans hgb.receiver.symm,
      hfa.createdAt.trans hgb.createdAt.symm⟩
  · obtain ⟨v, hv, hpre, -⟩ := hready w _ hruns
    obtain ⟨asked, row, hin, hasks, hshows⟩ := hpre htells
    obtain ⟨hrow, hkey⟩ := hv asked row hin
    exact ⟨asked, hasks, row, hrow, hkey, hshows⟩

/-! ## The history, page by page -/

/-- A client reads the group messages of a meeting: the newest page, and then the page before the smallest id
of the one before, until a page is short. The table may have grown by the next request. The pages are in the
order of their messages. -/
inductive ReadsHistory (m : MeetingId) (limit : Nat) : Storage → Nat → List (List MeetingMessageInfo) → Prop where
  | last {st : Storage} {root : Json} {before : Nat} {o : Oracle} {page : List MeetingMessageInfo}
      (hrequest : pageRequest root = some ⟨m, before, limit⟩)
      (hpage : ((Query.getMeetingGroupMessages m before limit).run o st).1 = some page) (hshort : page.length < limit) :
      ReadsHistory m limit st before [page]
  | older {st st' : Storage} {root : Json} {before : Nat} {o : Oracle} {page : List MeetingMessageInfo}
      {smallest : MeetingMessageInfo} {pages : List (List MeetingMessageInfo)}
      (hrequest : pageRequest root = some ⟨m, before, limit⟩)
      (hpage : ((Query.getMeetingGroupMessages m before limit).run o st).1 = some page) (hfull : limit ≤ page.length)
      (hmem : smallest ∈ page) (hmin : ∀ row ∈ page, smallest.messageId ≤ row.messageId)
      (hgrows : st.mysql.Grows st'.mysql) (hnext : ReadsHistory m limit st' smallest.messageId pages) :
      ReadsHistory m limit st before (pages ++ [page])

section

variable {m : MeetingId} {st st' : Storage} {root : Json} {before limit : Nat} {pages : List (List MeetingMessageInfo)}
  {page : List MeetingMessageInfo}

/-- The group messages of a meeting. -/
def groupTable (store : MySql) (m : MeetingId) : List MeetingMessageInfo := store.messages.filter (isGroupRow m)

/-- The handler takes limits from 1 to 100. -/
theorem pageRequest_limit (h : pageRequest root = some ⟨m, before, limit⟩) : 1 ≤ limit ∧ limit ≤ 100 := by
  unfold pageRequest at h
  split at h
  · next meeting before' limit' _ _ _ =>
    split at h
    · cases h
    · next hzero =>
      simp only [Bool.or_eq_true, decide_eq_true_eq, not_or] at hzero
      cases h
      cases limit' with
      | none => decide
      | some n =>
        have hn : n ≠ 0 := fun hn => hzero.2 (congrArg some hn)
        simp only [Option.getD_some]
        omega
  · cases h

theorem page_newest (store : MySql) (before : Nat) (hlow : 1 ≤ limit) (hhigh : limit ≤ 100) :
    store.page (isGroupRow m) before limit =
      Paging.newest limit (Paging.below MeetingMessageInfo.messageId before (groupTable store m)) := by
  have hlimit : normalizeMessageLimit limit = limit := by
    unfold normalizeMessageLimit
    rw [if_neg (by omega), if_neg (by omega)]
  have hfilter : store.messages.filter (fun r => isGroupRow m r && (before == 0 || decide (r.messageId < before))) =
      Paging.below MeetingMessageInfo.messageId before (groupTable store m) := by
    rw [Paging.below, groupTable, List.filter_filter]
    exact List.filter_congr fun r _ => Bool.and_comm _ _
  unfold MySql.page
  rw [hlimit, hfilter]
  rfl

theorem page_of_run {o : Oracle} (hrequest : pageRequest root = some ⟨m, before, limit⟩)
    (hpage : ((Query.getMeetingGroupMessages m before limit).run o st).1 = some page) :
    page = Paging.newest limit (Paging.below MeetingMessageInfo.messageId before (groupTable st.mysql m)) := by
  obtain ⟨hlow, hhigh⟩ := pageRequest_limit hrequest
  rw [← page_newest st.mysql before hlow hhigh]
  unfold Query.run at hpage
  split at hpage
  · cases hpage
  · exact (Option.some.inj hpage).symm

theorem MySql.Table.group {store : MySql} (h : store.Table) (m : MeetingId) :
    Paging.Keyed MeetingMessageInfo.messageId (groupTable store m) :=
  ⟨h.keyed.ascending.filter _, fun row hrow => h.keyed.positive row (List.mem_filter.mp hrow).1⟩

theorem groupTable_grows {store store' : MySql} (h : store.Grows store') (m : MeetingId) :
    groupTable store m <+: groupTable store' m := h.rows.filter _

/-- The first message of a page has the smallest id. -/
theorem page_ascending (ht : st.mysql.Table)
    (hpage : page = Paging.newest limit (Paging.below MeetingMessageInfo.messageId before (groupTable st.mysql m))) :
    page.Pairwise fun x y => x.messageId < y.messageId := by
  rw [hpage]
  exact ((ht.group m).ascending.filter _).sublist (List.drop_sublist _ _)

/-- What a client reads, read as pages of the group table. -/
theorem ReadsHistory.read (h : ReadsHistory m limit st before pages) (ht : st.mysql.Table) :
    Paging.Pages MeetingMessageInfo.messageId (groupTable st.mysql m) before pages := by
  induction h with
  | last hrequest hpage hshort =>
    rw [page_of_run hrequest hpage] at hshort ⊢
    exact .last hshort
  | @older st st' root before o page smallest pages hrequest hpage hfull hmem hmin hgrows _ ih =>
    have hpage := page_of_run hrequest hpage
    cases page with
    | nil => exact absurd hmem List.not_mem_nil
    | cons first rest =>
      have hfirst : smallest.messageId = first.messageId := by
        refine Nat.le_antisymm (hmin first List.mem_cons_self) ?_
        rcases List.mem_cons.mp hmem with rfl | hin
        · exact Nat.le_refl _
        · exact Nat.le_of_lt ((List.pairwise_cons.mp (page_ascending ht hpage)).1 _ hin)
      rw [hfirst] at ih
      exact .older hpage.symm (groupTable_grows hgrows m) (hgrows.table.group m) (ih hgrows.table)

/-- **The pages are all group messages there were**, each of them once, and each page in order. -/
theorem read_all (h : ReadsHistory m limit st 0 pages) (ht : st.mysql.Table) :
    pages.flatten = groupTable st.mysql m ∧ pages.flatten.Nodup ∧
      ∀ page ∈ pages, page.Pairwise fun x y => x.messageId < y.messageId := by
  have hall : pages.flatten = groupTable st.mysql m := by
    rw [Paging.flatten_of_pages (h.read ht) (ht.group m)]
    exact List.filter_eq_self.mpr fun _ _ => rfl
  refine ⟨hall, ?_, Paging.pairwise_of_pages (h.read ht) (ht.group m)⟩
  rw [hall]
  refine List.Pairwise.imp ?_ (ht.group m).ascending
  intro a b hlt heq
  rw [heq] at hlt
  exact Nat.lt_irrefl _ hlt

/-- A client may ask for any page. -/
theorem exists_pageRequest (hm : m ≠ 0) (hsize : m < 2 ^ 64) (hbefore : before < 2 ^ 64) (hlow : 1 ≤ limit)
    (hhigh : limit ≤ 100) : ∃ root, pageRequest root = some ⟨m, before, limit⟩ := by
  let request : HistoryRequest :=
    { meetingId := toString m, peerUserId := none, beforeMessageId := before, limit := limit }
  have hmeeting : readUInt64Value (request.body.get "meeting_id") = some m := stoullWhole_toString hsize
  have hbeforeValue : optionalUInt64 request.body "before_message_id" = some (some before) := by
    change (readUInt64Value (.int before)).map some = _
    rw [readUInt64Value_nat hbefore]
    rfl
  have hlimitValue : optionalUInt64 request.body "limit" = some (some limit) := by
    change (readUInt64Value (.int limit)).map some = _
    rw [readUInt64Value_nat (by omega)]
    rfl
  have hmember : request.body.isMember "meeting_id" = true := rfl
  have hlimit : limit ≠ 0 := by omega
  refine ⟨request.body, ?_⟩
  unfold pageRequest
  rw [hmeeting, hbeforeValue, hlimitValue]
  simp [hmember, hm, hlimit, hhigh]

/-- Reading on comes to a short page. -/
theorem exists_reading (hm : m ≠ 0) (hsize : m < 2 ^ 64) (ht : st.mysql.Table)
    (hids : ∀ row ∈ st.mysql.messages, row.messageId < 2 ^ 64) (hlow : 1 ≤ limit) (hhigh : limit ≤ 100)
    (hbefore : before < 2 ^ 64) : ∃ pages, ReadsHistory m limit st before pages := by
  induction hlen : (Paging.below MeetingMessageInfo.messageId before (groupTable st.mysql m)).length using Nat.strongRecOn
    generalizing before with
  | ind length ih =>
    obtain ⟨root, hrequest⟩ := exists_pageRequest (m := m) hm hsize hbefore hlow hhigh
    have hread : ((Query.getMeetingGroupMessages m before limit).run {} st).1 = some (st.mysql.page (isGroupRow m) before limit) := rfl
    by_cases hshort : (st.mysql.page (isGroupRow m) before limit).length < limit
    · exact ⟨_, .last hrequest hread hshort⟩
    have hpage := page_newest (m := m) st.mysql before hlow hhigh
    cases hrows : st.mysql.page (isGroupRow m) before limit with
    | nil =>
      rw [hrows] at hshort
      exact absurd hlow hshort
    | cons first rest =>
      have hordered := page_ascending ht (hrows.symm.trans hpage)
      have hless := Paging.below_shrinks (ht.group m) (hpage.symm.trans hrows)
      have hfirst : first ∈ st.mysql.messages := (mem_page (hrows ▸ List.mem_cons_self)).1
      obtain ⟨pages, hpages⟩ := ih _ (hlen ▸ hless) (hids first hfirst) rfl
      rw [hrows] at hread hshort
      refine ⟨_, .older hrequest hread (Nat.not_lt.mp hshort) List.mem_cons_self (fun row hrow => ?_) (.refl ht) hpages⟩
      rcases List.mem_cons.mp hrow with rfl | hrow
      · exact Nat.le_refl _
      · exact Nat.le_of_lt ((List.pairwise_cons.mp hordered).1 row hrow)

end

/-- **Sending is idempotent, and paging is exact.** In every run a key has one row, and whatever is answered or
pushed under it is that row; the statements of a save, among those of other connections, come to the save of
such a run; and the pages a client reads are the group messages there were, each once and in order, with any
limit the handler takes. A page is what the handler answers. -/
theorem sends_once_and_pages_all :
    (∀ σ₀ σ : Server, σ₀.Initial → σ₀.storage.mysql.Table → Reach Server.step (fun _ _ => True) σ₀ σ → σ.MessagesOnce) ∧
    (∀ (message : MeetingMessageInfo) (redis : Redis) (s : MysqlMgr.Connection), s.mysql.Table →
      (MysqlMgr.saveMeetingMessage message).wp MysqlMgr.connection (MysqlMgr.AtOnce message redis s.mysql) s) ∧
    (∀ (m : MeetingId) (limit : Nat) (st : Storage) (pages : List (List MeetingMessageInfo)), st.mysql.Table →
      ReadsHistory m limit st 0 pages → pages.flatten = groupTable st.mysql m ∧ pages.flatten.Nodup ∧
        ∀ page ∈ pages, page.Pairwise fun x y => x.messageId < y.messageId) ∧
    (∀ (root : Json) (m : MeetingId) (before limit : Nat), pageRequest root = some ⟨m, before, limit⟩ →
      (1 ≤ limit ∧ limit ≤ 100) ∧ ∀ (os : Choices) (σ : Server) (s : SessionId), root.isObject = true →
        (σ.sessions s).userId ≠ 0 → (σ.sessions s).meetingId = m → (σ.sessions s).userId ∈ σ.storage.redis.members m →
        os.Works .groupMember (.sIsMember m (σ.sessions s).userId) → os.Works .groupPage (.getMeetingGroupMessages m before limit) →
        ∃ page, ((Query.getMeetingGroupMessages m before limit).run {} σ.storage).1 = some page ∧
          Json.obj (alone os (groupMessagesBody s (.value root)) σ).1 =
            groupAnswer m before limit (σ.sessions s).userId (senderName os σ) page) ∧
    ∀ (m : MeetingId) (limit : Nat) (st : Storage), m ≠ 0 → m < 2 ^ 64 → st.mysql.Table →
      (∀ row ∈ st.mysql.messages, row.messageId < 2 ^ 64) → 1 ≤ limit → limit ≤ 100 → ∃ pages, ReadsHistory m limit st 0 pages :=
  ⟨fun _ _ h₀ ht h => messagesOnce_reach h₀ ht h, fun _ _ _ hs => MysqlMgr.wp_saveMeetingMessage hs,
    fun _ _ _ _ ht h => read_all h ht,
    fun _ _ _ _ h => ⟨pageRequest_limit h, fun _ _ _ hroot huser hplace hmember hasked hread =>
      ⟨_, rfl, groupMessagesBody_answers h hroot huser hplace hmember hasked hread⟩⟩,
    fun _ _ _ hm hsize ht hids hlow hhigh => exists_reading hm hsize ht hids hlow hhigh (by decide)⟩

namespace Scenario

/-- A table without messages. -/
theorem server_table : server.storage.mysql.Table where
  keyed := ⟨List.Pairwise.nil, fun _ hrow => absurd hrow List.not_mem_nil⟩
  next _ hrow := absurd hrow List.not_mem_nil
  positive := Nat.one_pos
  unique := List.Pairwise.nil

/-- Whether a frame is the answer to a message that has been sent. -/
def answersMessage (f : Frame) : Bool := decide (f.id = .sendMeetingMessageResponse) && decide (f.payload.errorCode = some 0)

end Scenario

open Scenario in
/-- A message that is sent again is answered again, with its one row; and the history of the meeting can be read. -/
theorem sent_again : ∃ σ : Server, (σ.sent.filter answersMessage).length = 2 ∧ σ.storage.mysql.messages.length = 1 ∧
    σ.MessagesOnce ∧ ∃ pages, ReadsHistory 7 50 σ.storage 0 pages := by
  have hrun : ((play Server.step (fun _ _ => true)
      (company ++ asks 0 (sends none) ++ work ++ asks 0 (sends none) ++ work) server).any fun σ =>
        decide ((σ.sent.filter answersMessage).length = 2) && decide (σ.storage.mysql.messages.length = 1) &&
          σ.storage.mysql.messages.all fun row => decide (row.messageId < 2 ^ 64)) = true := by
    decide +kernel
  obtain ⟨σ, hplay, hσ⟩ := (Option.any_eq_true _ _).mp hrun
  simp only [Bool.and_eq_true, decide_eq_true_eq, List.all_eq_true] at hσ
  obtain ⟨⟨hanswers, hrows⟩, hids⟩ := hσ
  have hreach := reach_play (fun _ _ _ => trivial) hplay
  have honce := sends_once_and_pages_all.1 server σ server_initial server_table hreach
  have hread := sends_once_and_pages_all.2.2.2.2 7 50 σ.storage (by decide) (by decide) (table_reach hreach server_table) hids
    (by decide) (by decide)
  exact ⟨σ, hanswers, hrows, honce, hread⟩

end SyncRtc
