import SyncRtc.Laws.Footprints
import SyncRtc.Laws.Running

/-!
# Every request is answered once

A request is answered by the operation that serves it and by no other, at one of three places: `route`,
`dispatch` or the handler. The law of this module counts the answers a request is given from the moment
its connection starts it: never two, and exactly one when the connection has finished it and is still
open, unless the request was handed to MediaServer.

The count may be zero in two cases, which the law excludes: the parser throws in the fence of a room, and
an answer is too long for a frame. A JOIN and a RESUME close their session in the second case; the others
do not.

**What it does not establish.** That a request is finished at all.
-/

set_option autoImplicit false

namespace SyncRtc

open Prog

/-! ## Answers and notices -/

/-- The calls that send notices only. -/
def Notifies : Call → Prop
  | .send _ id _ => isNotice id = true
  | _ => True

/-- The calls that answer no session but `s`. -/
def Addresses (s : SessionId) : Call → Prop
  | .send t id _ => isNotice id = true ∨ t = s
  | _ => True

section

variable {m : MeetingId} {s : SessionId} {α : Type}

theorem notifies_of_inner {p : Op α} (h : p.Makes Inner) : p.Makes Notifies := by
  refine h.mono fun c hc => ?_
  cases c with
  | send t id payload => exact hc.1
  | _ => trivial

theorem notifies_of_silent {p : Op α} (h : p.Makes Silent) : p.Makes Notifies := notifies_of_inner (inner_of_silent h)

theorem addresses_of_notifies {p : Op α} (h : p.Makes Notifies) : p.Makes (Addresses s) := by
  refine h.mono fun c hc => ?_
  cases c with
  | send t id payload => exact .inl hc
  | _ => trivial

theorem notifies_login (body : Payload) : (loginBody s body).Makes Notifies := by
  unfold loginBody
  repeat' first | exact trivial | split | refine Makes.step trivial fun _ => ?_

theorem notifies_message (body : Payload) : (sendMessageBody m s body).Makes Notifies := by
  have push : ∀ notification isFor, (broadcast m .meetingMessagePush notification isFor).Makes Notifies := by
    intro notification isFor
    refine Makes.step trivial fun _ => Makes.bind (Makes.select fun item _ => Makes.step trivial fun r => ?_)
      fun _ => Makes.step trivial fun _ => ⟨trivial, fun _ => trivial⟩
    split
    · trivial
    refine Makes.step trivial fun session => ?_
    dsimp only
    split
    · exact Makes.step (show isNotice .meetingMessagePush = true from rfl) fun _ => trivial
    · trivial
  unfold sendMessageBody
  repeat' first
    | exact trivial | split | refine Makes.bind (notifies_of_silent (silent_messageChecks _ _ _)) fun _ => ?_
    | refine Makes.bind (push _ _) fun _ => ?_ | refine Makes.step trivial fun _ => ?_

theorem notifies_join (resuming : Bool) (body : Payload) : (joinBody m s resuming body).Makes Notifies := by
  have store : ∀ uid a value, (joinStore m uid resuming a value).Makes Notifies := by
    intro uid a value
    unfold joinStore
    repeat' first
      | exact trivial | split | refine Makes.bind (notifies_of_inner (inner_joinUndo _ _)) fun _ => ?_
      | refine Makes.step trivial fun _ => ?_
  unfold joinBody
  split
  · trivial
  refine Makes.step trivial fun session => ?_
  dsimp only
  split
  · trivial
  refine Makes.bind (notifies_of_inner (inner_joinChecks _ _ _ _)) fun checked => ?_
  split
  · trivial
  refine Makes.bind (notifies_of_silent (silent_joinPlace m _ resuming _ _)) fun place => ?_
  split
  · trivial
  refine Makes.bind (notifies_of_inner (inner_joinTicket _ _)) fun ticket => ?_
  split
  · trivial
  refine Makes.bind (store _ _ _) fun stored => ?_
  split
  · trivial
  · exact notifies_of_inner ((inner_joinBind _ _ _ _).bind fun _ => inner_joinAnswer _ _ _ _)

/-! ## Nobody else answers -/

theorem addresses_send {id : RequestID} {value : Reply} : (send s id value).Makes (Addresses s) :=
  ⟨.inr rfl, fun _ => trivial⟩

theorem addresses_answer {p : Op Reply} {id : RequestID} (h : p.Makes Notifies) :
    (p.bind fun value => (send s id value).bind fun _ => .pure ()).Makes (Addresses s) :=
  (addresses_of_notifies h).bind fun _ => addresses_send.bind fun _ => trivial

theorem addresses_replyError (id : RequestID) (code : ErrorCode) : (replyError s id code).Makes (Addresses s) := by
  unfold replyError
  split
  · trivial
  · exact addresses_send.bind fun _ => trivial

theorem addresses_media {p : Op (Option Reply)} {id : RequestID} (h : p.Makes Silent) :
    (p.bind fun value => match value with
      | some value => (send s id value).bind fun _ => Prog.pure ()
      | none => Prog.pure ()).Makes (Addresses s) := by
  refine (addresses_of_notifies (notifies_of_silent h)).bind fun value => ?_
  split
  · exact addresses_send.bind fun _ => trivial
  · trivial

theorem addresses_join (resuming : Bool) (body : Payload) :
    (joinMeetingHandler m s resuming body).Makes (Addresses s) := by
  refine (addresses_of_notifies (notifies_join resuming body)).bind fun value => addresses_send.bind fun queued => ?_
  split
  · exact ⟨trivial, fun _ => trivial⟩
  · trivial

theorem addresses_handle (r : Request) : (handle m s r).Makes (Addresses s) := by
  unfold handle
  split
  · exact addresses_answer (notifies_login _)
  · exact addresses_answer (notifies_of_silent (silent_ai s _))
  · exact addresses_answer (notifies_of_silent (silent_create s _))
  · exact addresses_answer (notifies_of_silent (silent_past s))
  · exact addresses_join _ _
  · exact addresses_join _ _
  · exact addresses_answer (notifies_of_inner (inner_start _))
  · exact addresses_answer (notifies_of_inner (inner_leave _))
  · exact addresses_answer (notifies_of_inner (inner_end _))
  · exact addresses_answer (notifies_message _)
  · exact addresses_answer (notifies_of_silent (silent_group s _))
  · exact addresses_answer (notifies_of_silent (silent_private s _))
  · exact addresses_media (silent_offer s _)
  · exact addresses_media (silent_candidate s _)
  · exact addresses_of_notifies (notifies_of_silent (silent_answerOffer s _))
  · trivial

theorem addresses_dispatch (command : Command) : (dispatch m s command).Makes (Addresses s) := by
  cases command with
  | disconnected => exact Makes.step trivial fun _ => addresses_of_notifies (notifies_of_inner inner_disconnected)
  | request r =>
    simp only [dispatch, dispatchRequest, admitRequest, handleReserved]
    repeat' first
      | exact trivial | split | exact addresses_replyError _ _ | exact addresses_handle r
      | refine Makes.bind (addresses_of_notifies (notifies_of_silent (silent_mayAct m s r))) fun _ => ?_
      | refine Makes.bind (addresses_of_notifies (notifies_of_silent (silent_reserveFor r))) fun _ => ?_
      | refine Makes.bind (addresses_handle r) fun _ => ?_
      | exact Makes.step trivial fun _ => ⟨trivial, fun _ => trivial⟩
      | refine Makes.step trivial fun _ => ?_

theorem addresses_route (command : Command) : (route s command).Makes (Addresses s) := by
  have error : ∀ code, (routeError s code command).Makes (Addresses s) := by
    intro code
    cases command with
    | request r => exact addresses_replyError r.id code
    | disconnected => trivial
  have delivered : ∀ target, (deliver s command target).Makes (Addresses s) := by
    intro target
    unfold deliver
    split
    · exact (error _).bind fun _ => trivial
    split
    · exact (addresses_dispatch command).bind fun _ => trivial
    refine Makes.step trivial fun accepted => ?_
    split
    · trivial
    · exact (error _).bind fun _ => trivial
  have target : (routeTarget s command).Makes (Addresses s) :=
    addresses_of_notifies (notifies_of_inner (inner_routeTarget command))
  cases command with
  | disconnected =>
    rw [route_disconnected]
    exact target.bind delivered
  | request r =>
    rw [route_request]
    refine Makes.step trivial fun session => ?_
    split
    · trivial
    · exact target.bind delivered

end

/-- The work passes on a message of MediaServer. -/
def Work.Relays : Work → Prop
  | .room _ (.mediaReply _ _ _ _) => True
  | _ => False

/-- The call sends the session a frame that is no notice. -/
def Replies (s : SessionId) (c : Call) : Prop := ∃ id payload, c = .send s id payload ∧ isNotice id = false

/-- Of the operations that do not pass on a message of MediaServer, those that work for a session answer it. -/
theorem begins_addresses {w : Work} {op : Op Unit} (h : w.Begins op) :
    op.Makes fun c => w.Relays ∨ ∀ s, Replies s c → w.session? = some s := by
  have key : ∀ {s : SessionId} {p : Op Unit}, p.Makes (Addresses s) → w.session? = some s →
      p.Makes fun c => w.Relays ∨ ∀ s, Replies s c → w.session? = some s := by
    intro s p hp hs
    refine hp.mono fun c hc => .inr fun t ht => ?_
    obtain ⟨id, payload, rfl, hid⟩ := ht
    rcases hc with hn | rfl
    · rw [hn] at hid
      cases hid
    · exact hs
  have quiet : ∀ {p : Op Unit}, p.Makes Inner →
      p.Makes fun c => w.Relays ∨ ∀ s, Replies s c → w.session? = some s := by
    intro p hp
    refine hp.mono fun c hc => .inr fun t ht => ?_
    obtain ⟨id, payload, rfl, hid⟩ := ht
    rw [hc.1] at hid
    cases hid
  cases w with
  | conn t command =>
    obtain rfl : op = (route t command).void := h
    exact key ((addresses_route command).bind fun _ => trivial) rfl
  | room n task =>
    obtain rfl : op = task.op n := h
    cases task with
    | dispatch t command => exact key (addresses_dispatch command) rfl
    | expire uid => exact quiet (inner_expire uid)
    | mediaReply epoch id registered message =>
      exact (quiet_mediaReply n epoch id registered message).mono fun _ _ => .inl trivial
  | timer =>
    obtain rfl : op = reconnectTimeoutCheckHandler := h
    exact quiet inner_timer
  | control =>
    obtain ⟨event, epoch, message, rfl⟩ := h
    exact quiet (inner_controlOp event epoch message)

/-! ## The answers of one request -/

/-- What the operations of a request have come to: the answers queued, whether MediaServer was handed
something, and whether the session is known to be closed. -/
structure Account where
  answers : Nat
  handed : Bool
  shut : Prop

/-- An answer that closes the session when it is too long: that of a JOIN or RESUME handler. -/
def Excused (id : RequestID) (payload : Reply) : Prop :=
  (id = .joinMeetingResponse ∨ id = .resumeMeetingResponse) ∧ ∀ code, payload ≠ Reply.error code

/-- One answer a request. -/
def answerPre (s : SessionId) (r : Request) : Call → Account → Prop
  | .send t id _, v => t = s → responseId r.id = some id → v.answers = 0
  | _, _ => True

def answerRel (s : SessionId) (r : Request) : (c : Call) → Account → c.Res → Account → Prop
  | .send t id payload, v, accepted, v' =>
    if t = s ∧ responseId r.id = some id then
      ∃ shut : Prop, v' = ⟨v.answers + accepted.toNat, v.handed, shut⟩ ∧ (v.shut → shut) ∧
        (accepted = false → ¬ Excused id payload → shut)
    else v' = v
  | .requestClose t, v, _, v' => v' = { v with shut := v.shut ∨ t = s }
  | .getSession t, v, session, v' => v' = { v with shut := v.shut ∨ (t = s ∧ session.closed = true) }
  | .sendMediaSignal _ _, v, accepted, v' => v' = { v with handed := v.handed || accepted }
  | _, v, _, v' => v' = v

def answering (s : SessionId) (r : Request) : Machine calls Account := ⟨answerPre s r, answerRel s r⟩

/-- Where the operations of a request leave it: answered once, or closed, or handed to MediaServer. -/
structure Account.Settled (r : Request) (v : Account) : Prop where
  once : v.answers ≤ 1
  done : (responseId r.id).isSome → v.shut ∨ v.answers = 1 ∨
    ((r.id = .mediaOfferRequest ∨ r.id = .mediaCandidateRequest) ∧ v.handed = true ∧ v.answers = 0)

/-- `v'` is `v` after calls that answer nothing. -/
structure Account.Before (v v' : Account) : Prop where
  answers : v'.answers = v.answers
  handed : v.handed = true → v'.handed = true
  shut : v.shut → v'.shut

section

variable {m : MeetingId} {s : SessionId} {r : Request} {v v' : Account} {α : Type}

theorem Account.Before.refl (v : Account) : v.Before v := ⟨rfl, id, id⟩

theorem Account.Settled.after (h : v.Settled r) (hb : v.Before v') : v'.Settled r := by
  refine ⟨hb.answers ▸ h.once, fun hr => ?_⟩
  rcases h.done hr with hs | ha | ⟨hm, hh, ha⟩
  · exact .inl (hb.shut hs)
  · exact .inr (.inl (hb.answers.trans ha))
  · exact .inr (.inr ⟨hm, hb.handed hh, hb.answers.trans ha⟩)

theorem answering_notifies {c : Call} (h : Notifies c) (v : Account) :
    answerPre s r c v ∧ ∀ res v', answerRel s r c v res v' → v.Before v' := by
  cases c with
  | send t id payload =>
    have hne : ¬ (t = s ∧ responseId r.id = some id) := fun hc => responseId_ne_notice h hc.2
    refine ⟨fun ht hid => absurd ⟨ht, hid⟩ hne, fun accepted v' hv => ?_⟩
    rw [answerRel, if_neg hne] at hv
    exact hv ▸ .refl v
  | requestClose t =>
    refine ⟨trivial, ?_⟩
    rintro _ _ rfl
    exact ⟨rfl, id, .inl⟩
  | getSession t =>
    refine ⟨trivial, ?_⟩
    rintro _ _ rfl
    exact ⟨rfl, id, .inl⟩
  | sendMediaSignal epoch message =>
    refine ⟨trivial, ?_⟩
    rintro _ _ rfl
    exact ⟨rfl, fun h => by rw [h]; rfl, id⟩
  | _ =>
    refine ⟨trivial, ?_⟩
    rintro _ _ rfl
    exact .refl _

theorem Account.Before.trans {v'' : Account} (h : v.Before v') (h' : v'.Before v'') : v.Before v'' :=
  ⟨h'.answers.trans h.answers, fun x => h'.handed (h.handed x), fun x => h'.shut (h.shut x)⟩

/-- What a part that answers nothing leaves. -/
theorem wp_unanswered {p : Op α} (hp : p.Makes Notifies) :
    p.wp (answering s r) (fun _ v' => v.Before v') v :=
  hp.wp (fun _ _ hc _ => (answering_notifies hc _).1)
    (fun _ _ _ _ hc hb hr => hb.trans ((answering_notifies hc _).2 _ _ hr)) (.refl v)

/-- The rule for a sequence whose first part answers nothing. -/
theorem wp_unansweredPass {β : Type} {p : Op β} {k : β → Op α} {Q : α → Account → Prop} (hp : p.Makes Notifies)
    (hk : ∀ b v', v.Before v' → (k b).wp (answering s r) Q v') : (p.bind k).wp (answering s r) Q v :=
  wp_seq (wp_unanswered hp) fun b v' hb => hk b v' hb

/-- The one answer. -/
theorem wp_answers {id : RequestID} {value : Reply} (hid : responseId r.id = some id) (hv : v.answers = 0)
    (hbound : ¬ Excused id value) :
    (send s id value).wp (answering s r) (fun _ v' => v'.Settled r) v := by
  refine ⟨fun _ _ => hv, fun accepted v' hrel => ?_⟩
  rw [show (answering s r).rel = answerRel s r from rfl, answerRel, if_pos ⟨rfl, hid⟩] at hrel
  obtain ⟨shut, rfl, -, hshut⟩ := hrel
  cases accepted with
  | true => exact ⟨by simp [hv], fun _ => .inr (.inl (by simp [hv]))⟩
  | false => exact ⟨by simp [hv], fun _ => .inl (hshut rfl hbound)⟩

theorem wp_replyError (hv : v.answers = 0) (code : ErrorCode) :
    (replyError s r.id code).wp (answering s r) (fun _ v' => v'.Settled r) v := by
  unfold replyError
  split
  · next hnone => exact ⟨hv.le.trans zero_le_one, fun hr => by rw [hnone] at hr; cases hr⟩
  · next response hresponse =>
    exact wp_seq (wp_answers hresponse hv fun he => he.2 code rfl) fun _ _ h => h

/-- A handler that works out its answer and sends it. -/
theorem wp_answered {p : Op Reply} {id : RequestID} (hp : p.Makes Notifies) (hid : responseId r.id = some id)
    (hne : id ≠ .joinMeetingResponse ∧ id ≠ .resumeMeetingResponse) (hv : v.answers = 0) :
    (p.bind fun value => (send s id value).bind fun _ => .pure ()).wp (answering s r) (fun _ v' => v'.Settled r) v := by
  refine wp_unansweredPass hp fun value v₁ hb => ?_
  refine wp_seq (wp_answers hid (hb.answers.trans hv) fun he => ?_) fun _ _ h => h
  exact he.1.elim hne.1 hne.2

/-- A JOIN or RESUME whose answer is not accepted closes its session. -/
theorem wp_answersEntry (resuming : Bool) (hv : v.answers = 0)
    (hid : r.id = if resuming then .resumeMeetingRequest else .joinMeetingRequest) :
    (joinMeetingHandler m s resuming r.body).wp (answering s r) (fun _ v' => v'.Settled r) v := by
  have hresponse : responseId r.id = some (if resuming then .resumeMeetingResponse else .joinMeetingResponse) := by
    rw [hid]
    cases resuming <;> rfl
  refine wp_unansweredPass (notifies_join resuming r.body) fun value v₁ hb => ?_
  refine ⟨fun _ _ => hb.answers.trans hv, fun accepted v₂ hrel => ?_⟩
  rw [show (answering s r).rel = answerRel s r from rfl, answerRel, if_pos ⟨rfl, hresponse⟩] at hrel
  obtain ⟨shut, rfl, -, -⟩ := hrel
  have hcount : v₁.answers = 0 := hb.answers.trans hv
  cases accepted with
  | true => exact ⟨by simp [hcount], fun _ => .inr (.inl (by simp [hcount]))⟩
  | false =>
    refine ⟨trivial, ?_⟩
    rintro _ _ rfl
    exact ⟨by simp [hcount], fun _ => .inl (.inr rfl)⟩

/-- The rule for the look at the session of the request. -/
theorem wp_ownSession {k : Session → Op α} {Q : α → Account → Prop}
    (hk : ∀ (session : Session) v', v.Before v' → (session.closed = true → v'.shut) → (k session).wp (answering s r) Q v') :
    ((getSession s).bind k).wp (answering s r) Q v := by
  refine wp_step (m := answering s r) (c := Call.getSession s) trivial fun session v' hrel => ?_
  obtain rfl : v' = _ := hrel
  exact hk session _ ⟨rfl, id, .inl⟩ fun hclosed => .inr ⟨rfl, hclosed⟩

/-- The rule for a part that is made in one case only. -/
theorem wp_unansweredIf {c : Prop} [Decidable c] {p : Op Unit} {k : Unit → Op α} {Q : α → Account → Prop}
    (hp : p.Makes Notifies) (hk : ∀ v', v.Before v' → (k ()).wp (answering s r) Q v') :
    (if c then p.bind k else k ()).wp (answering s r) Q v := by
  split
  · exact wp_unansweredPass hp fun _ => hk
  · exact hk v (.refl v)

/-! ## Media -/

/-- What a media request comes to: an answer to send, or MediaServer was handed a signal. -/
def MediaEnd (v : Account) (value : Option Reply) (v' : Account) : Prop :=
  v.Before v' ∧ (value = none → v'.handed = true)

theorem wp_mediaSignal {epoch : Nat} {message : Reply} {k : Bool → Op α} {Q : α → Account → Prop}
    (hk : ∀ accepted v', v.Before v' → (accepted = true → v'.handed = true) → (k accepted).wp (answering s r) Q v') :
    ((sendMediaSignal epoch message).bind k).wp (answering s r) Q v := by
  refine ⟨trivial, ?_⟩
  rintro accepted _ rfl
  refine hk accepted _ ⟨rfl, fun h => ?_, id⟩ fun h => ?_
  · simp [h]
  · simp [h]

theorem wp_settledPure {value : Option Reply} (hb : v.Before v') (h : value = none → v'.handed = true) :
    (Prog.pure value : Op (Option Reply)).wp (answering s r) (MediaEnd v) v' := ⟨hb, h⟩

theorem wp_mediaOfferBody (body : Payload) : (mediaOfferBody s body).wp (answering s r) (MediaEnd v) v := by
  unfold mediaOfferBody
  split
  · exact wp_settledPure (.refl v) nofun
  split
  · exact wp_settledPure (.refl v) nofun
  refine wp_unansweredPass (p := getSession s) ⟨trivial, fun _ => trivial⟩ fun session v₁ h₁ => ?_
  refine wp_unansweredPass (notifies_of_silent (silent_publish _ _ _ _ _)) fun checked v₂ h₂ => ?_
  split
  · exact wp_settledPure (h₁.trans h₂) nofun
  refine wp_unansweredPass (p := getSession s) ⟨trivial, fun _ => trivial⟩ fun session' v₃ h₃ => ?_
  refine wp_unansweredIf (p := removeSignal session'.mediaSignalId) ⟨trivial, fun _ => trivial⟩ fun v₄ h₄ => ?_
  refine wp_unansweredPass (p := call .nextSignalId) ⟨trivial, fun _ => trivial⟩ fun id v₅ h₅ => ?_
  refine wp_unansweredPass (p := call (.setMediaSignalId s id)) ⟨trivial, fun _ => trivial⟩ fun _ v₆ h₆ => ?_
  refine wp_unansweredPass (p := call (.registerSignal id s _)) ⟨trivial, fun _ => trivial⟩ fun epoch v₇ h₇ => ?_
  have hbefore : v.Before v₇ := h₁.trans (h₂.trans (h₃.trans (h₄.trans (h₅.trans (h₆.trans h₇)))))
  refine wp_mediaSignal fun accepted v₈ h₈ hhanded => ?_
  split
  · next haccepted => exact wp_settledPure (hbefore.trans h₈) fun _ => hhanded haccepted
  refine wp_unansweredPass (p := removeSignal id) ⟨trivial, fun _ => trivial⟩ fun _ v₉ h₉ => ?_
  refine wp_unansweredPass (p := call (.setMediaSignalId s 0)) ⟨trivial, fun _ => trivial⟩ fun _ v' h' => ?_
  exact wp_settledPure (hbefore.trans (h₈.trans (h₉.trans h'))) nofun

theorem wp_mediaCandidateBody (body : Payload) : (mediaCandidateBody s body).wp (answering s r) (MediaEnd v) v := by
  unfold mediaCandidateBody
  split
  · exact wp_settledPure (.refl v) nofun
  split
  · exact wp_settledPure (.refl v) nofun
  refine wp_unansweredPass (p := getSession s) ⟨trivial, fun _ => trivial⟩ fun session v₁ h₁ => ?_
  refine wp_unansweredPass (notifies_of_silent (silent_publish _ _ _ _ _)) fun checked v₂ h₂ => ?_
  split
  · exact wp_settledPure (h₁.trans h₂) nofun
  refine wp_unansweredPass (notifies_of_silent (silent_currentSignal s)) fun current v₃ h₃ => ?_
  split
  · exact wp_settledPure (h₁.trans (h₂.trans h₃)) nofun
  refine wp_mediaSignal fun accepted v₄ h₄ hhanded => ?_
  refine wp_settledPure (h₁.trans (h₂.trans (h₃.trans h₄))) fun hnone => hhanded ?_
  cases accepted with
  | true => rfl
  | false => cases hnone

/-- The end of a media request: its answer, if MediaServer does not answer. -/
theorem wp_mediaEnd {p : Op (Option Reply)} {id : RequestID} (hp : p.wp (answering s r) (MediaEnd v) v)
    (hmedia : r.id = .mediaOfferRequest ∨ r.id = .mediaCandidateRequest) (hid : responseId r.id = some id)
    (hne : id ≠ .joinMeetingResponse ∧ id ≠ .resumeMeetingResponse) (hv : v.answers = 0) :
    (p.bind fun value => match value with
      | some value => (send s id value).bind fun _ => Prog.pure ()
      | none => Prog.pure ()).wp (answering s r) (fun _ v' => v'.Settled r) v := by
  refine wp_seq hp fun value v' h => ?_
  obtain ⟨hb, hhanded⟩ := h
  have hcount : v'.answers = 0 := hb.answers.trans hv
  split
  · exact wp_seq (wp_answers hid hcount fun he => he.1.elim hne.1 hne.2) fun _ _ h => h
  · exact ⟨hcount.le.trans zero_le_one, fun _ => .inr (.inr ⟨hmedia, hhanded rfl, hcount⟩)⟩

/-! ## Dispatch and routing -/

/-- A request that is not answered is settled as it is. -/
theorem settled_unanswered (hv : v.answers = 0) (hb : v.Before v') (h : responseId r.id = none) : v'.Settled r :=
  ⟨(hb.answers.trans hv).le.trans zero_le_one, fun hr => by rw [h] at hr; cases hr⟩

theorem wp_answersHandle (hv : v.answers = 0) : (handle m s r).wp (answering s r) (fun _ v' => v'.Settled r) v := by
  unfold handle
  split
  · next h => exact wp_answered (notifies_login _) (congrArg responseId h) (by decide) hv
  · next h => exact wp_answered (notifies_of_silent (silent_ai s _)) (congrArg responseId h) (by decide) hv
  · next h => exact wp_answered (notifies_of_silent (silent_create s _)) (congrArg responseId h) (by decide) hv
  · next h => exact wp_answered (notifies_of_silent (silent_past s)) (congrArg responseId h) (by decide) hv
  · next h => exact wp_answersEntry false hv h
  · next h => exact wp_answersEntry true hv h
  · next h => exact wp_answered (notifies_of_inner (inner_start _)) (congrArg responseId h) (by decide) hv
  · next h => exact wp_answered (notifies_of_inner (inner_leave _)) (congrArg responseId h) (by decide) hv
  · next h => exact wp_answered (notifies_of_inner (inner_end _)) (congrArg responseId h) (by decide) hv
  · next h => exact wp_answered (notifies_message _) (congrArg responseId h) (by decide) hv
  · next h => exact wp_answered (notifies_of_silent (silent_group s _)) (congrArg responseId h) (by decide) hv
  · next h => exact wp_answered (notifies_of_silent (silent_private s _)) (congrArg responseId h) (by decide) hv
  · next h => exact wp_mediaEnd (wp_mediaOfferBody _) (.inl h) (congrArg responseId h) (by decide) hv
  · next h => exact wp_mediaEnd (wp_mediaCandidateBody _) (.inr h) (congrArg responseId h) (by decide) hv
  · next h =>
    exact wp_mono (fun _ _ hb => settled_unanswered hv hb (congrArg responseId h))
      (wp_unanswered (notifies_of_silent (silent_answerOffer s _)))
  · refine settled_unanswered hv (.refl v) ?_
    cases hid : r.id <;> first | rfl | simp_all

theorem wp_answersReserved (hv : v.answers = 0) :
    (handleReserved m s r).wp (answering s r) (fun _ v' => v'.Settled r) v := by
  unfold handleReserved
  split
  · refine wp_unansweredPass (p := getSession s) ⟨trivial, fun _ => trivial⟩ fun session v₁ h₁ => ?_
    refine wp_unansweredPass (p := call (.reserveUser _ m)) ⟨trivial, fun _ => trivial⟩ fun reserved v₂ h₂ => ?_
    have hcount : v₂.answers = 0 := (h₁.trans h₂).answers.trans hv
    split
    · refine wp_seq (wp_answersHandle hcount) fun _ v₃ hsettled => ?_
      refine wp_unansweredPass (p := getSession s) ⟨trivial, fun _ => trivial⟩ fun session' v₄ h₄ => ?_
      exact wp_mono (fun _ _ hb => (hsettled.after h₄).after hb)
        (wp_unanswered (p := call (.finishJoin _ m _)) ⟨trivial, fun _ => trivial⟩)
    · exact wp_replyError hcount _
  · exact wp_answersHandle hv

/-- The parser throws in the fence of a room. -/
def FenceThrows (m : MeetingId) (r : Request) : Prop := fenceFor m r = .throws

theorem wp_answersDispatch (hv : v.answers = 0) (hfence : FenceThrows m r → responseId r.id = none) :
    (dispatch m s (.request r)).wp (answering s r) (fun _ v' => v'.Settled r) v := by
  simp only [dispatch, dispatchRequest]
  split
  · refine wp_ownSession fun session v₀ h₀ hshut => ?_
    have hv₀ : v₀.answers = 0 := h₀.answers.trans hv
    split
    · next hclosed => exact ⟨hv₀.le.trans zero_le_one, fun _ => .inl (hshut hclosed)⟩
    refine wp_unansweredPass (notifies_of_silent (silent_mayAct m s r)) fun acts v₁ h₁ => ?_
    split
    · refine wp_unansweredPass (notifies_of_silent (silent_reserveFor r)) fun reserved v₂ h₂ => ?_
      have hcount : v₂.answers = 0 := (h₁.trans h₂).answers.trans hv₀
      split
      · split
        · next hthrows => exact settled_unanswered hcount (.refl v₂) (hfence hthrows)
        · exact wp_replyError hcount _
        · exact wp_answersReserved hcount
      · exact wp_replyError hcount _
    · exact wp_replyError (h₁.answers.trans hv₀) _
  · next hno =>
    refine settled_unanswered hv (.refl v) ?_
    cases hid : r.id <;> first | rfl | (rw [hid] at hno; exact absurd rfl hno)

/-- A route ends with the request settled, or handed to a room and not yet answered. -/
def RouteEnd (r : Request) (m : Option MeetingId) (v : Account) : Prop :=
  (m = none → v.Settled r) ∧ v.answers ≤ 1 ∧ (m.isSome → v.answers = 0)

theorem wp_answersRoute : (route s (.request r)).wp (answering s r) (RouteEnd r) ⟨0, false, False⟩ := by
  have settled : ∀ {v : Account}, v.Settled r → RouteEnd r none v := fun h => ⟨fun _ => h, h.once, nofun⟩
  have error : ∀ {v : Account} (code : ErrorCode), v.answers = 0 →
      ((routeError s code (.request r)).bind fun _ => (Prog.pure none : Op (Option MeetingId))).wp (answering s r)
        (RouteEnd r) v := fun code hv => wp_seq (wp_replyError hv code) fun _ _ h => settled h
  rw [route_request]
  refine wp_ownSession fun session v₀ h₀ hshut => ?_
  split
  · next hclosed => exact settled ⟨h₀.answers.le.trans zero_le_one, fun _ => .inl (hshut hclosed)⟩
  refine wp_unansweredPass (notifies_of_inner (inner_routeTarget _)) fun target v₁ h₁ => ?_
  have hcount : v₁.answers = 0 := h₁.answers.trans h₀.answers
  unfold deliver
  split
  · exact error _ hcount
  split
  · next h0 =>
    subst h0
    refine wp_seq (wp_answersDispatch hcount ?_) fun _ _ h => settled h
    unfold FenceThrows fenceFor
    rw [if_neg fun h => h.1 rfl]
    exact fun h => nomatch h
  refine wp_unansweredPass (p := submitRoom _ _) ⟨trivial, fun _ => trivial⟩ fun accepted v₂ h₂ => ?_
  have hcount₂ : v₂.answers = 0 := h₂.answers.trans hcount
  split
  · exact ⟨nofun, hcount₂.le.trans zero_le_one, fun _ => hcount₂⟩
  · exact error _ hcount₂

end

/-! ## Counting -/

/-- The answers to `r` a call queues for the session `s`. -/
def answersOf (σ : Server) (o : Oracle) (s : SessionId) (r : Request) : Call → Nat
  | .send t id payload => if t = s ∧ responseId r.id = some id then (σ.send o t id payload).1.toNat else 0
  | _ => 0

/-- Whether a call hands MediaServer a signal. -/
def handsOf (σ : Server) (o : Oracle) : Call → Bool
  | .sendMediaSignal epoch message => (σ.sendMediaSignal o epoch message).1
  | _ => false

/-- The thread passes on a message of MediaServer. -/
def Server.relays (σ : Server) : Thread → Bool
  | .room m => match (σ.rooms m).active with
    | some (.mediaReply _ _ _ _, _) => true
    | _ => false
  | _ => false

/-- The answers to `r` a step queues for the session `s`, messages of MediaServer apart. -/
def Server.answers (σ : Server) (s : SessionId) (r : Request) : Event → Nat
  | .step t o => if σ.relays t then 0 else ((σ.nextCall? t).map (answersOf σ o s r)).getD 0
  | _ => 0

/-- Whether the operation that works for `s` hands MediaServer a signal in a step. -/
def Server.hands (σ : Server) (s : SessionId) : Event → Bool
  | .step t o => decide (σ.worker t = some s) && ((σ.nextCall? t).map (handsOf σ o)).getD false
  | _ => false

/-- The parser does not throw in the fence of a room on a request that is answered, and no answer is too
long for a frame, but for those of the JOIN and RESUME handlers. -/
def Deliverable (σ : Server) : Event → Prop
  | .start (.room m) => ∀ s r rest, (σ.rooms m).queue = .dispatch s (.request r) :: rest →
      FenceThrows m r → responseId r.id = none
  | .step t _ => ∀ s id payload, σ.nextCall? t = some (.send s id payload) → isNotice id = false →
      σ.relays t = false → σ.styledSize payload ≤ 65535 ∨ Excused id payload
  | _ => True

/-- A run, from the moment the connection `s` starts the request `r`, before it starts another command:
the answers queued so far, and whether MediaServer was handed a signal. -/
inductive Serving (ok : Server → Event → Prop) (s : SessionId) (r : Request) : Nat → Bool → Server → Prop where
  | start {σ σ' : Server} {rest : List Command} (h : Reachable ok σ) (hok : ok σ (.start (.conn s)))
      (hq : (σ.conns s).queue = .request r :: rest) (hstep : σ.step (.start (.conn s)) = some σ') :
      Serving ok s r 0 false σ'
  | next {σ σ' : Server} {e : Event} {n : Nat} {handed : Bool} (h : Serving ok s r n handed σ) (hok : ok σ e)
      (he : e ≠ .start (.conn s)) (hstep : σ.step e = some σ') :
      Serving ok s r (n + σ.answers s r e) (handed || σ.hands s e) σ'

/-- An account that agrees with the count, and with what is known of the session. -/
structure Account.Of (v : Account) (σ : Server) (s : SessionId) (n : Nat) (handed : Bool) : Prop where
  answers : v.answers = n
  handed : v.handed = handed
  shut : v.shut → (σ.sessions s).closed = true

/-- How far a request is: its route runs, it waits in the queue of a room, the room serves it, or it is
finished. -/
inductive Server.Stage (σ : Server) (s : SessionId) (r : Request) (n : Nat) (handed : Bool) : Prop where
  | routed (p : Op (Option MeetingId)) (v : Account) (hs : (σ.conns s).state = .running (.request r) p)
      (hv : v.Of σ s n handed) (hwp : p.wp (answering s r) (RouteEnd r) v)
  | queued (m : MeetingId) (hs : (σ.conns s).state = .waiting (.request r) m) (hn : n = 0)
      (ha : ∀ task op, (σ.rooms m).active = some (task, op) → task.session? ≠ some s)
  | served (m : MeetingId) (op : Op Unit) (v : Account) (hs : (σ.conns s).state = .waiting (.request r) m)
      (ha : (σ.rooms m).active = some (.dispatch s (.request r), op)) (hv : v.Of σ s n handed)
      (hwp : op.wp (answering s r) (fun _ v' => v'.Settled r) v)
  | finished (v : Account) (hs : (σ.conns s).state = .idle) (hv : v.Of σ s n handed) (hsettled : v.Settled r)

section

variable {σ σ' : Server} {s : SessionId} {r : Request} {n : Nat} {handed : Bool} {v : Account} {c : Call} {o : Oracle}

theorem Account.Of.mono (h : v.Of σ s n handed)
    (hclosed : (σ.sessions s).closed = true → (σ'.sessions s).closed = true) : v.Of σ' s n handed :=
  ⟨h.answers, h.handed, fun hs => hclosed (h.shut hs)⟩

/-- A send of an answer that fits a frame fails on a session that is closed then. -/
theorem send_refused {t : SessionId} {id : RequestID} {payload : Reply} (hsize : σ.styledSize payload ≤ 65535)
    (h : (σ.send o t id payload).1 = false) : ((σ.send o t id payload).2.sessions t).closed = true := by
  unfold Server.send at h ⊢
  rw [if_neg (Nat.not_lt.mpr hsize)] at h ⊢
  split at h
  · next hclosed =>
    rw [if_pos hclosed]
    exact hclosed
  · next hopen =>
    rw [if_neg hopen]
    split at h
    · next hrefuse =>
      rw [if_pos hrefuse, Server.setSession_self]
    · cases h

/-- A call of the request's own operation answers as its machine has it. -/
theorem answer_call (hv : v.Of σ s n handed) (hpre : answerPre s r c v) (hn : n ≤ 1)
    (hsize : ∀ t id payload, c = .send t id payload → responseId r.id = some id →
      σ.styledSize payload ≤ 65535 ∨ Excused id payload) :
    ∃ v', answerRel s r c v (exec c o σ).1 v' ∧ n + answersOf σ o s r c ≤ 1 ∧
      v'.Of (exec c o σ).2 s (n + answersOf σ o s r c) (handed || handsOf σ o c) := by
  have hclosed := (exec_session c o σ s).closed
  have hsame : (∀ t id payload, c ≠ .send t id payload) → (∀ epoch message, c ≠ .sendMediaSignal epoch message) →
      ∀ shut : Prop, (shut → ((exec c o σ).2.sessions s).closed = true) → n + answersOf σ o s r c ≤ 1 ∧
      (⟨v.answers, v.handed, shut⟩ : Account).Of (exec c o σ).2 s (n + answersOf σ o s r c) (handed || handsOf σ o c) := by
    intro hsend hmedia shut hshut
    have hcount : answersOf σ o s r c = 0 := by
      cases c <;> first | rfl | exact absurd rfl (hsend _ _ _)
    have hhands : handsOf σ o c = false := by
      cases c <;> first | rfl | exact absurd rfl (hmedia _ _)
    rw [hcount, hhands, Bool.or_false]
    exact ⟨hn, hv.answers, hv.handed, hshut⟩
  cases c with
  | send t id payload =>
    simp only [answerRel, answersOf, handsOf, Bool.or_false]
    split
    · next hown =>
      have hzero : n = 0 := hv.answers.symm.trans (hpre hown.1 hown.2)
      have hle : n + (σ.send o t id payload).1.toNat ≤ 1 := by
        rw [hzero, Nat.zero_add]
        exact Bool.toNat_le _
      refine ⟨⟨v.answers + (σ.send o t id payload).1.toNat, v.handed, ((exec (.send t id payload) o σ).2.sessions s).closed = true⟩,
        ⟨_, rfl, fun hs => hclosed (hv.shut hs), fun hrefused hbound => ?_⟩, hle, ?_, hv.handed, fun hs => hs⟩
      · have hfits := (hsize t id payload rfl hown.2).resolve_right hbound
        rw [← hown.1]
        exact send_refused hfits hrefused
      · rw [hv.answers]
    · exact ⟨v, rfl, hn, hv.answers, hv.handed, fun hs => hclosed (hv.shut hs)⟩
  | sendMediaSignal epoch message =>
    refine ⟨{ v with handed := v.handed || (σ.sendMediaSignal o epoch message).1 }, rfl, hn, hv.answers, ?_,
      fun hs => hclosed (hv.shut hs)⟩
    simp only [handsOf, hv.handed]
  | requestClose t =>
    refine ⟨_, rfl, hsame (by simp) (by simp) _ fun hs => ?_⟩
    rcases hs with hs | rfl
    · exact hclosed (hv.shut hs)
    · simp only [exec, Server.setSession_self]
  | getSession t =>
    refine ⟨_, rfl, hsame (by simp) (by simp) _ fun hs => ?_⟩
    rcases hs with hs | ⟨rfl, hs⟩
    · exact hclosed (hv.shut hs)
    · exact hs
  | _ => exact ⟨v, rfl, hsame (by simp) (by simp) v.shut fun hs => hclosed (hv.shut hs)⟩

/-- What a step of others leaves as it is, as far as the request is concerned. -/
theorem Server.Stage.frame (h : σ.Stage s r n handed) (hs : (σ'.conns s).state = (σ.conns s).state)
    (hclosed : (σ.sessions s).closed = true → (σ'.sessions s).closed = true)
    (ha : ∀ command m, (σ.conns s).state = .waiting command m → (σ'.rooms m).active = (σ.rooms m).active ∨
      ((∀ task op, (σ.rooms m).active = some (task, op) → task.session? ≠ some s) ∧
        ∀ task op, (σ'.rooms m).active = some (task, op) → task.session? ≠ some s)) : σ'.Stage s r n handed := by
  cases h with
  | routed p v hstate hv hwp => exact .routed p v (hs.trans hstate) (hv.mono hclosed) hwp
  | queued m hstate hn hidle =>
    refine .queued m (hs.trans hstate) hn ?_
    rcases ha _ m hstate with hsame | ⟨-, hother⟩
    · rw [hsame]
      exact hidle
    · exact hother
  | served m op v hstate hactive hv hwp =>
    refine .served m op v (hs.trans hstate) ?_ (hv.mono hclosed) hwp
    rcases ha _ m hstate with hsame | ⟨hidle, -⟩
    · exact hsame.trans hactive
    · exact absurd rfl (hidle _ _ hactive)
  | finished v hstate hv hsettled => exact .finished v (hs.trans hstate) (hv.mono hclosed) hsettled

/-- The stage after a step of the route of the request. -/
theorem stage_route {p : Op (Option MeetingId)} (hv : v.Of σ s n handed) (hwp : p.wp (answering s r) (RouteEnd r) v)
    (hs : (σ.conns s).state = .after (.request r) p)
    (hidle : ∀ m task op, (σ.rooms m).active = some (task, op) → task.session? ≠ some s) : σ.Stage s r n handed := by
  rcases p with (_ | m) | ⟨c, k⟩
  · exact .finished v hs hv (hwp.1 rfl)
  · exact .queued m hs (hv.answers.symm.trans (hwp.2.2 rfl)) (hidle m)
  · exact .routed _ v hs hv hwp

/-- The stage after a step of the room that serves the request. -/
theorem stage_room {m : MeetingId} {op : Op Unit} {rm : Room} (hv : v.Of σ s n handed)
    (hwp : op.wp (answering s r) (fun _ v' => v'.Settled r) v)
    (hs : (σ.conns s).state = .waiting (.request r) m)
    (hrm : rm.active = (Task.dispatch s (.request r)).after op) :
    Server.Stage { σ.setRoom m rm with conns := (Task.dispatch s (.request r)).resume σ.conns op } s r n handed := by
  cases op with
  | pure u =>
    refine .finished v ?_ (hv.mono id) hwp
    exact congrArg Conn.state (Function.update_self s _ σ.conns)
  | call c k =>
    refine .served m _ v hs ?_ (hv.mono id) hwp
    exact (congrArg Room.active (Server.setRoom_self m rm)).trans hrm

theorem response_not_notice {id response : RequestID} (h : responseId id = some response) : isNotice response = false := by
  cases hn : isNotice response with
  | false => rfl
  | true => exact absurd h (responseId_ne_notice hn)

/-- A step of an operation that does not work for `s` answers it nothing. -/
theorem others_silent {ok : Server → Event → Prop} (hr : Reachable ok σ) {w : Work} {k : c.Res → Op Unit}
    (hruns : σ.Runs w (.call c k)) (hs : w.session? ≠ some s) :
    σ.answers s r (.step w.thread o) = 0 ∧ σ.hands s (.step w.thread o) = false := by
  constructor
  · simp only [Server.answers, hruns.next, Option.map_some, Option.getD_some]
    split
    · rfl
    next hrelays =>
    cases c with
    | send t id payload =>
      refine if_neg fun hown => ?_
      rcases calls_reachable (fun _ _ => begins_addresses) hr hruns with hrelay | hother
      · cases w with
        | room m task =>
          cases task with
          | mediaReply epoch signal registered message =>
            have hactive : (σ.rooms m).active = some (_, _) := hruns
            simp only [Server.relays, Work.thread, hactive, not_true_eq_false] at hrelays
          | _ => exact hrelay.elim
        | _ => exact hrelay.elim
      · exact hs (hother s ⟨id, payload, hown.1 ▸ rfl, response_not_notice hown.2⟩)
    | _ => rfl
  · simp only [Server.hands, hruns.worker, decide_eq_false hs, Bool.false_and]

/-- A step of the operation that works for `s`, which is no message of MediaServer. -/
theorem own_counts {w : Work} {k : c.Res → Op Unit} (hruns : σ.Runs w (.call c k)) (hs : w.session? = some s)
    (hrelay : σ.relays w.thread = false) :
    σ.answers s r (.step w.thread o) = answersOf σ o s r c ∧ σ.hands s (.step w.thread o) = handsOf σ o c := by
  constructor
  · simp only [Server.answers, hrelay, Bool.false_eq_true, if_false, hruns.next, Option.map_some, Option.getD_some]
  · simp only [Server.hands, hruns.worker, hs, decide_true, Bool.true_and, hruns.next, Option.map_some,
      Option.getD_some]

/-- A session whose connection does not wait is in no room. -/
theorem no_task {m : MeetingId} (hp : Placed σ.awaited σ.tasks) (hs : σ.awaited s = none) (task : Task) (op : Op Unit)
    (ha : (σ.rooms m).active = some (task, op)) : task.session? ≠ some s := by
  intro hsession
  obtain ⟨command, rfl⟩ := session?_eq_some hsession
  have hmem : Task.dispatch s command ∈ σ.tasks m := by
    simp only [Server.tasks, Room.tasks, ha, Option.map_some, Option.toList_some, List.cons_append, List.mem_cons, true_or]
  cases hs.symm.trans (hp.waits m s command hmem)

/-- A request that waits for a room which does not serve it yet was not answered. -/
theorem Server.Stage.waiting {m : MeetingId} {command : Command} (h : σ.Stage s r n handed)
    (hw : σ.awaited s = some (command, m)) (ha : ∀ op, (σ.rooms m).active ≠ some (.dispatch s command, op)) :
    command = .request r ∧ (σ.conns s).state = .waiting (.request r) m ∧ n = 0 := by
  unfold Server.awaited at hw
  cases h with
  | routed p v hs hv hwp => rw [hs] at hw; cases hw
  | queued m' hs hn hidle =>
    rw [hs] at hw
    cases hw
    exact ⟨rfl, hs, hn⟩
  | served m' op v hs hactive hv hwp =>
    rw [hs] at hw
    cases hw
    exact absurd hactive (ha op)
  | finished v hs hv hsettled => rw [hs] at hw; cases hw

theorem Server.Stage.running {command : Command} {k : c.Res → Op (Option MeetingId)} (h : σ.Stage s r n handed)
    (hs : (σ.conns s).state = .running command (.call c k)) :
    command = .request r ∧ ∃ v : Account, v.Of σ s n handed ∧ answerPre s r c v ∧
      ∀ x v', answerRel s r c v x v' → (k x).wp (answering s r) (RouteEnd r) v' := by
  cases h with
  | routed p v hs' hv hwp =>
    cases hs.symm.trans hs'
    exact ⟨rfl, v, hv, hwp.1, hwp.2⟩
  | queued m hs' hn hidle => cases hs.symm.trans hs'
  | served m op v hs' hactive hv hwp => cases hs.symm.trans hs'
  | finished v hs' hv hsettled => cases hs.symm.trans hs'

theorem Server.Stage.serving {m : MeetingId} {command : Command} {k : c.Res → Op Unit} (h : σ.Stage s r n handed)
    (hw : σ.awaited s = some (command, m)) (ha : (σ.rooms m).active = some (.dispatch s command, .call c k)) :
    command = .request r ∧ (σ.conns s).state = .waiting (.request r) m ∧ ∃ v : Account, v.Of σ s n handed ∧
      answerPre s r c v ∧ ∀ x v', answerRel s r c v x v' → (k x).wp (answering s r) (fun _ v' => v'.Settled r) v' := by
  unfold Server.awaited at hw
  cases h with
  | routed p v hs hv hwp => rw [hs] at hw; cases hw
  | queued m' hs hn hidle =>
    rw [hs] at hw
    cases hw
    exact absurd rfl (hidle _ _ ha)
  | served m' op v hs hactive hv hwp =>
    rw [hs] at hw
    cases hw
    cases ha.symm.trans hactive
    exact ⟨rfl, hs, v, hv, hwp.1, hwp.2⟩
  | finished v hs hv hsettled => rw [hs] at hw; cases hw

/-- The end of another session's task leaves the connection of `s` as it is. -/
theorem state_resume {task : Task} {conns : SessionId → Conn} {op : Op Unit} (hs : task.session? ≠ some s) :
    (task.resume conns op s).state = (conns s).state := by
  unfold Task.resume
  split
  · split
    · next t command =>
      rw [Function.update_of_ne fun heq => hs (congrArg some heq.symm)]
    · rfl
  · rfl

/-- A room that works for another session before a step does so after it. -/
theorem active_after {task : Task} (op : Op Unit) {m : MeetingId} (hs : task.session? ≠ some s)
    (hself : (σ'.rooms m).active = task.after op)
    (hne : ∀ m', m' ≠ m → (σ'.rooms m').active = (σ.rooms m').active)
    (hold : ∀ task op, (σ.rooms m).active = some (task, op) → task.session? ≠ some s) (m' : MeetingId) :
    (σ'.rooms m').active = (σ.rooms m').active ∨
      ((∀ task op, (σ.rooms m').active = some (task, op) → task.session? ≠ some s) ∧
        ∀ task op, (σ'.rooms m').active = some (task, op) → task.session? ≠ some s) := by
  by_cases hm : m' = m
  · subst hm
    refine .inr ⟨hold, fun task' op' ha => ?_⟩
    obtain ⟨rfl, -⟩ := runs_afterTask (hself.symm.trans ha)
    exact hs
  · exact .inl (hne m' hm)

/-- Every step keeps the stage of the request, and its count. -/
theorem stage_step {ok : Server → Event → Prop} {e : Event} (hr : Reachable ok σ) (hok : Deliverable σ e)
    (he : e ≠ .start (.conn s)) (hstep : Stepped σ e σ') (h : σ.Stage s r n handed) (hn : n ≤ 1) :
    σ'.Stage s r (n + σ.answers s r e) (handed || σ.hands s e) ∧ n + σ.answers s r e ≤ 1 := by
  have hw : Wired False none σ := wired_reachable (fun hf => hf.elim) hr
  have still : (∀ t o, e ≠ .step t o) → σ'.Stage s r n handed →
      σ'.Stage s r (n + σ.answers s r e) (handed || σ.hands s e) ∧ n + σ.answers s r e ≤ 1 := by
    intro hno h'
    have hcount : σ.answers s r e = 0 := by
      cases e <;> first | rfl | exact absurd rfl (hno _ _)
    have hhands : σ.hands s e = false := by
      cases e <;> first | rfl | exact absurd rfl (hno _ _)
    rw [hcount, hhands, Bool.or_false]
    exact ⟨h', hn⟩
  have beside : ∀ {w : Work} {c : Call} {k : c.Res → Op Unit} {o : Oracle}, e = .step w.thread o →
      σ.Runs w (.call c k) → w.session? ≠ some s → σ'.Stage s r n handed →
      σ'.Stage s r (n + σ.answers s r e) (handed || σ.hands s e) ∧ n + σ.answers s r e ≤ 1 := by
    rintro w c k o rfl hruns hs h'
    obtain ⟨hcount, hhands⟩ := others_silent (r := r) (o := o) hr hruns hs
    rw [hcount, hhands, Bool.or_false]
    exact ⟨h', hn⟩
  have hclosed : (σ.sessions s).closed = true → (σ'.sessions s).closed = true := hstep.closed
  have state_of_same : ∀ {τ : Server} {t : SessionId} {u : Conn}, τ.conns = σ.conns → u.state = (σ.conns t).state →
      ((τ.setConn t u).conns s).state = (σ.conns s).state := by
    intro τ t u hτ hu
    by_cases ht : s = t
    · subst ht
      exact (congrArg Conn.state (Server.setConn_self s u)).trans hu
    · rw [Server.setConn_of_ne ht, hτ]
  cases hstep with
  | accept =>
    refine still (by simp) (h.frame ?_ hclosed fun _ _ _ => .inl rfl)
    refine state_of_same (τ := σ) rfl ?_
    have hempty := ((hw.line σ.nextSession).fresh (decide_eq_false (lt_irrefl _))).2
    cases hstate : (σ.conns σ.nextSession).state with
    | idle => rfl
    | running command p => simp [Conn.commands, hstate, ConnState.command] at hempty
    | waiting command m => simp [Conn.commands, hstate, ConnState.command] at hempty
  | overflow t q ho => exact still (by simp) (h.frame rfl hclosed fun _ _ _ => .inl rfl)
  | frame t q ho => exact still (by simp) (h.frame (state_of_same rfl rfl) hclosed fun _ _ _ => .inl rfl)
  | close t ho =>
    refine still (by simp) (h.frame ?_ hclosed fun _ _ _ => .inl rfl)
    exact state_of_same (τ := σ.setSession t { σ.sessions t with closed := true }) rfl rfl
  | release t hc hs => exact still (by simp) (h.frame rfl hclosed fun _ _ _ => .inl rfl)
  | tick ht => exact still (by simp) (h.frame rfl hclosed fun _ _ _ => .inl rfl)
  | link l q hl => exact still hl (h.frame rfl hclosed fun _ _ _ => .inl rfl)
  | clocks wall elapsed => exact still (by simp) (h.frame rfl hclosed fun _ _ _ => .inl rfl)
  | startControl event epoch message rest hc => exact still (by simp) (h.frame rfl hclosed fun _ _ _ => .inl rfl)
  | startConn t command rest hs hq =>
    have hne : s ≠ t := fun heq => he (heq ▸ rfl)
    refine still (by simp) (h.frame ?_ hclosed fun _ _ _ => ?_)
    · rw [resumeConn_eq, Server.setConn_of_ne hne, Server.setConn_of_ne hne]
    · rw [resumeConn_eq]
      exact .inl rfl
  | startRoom m task rest ha hq =>
    by_cases hs : task.session? = some s
    · obtain ⟨command, rfl⟩ := session?_eq_some hs
      have hmem : Task.dispatch s command ∈ σ.tasks m := by
        simp only [Server.tasks, Room.tasks, ha, hq, Option.map_none, Option.toList_none, List.nil_append, List.mem_cons, true_or]
      obtain ⟨rfl, hwaits, rfl⟩ := h.waiting (hw.placed.waits m s command hmem) fun op hop => by cases ha.symm.trans hop
      refine still (by simp) ?_
      rw [resumeRoom_eq]
      have hv : Account.Of ⟨0, handed, False⟩ (σ.setRoom m { σ.rooms m with queue := rest }) s 0 handed :=
        ⟨rfl, rfl, False.elim⟩
      refine stage_room hv ?_ hwaits rfl
      exact wp_answersDispatch rfl (hok s r rest hq)
    · refine still (by simp) (h.frame ?_ hclosed fun command' m' _ => ?_)
      · rw [resumeRoom_eq]
        exact state_resume hs
      · refine active_after (m := m) (task.op m) hs ?_ (fun n hn => ?_) (fun _ _ h0 => by cases ha.symm.trans h0) m'
        · rw [resumeRoom_eq]
          exact congrArg Room.active (Server.setRoom_self m _)
        · rw [resumeRoom_eq]
          exact congrArg Room.active ((Server.setRoom_of_ne hn _).trans (Server.setRoom_of_ne hn _))
  | conn t command c k o hs =>
    by_cases ht : t = s
    · subst ht
      have hruns : σ.Runs (.conn t command) (.call c fun x => (k x).void) := ⟨_, hs, rfl⟩
      obtain ⟨rfl, v, hv, hpre, hwp⟩ := h.running hs
      obtain ⟨hcount, hhands⟩ := own_counts (r := r) (o := o) hruns rfl rfl
      obtain ⟨v', hrel, hle, hv'⟩ := answer_call (o := o) hv hpre hn fun u id payload hc hid =>
        hok u id payload (hc ▸ hruns.next) (response_not_notice hid) rfl
      rw [show Event.step (.conn t) o = .step (Work.conn t (.request r)).thread o from rfl, hcount, hhands]
      refine ⟨?_, hle⟩
      rw [resumeConn_eq]
      refine stage_route (hv'.mono id) (hwp _ _ hrel) (congrArg Conn.state (Server.setConn_self t _)) fun m task op ha => ?_
      refine no_task hw.placed ?_ task op ((exec_threads c o σ).active m ▸ ha)
      simp only [Server.awaited, hs, ConnState.awaits]
    · refine beside (w := .conn t command) (k := fun r => (k r).void) rfl ⟨_, hs, rfl⟩ (fun heq => ht (Option.some.inj heq))
        (h.frame ?_ hclosed fun _ m _ => .inl ?_)
      · rw [resumeConn_eq, Server.setConn_of_ne (Ne.symm ht), (exec_threads c o σ).conns]
      · rw [resumeConn_eq]
        exact (exec_threads c o σ).active m
  | room m task c k o ha =>
    by_cases hs : task.session? = some s
    · obtain ⟨command, rfl⟩ := session?_eq_some hs
      have hruns : σ.Runs (.room m (.dispatch s command)) (.call c k) := ha
      have hmem : Task.dispatch s command ∈ σ.tasks m := by
        simp only [Server.tasks, Room.tasks, ha, Option.map_some, Option.toList_some, List.cons_append, List.mem_cons, true_or]
      have hrelay : σ.relays (.room m) = false := by simp only [Server.relays, ha]
      obtain ⟨rfl, hwaits, v, hv, hpre, hwp⟩ := h.serving (hw.placed.waits m s command hmem) ha
      obtain ⟨hcount, hhands⟩ := own_counts (r := r) (o := o) hruns rfl hrelay
      obtain ⟨v', hrel, hle, hv'⟩ := answer_call (o := o) hv hpre hn fun u id payload hc hid =>
        hok u id payload (hc ▸ hruns.next) (response_not_notice hid) hrelay
      rw [show Event.step (.room m) o = .step (Work.room m (.dispatch s (.request r))).thread o from rfl, hcount, hhands]
      refine ⟨?_, hle⟩
      rw [resumeRoom_eq]
      exact stage_room hv' (hwp _ _ hrel) ((exec_threads c o σ).conns ▸ hwaits) rfl
    · refine beside (w := .room m task) rfl ha hs (h.frame ?_ hclosed fun command' m' _ => ?_)
      · rw [resumeRoom_eq, ← (exec_threads c o σ).conns]
        exact state_resume hs
      · refine active_after (m := m) (k (exec c o σ).1) hs ?_ (fun n hn => ?_) (fun _ _ h0 => ?_) m'
        · rw [resumeRoom_eq]
          exact congrArg Room.active (Server.setRoom_self m _)
        · rw [resumeRoom_eq]
          exact (congrArg Room.active (Server.setRoom_of_ne hn _)).trans ((exec_threads c o σ).active n)
        · cases ha.symm.trans h0
          exact hs
  | timer c k o ht =>
    refine beside (w := .timer) rfl ht (fun h => by cases h) (h.frame ?_ hclosed fun _ m _ => .inl ?_)
    · exact congrArg (fun conns => (conns s).state) (exec_threads c o σ).conns
    · exact (exec_threads c o σ).active m
  | control c k o hc =>
    refine beside (w := .control) rfl hc (fun h => by cases h) (h.frame ?_ hclosed fun _ m _ => .inl ?_)
    · exact congrArg (fun conns => (conns s).state) (exec_threads c o σ).conns
    · exact (exec_threads c o σ).active m

theorem Serving.reachable {ok : Server → Event → Prop} (h : Serving ok s r n handed σ) : Reachable ok σ := by
  induction h with
  | start h hok hq hstep =>
    obtain ⟨σ₀, h₀, hreach⟩ := h
    exact ⟨σ₀, h₀, hreach.next hok hstep⟩
  | next h hok he hstep ih =>
    obtain ⟨σ₀, h₀, hreach⟩ := ih
    exact ⟨σ₀, h₀, hreach.next hok hstep⟩

/-- A connection that starts a request was idle. -/
theorem start_request {rest : List Command} (hq : (σ.conns s).queue = .request r :: rest)
    (hstep : σ.step (.start (.conn s)) = some σ') : (σ.conns s).state = .idle ∧
      σ' = (σ.setConn s { σ.conns s with queue := rest }).resumeConn s (.request r) (route s (.request r)) := by
  simp only [Server.step, Server.start, hq] at hstep
  split at hstep
  · next command rest' hs hcons =>
    cases hcons
    exact ⟨hs, (Option.some.inj hstep).symm⟩
  · cases hstep

/-- A request has a stage from its start on. -/
theorem Serving.stage (h : Serving Deliverable s r n handed σ) : σ.Stage s r n handed ∧ n ≤ 1 := by
  induction h with
  | start h hok hq hstep =>
    have hw : Wired False none _ := wired_reachable (fun hf => hf.elim) h
    obtain ⟨hs, rfl⟩ := start_request hq hstep
    refine ⟨?_, zero_le_one⟩
    rw [resumeConn_eq]
    refine stage_route ⟨rfl, rfl, False.elim⟩ wp_answersRoute (congrArg Conn.state (Server.setConn_self s _)) ?_
    intro m task op ha
    refine no_task hw.placed ?_ task op ha
    simp only [Server.awaited, hs, ConnState.awaits]
  | next h hok he hstep ih => exact stage_step h.reachable hok he (step_cases hstep) ih.1 ih.2

/-- In a run in which answers can be delivered, a request is never answered twice, and when its connection
has finished it, it was answered once, or the session is closed, or MediaServer was handed the offer or the
candidate. -/
theorem answered_once (h : Serving Deliverable s r n handed σ) :
    n ≤ 1 ∧ ((σ.conns s).state = .idle → (responseId r.id).isSome → (σ.sessions s).closed = true ∨ n = 1 ∨
      ((r.id = .mediaOfferRequest ∨ r.id = .mediaCandidateRequest) ∧ handed = true ∧ n = 0)) := by
  obtain ⟨hstage, hn⟩ := h.stage
  refine ⟨hn, fun hidle hresponse => ?_⟩
  cases hstage with
  | routed p v hs hv hwp => cases hidle.symm.trans hs
  | queued m hs hn0 ha => cases hidle.symm.trans hs
  | served m op v hs ha hv hwp => cases hidle.symm.trans hs
  | finished v hs hv hsettled =>
    rcases hsettled.done hresponse with hshut | hone | ⟨hmedia, hhanded, hzero⟩
    · exact .inl (hv.shut hshut)
    · exact .inr (.inl (hv.answers.symm.trans hone))
    · exact .inr (.inr ⟨hmedia, hv.handed.symm.trans hhanded, hv.answers.symm.trans hzero⟩)

end

/-! ## A request that is not answered -/

namespace Scenario

/-- The event starts the next command of the connection. -/
def starts (s : SessionId) : Event → Bool
  | .start (.conn t) => decide (t = s)
  | _ => false

/-- Take those of the given events that are enabled, in turn, and count the answers to the request. -/
def count (ok : Server → Event → Bool) (s : SessionId) (r : Request) :
    List Event → Nat → Bool → Server → Option (Nat × Bool × Server)
  | [], n, handed, σ => some (n, handed, σ)
  | e :: es, n, handed, σ =>
    match σ.step e with
    | none => count ok s r es n handed σ
    | some σ' =>
      if ok σ e && !starts s e then count ok s r es (n + σ.answers s r e) (handed || σ.hands s e) σ' else none

theorem serving_count {check : Server → Event → Bool} {ok : Server → Event → Prop}
    (hok : ∀ σ e, check σ e = true → ok σ e) {s : SessionId} {r : Request} {es : List Event} {n n' : Nat}
    {handed handed' : Bool} {σ σ' : Server} (h : Serving ok s r n handed σ)
    (hcount : count check s r es n handed σ = some (n', handed', σ')) : Serving ok s r n' handed' σ' := by
  induction es generalizing n handed σ with
  | nil =>
    cases hcount
    exact h
  | cons e es ih =>
    simp only [count] at hcount
    split at hcount
    · exact ih h hcount
    · next σ₁ hstep =>
      split at hcount
      · next hc =>
        rw [Bool.and_eq_true, Bool.not_eq_true'] at hc
        refine ih (h.next (hok σ e hc.1) ?_ hstep) hcount
        rintro rfl
        simp [starts] at hc
      · cases hcount

/-- A member of meeting 7 sends a LEAVE; the count of its answers, from its start until the room has carried
it out. -/
def leaveCount (ok : Server → Event → Bool) (body : Payload) : Option (Request × Nat × Bool × Server) :=
  (play Server.step ok (connect 0 ++ asks 0 join ++ work ++ [.frame 0 ⟨.leaveMeetingRequest, body⟩ false])
      server).bind fun σ =>
    match (σ.conns 0).queue with
    | .request r :: _ => (σ.step (.start (.conn 0))).bind fun σ' =>
      (count ok 0 r (List.replicate 12 (.step (.conn 0) {}) ++ work) 0 false σ').map fun x => (r, x)
    | _ => none

theorem serving_leave {check : Server → Event → Bool} {ok : Server → Event → Prop}
    (hok : ∀ σ e, check σ e = true → ok σ e) (hstart : ∀ σ, ok σ (.start (.conn 0))) {body : Payload} {r : Request}
    {n : Nat} {handed : Bool} {σ : Server} (h : leaveCount check body = some (r, n, handed, σ)) :
    Serving ok 0 r n handed σ := by
  obtain ⟨σ₁, hplay, h⟩ := Option.bind_eq_some_iff.mp h
  split at h
  · next r' rest hq =>
    obtain ⟨σ₂, hstep, h⟩ := Option.bind_eq_some_iff.mp h
    obtain ⟨x, hx, h⟩ := Option.map_eq_some_iff.mp h
    cases h
    exact serving_count hok (.start ⟨server, server_initial, reach_play hok hplay⟩ (hstart σ₁) hq hstep) hx
  · cases h

/-- A check of `Deliverable` by computation. -/
def deliverable (σ : Server) : Event → Bool
  | .start (.room m) => match (σ.rooms m).queue with
    | .dispatch _ (.request r) :: _ => decide (fenceFor m r ≠ .throws)
    | _ => true
  | .step t _ => match σ.nextCall? t with
    | some (.send _ _ payload) => decide (σ.styledSize payload ≤ 65535)
    | _ => true
  | _ => true

theorem deliverable_spec (σ : Server) (e : Event) (h : deliverable σ e = true) : Deliverable σ e := by
  cases e with
  | start t =>
    cases t with
    | room m =>
      intro s r rest hq hthrows
      simp only [deliverable, hq, decide_eq_true_eq] at h
      exact absurd hthrows h
    | _ => trivial
  | step t o =>
    intro s id payload hnext _ _
    simp only [deliverable, hnext, decide_eq_true_eq] at h
    exact .inl h
  | _ => trivial

/-- Whether the connection is done with a LEAVE and still open, after `n` answers. -/
def ended (n : Nat) (x : Request × Nat × Bool × Server) : Bool :=
  decide (x.1.id = .leaveMeetingRequest) && decide (x.2.1 = n) && !(x.2.2.2.sessions 0).closed &&
    match (x.2.2.2.conns 0).state with
    | .idle => true
    | _ => false

theorem ended_spec {n : Nat} {x : Request × Nat × Bool × Server} (h : ended n x = true) :
    x.1.id = .leaveMeetingRequest ∧ x.2.1 = n ∧ (x.2.2.2.sessions 0).closed = false ∧
      (x.2.2.2.conns 0).state = .idle := by
  simp only [ended, Bool.and_eq_true, decide_eq_true_eq, Bool.not_eq_true'] at h
  obtain ⟨⟨⟨hid, hn⟩, hopen⟩, h⟩ := h
  split at h
  · next hidle => exact ⟨hid, hn, hopen, hidle⟩
  · cases h

end Scenario

open Scenario in
/-- A member sends a LEAVE whose payload is nested deeper than the parser's limit: the parser throws in the
fence of the room, and nobody answers. -/
theorem leave_unanswered : ¬ ∀ (s : SessionId) (r : Request) (n : Nat) (handed : Bool) (σ : Server),
    Serving (fun _ _ => True) s r n handed σ → n ≤ 1 ∧ ((σ.conns s).state = .idle → (responseId r.id).isSome →
      (σ.sessions s).closed = true ∨ n = 1 ∨
        ((r.id = .mediaOfferRequest ∨ r.id = .mediaCandidateRequest) ∧ handed = true ∧ n = 0)) := by
  intro hall
  have hrun : (leaveCount (fun _ _ => true) .throws).any (ended 0) = true := by decide +kernel
  obtain ⟨⟨r, n, handed, σ⟩, hcount, hend⟩ := (Option.any_eq_true _ _).mp hrun
  obtain ⟨hid, hn, hopen, hidle⟩ := ended_spec hend
  have hserving : Serving (fun _ _ => True) 0 r n handed σ := serving_leave (fun _ _ _ => trivial) (fun _ => trivial) hcount
  rcases (hall 0 r n handed σ hserving).2 hidle (by rw [hid]; rfl) with hclosed | hone | ⟨hmedia, -⟩
  · exact nomatch hopen.symm.trans hclosed
  · exact absurd (hn.symm.trans hone) (by decide)
  · rw [hid] at hmedia
    exact absurd hmedia (by decide)

open Scenario in
/-- A LEAVE of meeting 7 is answered once. -/
theorem leave_answered : ∃ (r : Request) (n : Nat) (handed : Bool) (σ : Server), r.id = .leaveMeetingRequest ∧ n = 1 ∧
    Serving Deliverable 0 r n handed σ ∧ ((σ.conns 0).state = .idle → (responseId r.id).isSome →
      (σ.sessions 0).closed = true ∨ n = 1 ∨
        ((r.id = .mediaOfferRequest ∨ r.id = .mediaCandidateRequest) ∧ handed = true ∧ n = 0)) := by
  have hrun : (leaveCount deliverable (.value (.obj [("meeting_id", .str "7")]))).any (ended 1) = true := by
    decide +kernel
  obtain ⟨⟨r, n, handed, σ⟩, hcount, hend⟩ := (Option.any_eq_true _ _).mp hrun
  obtain ⟨hid, hn, -, -⟩ := ended_spec hend
  have hserving := serving_leave deliverable_spec (fun _ => trivial) hcount
  exact ⟨r, n, handed, σ, hid, hn, hserving, (answered_once hserving).2⟩

end SyncRtc
