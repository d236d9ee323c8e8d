import SyncRtc.Laws.Quiet

/-!
# What the operation of a connection does by itself

A connection's operation routes its command. Either it hands the command to a room, and that is the
last thing it does, or the command belongs to no meeting and is carried out where it stands, as an
operation of room 0: then its session is in no meeting, and it writes to no room, to no member record
and to no other session.

The argument is a weakest precondition over `connMachine`, whose state remembers whether the command
was handed over and whether the session was seen outside every meeting; nobody else can bring it into
one.
-/

set_option autoImplicit false

namespace SyncRtc

open Prog

/-! ## The calls of an operation outside a meeting -/

/-- The calls an operation of session `s` makes outside a meeting. -/
def Outside (s : SessionId) : Call → Prop
  | .query _ q => q.KeepsRooms
  | .setUser t _ _ => t = s
  | .requestClose t => t = s
  | .send t id _ => t = s ∧ id ≠ .meetingMessagePush
  | .reserveUser _ m => m = 0
  | .finishJoin _ m _ => m = 0
  | .getSession _ | .getRoom _ | .lock _ | .reservePool _ | .askAi _ => True
  | _ => False

/-- What is known while a connection's operation runs. -/
structure ConnView where
  /-- The room the command was handed to. -/
  handed : Option MeetingId := none
  /-- The meeting the session was last seen in; 0 is none. Nobody else brings it into another one. -/
  seen : Option MeetingId := none

/-- An operation that has handed its command over is at its end. The room is the one the session is in,
or any for a session that is in none. -/
def connPre (s : SessionId) (command : Command) : Call → ConnView → Prop
  | .submitRoom m t, v =>
    v.handed = none ∧ m ≠ 0 ∧ t = .dispatch s command ∧ (v.seen = some 0 ∨ v.seen = some m)
  | c, v => v.handed = none ∧ Outside s c

/-- What the answers of the calls are known to be: a session outside stays outside, no meeting has the
id 0, and a room takes the end of a connection even when it is full. -/
def connRel (s : SessionId) : (c : Call) → ConnView → c.Res → ConnView → Prop
  | .submitRoom m t, v, accepted, v' =>
    (t = .dispatch s .disconnected → accepted = true) ∧
      v' = if accepted then { v with handed := some m } else v
  | .getSession t, v, session, v' =>
    (t ≠ s → v' = v) ∧
      (t = s → (∀ m, v.seen = some m → session.meetingId = 0 ∨ session.meetingId = m) ∧
        v' = { v with seen := some session.meetingId })
  | .query _ (.getMeetingInfoById m), v, found, v' => v' = v ∧ (m = 0 → ∀ info, found ≠ .found info)
  | .query _ (.getMeetingInfoByCode _), v, found, v' =>
    v' = v ∧ ∀ info, found = some info → info.meetingId ≠ 0
  | _, v, _, v' => v' = v

/-- The machine a connection's operation is verified against. -/
def connMachine (s : SessionId) (command : Command) : Machine calls ConnView :=
  ⟨connPre s command, connRel s⟩

/-- The state of an operation that has found its session outside every meeting. -/
def ConnView.out : ConnView := ⟨none, some 0⟩

section

variable {s : SessionId} {command : Command} {α : Type}

theorem outside_pre {c : Call} (h : Outside s c) : connPre s command c .out := by
  cases c <;> first | exact ⟨rfl, h⟩ | exact h.elim

theorem outside_rel {c : Call} (h : Outside s c) {r : c.Res} {v' : ConnView}
    (hr : connRel s c .out r v') : v' = .out := by
  cases c with
  | submitRoom m t => exact h.elim
  | getSession t =>
    by_cases ht : t = s
    · obtain ⟨hzero, rfl⟩ := hr.2 ht
      rcases hzero 0 rfl with h | h <;> simp only [h, ConnView.out]
    · exact hr.1 ht
  | query site q => cases q <;> first | exact hr | exact hr.1
  | _ => exact hr

/-- An operation all of whose calls may be made outside a meeting stays outside. -/
theorem wp_outside {p : Op α} (hp : p.Makes (Outside s)) :
    p.wp (connMachine s command) (fun _ v => v = .out) .out :=
  hp.wp (fun _ _ hc hv => hv ▸ outside_pre hc)
    (fun _ _ _ _ hc hv hr => outside_rel hc (hv ▸ hr)) rfl

/-- The rule for a call made outside a meeting. -/
theorem wp_out_call {c : Call} {k : c.Res → Op α} {Q : α → ConnView → Prop} (hc : Outside s c)
    (hk : ∀ r, connRel s c .out r .out → (k r).wp (connMachine s command) Q .out) :
    ((call c).bind k).wp (connMachine s command) Q .out := by
  refine ⟨outside_pre hc, fun r v' hr => ?_⟩
  cases outside_rel hc hr
  exact hk r hr

/-- Outside a meeting a session's own meeting id reads as 0. -/
theorem wp_out_getSession {k : Session → Op α} {Q : α → ConnView → Prop}
    (hk : ∀ session : Session, session.meetingId = 0 →
      (k session).wp (connMachine s command) Q .out) :
    ((getSession s).bind k).wp (connMachine s command) Q .out :=
  wp_out_call (c := .getSession s) trivial fun r hr => hk r (((hr.2 rfl).1 0 rfl).elim id id)

/-! ## The handlers outside a meeting -/

theorem makes_send {id : RequestID} (hid : id ≠ .meetingMessagePush) (value : Reply) :
    (send s id value).Makes (Outside s) :=
  ⟨⟨rfl, hid⟩, fun _ => trivial⟩

theorem makes_replyError (id : RequestID) (code : ErrorCode) :
    (replyError s id code).Makes (Outside s) := by
  unfold replyError
  split
  · trivial
  · next response hresponse => exact (makes_send (responseId_ne_push hresponse) _).bind fun _ => trivial

theorem makes_login (body : Payload) : (loginHandler s body).Makes (Outside s) := by
  refine Makes.bind ?_ fun value => (makes_send (by decide) value).bind fun _ => trivial
  unfold loginBody
  repeat' first | exact trivial | exact rfl | split | refine Makes.step ?_ fun _ => ?_

theorem makes_create (body : Payload) : (createMeetingHandler s body).Makes (Outside s) := by
  have hash : ∀ password, (createHash password).Makes (Outside s) := by
    intro password
    unfold createHash
    split
    · trivial
    · exact ⟨trivial, fun _ => trivial⟩
  refine Makes.bind ?_ fun value => (makes_send (by decide) value).bind fun _ => trivial
  unfold createMeetingBody
  repeat' first
    | exact trivial | exact rfl | split | refine Makes.step ?_ fun _ => ?_
    | refine Makes.bind (hash _) fun _ => ?_
    | dsimp only

theorem makes_past : (getPastMeetingHandler s).Makes (Outside s) := by
  refine Makes.bind ?_ fun value => (makes_send (by decide) value).bind fun _ => trivial
  unfold pastMeetingBody
  repeat' first | exact trivial | exact rfl | split | refine Makes.step ?_ fun _ => ?_

theorem makes_ai (body : Payload) : (aiAskHandler s body).Makes (Outside s) := by
  refine Makes.bind ?_ fun value => (makes_send (by decide) value).bind fun _ => trivial
  unfold aiAskBody
  repeat' first | exact trivial | exact rfl | split | refine Makes.step ?_ fun _ => ?_

/-- A payload that names no meeting: what a command carries that was not routed to a room. -/
def NamesNone (body : Payload) : Prop := ∀ root, body.root = .ok root → namedMeeting root = 0

theorem NamesNone.text {body : Payload} (h : NamesNone body) {root : Json} (hroot : body.root = .ok root) :
    root.meetingIdText = none := by
  have h0 := h root hroot
  unfold namedMeeting at h0
  unfold Json.meetingIdText
  split
  · next text htext =>
    rw [htext] at h0
    cases hn : stoullWhole text with
    | none => rfl
    | some n =>
      simp only [hn, Option.getD_some] at h0
      simp [h0]
  · rfl

theorem NamesNone.meetingRequest {body : Payload} (h : NamesNone body) (session : Session) :
    ∃ code, meetingRequest body session = .error code := by
  unfold SyncRtc.meetingRequest
  cases hroot : body.root with
  | error code => exact ⟨code, rfl⟩
  | ok root => exact ⟨.json, by simp only [h.text hroot]⟩

theorem NamesNone.messageRequest {body : Payload} (h : NamesNone body) :
    ∃ reply, messageRequest body = .error reply := by
  unfold SyncRtc.messageRequest
  cases hroot : body.root with
  | error code => exact ⟨_, rfl⟩
  | ok root =>
    simp only [h.text hroot]
    split
    · split
      · exact ⟨_, rfl⟩
      · split
        · next hid => cases hid
        · exact ⟨_, rfl⟩
    · exact ⟨_, rfl⟩

theorem pageRequest_meeting {root : Json} {r : PageRequest} (h : pageRequest root = some r) :
    r.meeting ≠ 0 := by
  unfold pageRequest at h
  split at h
  · split at h
    · cases h
    · next hne =>
      cases h
      rintro rfl
      exact hne (by simp)
  · cases h

theorem mediaMeeting_ne {root : Json} {m : MeetingId} (h : mediaMeeting root = some m) : m ≠ 0 := by
  unfold mediaMeeting at h
  split at h
  · simpa using (Option.filter_eq_some_iff.mp h).2
  · cases h

theorem description_ne {kind sdp : String} {root : Json} {m : MeetingId}
    (h : description kind root = some (m, sdp)) : m ≠ 0 := by
  unfold description at h
  split at h
  · next hm _ _ =>
    split at h
    · cases h
    · cases h
      exact mediaMeeting_ne hm
  · cases h

theorem candidate_ne {root : Json} {m : MeetingId} {text mid : String}
    (h : candidate root = some (m, text, mid)) : m ≠ 0 := by
  unfold candidate at h
  split at h
  · next hm _ _ =>
    split at h
    · cases h
    · cases h
      exact mediaMeeting_ne hm
  · cases h

/-- The rule for a handler that works out an answer and sends it. -/
theorem wp_out_answer {id : RequestID} {p : Op Reply} (hid : id ≠ .meetingMessagePush)
    (hp : p.wp (connMachine s command) (fun _ v => v = .out) .out) :
    (p.bind fun value => (send s id value).bind fun _ => .pure ()).wp (connMachine s command)
      (fun _ v => v = .out) .out := by
  refine wp_seq hp ?_
  rintro value v rfl
  exact wp_outside ((makes_send hid value).bind fun _ => trivial)

theorem wp_out_start (body : Payload) (h : NamesNone body) :
    (startMeetingHandler 0 s body).wp (connMachine s command) (fun _ v => v = .out) .out := by
  refine wp_out_answer (by decide) (wp_out_getSession fun session _ => ?_)
  obtain ⟨code, hcode⟩ := h.meetingRequest session
  simp only [hcode]
  rfl

theorem wp_out_leave (body : Payload) (h : NamesNone body) :
    (leaveMeetingHandler 0 s body).wp (connMachine s command) (fun _ v => v = .out) .out := by
  refine wp_out_answer (by decide) (wp_out_getSession fun session _ => ?_)
  obtain ⟨code, hcode⟩ := h.meetingRequest session
  simp only [hcode]
  rfl

theorem wp_out_end (body : Payload) (h : NamesNone body) :
    (endMeetingHandler 0 s body).wp (connMachine s command) (fun _ v => v = .out) .out := by
  refine wp_out_answer (by decide) (wp_out_getSession fun session _ => ?_)
  obtain ⟨code, hcode⟩ := h.meetingRequest session
  simp only [hcode]
  rfl

theorem wp_out_message (body : Payload) (h : NamesNone body) :
    (sendMeetingMessageHandler 0 s body).wp (connMachine s command) (fun _ v => v = .out) .out := by
  obtain ⟨reply, hreply⟩ := h.messageRequest
  refine wp_out_answer (by decide) ?_
  simp only [sendMessageBody, hreply]
  rfl

theorem wp_out_group (body : Payload) :
    (getMeetingGroupMessagesHandler s body).wp (connMachine s command) (fun _ v => v = .out) .out := by
  refine wp_out_answer (by decide) ?_
  unfold groupMessagesBody
  split
  · rfl
  split
  · rfl
  · next r hr =>
    refine wp_out_getSession fun session _ => ?_
    dsimp only
    split
    · rfl
    refine wp_out_getSession fun session hsession => ?_
    rw [if_pos (hsession ▸ (pageRequest_meeting hr).symm)]
    rfl

theorem wp_out_private (body : Payload) :
    (getMeetingPrivateMessagesHandler s body).wp (connMachine s command) (fun _ v => v = .out) .out := by
  refine wp_out_answer (by decide) ?_
  unfold privateMessagesBody
  split
  · rfl
  split
  · next r peer hr _ =>
    refine wp_out_getSession fun session _ => ?_
    dsimp only
    split
    · rfl
    refine wp_out_getSession fun session hsession => ?_
    rw [if_pos (.inl (hsession ▸ (pageRequest_meeting hr).symm))]
    rfl
  · rfl

/-- Outside a meeting nobody may publish. -/
theorem wp_out_publish (member info : Site) (uid : Uid) {m : MeetingId} (hm : m ≠ 0) :
    (publishChecks member info s uid m).wp (connMachine s command)
      (fun r v => v = .out ∧ ∃ code, r = .error code) .out := by
  unfold publishChecks
  split
  · exact ⟨rfl, _, rfl⟩
  refine wp_out_getSession fun session hsession => ?_
  rw [if_pos (hsession ▸ hm.symm)]
  exact ⟨rfl, _, rfl⟩

theorem wp_out_offer (body : Payload) :
    (mediaOfferHandler s body).wp (connMachine s command) (fun _ v => v = .out) .out := by
  have hbody : (mediaOfferBody s body).wp (connMachine s command) (fun _ v => v = .out) .out := by
    unfold mediaOfferBody
    split
    · rfl
    split
    · rfl
    · next meeting sdp hd =>
      refine wp_out_getSession fun session _ => ?_
      refine wp_seq (wp_out_publish _ _ _ (description_ne hd)) ?_
      rintro r v ⟨rfl, code, rfl⟩
      rfl
  refine wp_seq hbody ?_
  rintro value v rfl
  cases value with
  | none => rfl
  | some value => exact wp_outside ((makes_send (by decide) value).bind fun _ => trivial)

theorem wp_out_candidate (body : Payload) :
    (mediaCandidateHandler s body).wp (connMachine s command) (fun _ v => v = .out) .out := by
  have hbody : (mediaCandidateBody s body).wp (connMachine s command) (fun _ v => v = .out) .out := by
    unfold mediaCandidateBody
    split
    · rfl
    split
    · rfl
    · next meeting text mid hd =>
      refine wp_out_getSession fun session _ => ?_
      refine wp_seq (wp_out_publish _ _ _ (candidate_ne hd)) ?_
      rintro r v ⟨rfl, code, rfl⟩
      rfl
  refine wp_seq hbody ?_
  rintro value v rfl
  cases value with
  | none => rfl
  | some value => exact wp_outside ((makes_send (by decide) value).bind fun _ => trivial)

theorem wp_out_answerOffer (body : Payload) :
    (mediaAnswerHandler s body).wp (connMachine s command) (fun _ v => v = .out) .out := by
  unfold mediaAnswerHandler
  split
  · rfl
  split
  · rfl
  · next meeting sdp hd =>
    refine wp_out_getSession fun session _ => ?_
    dsimp only
    split
    · rfl
    refine wp_out_getSession fun session hsession => ?_
    rw [if_pos (hsession ▸ (description_ne hd).symm)]
    rfl

theorem wp_out_lost :
    (sessionDisconnectedHandler 0 s).wp (connMachine s command) (fun _ v => v = .out) .out := by
  refine wp_out_getSession fun session hsession => ?_
  simp only [hsession, if_true]
  rfl

/-- A RESUME outside a meeting looks for the meeting 0, which does not exist. -/
theorem wp_out_resume (body : Payload) :
    (joinMeetingHandler 0 s true body).wp (connMachine s command) (fun _ v => v = .out) .out := by
  have hinfo : ∀ code, (joinInfo 0 true code).wp (connMachine s command)
      (fun r v => v = .out ∧ ∃ reply, r = .error reply) .out := by
    intro code
    refine wp_out_call (c := .query .joinInfo (.getMeetingInfoById 0)) trivial fun found hr => ?_
    cases found with
    | found info => exact absurd rfl (hr.2 rfl info)
    | missing => exact ⟨rfl, _, rfl⟩
    | unavailable => exact ⟨rfl, _, rfl⟩
  have hbody : (joinBody 0 s true body).wp (connMachine s command) (fun _ v => v = .out) .out := by
    unfold joinBody
    split
    · rfl
    refine wp_out_getSession fun session _ => ?_
    dsimp only
    split
    · rfl
    refine wp_seq (P := fun r v => v = .out ∧ ∃ reply, r = .error reply) ?_ ?_
    · refine wp_seq (hinfo _) ?_
      rintro r v ⟨rfl, reply, rfl⟩
      exact ⟨rfl, reply, rfl⟩
    · rintro r v ⟨rfl, reply, rfl⟩
      rfl
  refine wp_seq hbody ?_
  rintro value v rfl
  refine wp_outside ((makes_send (by decide) value).bind fun queued => ?_)
  split
  · exact ⟨rfl, fun _ => trivial⟩
  · trivial

/-! ## Dispatch and route -/

theorem wp_out_handle (r : Request) (hjoin : r.id ≠ .joinMeetingRequest)
    (h : isOrdinary r.id = false → NamesNone r.body) :
    (handle 0 s r).wp (connMachine s command) (fun _ v => v = .out) .out := by
  obtain ⟨id, body⟩ := r
  cases id with
  | authLoginRequest => exact wp_outside (makes_login body)
  | aiAskRequest => exact wp_outside (makes_ai body)
  | createMeetingRequest => exact wp_outside (makes_create body)
  | pastMeetingRequest => exact wp_outside makes_past
  | joinMeetingRequest => exact absurd rfl hjoin
  | resumeMeetingRequest => exact wp_out_resume body
  | startMeetingRequest => exact wp_out_start body (h rfl)
  | leaveMeetingRequest => exact wp_out_leave body (h rfl)
  | endMeetingRequest => exact wp_out_end body (h rfl)
  | sendMeetingMessageRequest => exact wp_out_message body (h rfl)
  | getMeetingGroupMessagesRequest => exact wp_out_group body
  | getMeetingPrivateMessagesRequest => exact wp_out_private body
  | mediaOfferRequest => exact wp_out_offer body
  | mediaCandidateRequest => exact wp_out_candidate body
  | mediaRenegotiationAnswerRequest => exact wp_out_answerOffer body
  | _ => rfl

theorem wp_out_reserved (r : Request) (hjoin : r.id ≠ .joinMeetingRequest)
    (h : isOrdinary r.id = false → NamesNone r.body) :
    (handleReserved 0 s r).wp (connMachine s command) (fun _ v => v = .out) .out := by
  unfold handleReserved
  split
  · refine wp_out_getSession fun session _ => ?_
    refine wp_out_call (c := .reserveUser session.userId 0) rfl fun reserved _ => ?_
    split
    · refine wp_seq (wp_out_handle r hjoin h) ?_
      rintro _ v rfl
      refine wp_out_getSession fun session' _ => ?_
      exact wp_outside ⟨rfl, fun _ => trivial⟩
    · exact wp_outside (makes_replyError _ _)
  · exact wp_out_handle r hjoin h

/-- What a command must be to be carried out outside a meeting. -/
def Command.Ordinary (command : Command) : Prop :=
  ∀ r, command = .request r →
    r.id ≠ .joinMeetingRequest ∧ (isOrdinary r.id = false → NamesNone r.body)

/-- A command that belongs to no meeting is carried out without touching one. -/
theorem wp_out_dispatch (h : command.Ordinary) :
    (dispatch 0 s command).wp (connMachine s command) (fun _ v => v = .out) .out := by
  cases command with
  | disconnected => exact wp_out_call (c := .reservePool true) trivial fun _ _ => wp_out_lost
  | request r =>
    obtain ⟨hjoin, hnone⟩ := h r rfl
    have hpass : fenceFor 0 r = .pass := if_neg fun h => h.1 rfl
    have hact : mayAct 0 s r = .pure true := if_neg fun h => h.1 rfl
    simp only [dispatch, dispatchRequest, admitRequest, hpass, hact, bind_eq, bind_pure_left, if_true]
    split
    · refine wp_out_getSession fun session _ => ?_
      split
      · rfl
      · refine wp_seq (P := fun _ v => v = .out) ?_ ?_
        · unfold reserveFor
          split
          · rfl
          · exact wp_outside ⟨trivial, fun _ => trivial⟩
        · rintro reserved v rfl
          split
          · exact wp_out_reserved r hjoin hnone
          · exact wp_outside (makes_replyError _ _)
    · rfl

/-! ## Route -/

/-- The rule for a call made before the command is handed over. -/
theorem wp_conn_call {c : Call} {k : c.Res → Op α} {Q : α → ConnView → Prop} {v : ConnView}
    (hv : v.handed = none) (hc : Outside s c)
    (hk : ∀ r v', v'.handed = none → connRel s c v r v' → (k r).wp (connMachine s command) Q v') :
    ((call c).bind k).wp (connMachine s command) Q v := by
  refine ⟨?_, fun r v' hr => hk r v' ?_ hr⟩
  · cases c <;> first | exact ⟨hv, hc⟩ | exact hc.elim
  · cases c with
    | submitRoom m t => exact hc.elim
    | getSession t =>
      by_cases ht : t = s
      · rw [(hr.2 ht).2, hv]
      · rw [hr.1 ht, hv]
    | query site q => cases q <;> first | (cases hr; exact hv) | (cases hr.1; exact hv)
    | _ => cases hr; exact hv

/-- Reading the session before the command is handed over: its meeting is noticed. -/
theorem wp_conn_getSession {k : Session → Op α} {Q : α → ConnView → Prop} {v : ConnView}
    (hv : v.handed = none)
    (hk : ∀ session : Session, (k session).wp (connMachine s command) Q ⟨none, some session.meetingId⟩) :
    ((getSession s).bind k).wp (connMachine s command) Q v := by
  refine wp_conn_call (c := .getSession s) hv trivial fun session v' _ hr => ?_
  obtain ⟨-, rfl⟩ := hr.2 rfl
  rw [hv]
  exact hk session

/-- What is known of a target: room 0 is the one for an ordinary command of a session outside, and a
session in a meeting is sent to its own. -/
def Routed (command : Command) (m : MeetingId) (v : ConnView) : Prop :=
  (m = 0 → v = .out ∧ command.Ordinary) ∧ (v.seen = some 0 ∨ v.seen = some m)

/-- Where a command is sent. -/
theorem wp_routeTarget {v : ConnView} (hv : v.handed = none) :
    (routeTarget s command).wp (connMachine s command)
      (fun r v' => v'.handed = none ∧ (∀ m, r = .ok m → Routed command m v') ∧
        (command = .disconnected → ∃ m, r = .ok m)) v := by
  have herror : ∀ {v' : ConnView} {code : ErrorCode} {r : Request}, v'.handed = none →
      v'.handed = none ∧ (∀ m, (.error code : Except ErrorCode MeetingId) = .ok m → Routed (.request r) m v') ∧
        (Command.request r = .disconnected → ∃ m, (.error code : Except ErrorCode MeetingId) = .ok m) :=
    fun h => ⟨h, nofun, nofun⟩
  cases command with
  | disconnected =>
    refine wp_conn_getSession hv fun session => ⟨rfl, fun m hm => ?_, fun _ => ⟨_, rfl⟩⟩
    cases hm
    refine ⟨fun h0 => ⟨?_, fun r hr => by cases hr⟩, .inr rfl⟩
    rw [h0]
    rfl
  | request r =>
    refine wp_conn_getSession hv fun session => ?_
    dsimp only
    split
    · split
      · exact herror rfl
      · next hzero =>
      have hzero : session.meetingId = 0 := not_not.mp hzero
      rw [hzero]
      refine wp_seq (P := fun _ v => v = .out) ?_ ?_
      · exact wp_outside (makes_perform _ |>.mpr trivial)
      rintro session' _ rfl
      split
      · exact herror rfl
      split
      · exact herror rfl
      refine wp_out_call (c := .reservePool false) trivial fun reserved _ => ?_
      split
      · exact herror rfl
      refine wp_out_call (c := .query .routeCode (.getMeetingInfoByCode _)) trivial fun info hr => ?_
      cases info with
      | none => exact herror rfl
      | some info =>
        refine ⟨rfl, fun m hm => ?_, fun hd => by cases hd⟩
        cases hm
        exact ⟨fun h0 => absurd h0 (hr.2 info rfl), .inl rfl⟩
    · next hjoin =>
      split
      · next h0 =>
        rw [h0.1]
        have hnames : ∀ m, (∀ root, r.body.root = .ok root → m = namedMeeting root) →
            Routed (.request r) m .out := by
          intro m hm
          refine ⟨fun hzero => ⟨rfl, fun r' hr => ?_⟩, .inl rfl⟩
          cases hr
          exact ⟨hjoin, fun _ root hroot => (hm root hroot).symm.trans hzero⟩
        split
        · exact herror rfl
        · next hbody =>
          refine ⟨rfl, fun m hm => ?_, fun hd => by cases hd⟩
          cases hm
          exact hnames 0 fun root hroot => by rw [hbody] at hroot; cases hroot
        · next root hbody =>
          refine ⟨rfl, fun m hm => ?_, fun hd => by cases hd⟩
          cases hm
          refine hnames _ fun root' hroot => ?_
          rw [hbody] at hroot
          unfold Payload.root at hroot
          dsimp only at hroot
          split at hroot
          · next hobject =>
            cases hroot
            rw [if_pos hobject]
          · cases hroot
      · next h0 =>
        refine ⟨rfl, fun m hm => ?_, fun hd => by cases hd⟩
        cases hm
        refine ⟨fun hzero => ⟨?_, fun r' hr => ?_⟩, .inr rfl⟩
        · rw [hzero]
          rfl
        · cases hr
          refine ⟨hjoin, fun hord => absurd ⟨hzero, ?_⟩ h0⟩
          simpa using hord

/-- What `route` does with the place it has found for a command. -/
def deliver (s : SessionId) (command : Command) : Except ErrorCode MeetingId → Op (Option MeetingId)
  | .error code => (routeError s code command).bind fun _ => .pure none
  | .ok meeting =>
    if meeting = 0 then (dispatch 0 s command).bind fun _ => .pure none
    else (submitRoom meeting (.dispatch s command)).bind fun accepted =>
      if accepted then .pure (some meeting)
      else (routeError s .network command).bind fun _ => .pure none

theorem route_disconnected (s : SessionId) :
    route s .disconnected = (routeTarget s .disconnected).bind (deliver s .disconnected) := by
  refine congrArg (Prog.bind (routeTarget s .disconnected)) (funext fun target => ?_)
  cases target <;> rfl

/-- A request of a connection that is closed is dropped. -/
theorem route_request (s : SessionId) (r : Request) :
    route s (.request r) = (getSession s).bind fun session =>
      if session.closed then .pure none else (routeTarget s (.request r)).bind (deliver s (.request r)) := by
  refine congrArg (Prog.bind _) (funext fun session => ?_)
  cases session.closed with
  | true => rfl
  | false =>
    refine congrArg (Prog.bind (routeTarget s (.request r))) (funext fun target => ?_)
    cases target <;> rfl

/-- How the operation of a connection ends: with the room it has handed its command to, if it has. The
end of a connection that is not handed over was that of a session in no meeting. -/
def ConnEnd (command : Command) (r : Option MeetingId) (v : ConnView) : Prop :=
  r = v.handed ∧ (command = .disconnected → r = none → v.seen = some 0)

theorem wp_route (s : SessionId) (command : Command) :
    (route s command).wp (connMachine s command) (ConnEnd command) {} := by
  have herror : ∀ (v : ConnView) (code : ErrorCode) (r : Request), v.handed = none →
      ((routeError s code (.request r)).bind fun _ => (Prog.pure none : Op (Option MeetingId))).wp
        (connMachine s (.request r)) (ConnEnd (.request r)) v := by
    intro v code r hv
    simp only [routeError, replyError]
    split
    · exact ⟨hv.symm, fun hd => by cases hd⟩
    · next response hresponse =>
      exact wp_conn_call (c := .send s _ _) hv ⟨rfl, responseId_ne_push hresponse⟩
        fun _ v' hv' _ => ⟨hv'.symm, fun hd => by cases hd⟩
  have hrest : ∀ v : ConnView, v.handed = none →
      ((routeTarget s command).bind (deliver s command)).wp (connMachine s command) (ConnEnd command) v := by
    intro v hv
    refine wp_seq (wp_routeTarget hv) ?_
    rintro target v' ⟨hv', hrouted, hfound⟩
    cases target with
    | error code =>
      cases command with
      | disconnected =>
        obtain ⟨m, hm⟩ := hfound rfl
        cases hm
      | request r => exact herror v' code r hv'
    | ok meeting =>
      obtain ⟨hzero, hseen⟩ := hrouted meeting rfl
      simp only [deliver]
      split
      · next h0 =>
        obtain ⟨rfl, hord⟩ := hzero h0
        refine wp_seq (wp_out_dispatch hord) ?_
        rintro _ v rfl
        exact ⟨rfl, fun _ _ => rfl⟩
      · next h0 =>
        refine ⟨⟨hv', h0, rfl, hseen⟩, fun accepted v'' hr => ?_⟩
        obtain ⟨hterminal, rfl⟩ := hr
        cases accepted with
        | true => exact ⟨rfl, fun _ hn => by cases hn⟩
        | false =>
          cases command with
          | disconnected => exact absurd (hterminal rfl) Bool.false_ne_true
          | request r => exact herror v' _ r hv'
  cases command with
  | disconnected => exact hrest {} rfl
  | request r =>
    rw [route_request]
    refine wp_conn_getSession rfl fun session => ?_
    cases session.closed with
    | true => exact ⟨rfl, fun hd => by cases hd⟩
    | false => exact hrest _ rfl

end

end SyncRtc
