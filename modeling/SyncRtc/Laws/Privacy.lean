import SyncRtc.Laws.Footprints
import SyncRtc.Laws.Running

/-!
# Whom a private message reaches

A message is pushed as the row the store answers, to the sessions the request names. On a new message the
two agree. On a repetition of a `client_msg_id` the store answers the row that has it, whatever its
receiver is. The law of this module: in a run whose requests never repeat the id of a private message for
another receiver, every push of a private message goes to its stored sender or its stored receiver.

The law rests on two facts about logins: a session that has a user keeps it, and a user id is an `int`, so
that `static_cast<int>` of a target that is a member changes nothing.
-/

set_option autoImplicit false

namespace SyncRtc

open Prog

/-- The user ids an `int` holds. -/
def maxUid : Nat := 2 ^ 31

/-- What is known of the users of sessions: the user a session was last seen with. -/
abbrev Users := SessionId → Option Uid

/-- The frame shows a private message to its sender or to its receiver alone: `u` is the user it is for. -/
def Discreet (payload : Reply) (u : Uid) : Prop :=
  ∀ r, (Json.obj payload).get "receiver_user_id" = .int r →
    u ≠ 0 ∧ ((Json.obj payload).get "sender_user_id" = .int u ∨ r = u)

/-- A login keeps the user a session has; whoever becomes a member has an id that is an `int`; and a push
of a private message is for its sender or its receiver. -/
def privacyPre (w : Work) : Call → Users → Prop
  | .setUser t u _, v => w.session? = some t ∧ u < maxUid ∧ (v t = some 0 ∨ v t = some u)
  | .query _ (.sAdd _ u), _ => u < maxUid
  | .send t id payload, v => id = .meetingMessagePush → ∃ u, v t = some u ∧ Discreet payload u
  | _, _ => True

def privacyRel (w : Work) : (c : Call) → Users → c.Res → Users → Prop
  | .getSession t, v, session, v' =>
    (∀ u, v t = some u → (w.session? = some t ∨ u ≠ 0) → session.userId = u) ∧ session.userId < maxUid ∧
      v' = Function.update v t (some session.userId)
  | .setUser t u _, v, _, v' => v' = Function.update v t (some u)
  | .query _ (.sIsMember _ u), v, found, v' => v' = v ∧ (found = true → u < maxUid)
  | .query _ (.saveMeetingMessage message), v, saved, v' =>
    v' = v ∧ ∀ row, saved = some row → row.senderUserId = message.senderUserId ∧
      (row.receiverUserId = none ∨ row.receiverUserId = message.receiverUserId)
  | _, v, _, v' => v' = v

def privacyMachine (w : Work) : Machine calls Users := ⟨privacyPre w, privacyRel w⟩

/-- The calls the law asks nothing of. -/
def Plain : Call → Prop
  | .setUser _ _ _ => False
  | .query _ (.sAdd _ _) => False
  | .send _ id _ => id ≠ .meetingMessagePush
  | _ => True

section

variable {w : Work} {v : Users} {m : MeetingId} {s : SessionId} {α : Type}

theorem plain_pre {c : Call} (h : Plain c) : privacyPre w c v := by
  cases c with
  | setUser t u token => exact h.elim
  | send t id payload => exact fun hid => absurd hid h
  | query site q => cases q <;> first | exact trivial | exact h.elim
  | _ => exact trivial

theorem wp_plain {p : Op α} (hp : p.Makes Plain) : p.wp (privacyMachine w) (fun _ _ => True) v :=
  hp.wp (fun _ _ hc _ => plain_pre hc) (fun _ _ _ _ _ _ _ => trivial) trivial

/-- The rule for a sequence whose first part is plain: nothing is known after it. -/
theorem wp_plainPass {β : Type} {p : Op β} {k : β → Op α} {Q : α → Users → Prop} (hp : p.Makes Plain)
    (hk : ∀ b v', (k b).wp (privacyMachine w) Q v') : (p.bind k).wp (privacyMachine w) Q v :=
  wp_seq (wp_plain hp) fun b v' _ => hk b v'

theorem wp_plainCall {c : Call} {k : c.Res → Op α} {Q : α → Users → Prop} (hc : Plain c)
    (hk : ∀ r v', (k r).wp (privacyMachine w) Q v') : ((call c).bind k).wp (privacyMachine w) Q v :=
  ⟨plain_pre hc, fun r v' _ => hk r v'⟩

theorem plain_of_quiet {p : Op α} (hp : p.Makes Quiet) : p.Makes Plain := by
  refine hp.mono fun c hc => ?_
  cases c with
  | query site q => cases q <;> first | exact trivial | exact hc.elim
  | _ => first | exact trivial | exact hc

theorem plain_of_inner {p : Op α} (hp : p.Makes Inner) : p.Makes Plain := by
  refine hp.mono fun c hc => ?_
  cases c with
  | send t id payload => exact hc.2
  | query site q => cases q <;> exact hc
  | _ => exact hc

theorem plain_of_silent {p : Op α} (hp : p.Makes Silent) : p.Makes Plain := plain_of_quiet (makes_quiet hp)

theorem plain_answer {p : Op Reply} {id : RequestID} (hid : id ≠ .meetingMessagePush) (h : p.Makes Inner) :
    (p.bind fun value => (send s id value).bind fun _ => .pure ()).Makes Plain :=
  (plain_of_inner h).bind fun _ => Makes.step hid fun _ => trivial

/-! ## Logins and entries -/

/-- The user of a session, as it is read. -/
theorem wp_reads {t : SessionId} {k : Session → Op α} {Q : α → Users → Prop}
    (hk : ∀ session : Session, (∀ u, v t = some u → (w.session? = some t ∨ u ≠ 0) → session.userId = u) →
      session.userId < maxUid → (k session).wp (privacyMachine w) Q (Function.update v t (some session.userId))) :
    ((getSession t).bind k).wp (privacyMachine w) Q v := by
  refine wp_step trivial fun session v' hrel => ?_
  obtain ⟨hsame, hlt, rfl⟩ := hrel
  exact hk session hsame hlt

/-- A user id the login record names is an `int`. -/
theorem loginOwner_lt {info : Payload} {owner : Int} (h : loginOwner info = .ok owner) : owner.toNat < maxUid := by
  have hint : ∀ {j : Json} {i : Int}, j.asInt = some i → i.toNat < maxUid := by
    intro j i hj
    unfold maxUid
    cases j with
    | null => cases hj; decide
    | bool b => cases b <;> cases hj <;> decide
    | int n =>
      simp only [Json.asInt, Option.ite_none_right_eq_some, Option.some.injEq] at hj
      omega
    | real q =>
      simp only [Json.asInt, Option.ite_none_right_eq_some, Option.some.injEq] at hj
      obtain ⟨⟨-, hq⟩, rfl⟩ := hj
      have hceil : ⌈q⌉ ≤ 2 ^ 31 - 1 := Int.ceil_le.mpr (by push_cast; linarith)
      have hfloor := Int.floor_le_ceil q
      split <;> omega
    | str s => cases hj
    | arr items => cases hj
    | obj fields => cases hj
  unfold loginOwner at h
  split at h
  · cases h
  · cases h
  · next fields =>
    cases hi : (Json.get (.obj fields) "uid").asInt with
    | none => rw [hi] at h; cases h
    | some i =>
      rw [hi] at h
      cases h
      exact hint hi
  · cases h; decide
  · cases h

theorem wp_privateLogin (hs : w.session? = some s) (body : Payload) :
    (loginHandler s body).wp (privacyMachine w) (fun _ _ => True) v := by
  refine wp_seq (P := fun _ _ => True) ?_ fun value v' _ => wp_plain (Makes.step (by exact fun h => nomatch h) fun _ => trivial)
  unfold loginBody
  split
  · trivial
  split
  · trivial
  next r _ =>
  refine wp_plainCall (c := Call.query .loginAuth _) trivial fun found v₁ => ?_
  split
  · trivial
  · trivial
  split
  · trivial
  next owner howner =>
  refine wp_reads fun session hsame hlt => ?_
  dsimp only
  split
  · trivial
  next hkeep =>
  push Not at hkeep
  refine wp_step (m := privacyMachine w) (c := Call.query .loginUser (.getUserInfo r.email)) trivial fun user v₂ hv₂ => ?_
  have hv₂ : v₂ = _ := hv₂
  subst hv₂
  split
  · trivial
  split
  · trivial
  refine wp_step (m := privacyMachine w) (c := Call.query .loginRecent (.getMeetingRecently owner.toNat)) trivial fun rows v₃ hv₃ => ?_
  have hv₃ : v₃ = _ := hv₃
  subst hv₃
  split
  · trivial
  refine wp_reads fun session' hsame' hlt' => ?_
  have huser : session'.userId = session.userId := hsame' _ (Function.update_self _ _ _) (.inl hs)
  split
  · trivial
  refine ⟨⟨hs, loginOwner_lt howner, ?_⟩, fun _ _ _ => trivial⟩
  rw [Function.update_self, huser]
  rcases Nat.eq_zero_or_pos session.userId with h0 | hpos
  · exact .inl (congrArg some h0)
  · exact .inr (congrArg some ((hkeep.2.2 hpos.ne') ▸ (Int.toNat_natCast session.userId)).symm)

/-- JOIN and RESUME put the user of the session into the member set. -/
theorem wp_privateJoin (resuming : Bool) (body : Payload) :
    (joinMeetingHandler m s resuming body).wp (privacyMachine w) (fun _ _ => True) v := by
  have hsend : ∀ value, (send s (if resuming then .resumeMeetingResponse else .joinMeetingResponse) value).Makes Plain :=
    fun value => ⟨by cases resuming <;> exact fun h => (nomatch h), fun _ => trivial⟩
  have store : ∀ uid a value v', uid < maxUid →
      (joinStore m uid resuming a value).wp (privacyMachine w) (fun _ _ => True) v' := by
    intro uid a value v' huid
    refine wp_step (m := privacyMachine w) (c := Call.query .joinAdd (.sAdd m uid)) huid fun added v' _ => wp_plain ?_
    repeat' first
      | exact trivial | split | refine Makes.bind (plain_of_inner (inner_joinUndo _ _)) fun _ => ?_
      | refine Makes.step trivial fun _ => ?_
  refine wp_seq (P := fun _ _ => True) ?_ fun value v' _ => wp_plain ((hsend value).bind fun queued => ?_)
  · unfold joinBody
    split
    · trivial
    refine wp_reads fun session _ hlt => ?_
    dsimp only
    split
    · trivial
    refine wp_plainPass (plain_of_inner (inner_joinChecks session.userId resuming _ _)) fun checked v₁ => ?_
    split
    · trivial
    refine wp_plainPass (plain_of_silent (silent_joinPlace m _ resuming _ _)) fun place v₂ => ?_
    split
    · trivial
    refine wp_plainPass (plain_of_inner (inner_joinTicket session.userId resuming)) fun ticket v₃ => ?_
    split
    · trivial
    refine wp_seq (store session.userId _ _ _ hlt) fun stored v₄ _ => ?_
    split
    · trivial
    · exact wp_plain (plain_of_inner ((inner_joinBind _ _ _ _).bind fun _ => inner_joinAnswer _ _ _ _))
  · split
    · exact ⟨trivial, fun _ => trivial⟩
    · trivial

/-! ## Messages -/

/-- A private target is no one's zero. -/
theorem messageRequest_target {body : Payload} {r : MessageRequest} {target : Nat}
    (h : messageRequest body = .ok r) (htarget : r.target = some target) : target ≠ 0 := by
  have key : ∀ {chatType : String} {item : Json}, messageTarget chatType item = some (some target) → target ≠ 0 := by
    intro chatType item ht
    unfold messageTarget at ht
    split at ht
    · split at ht <;> cases ht
    split at ht
    · cases ht
    split at ht
    · cases ht
    obtain ⟨id, -, hid⟩ := Option.bind_eq_some_iff.mp ht
    split at hid
    · cases hid
    · next hne =>
      cases hid
      exact hne
  unfold messageRequest at h
  split at h
  · cases h
  split at h
  · split at h
    · cases h
    split at h
    · next t id htarget' _ =>
      cases h
      cases htarget
      exact key htarget'
    · cases h
  · cases h

/-- What SEND knows of its sender and its target once its checks have passed. -/
def Addressed (uid : Uid) (r : MessageRequest) : Prop := uid ≠ 0 ∧ ∀ target, r.target = some target → target < maxUid

theorem wp_messageChecks (uid : Uid) (r : MessageRequest) :
    (messageChecks s uid r).wp (privacyMachine w) (fun result _ => ∀ name, result = .ok name → Addressed uid r) v := by
  have ended : ∀ (code : ErrorCode) (v' : Users), (Prog.pure (.error code) : Op (Except ErrorCode String)).wp
      (privacyMachine w) (fun result _ => ∀ name, result = .ok name → Addressed uid r) v' := fun _ _ _ h => nomatch h
  unfold messageChecks
  split
  · exact ended _ _
  next hne =>
  refine wp_reads fun session _ _ => ?_
  split
  · exact ended _ _
  refine wp_plainCall (c := Call.query .messageSender (.sIsMember r.meeting uid)) trivial fun sender v₁ => ?_
  split
  · exact ended _ _
  -- nothing of what is left of the checks bears on whom the message is for
  split
  · next htarget =>
    have haddressed : Addressed uid r := ⟨hne, fun target ht => nomatch htarget.symm.trans ht⟩
    refine wp_mono (fun _ _ _ _ _ => haddressed) (wp_plain ?_)
    repeat' first | exact trivial | split | refine Makes.step trivial fun _ => ?_
  · next target htarget =>
    refine wp_step (m := privacyMachine w) (c := Call.query .messageTarget (.sIsMember r.meeting target)) trivial
      fun found v₂ hrel => ?_
    dsimp only
    split
    · exact ended _ _
    · next hfound =>
      have haddressed : Addressed uid r := by
        refine ⟨hne, fun target' ht => ?_⟩
        cases htarget.symm.trans ht
        exact hrel.2 (by simpa using hfound)
      refine wp_mono (fun _ _ _ _ _ => haddressed) (wp_plain ?_)
      repeat' first | exact trivial | split | refine Makes.step trivial fun _ => ?_

/-- The receiver of a message, as it is shown. -/
theorem receiver_json (message : MeetingMessageInfo) (name : String) (mine : Bool) :
    (Json.obj (meetingMessageToJson message name mine)).get "receiver_user_id" =
      message.receiverUserId.elim .null fun u => .int u := rfl

theorem sender_json (message : MeetingMessageInfo) (name : String) (mine : Bool) :
    (Json.obj (meetingMessageToJson message name mine)).get "sender_user_id" = .int message.senderUserId := rfl

/-- The row of a message is shown to its own sender and receiver, when the store did not answer another one. -/
theorem discreet_row {uid user : Uid} {r : MessageRequest} {row : MeetingMessageInfo} {name : String}
    (ha : Addressed uid r) (htarget : ∀ target, r.target = some target → target ≠ 0)
    (hsender : row.senderUserId = uid) (hreceiver : row.receiverUserId = none ∨ row.receiverUserId = r.target)
    (hfor : r.isFor uid user = true) : Discreet (meetingMessageToJson row name true) user := by
  intro u hu
  rw [receiver_json] at hu
  rw [sender_json, hsender]
  cases hrow : row.receiverUserId with
  | none =>
    rw [hrow] at hu
    cases hu
  | some receiver =>
    rw [hrow] at hu
    obtain rfl : (receiver : Int) = u := Json.int.inj hu
    have ht : r.target = some receiver := by
      rcases hreceiver with h | h
      · exact nomatch hrow.symm.trans h
      · exact h.symm.trans hrow
    have hlt := ha.2 receiver ht
    have hmod : receiver % 2 ^ 32 = receiver := Nat.mod_eq_of_lt (by unfold maxUid at hlt; omega)
    simp only [MessageRequest.isFor, ht, hmod, Bool.or_eq_true, decide_eq_true_eq] at hfor
    rcases hfor with rfl | rfl
    · exact ⟨ha.1, .inl rfl⟩
    · exact ⟨htarget user ht, .inr rfl⟩

theorem wp_privateMessage (body : Payload) :
    (sendMeetingMessageHandler m s body).wp (privacyMachine w) (fun _ _ => True) v := by
  have hanswer : ∀ value v', ((send s .sendMeetingMessageResponse value).bind fun _ => .pure ()).wp
      (privacyMachine w) (fun _ _ => True) v' :=
    fun value v' => wp_plain (Makes.step (by exact fun h => nomatch h) fun _ => trivial)
  refine wp_seq (P := fun _ _ => True) ?_ fun value v' _ => hanswer value v'
  unfold sendMessageBody
  split
  · trivial
  next r hr =>
  refine wp_reads fun session _ _ => wp_seq (wp_messageChecks session.userId r) fun checked v₁ hchecked => ?_
  split
  · trivial
  next name =>
  have haddressed := hchecked name rfl
  refine wp_step (m := privacyMachine w) (c := Call.query .messageSave (.saveMeetingMessage (r.row session.userId)))
    trivial fun saved v₂ hsaved => ?_
  split
  · trivial
  next row =>
  obtain ⟨hsender, hreceiver⟩ := hsaved.2 row rfl
  refine wp_seq (P := fun _ _ => True) ?_ fun _ _ _ => trivial
  have round : ∀ item v', (notifyOne .meetingMessagePush (meetingMessageToJson row name true)
      (r.isFor session.userId) item).wp (privacyMachine w) (fun _ _ => True) v' := by
    intro item v'
    refine wp_plainCall (c := Call.lock item) trivial fun locked v₃ => ?_
    split
    · trivial
    refine wp_reads fun other _ _ => ?_
    dsimp only
    split
    · next hfor =>
      refine ⟨fun _ => ⟨other.userId, Function.update_self _ _ _, ?_⟩, fun _ _ _ => trivial⟩
      exact discreet_row haddressed (fun target => messageRequest_target hr) hsender hreceiver hfor
    · trivial
  refine wp_plainCall (c := Call.getRoom m) trivial fun data v₃ => ?_
  refine wp_seq (wp_select (P := fun _ _ => True) (fun item _ v' _ => wp_mono (fun _ _ _ => ⟨trivial, trivial⟩) (round item v')) trivial)
    fun kept v₄ _ => ?_
  exact wp_plain (Makes.step trivial fun _ => ⟨trivial, fun _ => trivial⟩)

/-! ## Dispatch and routing -/

theorem wp_privateHandle (hs : w.session? = some s) (r : Request) :
    (handle m s r).wp (privacyMachine w) (fun _ _ => True) v := by
  unfold handle
  split
  · exact wp_privateLogin hs _
  · exact wp_plain (plain_of_quiet (quiet_answer s (by decide) (silent_ai s _)))
  · exact wp_plain (plain_of_quiet (quiet_answer s (by decide) (silent_create s _)))
  · exact wp_plain (plain_of_quiet (quiet_answer s (by decide) (silent_past s)))
  · exact wp_privateJoin false _
  · exact wp_privateJoin true _
  · exact wp_plain (plain_answer (by decide) (inner_start _))
  · exact wp_plain (plain_answer (by decide) (inner_leave _))
  · exact wp_plain (plain_answer (by decide) (inner_end _))
  · exact wp_privateMessage _
  · exact wp_plain (plain_of_quiet (quiet_answer s (by decide) (silent_group s _)))
  · exact wp_plain (plain_of_quiet (quiet_answer s (by decide) (silent_private s _)))
  · exact wp_plain (plain_of_quiet (quiet_offer s _))
  · exact wp_plain (plain_of_quiet (quiet_candidate s _))
  · exact wp_plain (plain_of_silent (silent_answerOffer s _))
  · trivial

theorem wp_privateDispatch (hs : w.session? = some s) (command : Command) :
    (dispatch m s command).wp (privacyMachine w) (fun _ _ => True) v := by
  have error : ∀ id code v', (replyError s id code).wp (privacyMachine w) (fun _ _ => True) v' := fun id code v' =>
    wp_plain (plain_of_quiet (quiet_replyError s id code))
  cases command with
  | disconnected => exact wp_plain (Makes.step trivial fun _ => plain_of_inner inner_disconnected)
  | request r =>
    simp only [dispatch, dispatchRequest]
    split
    · refine wp_reads fun session _ _ => ?_
      split
      · trivial
      refine wp_plainPass (plain_of_silent (silent_mayAct m s r)) fun acts v₁ => ?_
      split
      · refine wp_plainPass (plain_of_silent (silent_reserveFor r)) fun reserved v₂ => ?_
        split
        · split
          · trivial
          · exact error _ _ _
          · unfold handleReserved
            split
            · refine wp_reads fun session' _ _ => wp_plainCall (c := .reserveUser _ m) trivial fun granted v₃ => ?_
              split
              · refine wp_seq (wp_privateHandle hs r) fun _ v₄ _ => wp_plain ?_
                exact Makes.step trivial fun _ => ⟨trivial, fun _ => trivial⟩
              · exact error _ _ _
            · exact wp_privateHandle hs r
        · exact error _ _ _
      · exact error _ _ _
    · trivial

theorem wp_privateRoute (hs : w.session? = some s) (command : Command) :
    (route s command).wp (privacyMachine w) (fun _ _ => True) v := by
  have error : ∀ code, (routeError s code command).Makes Plain := by
    intro code
    cases command with
    | request r => exact plain_of_quiet (quiet_replyError s r.id code)
    | disconnected => trivial
  have delivered : ∀ target v', (deliver s command target).wp (privacyMachine w) (fun _ _ => True) v' := by
    intro target v'
    unfold deliver
    split
    · exact wp_plain ((error _).bind fun _ => trivial)
    split
    · exact wp_seq (wp_privateDispatch hs command) fun _ _ _ => trivial
    refine wp_plainCall (c := .submitRoom _ _) trivial fun accepted v₃ => ?_
    split
    · trivial
    · exact wp_plain ((error _).bind fun _ => trivial)
  cases command with
  | disconnected =>
    rw [route_disconnected]
    exact wp_plainPass (plain_of_inner (inner_routeTarget _)) delivered
  | request r =>
    rw [route_request]
    refine wp_reads fun session _ _ => ?_
    split
    · trivial
    · exact wp_plainPass (plain_of_inner (inner_routeTarget _)) delivered

/-- Every operation starts as the law asks. -/
theorem wp_privateBegins {op : Op Unit} (h : w.Begins op) : op.wp (privacyMachine w) (fun _ _ => True) v := by
  cases w with
  | conn t command =>
    obtain rfl : op = (route t command).void := h
    exact wp_seq (wp_privateRoute rfl command) fun _ _ _ => trivial
  | room n task =>
    obtain rfl : op = task.op n := h
    cases task with
    | dispatch t command => exact wp_privateDispatch rfl command
    | expire uid => exact wp_plain (plain_of_inner (inner_expire uid))
    | mediaReply epoch id registered message =>
      exact wp_plain (plain_of_quiet (quiet_mediaReply n epoch id registered message))
  | timer =>
    obtain rfl : op = reconnectTimeoutCheckHandler := h
    exact wp_plain (plain_of_inner inner_timer)
  | control =>
    obtain ⟨event, epoch, message, rfl⟩ := h
    exact wp_plain (plain_of_inner (inner_controlOp event epoch message))

end

/-! ## The law -/

/-- What holds of the shared state: the ids of users and members are `int`s, and every push of a private
message went to its sender or to its receiver. -/
structure Server.Confidential (σ : Server) : Prop where
  users : ∀ s, (σ.sessions s).userId < maxUid
  members : ∀ m u, u ∈ σ.storage.redis.members m → u < maxUid
  pushes : ∀ f ∈ σ.sent, f.id = .meetingMessagePush → Discreet f.payload (σ.sessions f.session).userId

/-- No request stores under the id of a private message anything for another receiver. -/
def NoReuse (σ : Server) : Event → Prop
  | .step t _ => ∀ site message, σ.nextCall? t = some (.query site (.saveMeetingMessage message)) →
    ∀ row, σ.storage.mysql.messageByUniqueKey message = some row →
      row.receiverUserId = none ∨ row.receiverUserId = message.receiverUserId
  | _ => True

/-- What was read of the user of a session stays true: of the session a work is for until that work
changes it, of any other one once it has a user. -/
def privacy : Law Users where
  state := Server.Confidential
  machine := privacyMachine
  agrees w v σ := ∀ t u, v t = some u → (w.session? = some t ∨ u ≠ 0) → (σ.sessions t).userId = u

section

variable {σ σ' : Server} {w : Work} {c : Call} {k : c.Res → Op Unit} {o : Oracle} {v : Users}

/-- A call of a work leaves a user a session has. -/
theorem user_kept (hv : privacy.agrees w v σ) (hpre : privacyPre w c v) {t : SessionId}
    (ht : (σ.sessions t).userId ≠ 0 ∨ w.session? ≠ some t) :
    ((exec c o σ).2.sessions t).userId = (σ.sessions t).userId := by
  by_cases hset : ∃ u token, c = .setUser t u token
  · obtain ⟨u, token, rfl⟩ := hset
    obtain ⟨hs, -, hold⟩ := hpre
    have hu : (σ.sessions t).userId = 0 ∨ (σ.sessions t).userId = u :=
      hold.imp (fun h => hv t 0 h (.inl hs)) fun h => hv t u h (.inl hs)
    have hkeep : (σ.sessions t).userId = u := hu.resolve_left (ht.resolve_right fun hne => hne hs)
    simp only [exec, Server.setSession_self, hkeep]
  · exact ((exec_session c o σ t).user fun u token hc => hset ⟨u, token, hc⟩).1

/-- The frames a call adds: a push shows a private message to its sender or receiver. -/
theorem frame_discreet (hv : privacy.agrees w v σ) (hpre : privacyPre w c v) (hσ : σ.Confidential) {f : Frame}
    (hf : f ∈ (exec c o σ).2.sent) (hid : f.id = .meetingMessagePush) :
    Discreet f.payload (σ.sessions f.session).userId := by
  by_cases hsend : ∃ t id payload, c = .send t id payload
  · obtain ⟨t, id, payload, rfl⟩ := hsend
    simp only [exec] at hf
    rcases Server.send_cases (σ := σ) (o := o) t id payload with h | h | h <;> rw [h] at hf
    · exact hσ.pushes f hf hid
    · exact hσ.pushes f hf hid
    · rcases List.mem_append.mp hf with hf | hf
      · exact hσ.pushes f hf hid
      · obtain rfl := List.mem_singleton.mp hf
        obtain ⟨u, hu, hd⟩ := hpre hid
        intro r hr
        rw [hv t u hu (.inr (hd r hr).1)]
        exact hd r hr
  · have hsent := exec_sent (o := o) (σ := σ) fun t id payload hc => hsend ⟨t, id, payload, hc⟩
    exact hσ.pushes f (hsent ▸ hf) hid

/-- Nobody gets into a member set but by `SAdd`. -/
theorem run_member {q : Query} {st : Storage} {m : MeetingId} {u : Uid} (h : u ∈ (q.run o st).2.redis.members m) :
    u ∈ st.redis.members m ∨ q = .sAdd m u := by
  unfold Query.run at h
  split at h
  · exact .inl h
  cases q with
  | sAdd n x =>
    simp only [Query.apply, Redis.setMembers, Function.update_apply] at h
    split at h
    · next hn =>
      subst hn
      exact (KeySet.mem_add.mp h).symm.imp_right fun hx => congrArg _ hx.symm
    · exact .inl h
  | sRem n x =>
    simp only [Query.apply, Redis.setMembers, Function.update_apply] at h
    split at h
    · next hn =>
      subst hn
      exact .inl (KeySet.mem_remove.mp h).1
    · exact .inl h
  | delMembers n =>
    simp only [Query.apply, Redis.setMembers, Function.update_apply] at h
    split at h
    · exact absurd h List.not_mem_nil
    · exact .inl h
  | activateMember n x =>
    simp only [Query.apply, Redis.activate] at h
    split at h <;> exact .inl h
  | createMeeting title creator hash =>
    simp only [Query.apply] at h
    split at h <;> exact .inl h
  | _ => exact .inl h

/-- What a storage call answers is what the machine has it answer. -/
theorem query_answers {site : Site} {q : Query} (hσ : σ.Confidential) (hok : NoReuse σ (.step w.thread o))
    (hnext : σ.nextCall? w.thread = some (.query site q)) :
    privacyRel w (.query site q) v (q.run o σ.storage).1 v := by
  cases q with
  | sIsMember m u =>
    refine ⟨rfl, fun hfound => ?_⟩
    unfold Query.run at hfound
    split at hfound
    · cases hfound
    · exact hσ.members m u (of_decide_eq_true hfound)
  | saveMeetingMessage message =>
    refine ⟨rfl, fun row hrow => ?_⟩
    unfold Query.run at hrow
    split at hrow
    · cases hrow
    simp only [Query.apply, MySql.saveMeetingMessage] at hrow
    split at hrow
    · cases hrow
    split at hrow
    · next found hfound =>
      obtain rfl : found = row := by
        split at hrow
        · cases hrow
        · exact Option.some.inj hrow
      have hkey := List.find?_some hfound
      exact ⟨(of_decide_eq_true hkey).2.1, hok site message hnext found hfound⟩
    · split at hrow
      · cases hrow
      · cases hrow
        exact ⟨rfl, .inr rfl⟩
  | _ => exact rfl

theorem privacy_call (hσ : σ.Confidential) (hok : NoReuse σ (.step w.thread o)) (hruns : σ.Runs w (.call c k))
    (hv : privacy.agrees w v σ) (hpre : privacyPre w c v) :
    (exec c o σ).2.Confidential ∧
      ∃ v', privacyRel w c v (exec c o σ).1 v' ∧ privacy.agrees w v' (exec c o σ).2 := by
  have hkept : ∀ t u, v t = some u → (w.session? = some t ∨ u ≠ 0) → (∀ u token, c ≠ .setUser t u token) →
      ((exec c o σ).2.sessions t).userId = u := fun t u ht hu hc =>
    ((exec_session c o σ t).user hc).1.trans (hv t u ht hu)
  constructor
  · refine ⟨fun t => ?_, fun m u hm => ?_, fun f hf hid => ?_⟩
    · by_cases hset : ∃ u token, c = .setUser t u token
      · obtain ⟨u, token, rfl⟩ := hset
        simp only [exec, Server.setSession_self]
        exact hpre.2.1
      · rw [((exec_session c o σ t).user fun u token hc => hset ⟨u, token, hc⟩).1]
        exact hσ.users t
    · by_cases hq : ∃ site q, c = .query site q
      · obtain ⟨site, q, rfl⟩ := hq
        rcases run_member hm with h | rfl
        · exact hσ.members m u h
        · exact hpre
      · rw [exec_storage fun site q hc => hq ⟨site, q, hc⟩] at hm
        exact hσ.members m u hm
    · have hd := frame_discreet hv hpre hσ hf hid
      intro r hr
      rw [user_kept hv hpre (.inl (hd r hr).1)]
      exact hd r hr
  · by_cases hset : ∃ t u token, c = .setUser t u token
    · obtain ⟨t, u, token, rfl⟩ := hset
      refine ⟨Function.update v t (some u), rfl, fun t' u' ht' hu' => ?_⟩
      by_cases htt : t' = t
      · subst htt
        rw [Function.update_self] at ht'
        cases ht'
        simp only [exec, Server.setSession_self]
      · rw [Function.update_of_ne htt] at ht'
        exact hkept t' u' ht' hu' fun x y hc => htt (by cases hc; rfl)
    · have hsame : privacy.agrees w v (exec c o σ).2 := fun t u ht hu =>
        hkept t u ht hu fun x y hc => hset ⟨t, x, y, hc⟩
      cases c with
      | getSession t =>
        refine ⟨_, ⟨fun u hu hc => hv t u hu hc, hσ.users t, rfl⟩, fun t' u' ht' hu' => ?_⟩
        by_cases htt : t' = t
        · subst htt
          rw [Function.update_self] at ht'
          cases ht'
          rfl
        · rw [Function.update_of_ne htt] at ht'
          exact hv t' u' ht' hu'
      | query site q => exact ⟨v, query_answers hσ hok hruns.next, hsame⟩
      | setUser t u token => exact absurd ⟨t, u, token, rfl⟩ hset
      | _ => exact ⟨v, rfl, hsame⟩

end

theorem privacy_sound : privacy.Sound NoReuse where
  initial σ h := by
    refine ⟨fun s => ?_, fun m u hu => ?_, fun f hf => ?_⟩
    · rw [h.sessions]
      unfold maxUid
      decide
    · rw [h.members] at hu
      exact absurd hu List.not_mem_nil
    · rw [h.logs.1] at hf
      exact absurd hf List.not_mem_nil
  begins σ w op _ _ _ _ hbegins := by
    refine ⟨fun _ => none, ?_, wp_privateBegins hbegins⟩
    intro t u ht
    cases ht
  call σ w c k o v _ hσ hok hruns hv hpre := privacy_call hσ hok hruns hv hpre
  beside σ w c k o v w' op' v' hw _ hruns hv hpre hne hruns' hv' t u ht hu := by
    have hold := hv' t u ht hu
    rw [user_kept hv hpre ?_]
    · exact hold
    · rcases hu with hs | hu
      · refine .inr fun hs' => hne ?_
        exact hw.placed.worker_unique (hruns'.worker.trans hs) (hruns.worker.trans hs')
      · exact .inl (hold ▸ hu)
  drifts σ σ' h := by
    refine ⟨fun hσ => ⟨fun s => ?_, fun m u hu => ?_, fun f hf hid => ?_⟩, fun w v hv t u ht hu => ?_⟩
    · rw [(h.session s).1]
      exact hσ.users s
    · rw [h.storage] at hu
      exact hσ.members m u hu
    · rw [h.logs.1] at hf
      rw [(h.session f.session).1]
      exact hσ.pushes f hf hid
    · rw [(h.session t).1]
      exact hv t u ht hu

/-- In a run whose requests do not store under the id of a private message anything for another receiver,
every push of a private message went to a session of its stored sender or of its stored receiver. -/
theorem pushed_to_its_own {σ : Server} (h : Reachable NoReuse σ) {f : Frame} (hf : f ∈ σ.sent)
    (hid : f.id = .meetingMessagePush) : Discreet f.payload (σ.sessions f.session).userId :=
  (privacy_sound.reachable h).1.pushes f hf hid

/-! ## Who else may see it -/

namespace Scenario

/-- Users 1, 2 and 3 are in meeting 7, on connections 0, 1 and 2. -/
def company : List Event :=
  (.accept :: asks 0 (login 1 "1")) ++ (.accept :: asks 1 (login 2 "2")) ++ (.accept :: asks 2 (login 3 "3")) ++
    asks 0 join ++ work ++ asks 1 join ++ work ++ asks 2 join ++ lets (.room 7) 60 { text := "k" }

/-- A message under the id "x": to user 2, or to everyone. -/
def sends (target : Option Int) : Request :=
  ⟨.sendMeetingMessageRequest, .value (.obj [("meeting_id", .str "7"),
    ("chat_type", .str (if target.isSome then "private" else "group")), ("content", .str "y"),
    ("client_msg_id", .str "x"), ("target_user_id", target.elim .null .int)])⟩

/-- A check of `NoReuse` by computation. -/
def noReuse (σ : Server) : Event → Bool
  | .step t _ => match σ.nextCall? t with
    | some (.query _ (.saveMeetingMessage message)) =>
      (σ.storage.mysql.messageByUniqueKey message).all fun row =>
        row.receiverUserId.isNone || decide (row.receiverUserId = message.receiverUserId)
    | _ => true
  | _ => true

theorem noReuse_spec (σ : Server) (e : Event) (h : noReuse σ e = true) : NoReuse σ e := by
  cases e with
  | step t o =>
    intro site message hnext row hrow
    simp only [noReuse, hnext, hrow, Option.all_some, Bool.or_eq_true, Option.isNone_iff_eq_none,
      decide_eq_true_eq] at h
    exact h
  | _ => trivial

/-- Whether a frame pushes a private message for user 2 to the given session. -/
def showsPrivate (s : SessionId) (f : Frame) : Bool :=
  decide (f.session = s) && decide (f.id = .meetingMessagePush) &&
    match (Json.obj f.payload).get "receiver_user_id", (Json.obj f.payload).get "sender_user_id" with
    | .int r, .int u => decide (r = 2) && decide (u = 1)
    | _, _ => false

theorem showsPrivate_spec {s : SessionId} {f : Frame} (h : showsPrivate s f = true) :
    f.session = s ∧ f.id = .meetingMessagePush ∧ (Json.obj f.payload).get "receiver_user_id" = .int 2 ∧
      (Json.obj f.payload).get "sender_user_id" = .int 1 := by
  simp only [showsPrivate, Bool.and_eq_true, decide_eq_true_eq] at h
  obtain ⟨⟨hs, hid⟩, h⟩ := h
  split at h
  · next r u hr hu =>
    simp only [Bool.and_eq_true, decide_eq_true_eq] at h
    exact ⟨hs, hid, h.1 ▸ hr, h.2 ▸ hu⟩
  · cases h

end Scenario

open Scenario in
/-- User 1 sends user 2 a private message and repeats its id in a message to everyone: the store answers
the private message, and user 3 is sent it. -/
theorem private_message_shown : ¬ ∀ (σ : Server) (f : Frame), Reachable (fun _ _ => True) σ → f ∈ σ.sent →
    f.id = .meetingMessagePush → Discreet f.payload (σ.sessions f.session).userId := by
  intro hall
  have hrun : ((play Server.step (fun _ _ => true)
      (company ++ asks 0 (sends (some 2)) ++ work ++ asks 0 (sends none) ++ work) server).any fun σ =>
        σ.sent.any (showsPrivate 2) && decide ((σ.sessions 2).userId = 3)) = true := by
    decide +kernel
  obtain ⟨σ, hplay, hσ⟩ := (Option.any_eq_true _ _).mp hrun
  obtain ⟨hframe, huser⟩ := Bool.and_eq_true_iff.mp hσ
  obtain ⟨f, hf, hshows⟩ := List.any_eq_true.mp hframe
  obtain ⟨hsession, hid, hreceiver, hsender⟩ := showsPrivate_spec hshows
  have hd := hall σ f ⟨server, server_initial, reach_play (fun _ _ _ => trivial) hplay⟩ hf hid 2 hreceiver
  rw [hsession, of_decide_eq_true huser, hsender] at hd
  rcases hd.2 with h | h
  · exact absurd (Json.int.inj h) (by decide)
  · exact absurd h (by decide)

open Scenario in
/-- The private message alone reaches the session of user 2. -/
theorem pushed_to_receiver : ∃ (σ : Server) (f : Frame), f ∈ σ.sent ∧ f.session = 1 ∧
    (Json.obj f.payload).get "receiver_user_id" = .int 2 ∧ Discreet f.payload (σ.sessions f.session).userId := by
  have hrun : ((play Server.step noReuse (company ++ asks 0 (sends (some 2)) ++ work) server).any fun σ =>
      σ.sent.any (showsPrivate 1)) = true := by
    decide +kernel
  obtain ⟨σ, hplay, hσ⟩ := (Option.any_eq_true _ _).mp hrun
  obtain ⟨f, hf, hshows⟩ := List.any_eq_true.mp hσ
  obtain ⟨hsession, hid, hreceiver, -⟩ := showsPrivate_spec hshows
  exact ⟨σ, f, hf, hsession, hreceiver,
    pushed_to_its_own ⟨server, server_initial, reach_play noReuse_spec hplay⟩ hf hid⟩

end SyncRtc
