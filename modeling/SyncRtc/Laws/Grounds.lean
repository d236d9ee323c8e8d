import SyncRtc.Laws.Privacy

/-!
# On what grounds an operation acts

A user gets into a member set, or out of it, and a meeting changes its status, by one call of an operation that has looked
before: at the user of its session, at the meeting's row, at the member set, at the deadline of a member. The module keeps
what an operation has read (`Grounds`) and verifies every operation against it: a user enters by a JOIN of their own that
found a place, leaves by their own LEAVE, by the failure of their own JOIN, by the END of the creator or because their
time is over, and a session gets the user that its token is of.
-/

set_option autoImplicit false

namespace SyncRtc

open Prog

/-- The record of a token in Redis names the user. -/
def Owns (auth : String → Option Payload) (token : String) (u : Uid) : Prop :=
  ∃ info owner, auth token = some info ∧ loginOwner info = .ok owner ∧ owner = u ∧ u ≠ 0

/-- What an operation has read: of the sessions, of the meetings, and of the members. -/
structure Grounds where
  users : Users := fun _ => none
  auth : String → Option Payload
  info : MeetingId → Option MeetingInfo := fun _ => none
  members : MeetingId → Option (List Uid) := fun _ => none
  /-- Who has ended the meeting. -/
  ended : MeetingId → Option Uid := fun _ => none
  state : MeetingId → Uid → Option RoomState := fun _ _ => none
  deadline : MeetingId → Uid → Option Nat := fun _ _ => none
  data : MeetingId → Option RoomData := fun _ => none
  steady : Nat := 0

namespace Grounds

/-- What a storage call tells, or makes out of date. -/
def told (v : Grounds) : (q : Query) → q.Res → Grounds
  | .getMeetingInfoById m, .found info => { v with info := Function.update v.info m (some info) }
  | .getMeetingInfoByCode _, some info => { v with info := Function.update v.info info.meetingId (some info) }
  | .sMembers m, found => { v with members := Function.update v.members m found }
  | .hGetRoomState m u, state => { v with state := Function.update v.state m (Function.update (v.state m) u state) }
  | .hGetDeadline m u, deadline =>
    { v with deadline := Function.update v.deadline m (Function.update (v.deadline m) u deadline) }
  | .sAdd m _, _ | .sRem m _, _ | .delMembers m, _ => { v with members := Function.update v.members m none }
  | .hSetRoomState m _ _, _ | .hSetDeadline m _ _, _ | .delMember m _, _ | .activateMember m _, _ =>
    { v with
      state := Function.update v.state m fun _ => none
      deadline := Function.update v.deadline m fun _ => none }
  | .startMeeting m _, _ =>
    { v with info := Function.update v.info m none, ended := Function.update v.ended m none }
  | .endMeeting m u, ended =>
    { v with
      info := Function.update v.info m none
      ended := Function.update v.ended m (if ended = true then some u else none) }
  | _, _ => v

def learn (v : Grounds) : (c : Call) → c.Res → Grounds
  | .getSession t, session => { v with users := Function.update v.users t (some session.userId) }
  | .setUser t u _, _ => { v with users := Function.update v.users t (some u) }
  | .getRoom m, data => { v with data := Function.update v.data m (some data) }
  | .setRoom m _, _ => { v with data := Function.update v.data m none }
  | .steadyNow, now => { v with steady := now }
  | .query _ q, r => v.told q r
  | _, _ => v

end Grounds

/-- The request an operation serves, and its session. -/
def Work.serving? : Work → Option (SessionId × Request)
  | .conn s (.request r) => some (s, r)
  | .room _ (.dispatch s (.request r)) => some (s, r)
  | _ => none

/-- The operation serves a request of the user. -/
def ByUser (w : Work) (id : RequestID) (u : Uid) (v : Grounds) : Prop :=
  ∃ s r, w.serving? = some (s, r) ∧ r.id = id ∧ u ≠ 0 ∧ v.users s = some u

/-- The meeting takes the user in: it is one that users may enter, and the user is in it or there is a place. -/
def Enters (w : Work) (m : MeetingId) (u : Uid) (v : Grounds) : Prop :=
  ∃ members info, v.members m = some members ∧ v.info m = some info ∧ info.status ≠ .kCancelled ∧ info.status ≠ .kEnded ∧
    (u ∈ members ∨ (ByUser w .joinMeetingRequest u v ∧ members.length < info.maxParticipants))

/-- The time of the user is over: Redis has them waiting, with a deadline, and the room's own deadline has passed. -/
structure Overdue (w : Work) (m : MeetingId) (u : Uid) (v : Grounds) : Prop where
  task : w = .room m (.expire u)
  state : v.state m u = some .reconnecting
  deadline : ∃ d, v.deadline m u = some d ∧ d ≠ 0
  grace : ∃ data, v.data m = some data ∧ ∀ member, data.members u = some member → ∀ d, member.deadline = some d → d ≤ v.steady

def groundsPre (w : Work) : Call → Grounds → Prop
  | .setUser t u token, v => w.session? = some t ∧ (v.users t = some 0 ∨ v.users t = some u) ∧ Owns v.auth token u
  | .query _ (.sAdd m u), v => Enters w m u v
  | .query _ (.sRem m u), v =>
    ByUser w .leaveMeetingRequest u v ∨ ByUser w .joinMeetingRequest u v ∨ Overdue w m u v
  | .query _ (.delMembers m), v => ∃ u, ByUser w .endMeetingRequest u v ∧ v.ended m = some u
  | .query _ (.startMeeting _ u), v => ByUser w .startMeetingRequest u v
  | .query _ (.endMeeting _ u), v => ByUser w .endMeetingRequest u v
  | _, _ => True

/-- What the answers are known to be. -/
def Grounds.Answers (w : Work) (v : Grounds) : (c : Call) → c.Res → Prop
  | .getSession t, session => ∀ u, v.users t = some u → (w.session? = some t ∨ u ≠ 0) → session.userId = u
  | .query _ (.lookupAuth token), found => ∀ info, found = .found info → v.auth token = some info
  | .steadyNow, now => v.steady ≤ now
  | _, _ => True

def groundsMachine (w : Work) : Machine calls Grounds :=
  ⟨groundsPre w, fun c v r v' => v.Answers w c r ∧ v' = v.learn c r⟩

/-- The calls the law asks nothing of. -/
def Groundless : Call → Prop
  | .setUser _ _ _ => False
  | .query _ (.sAdd _ _) | .query _ (.sRem _ _) | .query _ (.delMembers _) => False
  | .query _ (.startMeeting _ _) | .query _ (.endMeeting _ _) => False
  | _ => True

section

variable {w : Work} {v : Grounds} {m : MeetingId} {s : SessionId} {α : Type}

theorem groundless_pre {c : Call} (h : Groundless c) : groundsPre w c v := by
  cases c with
  | setUser t u token => exact h.elim
  | query site q => cases q <;> first | exact trivial | exact h.elim
  | _ => exact trivial

theorem groundless_of_quiet {p : Op α} (hp : p.Makes Quiet) : p.Makes Groundless := by
  refine hp.mono fun c hc => ?_
  cases c with
  | query site q => cases q <;> first | exact trivial | exact hc.elim
  | _ => first | exact trivial | exact hc

theorem groundless_of_silent {p : Op α} (hp : p.Makes Silent) : p.Makes Groundless := groundless_of_quiet (makes_quiet hp)

theorem wp_groundless {p : Op α} (hp : p.Makes Groundless) : p.wp (groundsMachine w) (fun _ _ => True) v :=
  hp.wp (fun _ _ hc _ => groundless_pre hc) (fun _ _ _ _ _ _ _ => trivial) trivial

/-- The rule for a sequence whose first part the law asks nothing of: nothing is known after it. -/
theorem wp_groundlessPass {β : Type} {p : Op β} {k : β → Op α} {Q : α → Grounds → Prop} (hp : p.Makes Groundless)
    (hk : ∀ b v', (k b).wp (groundsMachine w) Q v') : (p.bind k).wp (groundsMachine w) Q v :=
  wp_seq (wp_groundless hp) fun b v' _ => hk b v'

/-- The rule for one call. -/
theorem wp_learn {c : Call} {k : c.Res → Op α} {Q : α → Grounds → Prop} (hpre : groundsPre w c v)
    (hk : ∀ r, v.Answers w c r → (k r).wp (groundsMachine w) Q (v.learn c r)) :
    ((call c).bind k).wp (groundsMachine w) Q v := by
  refine wp_step hpre fun r v' hrel => ?_
  obtain ⟨hanswers, rfl⟩ := hrel
  exact hk r hanswers

/-! ## What stays known -/

/-- The calls that change nothing of a meeting and of the users of sessions. -/
def Reads : Call → Prop
  | .setUser _ _ _ => False
  | .query _ (.sMembers _) | .query _ (.getMeetingInfoById _) | .query _ (.getMeetingInfoByCode _) => False
  | .query _ (.sAdd _ _) | .query _ (.sRem _ _) | .query _ (.delMembers _) => False
  | .query _ (.startMeeting _ _) | .query _ (.endMeeting _ _) => False
  | _ => True

/-- What is known of users, and of meetings other than their members, stays so. -/
structure Grounds.Keeps (v v' : Grounds) : Prop where
  users : ∀ t u, v.users t = some u → u ≠ 0 → v'.users t = some u
  auth : v'.auth = v.auth
  info : v'.info = v.info
  members : v'.members = v.members
  ended : v'.ended = v.ended

theorem Grounds.Keeps.refl (v : Grounds) : v.Keeps v := ⟨fun _ _ h _ => h, rfl, rfl, rfl, rfl⟩

theorem Grounds.Keeps.trans {v v' v'' : Grounds} (h : v.Keeps v') (h' : v'.Keeps v'') : v.Keeps v'' :=
  ⟨fun t u ht hu => h'.users t u (h.users t u ht hu) hu, h'.auth.trans h.auth, h'.info.trans h.info,
    h'.members.trans h.members, h'.ended.trans h.ended⟩

theorem keeps_learn {c : Call} (hc : Reads c) {r : c.Res} (h : v.Answers w c r) : v.Keeps (v.learn c r) := by
  cases c with
  | setUser t u token => exact hc.elim
  | getSession t =>
    refine ⟨fun t' u ht hu => ?_, rfl, rfl, rfl, rfl⟩
    by_cases htt : t' = t
    · subst htt
      exact (Function.update_self _ _ _).trans (congrArg some (h u ht (.inr hu)))
    · exact (Function.update_of_ne htt _ _).trans ht
  | query site q => cases q <;> first | exact hc.elim | exact ⟨fun _ _ ht _ => ht, rfl, rfl, rfl, rfl⟩
  | _ => exact ⟨fun _ _ ht _ => ht, rfl, rfl, rfl, rfl⟩

theorem reads_pre {c : Call} (h : Reads c) : groundsPre w c v := by
  cases c with
  | setUser t u token => exact h.elim
  | query site q => cases q <;> first | exact trivial | exact h.elim
  | _ => exact trivial

theorem wp_keeps {p : Op α} (hp : p.Makes Reads) : p.wp (groundsMachine w) (fun _ v' => v.Keeps v') v := by
  refine hp.wp (I := fun v' => v.Keeps v') (fun _ _ hc _ => reads_pre hc) (fun c v' r v'' hc hv hrel => ?_) (.refl v)
  obtain ⟨hanswers, rfl⟩ := hrel
  exact hv.trans (keeps_learn hc hanswers)

/-- The rule for a sequence whose first part reads. -/
theorem wp_reading {β : Type} {p : Op β} {k : β → Op α} {Q : α → Grounds → Prop} (hp : p.Makes Reads)
    (hk : ∀ b v', v.Keeps v' → (k b).wp (groundsMachine w) Q v') : (p.bind k).wp (groundsMachine w) Q v :=
  wp_seq (wp_keeps hp) hk

theorem ByUser.mono {id : RequestID} {u : Uid} {v' : Grounds} (h : ByUser w id u v)
    (hv : ∀ t u, v.users t = some u → u ≠ 0 → v'.users t = some u) : ByUser w id u v' := by
  obtain ⟨s, r, hr, hid, hu, hs⟩ := h
  exact ⟨s, r, hr, hid, hu, hv s u hs hu⟩

/-! ## What the law asks nothing of -/

theorem groundless_releaseMedia (s : SessionId) : (releaseMediaSession s).Makes Groundless :=
  groundless_of_silent (silent_releaseMedia s)

theorem groundless_prune {keep : SessionId → Op Bool} (h : ∀ item, (keep item).Makes Silent) :
    (pruneSessions m keep).Makes Groundless :=
  Makes.step trivial fun _ => (Makes.select fun item _ => groundless_of_silent (h item)).bind fun _ =>
    Makes.step trivial fun _ => ⟨trivial, fun _ => trivial⟩

theorem groundless_broadcast (id : RequestID) (notification : Reply) (isFor : Uid → Bool) :
    (broadcast m id notification isFor).Makes Groundless := by
  refine Makes.step trivial fun _ => Makes.bind (Makes.select fun item _ => Makes.step trivial fun r => ?_)
    fun _ => Makes.step trivial fun _ => ⟨trivial, fun _ => trivial⟩
  split
  · trivial
  refine Makes.step trivial fun session => ?_
  dsimp only
  split
  · exact Makes.step trivial fun _ => trivial
  · trivial

theorem groundless_message (body : Payload) : (sendMessageBody m s body).Makes Groundless := by
  unfold sendMessageBody
  repeat' first
    | exact trivial | split | refine Makes.bind (groundless_of_silent (silent_messageChecks _ _ _)) fun _ => ?_
    | refine Makes.bind (groundless_broadcast _ _ _) fun _ => ?_ | refine Makes.step trivial fun _ => ?_

theorem groundless_joinBind (uid : Uid) (isReconnected : Bool) (ticket : String)
    (resume : Option (Credentials × Option Nat)) : (joinBind m s uid isReconnected ticket resume).Makes Groundless := by
  unfold joinBind boundSession displace
  repeat' first
    | exact trivial | split | exact ⟨trivial, fun _ => trivial⟩ | dsimp only
    | refine Makes.bind (groundless_releaseMedia _) fun _ => ?_
    | refine Makes.bind (groundless_prune (silent_staysInRoom _ _ _)) fun _ => ?_
    | refine Makes.step trivial fun _ => ?_ | refine Makes.bind ?_ fun _ => ?_

theorem groundless_joinAnswer (uid : Uid) (a : Admission) (members : List Uid) (value : Reply) :
    (joinAnswer m uid a members value).Makes Groundless := by
  refine (groundless_of_silent (Makes.collect fun u _ => silent_memberJson m uid u)).bind fun listed => ?_
  refine Makes.bind ?_ fun _ => Makes.bind ?_ fun _ => trivial
  · unfold joinedNotice
    split
    · exact groundless_broadcast _ _ _
    · trivial
  · unfold returnedNotice
    split
    · exact groundless_broadcast _ _ _
    · trivial

theorem groundless_disconnected : (sessionDisconnectedHandler m s).Makes Groundless := by
  unfold sessionDisconnectedHandler lostInRoom lostNotice leaveSession stampDeadline loseIf loseMember markReconnecting
    markStore markUndo
  repeat' first
    | exact trivial | split | exact ⟨trivial, fun _ => trivial⟩ | dsimp only | exact groundless_broadcast _ _ _
    | refine Makes.bind (groundless_releaseMedia _) fun _ => ?_
    | refine Makes.bind (groundless_of_silent (silent_lockAll _)) fun _ => ?_
    | refine Makes.bind (Makes.select fun item _ => groundless_of_silent (silent_isOther s _ item)) fun _ => ?_
    | refine Makes.bind (groundless_prune (silent_notThis _)) fun _ => ?_
    | refine Makes.bind (groundless_broadcast _ _ _) fun _ => ?_
    | refine Makes.step trivial fun _ => ?_ | refine Makes.bind ?_ fun _ => ?_

theorem groundless_timer : reconnectTimeoutCheckHandler.Makes Groundless := by
  unfold reconnectTimeoutCheckHandler
  refine Makes.step trivial fun reserved => ?_
  split
  · trivial
  refine Makes.step trivial fun now => Makes.step trivial fun due => ?_
  split
  · trivial
  · refine Makes.each fun candidate _ => ?_
    unfold scanOne
    split <;> exact Makes.step trivial fun _ => trivial

theorem groundless_controlOp (event : MediaEvent) (epoch : Nat) (message : Payload) :
    (controlOp event epoch message).Makes Groundless := by
  unfold controlOp
  repeat' first
    | exact trivial | split | exact ⟨trivial, fun _ => trivial⟩ | refine Makes.step trivial fun _ => ?_ | dsimp only

/-! ## Logins -/

theorem wp_groundsLogin (hs : w.session? = some s) (body : Payload) :
    (loginHandler s body).wp (groundsMachine w) (fun _ _ => True) v := by
  refine wp_seq (P := fun _ _ => True) ?_ fun value v' _ => wp_groundless (Makes.step trivial fun _ => trivial)
  unfold loginBody
  split
  · trivial
  split
  · trivial
  next r _ =>
  refine wp_learn (c := Call.query .loginAuth (.lookupAuth r.token)) trivial fun found hfound => ?_
  split
  · trivial
  · trivial
  next info =>
  split
  · trivial
  next owner howner =>
  refine wp_learn (c := Call.getSession s) trivial fun session hsession => ?_
  dsimp only
  split
  · trivial
  next hkeep =>
  push Not at hkeep
  obtain ⟨hpos, -, hsame⟩ := hkeep
  refine wp_learn (c := Call.query .loginUser (.getUserInfo r.email)) trivial fun user _ => ?_
  split
  · trivial
  split
  · trivial
  refine wp_learn (c := Call.query .loginRecent (.getMeetingRecently owner.toNat)) trivial fun rows _ => ?_
  split
  · trivial
  refine wp_learn (c := Call.getSession s) trivial fun session' hsession' => ?_
  have huser : session'.userId = session.userId := hsession' _ (Function.update_self _ _ _) (.inl hs)
  split
  · trivial
  have howns : Owns v.auth r.token owner.toNat :=
    ⟨info, owner, hfound info rfl, howner, (Int.toNat_of_nonneg hpos.le).symm, (Int.pos_iff_toNat_pos.mp hpos).ne'⟩
  have hcases : session.userId = 0 ∨ session.userId = owner.toNat := by
    rcases Nat.eq_zero_or_pos session.userId with h0 | hpos'
    · exact .inl h0
    · exact .inr (hsame hpos'.ne' ▸ (Int.toNat_natCast session.userId).symm)
  have hread {x : Option Uid} (hx : x = some session'.userId) : x = some 0 ∨ x = some owner.toNat := by
    rw [hx, huser]
    exact hcases.imp (congrArg some) (congrArg some)
  exact ⟨⟨hs, hread (Function.update_self _ _ _), howns⟩, fun _ _ _ => trivial⟩

/-! ## JOIN and RESUME -/

/-- The row of the meeting has been read, and users may enter. -/
structure Open (m : MeetingId) (info : MeetingInfo) (v : Grounds) : Prop where
  row : v.info m = some info
  cancelled : info.status ≠ .kCancelled
  ended : info.status ≠ .kEnded

/-- The member set has been read, and has the user or a place for one that joins. -/
structure Found (m : MeetingId) (uid : Uid) (resuming : Bool) (a : Admission) (v : Grounds) : Prop where
  isOpen : Open m a.info v
  place : ∃ members, v.members m = some members ∧
    (uid ∈ members ∨ (resuming = false ∧ members.length < a.info.maxParticipants))
  fresh : a.alreadyInRoom = false → resuming = false

theorem Open.mono {info : MeetingInfo} {v' : Grounds} (h : Open m info v) (hv : v.Keeps v') : Open m info v' :=
  ⟨hv.info ▸ h.row, h.cancelled, h.ended⟩

theorem Found.mono {uid : Uid} {resuming : Bool} {a : Admission} {v' : Grounds} (h : Found m uid resuming a v)
    (hv : v.Keeps v') : Found m uid resuming a v' :=
  ⟨h.isOpen.mono hv, hv.members ▸ h.place, h.fresh⟩

/-- The users of sessions stay known. -/
def Grounds.Same (v v' : Grounds) : Prop := ∀ t u, v.users t = some u → u ≠ 0 → v'.users t = some u

theorem wp_groundsJoinInfo (resuming : Bool) (code : String) :
    (joinInfo m resuming code).wp (groundsMachine w) (fun result v' => v.Same v' ∧ ∀ info, result = .ok info → Open m info v')
      v := by
  -- what both lookups are checked for
  have checked (found : MeetingInfo) (v' : Grounds) (hsame : v.Same v')
      (hinfo : found.meetingId = m → v'.info m = some found) :
      (Prog.pure (if found.meetingId ≠ m then .error (Reply.error .meetingNotFound)
        else if found.status = .kCancelled ∨ found.status = .kEnded then .error (Reply.error .meetingStatus)
        else .ok found) : Op (Except Reply MeetingInfo)).wp (groundsMachine w)
        (fun result v' => v.Same v' ∧ ∀ info, result = .ok info → Open m info v') v' := by
    refine ⟨hsame, fun info hinfo' => ?_⟩
    split at hinfo'
    · cases hinfo'
    · next hm =>
      split at hinfo'
      · cases hinfo'
      · next hstatus =>
        cases hinfo'
        push Not at hm hstatus
        exact ⟨hinfo hm, hstatus.1, hstatus.2⟩
  have failed (reply : Reply) (v' : Grounds) (hsame : v.Same v') :
      (Prog.pure (.error reply) : Op (Except Reply MeetingInfo)).wp (groundsMachine w)
        (fun result v' => v.Same v' ∧ ∀ info, result = .ok info → Open m info v') v' :=
    ⟨hsame, fun _ h => by cases h⟩
  unfold joinInfo
  dsimp only
  split
  · refine wp_learn (c := Call.query .joinInfo (.getMeetingInfoById m)) trivial fun found _ => ?_
    cases found with
    | found info => exact checked info _ (fun _ _ ht _ => ht) fun _ => Function.update_self _ _ _
    | missing => exact failed _ _ fun _ _ ht _ => ht
    | unavailable => exact failed _ _ fun _ _ ht _ => ht
  · refine wp_learn (c := Call.query .joinInfo (.getMeetingInfoByCode code)) trivial fun found _ => ?_
    cases found with
    | none => exact failed _ _ fun _ _ ht _ => ht
    | some info => exact checked info _ (fun _ _ ht _ => ht) fun hm => hm ▸ Function.update_self _ _ _

theorem Grounds.Keeps.same {v' : Grounds} (h : v.Keeps v') : v.Same v' := h.users

theorem Grounds.Same.trans {v' v'' : Grounds} (h : v.Same v') (h' : v'.Same v'') : v.Same v'' :=
  fun t u ht hu => h' t u (h t u ht hu) hu

theorem reads_resumeCheck (uid : Uid) (c : Credentials) (value : Reply) : (resumeCheck m s uid c value).Makes Reads := by
  unfold resumeCheck deadlineOpen
  repeat' first
    | exact trivial | split | exact ⟨trivial, fun _ => trivial⟩ | dsimp only
    | refine Makes.step trivial fun _ => ?_

theorem reads_joinPassword (info : MeetingInfo) (root : Json) (value : Reply) :
    (joinPassword info root value).Makes Reads := by
  unfold joinPassword
  repeat' first
    | exact trivial | split | refine Makes.step trivial fun _ => ?_

theorem reads_rejoinCheck (uid : Uid) (value : Reply) : (rejoinCheck m uid value).Makes Reads := by
  unfold rejoinCheck
  repeat' first
    | exact trivial | split | refine Makes.step trivial fun _ => ?_

theorem reads_joinTicket (uid : Uid) (resuming : Bool) : (joinTicket m uid resuming).Makes Reads := by
  unfold joinTicket
  split
  · exact Makes.step trivial fun _ => trivial
  · exact ⟨trivial, fun _ => trivial⟩

theorem wp_groundsJoinChecks (uid : Uid) (resuming : Bool) (root : Json) (code : String) :
    (joinChecks m s uid resuming root code).wp (groundsMachine w)
      (fun result v' => v.Same v' ∧ ∀ info resume, result = .ok (info, resume) → Open m info v') v := by
  refine wp_seq (wp_groundsJoinInfo resuming code) fun result v₁ hresult => ?_
  obtain ⟨hsame, hopen⟩ := hresult
  cases result with
  | error reply => exact ⟨hsame, fun _ _ h => by cases h⟩
  | ok info =>
    have hinfo := hopen info rfl
    have passed {v₂ : Grounds} (hkeeps : v₁.Keeps v₂) (x : Option (Credentials × Option Nat)) :
        v.Same v₂ ∧ ∀ info' resume, (Except.ok (info, x) : Except Reply (MeetingInfo × _)) = .ok (info', resume) →
          Open m info' v₂ := by
      refine ⟨hsame.trans hkeeps.same, fun info' resume h => ?_⟩
      cases h
      exact hinfo.mono hkeeps
    dsimp only
    split
    · split
      · exact ⟨hsame, fun _ _ h => by cases h⟩
      · refine wp_reading (reads_resumeCheck _ _ _) fun checked v₂ hkeeps => ?_
        cases checked with
        | error reply => exact ⟨hsame.trans hkeeps.same, fun _ _ h => by cases h⟩
        | ok checkedAt => exact passed hkeeps _
    · split
      · refine wp_reading (reads_joinPassword _ _ _) fun checked v₂ hkeeps => ?_
        cases checked with
        | error reply => exact ⟨hsame.trans hkeeps.same, fun _ _ h => by cases h⟩
        | ok _ => exact passed hkeeps _
      · exact passed (.refl v₁) _

theorem wp_groundsJoinPlace (uid : Uid) (resuming : Bool) {info : MeetingInfo} (value : Reply) (hopen : Open m info v) :
    (joinPlace m uid resuming info value).wp (groundsMachine w)
      (fun result v' => v.Same v' ∧ ∀ a, result = .ok a → Found m uid resuming a v') v := by
  have failed (reply : Reply) {v' : Grounds} (hsame : v.Same v') :
      v.Same v' ∧ ∀ a, (Except.error reply : Except Reply Admission) = .ok a → Found m uid resuming a v' :=
    ⟨hsame, fun _ h => by cases h⟩
  refine wp_learn (c := Call.query .joinSnapshot (.sMembers m)) trivial fun found _ => ?_
  have hsame : v.Same (v.learn (.query .joinSnapshot (.sMembers m)) found) := fun _ _ ht _ => ht
  cases found with
  | none => exact failed _ hsame
  | some members =>
    have hlearnt : (v.learn (.query .joinSnapshot (.sMembers m)) (some members)).members m = some members :=
      Function.update_self _ _ _
    have hopen' : Open m info (v.learn (.query .joinSnapshot (.sMembers m)) (some members)) :=
      ⟨hopen.row, hopen.cancelled, hopen.ended⟩
    have passed {v' : Grounds} (hkeeps : (v.learn (.query .joinSnapshot (.sMembers m)) (some members)).Keeps v')
        (isReconnected : Bool) (hplace : uid ∈ members ∨ members.length < info.maxParticipants)
        (hfresh : resuming = true → uid ∈ members) :
        v.Same v' ∧ ∀ a, (Except.ok ⟨info, decide (uid ∈ members), isReconnected⟩ : Except Reply Admission) = .ok a →
          Found m uid resuming a v' := by
      refine ⟨hsame.trans hkeeps.same, fun a ha => ?_⟩
      cases ha
      refine Found.mono ⟨hopen', ⟨members, hlearnt, ?_⟩, fun hnot => ?_⟩ hkeeps
      · cases resuming with
        | true => exact .inl (hfresh rfl)
        | false => exact hplace.imp_right fun h => ⟨rfl, h⟩
      · cases resuming with
        | true => exact absurd (hfresh rfl) (of_decide_eq_false hnot)
        | false => rfl
    dsimp only
    split
    · exact failed _ hsame
    next hfull =>
    split
    · exact failed _ hsame
    next hknown =>
    have hplace : uid ∈ members ∨ members.length < info.maxParticipants := by
      simpa [or_iff_not_imp_left] using hfull
    have hfresh : resuming = true → uid ∈ members := by
      simpa using hknown
    split
    · next hin =>
      have hmem : decide (uid ∈ members) = true := (Bool.and_eq_true_iff.mp hin).1
      refine wp_reading (reads_rejoinCheck _ _) fun checked v₂ hkeeps => ?_
      cases checked with
      | error reply => exact failed _ (hsame.trans hkeeps.same)
      | ok _ => exact hmem ▸ passed hkeeps true hplace hfresh
    · exact passed (.refl _) resuming hplace hfresh

/-- The calls of JOIN once the user has been added: it may only be undone for one that was not in the set before. -/
def Undoes (m : MeetingId) (uid : Uid) (undo : Prop) (c : Call) : Prop :=
  Groundless c ∨ (undo ∧ ∃ site, c = .query site (.sRem m uid))

theorem same_learn {c : Call} (hc : ∀ t u token, c ≠ .setUser t u token) {r : c.Res} (h : v.Answers w c r) :
    v.Same (v.learn c r) := by
  cases c with
  | setUser t u token => exact absurd rfl (hc t u token)
  | getSession t =>
    intro t' u ht hu
    by_cases htt : t' = t
    · subst htt
      exact (Function.update_self _ _ _).trans (congrArg some (h u ht (.inr hu)))
    · exact (Function.update_of_ne htt _ _).trans ht
  | query site q =>
    intro t u ht hu
    cases q <;> first | exact ht | (cases r <;> exact ht)
  | _ => exact fun _ _ ht _ => ht

theorem wp_groundsJoinStore {uid : Uid} {resuming : Bool} {a : Admission} (value : Reply) (hfound : Found m uid resuming a v)
    (hby : resuming = false → ByUser w .joinMeetingRequest uid v) :
    (joinStore m uid resuming a value).wp (groundsMachine w) (fun _ _ => True) v := by
  have hundo (already : Bool) (h : already = false → a.alreadyInRoom = false) :
      (joinUndo m uid already).Makes (Undoes m uid (a.alreadyInRoom = false)) := by
    cases already with
    | true => trivial
    | false => exact Makes.step (.inr ⟨h rfl, _, rfl⟩) fun _ => trivial
  have henters : Enters w m uid v := by
    obtain ⟨members, hmembers, hplace⟩ := hfound.place
    exact ⟨members, a.info, hmembers, hfound.isOpen.row, hfound.isOpen.cancelled, hfound.isOpen.ended,
      hplace.imp_right fun h => ⟨hby h.1, h.2⟩⟩
  refine wp_learn (c := Call.query .joinAdd (.sAdd m uid)) henters fun added _ => ?_
  have hby' : a.alreadyInRoom = false →
      ByUser w .joinMeetingRequest uid (v.learn (.query .joinAdd (.sAdd m uid)) added) :=
    fun h => (hby (hfound.fresh h)).mono fun _ _ ht _ => ht
  -- from here on only the undoing needs grounds, and the users of sessions stay known
  refine wp_mono (fun _ _ _ => trivial) (Makes.wp (P := Undoes m uid (a.alreadyInRoom = false))
    (I := fun v' => a.alreadyInRoom = false → ByUser w .joinMeetingRequest uid v') ?_ ?_ ?_ hby')
  · repeat' first
      | exact trivial | split
      | refine Makes.bind (hundo a.alreadyInRoom id) fun _ => ?_
      | refine Makes.bind (hundo false fun _ => by simpa using ‹(!a.alreadyInRoom) = true›) fun _ => ?_
      | refine Makes.step (.inl trivial) fun _ => ?_
  · rintro c v' (hc | ⟨hnot, site, rfl⟩) hv'
    · exact groundless_pre hc
    · exact .inr (.inl (hv' hnot))
  · rintro c v' r v'' hc hv' ⟨hanswers, rfl⟩ hnot
    refine (hv' hnot).mono (same_learn ?_ hanswers)
    rintro t u token rfl
    rcases hc with hc | ⟨-, site, hc⟩
    · exact hc
    · cases hc

/-- The request is one of the user its session was seen with. -/
theorem byUser_read {r : Request} {id : RequestID} (hr : w.serving? = some (s, r)) (hid : r.id = id)
    {session : Session} (hu : session.userId ≠ 0) : ByUser w id session.userId (v.learn (.getSession s) session) :=
  ⟨s, r, hr, hid, hu, Function.update_self _ _ _⟩

theorem wp_groundsJoin {r : Request} (hr : w.serving? = some (s, r)) (resuming : Bool)
    (hid : resuming = false → r.id = .joinMeetingRequest) :
    (joinMeetingHandler m s resuming r.body).wp (groundsMachine w) (fun _ _ => True) v := by
  have sent (value : Reply) : ((send s (if resuming then .resumeMeetingResponse else .joinMeetingResponse) value).bind
      fun queued => if !queued then requestClose s else .pure ()).Makes Groundless := by
    refine Makes.step trivial fun queued => ?_
    split
    · exact ⟨trivial, fun _ => trivial⟩
    · trivial
  refine wp_seq (P := fun _ _ => True) ?_ fun value v' _ => wp_groundless (sent value)
  unfold joinBody
  split
  · trivial
  refine wp_learn (c := Call.getSession s) trivial fun session hsession => ?_
  dsimp only
  split
  · trivial
  next huser =>
  have hby (h : resuming = false) := byUser_read (v := v) hr (hid h) huser
  refine wp_seq (wp_groundsJoinChecks session.userId resuming _ _) fun checked v₁ hchecked => ?_
  obtain ⟨hsame₁, hopen⟩ := hchecked
  split
  · trivial
  next info resume =>
  refine wp_seq (wp_groundsJoinPlace session.userId resuming _ (hopen info resume rfl)) fun place v₂ hplace => ?_
  obtain ⟨hsame₂, hfound⟩ := hplace
  split
  · trivial
  next a =>
  refine wp_reading (reads_joinTicket session.userId resuming) fun ticket v₃ hkeeps => ?_
  split
  · trivial
  refine wp_seq (wp_groundsJoinStore _ ((hfound a rfl).mono hkeeps) fun h =>
    (hby h).mono ((hsame₁.trans hsame₂).trans hkeeps.same)) fun stored v₄ _ => ?_
  split
  · trivial
  · exact wp_groundless ((groundless_joinBind _ _ _ _).bind fun _ => groundless_joinAnswer _ _ _ _)

/-! ## START, LEAVE and END -/

/-- A request names a meeting only for a session that has a user. -/
theorem meetingRequest_user {body : Payload} {session : Session} {meeting : MeetingId}
    (h : meetingRequest body session = .ok meeting) : session.userId ≠ 0 := by
  unfold meetingRequest at h
  repeat' split at h
  all_goals cases h
  assumption

theorem wp_groundsAnswer {p : Op Reply} {id : RequestID} (hp : p.wp (groundsMachine w) (fun _ _ => True) v) :
    (p.bind fun value => (send s id value).bind fun _ => .pure ()).wp (groundsMachine w) (fun _ _ => True) v :=
  wp_seq hp fun _ _ _ => wp_groundless (Makes.step trivial fun _ => trivial)

theorem wp_groundsStart {r : Request} (hr : w.serving? = some (s, r)) (hid : r.id = .startMeetingRequest) :
    (startBody m s r.body).wp (groundsMachine w) (fun _ _ => True) v := by
  refine wp_learn (c := Call.getSession s) trivial fun session _ => ?_
  dsimp only
  split
  · trivial
  next meeting hmeeting =>
  refine wp_learn (c := Call.query .startInfo (.getMeetingInfoById meeting)) trivial fun found _ => ?_
  have hby : ByUser w .startMeetingRequest session.userId
      ((v.learn (.getSession s) session).learn (.query .startInfo (.getMeetingInfoById meeting)) found) :=
    (byUser_read hr hid (meetingRequest_user hmeeting)).mono (same_learn (w := w) (fun _ _ _ h => by cases h) trivial)
  cases found with
  | missing => trivial
  | unavailable => trivial
  | found info =>
    dsimp only
    split
    · trivial
    split
    · trivial
    refine wp_learn (c := Call.query .startMeeting (.startMeeting meeting session.userId)) hby fun started _ => ?_
    refine wp_groundless ?_
    split
    · trivial
    · exact (groundless_broadcast _ _ _).bind fun _ => trivial

theorem wp_groundsLeave {r : Request} (hr : w.serving? = some (s, r)) (hid : r.id = .leaveMeetingRequest) :
    (leaveBody m s r.body).wp (groundsMachine w) (fun _ _ => True) v := by
  have after (uid : Uid) (meeting : MeetingId) (stored : Bool) : (if stored then do
      leaveRoom m s uid meeting
      return [("error", .int ErrorCode.success.toInt), ("meeting_id", idText meeting)]
      else return Reply.error .redis : Op Reply).Makes Groundless := by
    unfold leaveRoom leaveNotice
    repeat' first
      | exact trivial | split | dsimp only | refine Makes.bind (groundless_prune (silent_notThis _)) fun _ => ?_
      | refine Makes.bind (groundless_broadcast _ _ _) fun _ => ?_
      | exact groundless_broadcast _ _ _
      | refine Makes.bind (groundless_releaseMedia _) fun _ => ?_
      | refine Makes.step trivial fun _ => ?_ | refine Makes.bind ?_ fun _ => ?_
  refine wp_learn (c := Call.getSession s) trivial fun session _ => ?_
  dsimp only
  split
  · trivial
  next meeting hmeeting =>
  have hby := byUser_read (v := v) hr hid (meetingRequest_user hmeeting)
  refine wp_learn (c := Call.getSession s) trivial fun session' hsession' => ?_
  split
  · have hby' := hby.mono (same_learn (c := .getSession s) (w := w) (fun _ _ _ h => by cases h) hsession')
    refine wp_seq (P := fun _ _ => True) (wp_learn (c := Call.query .leaveRemove (.sRem meeting session.userId)) (.inl hby')
      fun removed _ => wp_groundless ?_) fun stored v' _ => wp_groundless (after _ _ _)
    repeat' first
      | exact trivial | split | exact ⟨trivial, fun _ => trivial⟩ | refine Makes.step trivial fun _ => ?_
  · unfold leaveAfterEnd
    refine wp_groundless (Makes.step trivial fun info => ?_)
    split <;> trivial

/-- The calls of END once the meeting has been ended. -/
def Cleans (m : MeetingId) (c : Call) : Prop := Groundless c ∨ ∃ site, c = .query site (.delMembers m)

theorem cleans_endStore (meeting : MeetingId) : (endStore meeting).Makes (Cleans meeting) := by
  have member (u : Uid) : (endMember meeting u).Makes (Cleans meeting) :=
    Makes.step (.inl trivial) fun _ => Makes.step (.inl trivial) fun _ => Makes.step (.inl trivial) fun _ =>
      Makes.step (.inl trivial) fun _ => trivial
  refine Makes.step (.inl trivial) fun found => ?_
  split
  · trivial
  · exact (Makes.collect fun u _ => member u).bind fun _ => Makes.step (.inr ⟨_, rfl⟩) fun _ => trivial

theorem groundless_endRoom (meeting : MeetingId) : (endRoom m meeting).Makes Groundless := by
  unfold endRoom endSession
  repeat' first
    | exact trivial | split | exact ⟨trivial, fun _ => trivial⟩ | dsimp only
    | refine Makes.bind (groundless_releaseMedia _) fun _ => ?_
    | refine Makes.bind (Makes.each fun item _ => ?_) fun _ => ?_ | refine Makes.step trivial fun _ => ?_

/-- Who has ended a meeting stays known until its status is written again. -/
theorem ended_learn {c : Call} (hc : Cleans m c) {r : c.Res} {n : MeetingId} {u : Uid} (h : v.ended n = some u) :
    (v.learn c r).ended n = some u := by
  cases c with
  | query site q =>
    cases q <;> first | exact h | (cases r <;> exact h) | (obtain hc | ⟨site', hc⟩ := hc <;> first | exact hc.elim | cases hc)
  | _ => exact h

theorem wp_groundsEnd {r : Request} (hr : w.serving? = some (s, r)) (hid : r.id = .endMeetingRequest) :
    (endBody m s r.body).wp (groundsMachine w) (fun _ _ => True) v := by
  refine wp_learn (c := Call.getSession s) trivial fun session _ => ?_
  dsimp only
  split
  · trivial
  next meeting hmeeting =>
  refine wp_learn (c := Call.query .endInfo (.getMeetingInfoById meeting)) trivial fun found _ => ?_
  have hby : ByUser w .endMeetingRequest session.userId
      ((v.learn (.getSession s) session).learn (.query .endInfo (.getMeetingInfoById meeting)) found) :=
    (byUser_read hr hid (meetingRequest_user hmeeting)).mono (same_learn (w := w) (fun _ _ _ h => by cases h) trivial)
  cases found with
  | missing => trivial
  | unavailable => trivial
  | found info =>
    dsimp only
    split
    · trivial
    split
    · trivial
    refine wp_learn (c := Call.query .endMeeting (.endMeeting meeting session.userId)) hby fun ended _ => ?_
    split
    · trivial
    next hended =>
    have hcloses : ended = true := by simpa using hended
    let v₁ := ((v.learn (.getSession s) session).learn (.query .endInfo (.getMeetingInfoById meeting)) (.found info)).learn
      (.query .endMeeting (.endMeeting meeting session.userId)) ended
    have hby₁ : ByUser w .endMeetingRequest session.userId v₁ :=
      hby.mono (same_learn (w := w) (fun _ _ _ h => by cases h) trivial)
    have hended₁ : v₁.ended meeting = some session.userId :=
      (Function.update_self _ _ _).trans (if_pos hcloses)
    -- the creator stays known, and that the meeting has ended
    refine wp_seq (P := fun _ _ => True) (wp_mono (fun _ _ _ => trivial) (Makes.wp (P := Cleans meeting)
      (I := fun v' => ByUser w .endMeetingRequest session.userId v' ∧ v'.ended meeting = some session.userId)
      (cleans_endStore meeting) ?_ ?_ ⟨hby₁, hended₁⟩)) fun cleaned _ _ =>
        wp_groundless ((groundless_endRoom meeting).bind fun _ => trivial)
    · rintro c v' (hc | ⟨site, rfl⟩) hv'
      · exact groundless_pre hc
      · exact ⟨session.userId, hv'⟩
    · rintro c v' x v'' hc hv' ⟨hanswers, rfl⟩
      refine ⟨hv'.1.mono (same_learn ?_ hanswers), ended_learn hc hv'.2⟩
      rintro t u token rfl
      rcases hc with hc | ⟨site, hc⟩
      · exact hc
      · cases hc

/-! ## Expiry -/

/-- The room's own deadline of the user, if there is one, has passed. -/
def Grace (m : MeetingId) (uid : Uid) (v : Grounds) : Prop :=
  ∃ data, v.data m = some data ∧ ∀ member, data.members uid = some member → ∀ d, member.deadline = some d → d ≤ v.steady

theorem wp_groundsGraceOver (uid : Uid) :
    (graceOver m uid).wp (groundsMachine w) (fun result v' => result.isSome = true → Grace m uid v') v := by
  refine wp_learn (c := Call.getRoom m) trivial fun data _ => ?_
  have hdata : (v.learn (.getRoom m) data).data m = some data := Function.update_self _ _ _
  split
  · next hnone =>
    refine fun _ => ⟨data, hdata, fun member hmember => ?_⟩
    cases hnone.symm.trans hmember
  · next member hmember =>
    refine wp_learn (c := Call.steadyNow) trivial fun now _ => ?_
    split
    · next hdeadline =>
      refine fun _ => ⟨data, hdata, fun member' hmember' d hd => ?_⟩
      cases hmember.symm.trans hmember'
      cases hdeadline.symm.trans hd
    · next deadline hdeadline =>
      intro hdue
      refine ⟨data, hdata, fun member' hmember' d hd => ?_⟩
      cases hmember.symm.trans hmember'
      cases hdeadline.symm.trans hd
      show deadline ≤ now
      by_contra hlt
      rw [if_pos (Nat.lt_of_not_le hlt)] at hdue
      cases hdue

theorem update_at {α β γ : Type} [DecidableEq α] [DecidableEq β] (f : α → β → γ) (a : α) (b : β) (c : γ) :
    Function.update f a (Function.update (f a) b c) a b = c := by
  rw [Function.update_self, Function.update_self]

theorem wp_groundsExpiryDue {uid : Uid} (hw : w = .room m (.expire uid)) (now : Nat) (hgrace : Grace m uid v) :
    (expiryDue m uid now).wp (groundsMachine w) (fun due v' => due = true → Overdue w m uid v') v := by
  refine wp_learn (c := Call.query .expireDeadline (.hGetDeadline m uid)) trivial fun deadline _ => ?_
  have hdeadline : (v.learn (.query .expireDeadline (.hGetDeadline m uid)) deadline).deadline m uid = deadline :=
    update_at v.deadline m uid deadline
  split
  · exact ⟨trivial, fun _ _ _ h => by cases h⟩
  next d hd =>
  obtain ⟨hsome, hne⟩ := Option.filter_eq_some_iff.mp hd
  split
  · exact fun h => by cases h
  refine wp_learn (c := Call.query .expireState (.hGetRoomState m uid)) trivial fun state _ => ?_
  split
  · next hstate =>
    intro _
    refine ⟨hw, ?_, ⟨d, hdeadline.trans hsome, of_decide_eq_true hne⟩, hgrace⟩
    rw [← hstate]
    exact update_at v.state m uid state
  · exact ⟨trivial, fun _ _ _ h => by cases h⟩

theorem wp_groundsExpire {uid : Uid} (hw : w = .room m (.expire uid)) :
    (expireMemberHandler m uid).wp (groundsMachine w) (fun _ _ => True) v := by
  refine wp_learn (c := Call.reservePool false) trivial fun reserved _ => ?_
  split
  · trivial
  refine wp_learn (c := Call.wallNow) trivial fun now _ => ?_
  split
  · exact wp_groundless (Makes.step trivial fun _ => trivial)
  refine wp_seq (wp_groundsGraceOver uid) fun grace v₁ hgrace => ?_
  split
  · trivial
  next checkedAt =>
  refine wp_seq (wp_groundsExpiryDue hw now (hgrace rfl)) fun due v₂ hdue => ?_
  split
  · trivial
  next hover =>
  refine wp_learn (c := Call.query .expireRemove (.sRem m uid)) (.inr (.inr (hdue (by simpa using hover)))) fun removed _ => ?_
  refine wp_groundless ?_
  unfold forgetMember
  repeat' first
    | exact trivial | split | exact groundless_broadcast _ _ _ | dsimp only
    | refine Makes.step trivial fun _ => ?_

/-! ## Dispatch and routing -/

theorem wp_groundsHandle {r : Request} (hr : w.serving? = some (s, r)) (hs : w.session? = some s) :
    (handle m s r).wp (groundsMachine w) (fun _ _ => True) v := by
  unfold handle
  split
  · exact wp_groundsLogin hs _
  · exact wp_groundless (groundless_of_quiet (quiet_answer s (by decide) (silent_ai s _)))
  · exact wp_groundless (groundless_of_quiet (quiet_answer s (by decide) (silent_create s _)))
  · exact wp_groundless (groundless_of_quiet (quiet_answer s (by decide) (silent_past s)))
  · next hid => exact wp_groundsJoin hr false fun _ => hid
  · exact wp_groundsJoin hr true fun h => by cases h
  · next hid => exact wp_groundsAnswer (wp_groundsStart hr hid)
  · next hid => exact wp_groundsAnswer (wp_groundsLeave hr hid)
  · next hid => exact wp_groundsAnswer (wp_groundsEnd hr hid)
  · exact wp_groundsAnswer (wp_groundless (groundless_message _))
  · exact wp_groundless (groundless_of_quiet (quiet_answer s (by decide) (silent_group s _)))
  · exact wp_groundless (groundless_of_quiet (quiet_answer s (by decide) (silent_private s _)))
  · exact wp_groundless (groundless_of_quiet (quiet_offer s _))
  · exact wp_groundless (groundless_of_quiet (quiet_candidate s _))
  · exact wp_groundless (groundless_of_silent (silent_answerOffer s _))
  · trivial

theorem wp_groundsDispatch {command : Command} (hr : ∀ r, command = .request r → w.serving? = some (s, r))
    (hs : w.session? = some s) : (dispatch m s command).wp (groundsMachine w) (fun _ _ => True) v := by
  have error (id : RequestID) (code : ErrorCode) (v' : Grounds) :
      (replyError s id code).wp (groundsMachine w) (fun _ _ => True) v' :=
    wp_groundless (groundless_of_quiet (quiet_replyError s id code))
  cases command with
  | disconnected => exact wp_groundless (Makes.step trivial fun _ => groundless_disconnected)
  | request r =>
    have hr := hr r rfl
    simp only [dispatch, dispatchRequest]
    split
    · refine wp_learn (c := Call.getSession s) trivial fun session _ => ?_
      split
      · trivial
      refine wp_groundlessPass (groundless_of_silent (silent_mayAct m s r)) fun acts v₁ => ?_
      split
      · refine wp_groundlessPass (groundless_of_silent (silent_reserveFor r)) fun reserved v₂ => ?_
        split
        · split
          · trivial
          · exact error _ _ _
          · unfold handleReserved
            split
            · refine wp_learn (c := Call.getSession s) trivial fun session' _ =>
                wp_learn (c := Call.reserveUser _ m) trivial fun granted _ => ?_
              split
              · refine wp_seq (wp_groundsHandle hr hs) fun _ v₄ _ => wp_groundless ?_
                exact Makes.step trivial fun _ => ⟨trivial, fun _ => trivial⟩
              · exact error _ _ _
            · exact wp_groundsHandle hr hs
        · exact error _ _ _
      · exact error _ _ _
    · trivial

theorem wp_groundsRoute {command : Command} (hr : ∀ r, command = .request r → w.serving? = some (s, r))
    (hs : w.session? = some s) : (route s command).wp (groundsMachine w) (fun _ _ => True) v := by
  have error (code : ErrorCode) : (routeError s code command).Makes Groundless := by
    cases command with
    | request r => exact groundless_of_quiet (quiet_replyError s r.id code)
    | disconnected => trivial
  have target : (routeTarget s command).Makes Groundless := by
    unfold routeTarget
    repeat' first
      | exact trivial | split | refine Makes.step trivial fun _ => ?_ | dsimp only
  have delivered (place : Except ErrorCode MeetingId) (v' : Grounds) :
      (deliver s command place).wp (groundsMachine w) (fun _ _ => True) v' := by
    unfold deliver
    split
    · exact wp_groundless ((error _).bind fun _ => trivial)
    split
    · exact wp_seq (wp_groundsDispatch hr hs) fun _ _ _ => trivial
    refine wp_learn (c := Call.submitRoom _ _) trivial fun accepted _ => ?_
    split
    · trivial
    · exact wp_groundless ((error _).bind fun _ => trivial)
  cases command with
  | disconnected =>
    rw [route_disconnected]
    exact wp_groundlessPass target delivered
  | request r =>
    rw [route_request]
    refine wp_learn (c := Call.getSession s) trivial fun session _ => ?_
    split
    · trivial
    · exact wp_groundlessPass target delivered

/-- Every operation acts on the grounds it should. -/
theorem wp_groundsBegins {op : Op Unit} (h : w.Begins op) : op.wp (groundsMachine w) (fun _ _ => True) v := by
  cases w with
  | conn t command =>
    obtain rfl : op = (route t command).void := h
    refine wp_seq (wp_groundsRoute (fun r hr => ?_) rfl) fun _ _ _ => trivial
    subst hr
    rfl
  | room n task =>
    obtain rfl : op = task.op n := h
    cases task with
    | dispatch t command =>
      refine wp_groundsDispatch (fun r hr => ?_) rfl
      subst hr
      rfl
    | expire uid => exact wp_groundsExpire rfl
    | mediaReply epoch id registered message =>
      exact wp_groundless (groundless_of_quiet (quiet_mediaReply n epoch id registered message))
  | timer =>
    obtain rfl : op = reconnectTimeoutCheckHandler := h
    exact wp_groundless groundless_timer
  | control =>
    obtain ⟨event, epoch, message, rfl⟩ := h
    exact wp_groundless (groundless_controlOp event epoch message)

end

end SyncRtc
