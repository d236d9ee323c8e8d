import SyncRtc.Laws.Membership
import SyncRtc.Laws.Quiet

/-!
# Every room operation keeps to the history

One room operation, whatever the stores answer and whatever other operations do between its calls,
changes the members of its room by allowed events only, and appends each to the ghost history. The
statement is a weakest precondition over `ledger`: its state is what the operation knows for sure, the
containers of its own room and the login of the session it works for, and its `setRoom` permits
nothing but a change of the session list (`Change.sessions`) or one event (`Change.event`).

Who authored an event is part of it (`Author`): a JOIN records `joined` and nothing else, and a session
speaks for the user it is logged in as.
-/

set_option autoImplicit false

namespace SyncRtc

open Prog

/-- The session a task works for. -/
def Task.session? : Task → Option SessionId
  | .dispatch s _ => some s
  | _ => none

/-- What a room operation knows while it runs. -/
structure Ledger where
  data : RoomData
  /-- The user and the token the session of the operation is logged in with. -/
  uid : Uid
  token : String
  /-- Tickets this process has drawn. -/
  issued : List String
  /-- The latest reading of the steady clock. -/
  clock : Nat
  /-- Sessions that are not in this room. -/
  out : SessionId → Prop
  /-- Sessions that are closed and not in this room. -/
  shut : SessionId → Prop

/-- The credentials of the request a task carries out. -/
def Task.Presents (task : Task) (s : SessionId) (c : Credentials) : Prop :=
  ∃ r root, task = .dispatch s (.request r) ∧ r.id = .resumeMeetingRequest ∧ r.body.root = .ok root ∧
    resumeCredentials root = some c

/-- The events a task may record. -/
def Author (task : Task) (v : Ledger) : RoomEvent → Prop
  | .joined u s token ticket =>
    (∃ r, task = .dispatch s (.request r) ∧ r.id = .joinMeetingRequest) ∧ u = v.uid ∧ token = v.token ∧
      ticket ∈ v.issued
  | .resumed u s token ticket request known _ =>
    task.Presents s ⟨ticket, request, known⟩ ∧ u = v.uid ∧ token = v.token
  | .disconnected u s time => task = .dispatch s .disconnected ∧ u = v.uid ∧ time ≤ v.clock
  | .expired u checkedAt => task = .expire u ∧ checkedAt ≤ v.clock
  | .left u => (∃ s r, task = .dispatch s (.request r) ∧ r.id = .leaveMeetingRequest) ∧ u = v.uid
  | .ended => ∃ s r, task = .dispatch s (.request r) ∧ r.id = .endMeetingRequest

/-- What a task may make of its room's containers. Under `distinct` no ticket is drawn twice. A binding
moves away only from a session that is shut, or whose object is gone: `live` are those that are left. -/
inductive Change (distinct : Prop) (live : SessionId → Prop) (task : Task) (v : Ledger) (d : RoomData) :
    Prop where
  | sessions (hm : d.members = v.data.members) (hh : d.history = v.data.history)
  | event (e : RoomEvent) (hm : d.members = e.apply v.data.members) (hh : d.history = e :: v.data.history)
      (allowed : e.Allowed v.data.members) (author : Author task v e)
      (fresh : distinct → ∀ t, e.ticket? = some t → t ∉ tickets v.data.history)
      (moved : ∀ u s member, e.binds = some (u, s) → v.data.members u = some member →
        member.session ≠ s → live member.session → v.shut member.session)

/-- The storage calls that write no record of another room than `m`: neither its member set, the hashes and
deadlines of its members, nor the meeting's row, participants and messages. A presence that names a
meeting names this one. -/
def Query.Confined (m : MeetingId) : Query → Prop
  | .sAdd n _ | .sRem n _ | .delMembers n | .hSetRoomState n _ _ | .hSetDeadline n _ _
  | .delMember n _ | .activateMember n _ | .zAdd n _ _ | .zRem n _ => n = m
  | .startMeeting n _ | .endMeeting n _ => n = m
  | .saveMeetingMessage message => message.meetingId = m
  | .updateMeetingPart info _ => info.meetingId = m
  | .hSetPresenceMeeting _ n => n = none ∨ n = some m
  | _ => True

section

variable (distinct : Prop) (live : SessionId → Prop) (m : MeetingId) (task : Task)

def ledgerPre : Call → Ledger → Prop
  | .setRoom n d, v => n = m ∧ Change distinct live task v d
  | .setMeetingId s n, _ => n = 0 ∨ (n = m ∧ task.session? = some s)
  | .setUser s u _, v =>
    (∃ r, task = .dispatch s (.request r) ∧ r.id = .authLoginRequest) ∧ (v.uid = 0 ∨ u = v.uid)
  | .submitRoom _ _, _ => False
  | .query _ q, _ => q.Confined m
  | .reserveUser _ n, _ | .finishJoin _ n _, _ | .releaseUser _ n, _ | .releaseRoomUsers n, _ => n = m
  | .send _ id _, _ =>
    id = .meetingMessagePush →
      ∃ s r, task = .dispatch s (.request r) ∧ r.id = .sendMeetingMessageRequest
  | _, _ => True

def ledgerRel : (c : Call) → Ledger → c.Res → Ledger → Prop
  | .getRoom n, v, data, v' => v' = v ∧ (n = m → data = v.data)
  | .setRoom n d, v, _, v' => v' = if n = m then { v with data := d } else v
  | .getSession s, v, session, v' =>
    v' = v ∧ (task.session? = some s → session.userId = v.uid ∧ session.authToken = v.token) ∧
      (task.session? = some s → session.meetingId = 0 ∨ session.meetingId = m)
  | .lock s, v, r, v' =>
    v' = v ∧ (r = none ∨ r = some s) ∧ (task.session? = some s ∨ live s → r = some s)
  | .setMeetingId s n, v, _, v' =>
    v' = { v with
      out := fun x => (x ≠ s ∧ v.out x) ∨ (x = s ∧ n ≠ m)
      shut := fun x => v.shut x ∧ (x = s → n ≠ m) }
  | .requestClose s, v, _, v' => v' = { v with shut := fun x => v.shut x ∨ (x = s ∧ v.out s) }
  | .setUser _ u token, v, _, v' => v' = { v with uid := u, token := token }
  | .newResumeTicket, v, ticket, v' =>
    match ticket with
    | none => v' = v
    | some t => v' = { v with issued := t :: v.issued } ∧ (distinct → t ∉ tickets v.data.history)
  | .steadyNow, v, now, v' => v.clock ≤ now ∧ v' = { v with clock := now }
  | _, v, _, v' => v' = v

/-- The machine a room operation is verified against here. -/
def ledger : Machine calls Ledger := ⟨ledgerPre distinct live m task, ledgerRel distinct live m task⟩

end

/-! ## Programs that record nothing -/

/-- The calls that neither touch what the ledger knows nor teach it anything. -/
def Neutral (m : MeetingId) : Call → Prop
  | .setRoom _ _ | .setMeetingId _ _ | .setUser _ _ _ | .requestClose _ | .submitRoom _ _
  | .newResumeTicket | .steadyNow => False
  | .send _ id _ => id ≠ .meetingMessagePush
  | .query _ q => q.Confined m
  | .reserveUser _ n | .finishJoin _ n _ | .releaseUser _ n | .releaseRoomUsers n => n = m
  | _ => True

theorem confined_of_keepsRooms {m : MeetingId} {q : Query} (h : q.KeepsRooms) : q.Confined m := by
  cases q <;> first | exact trivial | exact h.elim

section

variable {distinct : Prop} {live : SessionId → Prop} {m : MeetingId} {task : Task} {v : Ledger} {α : Type}

theorem wp_neutral {p : Op α} (hp : p.Makes (Neutral m)) :
    p.wp (ledger distinct live m task) (fun _ v' => v' = v) v := by
  refine hp.wp (fun c w hc _ => ?_) (fun c w r w' hc hw hr => ?_) rfl
  · cases c <;> first | exact trivial | exact hc | exact fun e => absurd e hc | exact hc.elim
  · cases c <;> first | exact hr.trans hw | exact hr.1.trans hw | exact hc.elim

/-! ### One call -/

variable {Q : α → Ledger → Prop}

/-- The rule for a neutral call: nothing is known of its answer. -/
theorem wp_skip {c : Call} {k : c.Res → Op α} (hc : Neutral m c)
    (hk : ∀ r, (k r).wp (ledger distinct live m task) Q v) :
    ((call c).bind k).wp (ledger distinct live m task) Q v := by
  refine ⟨?_, fun r v' hr => ?_⟩
  · cases c <;> first | exact trivial | exact hc | exact fun e => absurd e hc | exact hc.elim
  · have hv : v' = v := by cases c <;> first | exact hr | exact hr.1 | exact hc.elim
    exact hv ▸ hk r

theorem wp_getRoom {k : RoomData → Op α} (hk : (k v.data).wp (ledger distinct live m task) Q v) :
    ((getRoom m).bind k).wp (ledger distinct live m task) Q v := by
  refine ⟨trivial, fun data v' hr => ?_⟩
  obtain ⟨rfl, hdata⟩ := hr
  cases hdata rfl
  exact hk

theorem wp_setRoom {k : Unit → Op α} {d : RoomData} (hd : Change distinct live task v d)
    (hk : (k ()).wp (ledger distinct live m task) Q { v with data := d }) :
    ((setRoom m d).bind k).wp (ledger distinct live m task) Q v := by
  refine ⟨⟨rfl, hd⟩, fun _ v' hr => ?_⟩
  cases hr.trans (if_pos rfl)
  exact hk

/-- The session of the operation reads as the user and the token the ledger has. -/
theorem wp_getOwn {s : SessionId} (hs : task.session? = some s) {k : Session → Op α}
    (hk : ∀ session : Session, session.userId = v.uid → session.authToken = v.token →
      (k session).wp (ledger distinct live m task) Q v) :
    ((getSession s).bind k).wp (ledger distinct live m task) Q v := by
  refine ⟨trivial, fun session v' hr => ?_⟩
  obtain ⟨rfl, hown, -⟩ := hr
  exact hk session (hown hs).1 (hown hs).2

/-- The session of the operation is in this room or in none. -/
theorem wp_getHere {s : SessionId} (hs : task.session? = some s) {k : Session → Op α}
    (hk : ∀ session : Session, session.meetingId = 0 ∨ session.meetingId = m →
      (k session).wp (ledger distinct live m task) Q v) :
    ((getSession s).bind k).wp (ledger distinct live m task) Q v := by
  refine ⟨trivial, fun session v' hr => ?_⟩
  obtain ⟨rfl, -, hhere⟩ := hr
  exact hk session (hhere hs)

theorem neutral_of_quiet {p : Op α} (hp : p.Makes Quiet) : p.Makes (Neutral m) := by
  refine hp.mono fun c hc => ?_
  cases c <;> first | exact trivial | exact hc | exact confined_of_keepsRooms hc | exact hc.elim

theorem neutral_of_silent {p : Op α} (hp : p.Makes Silent) : p.Makes (Neutral m) :=
  neutral_of_quiet (makes_quiet hp)

/-- A sequence whose first part is neutral. -/
theorem wp_pass {β : Type} {p : Op β} {k : β → Op α} (hp : p.Makes (Neutral m))
    (hk : ∀ b, (k b).wp (ledger distinct live m task) Q v) : (p.bind k).wp (ledger distinct live m task) Q v :=
  wp_seq (wp_neutral hp) fun b _ hv => hv ▸ hk b

/-! ### Neutral programs -/

/-- The ledger with another session list. -/
def Ledger.withSessions (v : Ledger) (ss : List SessionId) : Ledger :=
  { v with data := { v.data with sessions := ss } }

/-- A change of the session list is always permitted. -/
theorem wp_prune {keep : SessionId → Op Bool}
    (h : ∀ item, (keep item).wp (ledger distinct live m task) (fun _ v' => v' = v) v) :
    (pruneSessions m keep).wp (ledger distinct live m task) (fun _ v' => ∃ ss, v' = v.withSessions ss) v := by
  have hkeep : ∀ item ∈ v.data.sessions, ∀ w, w = v →
      (keep item).wp (ledger distinct live m task) (fun _ w' => w' = v ∧ True) w := by
    rintro item - w rfl
    exact wp_mono (fun _ _ hw => ⟨hw, trivial⟩) (h item)
  refine wp_getRoom (wp_seq (wp_select (P := fun _ _ => True) hkeep rfl) ?_)
  rintro kept w ⟨rfl, -⟩
  refine wp_getRoom ⟨⟨rfl, .sessions rfl rfl⟩, fun _ v' hr => ⟨kept, ?_⟩⟩
  exact hr.trans (if_pos rfl)

theorem wp_pruneSilent {keep : SessionId → Op Bool} (h : ∀ item, (keep item).Makes Silent) :
    (pruneSessions m keep).wp (ledger distinct live m task) (fun _ v' => ∃ ss, v' = v.withSessions ss) v :=
  wp_prune fun item => wp_neutral (neutral_of_silent (h item))

theorem wp_broadcast {id : RequestID} (hid : id ≠ .meetingMessagePush) (notification : Reply)
    (isFor : Uid → Bool) :
    (broadcast m id notification isFor).wp (ledger distinct live m task)
      (fun _ v' => ∃ ss, v' = v.withSessions ss) v :=
  wp_prune fun item => wp_neutral (neutral_of_quiet (quiet_notifyOne hid notification isFor item))

/-- The push of a meeting message is the operation of its request alone. -/
theorem wp_push {s : SessionId} {r : Request} (htask : task = .dispatch s (.request r))
    (hid : r.id = .sendMeetingMessageRequest) (notification : Reply) (isFor : Uid → Bool) :
    (broadcast m .meetingMessagePush notification isFor).wp (ledger distinct live m task)
      (fun _ v' => ∃ ss, v' = v.withSessions ss) v := by
  refine wp_prune fun item => wp_skip trivial fun found => ?_
  split
  · rfl
  · refine wp_skip trivial fun session => ?_
    dsimp only
    split
    · exact ⟨fun _ => ⟨s, r, htask, hid⟩, fun _ _ hv => hv⟩
    · rfl

/-- The rule for a handler whose answer follows its body. -/
theorem wp_answer {s : SessionId} {id : RequestID} {p : Op Reply} {Q : Ledger → Prop}
    (hid : id ≠ .meetingMessagePush) (hp : p.wp (ledger distinct live m task) (fun _ v' => Q v') v) :
    (p.bind fun value => (send s id value).bind fun _ => .pure ()).wp (ledger distinct live m task)
      (fun _ v' => Q v') v := by
  refine wp_seq hp fun value w hw => wp_mono ?_ (wp_neutral (neutral_of_quiet ((quiet_send s hid value).bind fun _ => trivial)))
  rintro _ w' rfl
  exact hw

/-! ## Handlers that keep the members -/

/-- What an operation may do at its end: anything, as far as the ledger is concerned. -/
abbrev anyEnd : Unit → Ledger → Prop := fun _ _ => True

theorem wp_anyEnd {p : Op Unit} {P : Unit → Ledger → Prop} (h : p.wp (ledger distinct live m task) P v) :
    p.wp (ledger distinct live m task) anyEnd v := wp_mono (fun _ _ _ => trivial) h

theorem wp_neutral_any {p : Op α} (hp : p.Makes (Neutral m)) :
    p.wp (ledger distinct live m task) (fun _ _ => True) v := wp_mono (fun _ _ _ => trivial) (wp_neutral hp)

/-- A login in a room keeps the user: a session that has one may only renew its token. -/
theorem wp_login {s : SessionId} {r : Request} (htask : task = .dispatch s (.request r))
    (hid : r.id = .authLoginRequest) (body : Payload) :
    (loginHandler s body).wp (ledger distinct live m task) anyEnd v := by
  have hs : task.session? = some s := htask ▸ rfl
  refine wp_answer (Q := fun _ => True) (by decide) ?_
  unfold loginBody
  split
  · trivial
  split
  · trivial
  refine wp_skip trivial fun found => ?_
  split
  · trivial
  · trivial
  split
  · trivial
  · next owner _ =>
    refine wp_getOwn hs fun session huser _ => ?_
    dsimp only
    split
    · trivial
    · next hkeep =>
      push Not at hkeep
      refine wp_skip trivial fun user => ?_
      split
      · trivial
      split
      · trivial
      refine wp_skip trivial fun rows => ?_
      split
      · trivial
      refine wp_getOwn hs fun session' _ _ => ?_
      split
      · trivial
      refine ⟨⟨⟨r, htask, hid⟩, ?_⟩, fun _ _ _ => trivial⟩
      rcases Nat.eq_zero_or_pos v.uid with h0 | hpos
      · exact .inl h0
      · have howner := hkeep.2.2 (huser ▸ hpos.ne')
        rw [huser] at howner
        exact .inr (howner ▸ Int.toNat_natCast v.uid)

/-- A request that has passed the room fence names the room, or nothing a handler would act on. -/
theorem fence_text {r : Request} {root : Json} {n : MeetingId} (hm : m ≠ 0) (hid : r.id ≠ .joinMeetingRequest)
    (hfence : fenceFor m r = .pass) (hroot : r.body.root = .ok root) (htext : root.meetingIdText = some n) :
    n = m := by
  rw [fenceFor, if_pos ⟨hm, hid⟩] at hfence
  cases hbody : r.body with
  | throws =>
    rw [hbody] at hroot
    cases hroot
  | malformed =>
    rw [hbody] at hroot
    cases hroot
  | value root' =>
    rw [hbody] at hroot hfence
    simp only [Payload.root] at hroot
    split at hroot
    · next hobject =>
      cases hroot
      unfold Json.meetingIdText at htext
      split at htext
      · next text hget =>
        have hmember : root.isMember "meeting_id" = true := by
          cases root with
          | obj fields =>
            simp only [Json.get] at hget
            cases hfind : fields.find? (fun f => f.1 = "meeting_id") with
            | none =>
              rw [hfind] at hget
              cases hget
            | some f =>
              have hf := List.find?_some hfind
              exact List.any_eq_true.mpr ⟨f, List.mem_of_find?_eq_some hfind, hf⟩
          | _ => cases hobject
        obtain ⟨hwhole, -⟩ := Option.filter_eq_some_iff.mp htext
        have hprefix : (stoull text).map Prod.fst = some n := by
          unfold stoullWhole at hwhole
          split at hwhole
          · next value length hstoull =>
            split at hwhole
            · cases hwhole
              rw [hstoull]
              rfl
            · cases hwhole
          · cases hwhole
        simp only [roomFence, hobject, hmember, Bool.and_self, if_true, hget, hprefix] at hfence
        by_contra hne
        rw [if_pos hne] at hfence
        cases hfence
      · cases htext
    · cases hroot

/-- The meeting START, LEAVE and END act on is the room. -/
theorem fence_meeting {r : Request} {session : Session} {n : MeetingId} (hm : m ≠ 0)
    (hid : r.id ≠ .joinMeetingRequest) (hfence : fenceFor m r = .pass)
    (hrequest : meetingRequest r.body session = .ok n) : n = m := by
  unfold meetingRequest at hrequest
  split at hrequest
  · cases hrequest
  · next root hroot =>
    split at hrequest
    · cases hrequest
    · next meeting htext =>
      split at hrequest
      · cases hrequest
      · cases hrequest
        exact fence_text hm hid hfence hroot htext

/-- The meeting a message is for is the room. -/
theorem fence_message {r : Request} {request : MessageRequest} (hm : m ≠ 0)
    (hid : r.id ≠ .joinMeetingRequest) (hfence : fenceFor m r = .pass)
    (hrequest : messageRequest r.body = .ok request) : request.meeting = m := by
  unfold messageRequest at hrequest
  split at hrequest
  · cases hrequest
  · next root hroot =>
    split at hrequest
    · dsimp only at hrequest
      split at hrequest
      · cases hrequest
      · split at hrequest
        · next target id _ htext =>
          cases hrequest
          exact fence_text hm hid hfence hroot htext
        · cases hrequest
    · cases hrequest

theorem wp_start (s : SessionId) {r : Request} (hm : m ≠ 0) (hid : r.id = .startMeetingRequest)
    (hfence : fenceFor m r = .pass) :
    (startMeetingHandler m s r.body).wp (ledger distinct live m task) anyEnd v := by
  have hjoin : r.id ≠ .joinMeetingRequest := by rw [hid]; decide
  refine wp_answer (Q := fun _ => True) (by decide) ?_
  unfold startBody
  refine wp_skip trivial fun session => ?_
  split
  · trivial
  next meeting hrequest =>
  have hmeeting : meeting = m := fence_meeting hm hjoin hfence hrequest
  refine wp_skip trivial fun found => ?_
  split
  · trivial
  · trivial
  split
  · trivial
  split
  · trivial
  refine wp_skip (c := Call.query .startMeeting _) hmeeting fun started => ?_
  split
  · trivial
  · exact wp_seq (wp_broadcast (by decide) _ _) fun _ _ _ => trivial

theorem wp_message {s : SessionId} {r : Request} (hm : m ≠ 0) (htask : task = .dispatch s (.request r))
    (hid : r.id = .sendMeetingMessageRequest) (hfence : fenceFor m r = .pass) :
    (sendMeetingMessageHandler m s r.body).wp (ledger distinct live m task) anyEnd v := by
  refine wp_answer (Q := fun _ => True) (by decide) ?_
  unfold sendMessageBody
  split
  · trivial
  next request hrequest =>
  have hmeeting : request.meeting = m := fence_message hm (by rw [hid]; decide) hfence hrequest
  refine wp_skip trivial fun session => wp_pass (neutral_of_silent (silent_messageChecks _ _ _)) fun checked => ?_
  split
  · trivial
  refine wp_skip (c := Call.query .messageSave _) hmeeting fun saved => ?_
  dsimp only
  split
  · trivial
  · exact wp_seq (wp_push htask hid _ _) fun _ _ _ => trivial

/-! ## JOIN and RESUME -/

theorem neutral_joinUndo (uid : Uid) (b : Bool) : (joinUndo m uid b).Makes (Neutral m) := by
  unfold joinUndo
  split
  · exact Makes.step rfl fun _ => trivial
  · trivial

theorem neutral_joinStore (uid : Uid) (resuming : Bool) {a : Admission} (ha : a.info.meetingId = m)
    (value : Reply) : (joinStore m uid resuming a value).Makes (Neutral m) := by
  unfold joinStore
  repeat' first
    | exact trivial | exact rfl | exact ha | exact Or.inr rfl | split
    | refine Makes.bind (neutral_joinUndo _ _) fun _ => ?_
    | refine Makes.step ?_ fun _ => ?_

/-- The admission keeps the meeting it is about. -/
theorem wp_joinPlace (uid : Uid) (resuming : Bool) (info : MeetingInfo) (value : Reply) :
    (joinPlace m uid resuming info value).wp (ledger distinct live m task)
      (fun r v' => v' = v ∧ ∀ a, r = .ok a → a.info = info) v := by
  refine wp_skip trivial fun found => ?_
  dsimp only
  split
  · exact ⟨rfl, nofun⟩
  split
  · exact ⟨rfl, nofun⟩
  split
  · exact ⟨rfl, nofun⟩
  split
  · refine wp_pass (neutral_of_silent (silent_rejoin m uid value)) fun r => ?_
    split
    · exact ⟨rfl, nofun⟩
    · refine ⟨rfl, fun a ha => ?_⟩
      cases ha
      rfl
  · refine ⟨rfl, fun a ha => ?_⟩
    cases ha
    rfl

/-- A meeting that admits is the room's. -/
theorem wp_joinInfo (resuming : Bool) (code : String) :
    (joinInfo m resuming code).wp (ledger distinct live m task)
      (fun r v' => v' = v ∧ ∀ info, r = .ok info → info.meetingId = m) v := by
  have checked : ∀ info info' : MeetingInfo,
      (if info.meetingId ≠ m then .error (Reply.error .meetingNotFound)
        else if info.status = .kCancelled ∨ info.status = .kEnded then .error (Reply.error .meetingStatus)
        else .ok info : Except Reply MeetingInfo) = .ok info' → info'.meetingId = m := by
    intro info info' h
    split at h
    · cases h
    · next hinfo =>
      split at h
      · cases h
      · cases h
        exact not_not.mp hinfo
  unfold joinInfo
  split
  · refine wp_skip trivial fun found => ?_
    split
    · exact ⟨rfl, checked _⟩
    · exact ⟨rfl, nofun⟩
    · exact ⟨rfl, nofun⟩
  · refine wp_skip trivial fun found => ?_
    split
    · exact ⟨rfl, checked _⟩
    · exact ⟨rfl, nofun⟩

/-- The ledger after a reading of the steady clock. -/
def Ledger.at (v : Ledger) (now : Nat) : Ledger := { v with clock := now }

theorem wp_steadyNow {k : Nat → Op α} (hk : ∀ now, (k now).wp (ledger distinct live m task) Q (v.at now)) :
    (steadyNow.bind k).wp (ledger distinct live m task) Q v := by
  refine ⟨trivial, fun now v' hr => ?_⟩
  obtain ⟨-, rfl⟩ := hr
  exact hk now

/-- What an accepted credential check has established about the member. -/
def Credited (v : Ledger) (c : Credentials) (checkedAt : Option Nat) : Prop :=
  ∃ member, v.data.members v.uid = some member ∧ member.admits c v.token = true ∧
    ∀ d, member.deadline = some d → ∃ t, checkedAt = some t ∧ t < d

theorem wp_deadlineOpen (deadline : Option Nat) :
    (deadlineOpen deadline).wp (ledger distinct live m task)
      (fun r v' => (∃ now, v' = v.at now) ∧ ∀ checkedAt, r = some checkedAt →
        ∀ d, deadline = some d → ∃ t, checkedAt = some t ∧ t < d) v := by
  cases deadline with
  | none => exact ⟨⟨v.clock, rfl⟩, fun _ _ d hd => by cases hd⟩
  | some d =>
    refine wp_steadyNow fun now => ⟨⟨now, rfl⟩, fun checkedAt h d' hd => ?_⟩
    cases hd
    split at h
    · cases h
    · next hopen =>
      cases h
      exact ⟨now, rfl, Nat.lt_of_not_le hopen⟩

theorem wp_resumeCheck {s : SessionId} (hs : task.session? = some s) (c : Credentials) (value : Reply) :
    (resumeCheck m s v.uid c value).wp (ledger distinct live m task)
      (fun r v' => (∃ now, v' = v.at now) ∧ ∀ checkedAt, r = .ok checkedAt → Credited v c checkedAt) v := by
  refine wp_getRoom ?_
  split
  · exact ⟨⟨v.clock, rfl⟩, fun _ h => by cases h⟩
  · next member hmember =>
    refine wp_getOwn hs fun session _ htoken => ?_
    split
    · exact ⟨⟨v.clock, rfl⟩, fun _ h => by cases h⟩
    · next hadmits =>
      refine wp_seq (wp_deadlineOpen (v := v) member.deadline) ?_
      rintro r v' ⟨⟨now, rfl⟩, hr⟩
      split
      · exact ⟨⟨now, rfl⟩, fun _ h => by cases h⟩
      · next checkedAt =>
        refine ⟨⟨now, rfl⟩, fun checkedAt' h => ?_⟩
        cases h
        exact ⟨member, hmember, by simpa [htoken] using hadmits, hr checkedAt rfl⟩

theorem wp_joinChecks {s : SessionId} (hs : task.session? = some s) (resuming : Bool) (root : Json)
    (code : String) :
    (joinChecks m s v.uid resuming root code).wp (ledger distinct live m task)
      (fun r v' => (∃ now, v' = v.at now) ∧ ∀ info resume, r = .ok (info, resume) → info.meetingId = m ∧
        if resuming then ∃ c checkedAt, resume = some (c, checkedAt) ∧ resumeCredentials root = some c ∧
          Credited v c checkedAt
        else resume = none) v := by
  refine wp_seq (wp_joinInfo resuming code) ?_
  rintro r w ⟨rfl, hinfo⟩
  split
  · exact ⟨⟨w.clock, rfl⟩, fun _ _ h => by cases h⟩
  next info =>
  have hmeeting : info.meetingId = m := hinfo info rfl
  split
  · next hresuming =>
    split
    · exact ⟨⟨w.clock, rfl⟩, fun _ _ h => by cases h⟩
    · next c hc =>
      refine wp_seq (wp_resumeCheck (v := w) hs c _) ?_
      rintro r v' ⟨⟨now, rfl⟩, hr⟩
      split
      · exact ⟨⟨now, rfl⟩, fun _ _ h => by cases h⟩
      · next checkedAt =>
        refine ⟨⟨now, rfl⟩, fun info resume h => ?_⟩
        cases h
        exact ⟨hmeeting, c, checkedAt, rfl, hc, hr checkedAt rfl⟩
  · split
    · refine wp_pass (neutral_of_silent (silent_joinPassword _ _ _)) fun r => ?_
      split
      · exact ⟨⟨w.clock, rfl⟩, fun _ _ h => by cases h⟩
      · refine ⟨⟨w.clock, rfl⟩, fun info resume h => ?_⟩
        cases h
        exact ⟨hmeeting, rfl⟩
    · refine ⟨⟨w.clock, rfl⟩, fun info resume h => ?_⟩
      cases h
      exact ⟨hmeeting, rfl⟩

/-- The root of a JOIN or RESUME that has the right shape is the body's. -/
theorem joinRoot_root {resuming : Bool} {body : Payload} {root : Json} {code : String}
    (h : joinRoot resuming body = .ok (root, code)) : body.root = .ok root := by
  unfold joinRoot at h
  split at h
  · cases h
  · next root' hroot =>
    split at h
    · cases h
    · split at h
      · cases h
      · split at h
        · cases h
        · cases h
          exact hroot

/-- The ticket a JOIN draws is known, and new where tickets are never drawn twice. -/
theorem wp_joinTicket (resuming : Bool) :
    (joinTicket m v.uid resuming).wp (ledger distinct live m task)
      (fun r v' => (∃ issued, v' = { v with issued := issued }) ∧ ∀ ticket, r = some ticket →
        resuming = false → ticket ∈ v'.issued ∧ (distinct → ticket ∉ tickets v'.data.history)) v := by
  unfold joinTicket
  cases resuming with
  | true => exact wp_getRoom ⟨⟨v.issued, rfl⟩, fun _ _ h => by cases h⟩
  | false =>
    refine ⟨trivial, fun ticket v' hr => ?_⟩
    cases ticket with
    | none =>
      cases hr
      exact ⟨⟨v.issued, rfl⟩, fun _ h => by cases h⟩
    | some t =>
      obtain ⟨rfl, hfresh⟩ := hr
      refine ⟨⟨_, rfl⟩, fun ticket h _ => ?_⟩
      cases h
      exact ⟨List.mem_cons_self, hfresh⟩

/-- The event a rebinding records is allowed, and what it makes of the member is what the source
makes of it. -/
theorem rebound_spec {s : SessionId} {previous : Option SessionId} {ticket : String}
    {resume : Option (Credentials × Option Nat)} {r : Request}
    (htask : task = .dispatch s (.request r)) (hjoin : resume = none → r.id = .joinMeetingRequest)
    (hpresents : ∀ c checkedAt, resume = some (c, checkedAt) → task.Presents s c)
    (hprevious : ∀ old, v.data.members v.uid = some old → (previous = some s ↔ old.session = s))
    (hmoved : ∀ old, v.data.members v.uid = some old → old.session ≠ s → live old.session → v.shut old.session)
    (hresume : ∀ c checkedAt, resume = some (c, checkedAt) → Credited v c checkedAt)
    (hticket : resume = none → ticket ∈ v.issued ∧ (distinct → ticket ∉ tickets v.data.history)) :
    Change distinct live task v { v.data with
      members := Function.update v.data.members v.uid
        (some (rebound (v.data.members v.uid) v.uid s previous v.token ticket resume).1)
      history := (rebound (v.data.members v.uid) v.uid s previous v.token ticket resume).2 ::
        v.data.history } := by
  cases resume with
  | none =>
    have hr : rebound (v.data.members v.uid) v.uid s previous v.token ticket none =
        ({ ticket := ticket, authToken := v.token, lastRequest := "", session := s },
          .joined v.uid s v.token ticket) := by
      cases v.data.members v.uid <;> rfl
    obtain ⟨hissued, hfresh⟩ := hticket rfl
    rw [hr]
    refine .event _ rfl rfl trivial ⟨⟨r, htask, hjoin rfl⟩, rfl, rfl, hissued⟩ (fun hd t ht => ?_) ?_
    · cases ht
      exact hfresh hd
    · rintro u s' member ⟨⟩
      exact hmoved member
  | some p =>
    obtain ⟨c, checkedAt⟩ := p
    obtain ⟨old, hold, hadmits, hdeadline⟩ := hresume c checkedAt rfl
    simp only [hold, rebound]
    refine .event _ ?_ rfl ⟨old, hold, hadmits, hdeadline⟩ ⟨hpresents c checkedAt rfl, rfl, rfl⟩
      (fun _ t ht => by cases ht) ?_
    swap
    · rintro u s' member ⟨⟩
      exact hmoved member
    simp only [RoomEvent.apply, hold, Option.map_some, RoomEvent.rebind, hprevious old hold]

/-- The ledger after a session was given a meeting. -/
def Ledger.move (v : Ledger) (m : MeetingId) (s : SessionId) (n : MeetingId) : Ledger :=
  { v with
    out := fun x => (x ≠ s ∧ v.out x) ∨ (x = s ∧ n ≠ m)
    shut := fun x => v.shut x ∧ (x = s → n ≠ m) }

theorem wp_setMeeting {s : SessionId} {n : MeetingId} {k : Unit → Op α}
    (hn : n = 0 ∨ (n = m ∧ task.session? = some s)) (hk : (k ()).wp (ledger distinct live m task) Q (v.move m s n)) :
    ((setMeetingId s n).bind k).wp (ledger distinct live m task) Q v :=
  ⟨hn, fun _ _ hv => hv ▸ hk⟩

/-- The session a member is bound to is known by its object: it is the operation's own exactly when that
is the one that is left, and it is found while its object is left. -/
theorem wp_boundSession {s : SessionId} (hs : task.session? = some s) (member : Option Membership) :
    (boundSession member).wp (ledger distinct live m task)
      (fun previous v' => v' = v ∧ ∀ old, member = some old →
        (previous = some s ↔ old.session = s) ∧ (live old.session → previous = some old.session)) v := by
  cases member with
  | none => exact ⟨rfl, fun old h => by cases h⟩
  | some old =>
    refine ⟨trivial, fun previous v' hr => ?_⟩
    obtain ⟨rfl, hlock, hown⟩ := hr
    refine ⟨rfl, fun old' h => ?_⟩
    cases h
    refine ⟨⟨fun h => ?_, ?_⟩, fun hlive => hown (.inr hlive)⟩
    · rcases hlock with hn | hsome
      · rw [hn] at h
        cases h
      · rw [hsome] at h
        exact Option.some.inj h
    · rintro rfl
      exact hown (.inl hs)

/-- The ledger with other knowledge of who is out. -/
def Ledger.fenced (v : Ledger) (out shut : SessionId → Prop) : Ledger := { v with out := out, shut := shut }

/-- The session that was bound before is out of the room, then closed. -/
theorem wp_displace (hm : m ≠ 0) (previous : Option SessionId) (s : SessionId) :
    (displace previous s).wp (ledger distinct live m task)
      (fun _ v' => ∃ out shut, v' = v.fenced out shut ∧ ∀ p, previous = some p → p ≠ s → shut p) v := by
  unfold displace
  split
  · next p =>
    split
    · next hp => exact ⟨v.out, v.shut, rfl, fun q hq hne => by cases hq; exact absurd hp hne⟩
    · refine wp_pass (neutral_of_silent (silent_releaseMedia _)) fun _ => wp_setMeeting (.inl rfl) ?_
      refine ⟨trivial, fun _ v' hv => ?_⟩
      cases hv
      refine ⟨_, _, rfl, fun q hq _ => ?_⟩
      cases hq
      exact .inr ⟨rfl, .inr ⟨rfl, Ne.symm hm⟩⟩
  · exact ⟨v.out, v.shut, rfl, nofun⟩

theorem wp_joinBind {s : SessionId} {r : Request} {isReconnected : Bool} {ticket : String}
    {resume : Option (Credentials × Option Nat)} (hm : m ≠ 0) (htask : task = .dispatch s (.request r))
    (hjoin : resume = none → r.id = .joinMeetingRequest)
    (hpresents : ∀ c checkedAt, resume = some (c, checkedAt) → task.Presents s c)
    (hresume : ∀ c checkedAt, resume = some (c, checkedAt) → Credited v c checkedAt)
    (hticket : resume = none → ticket ∈ v.issued ∧ (distinct → ticket ∉ tickets v.data.history)) :
    (joinBind m s v.uid isReconnected ticket resume).wp (ledger distinct live m task) (fun _ _ => True) v := by
  have hs : task.session? = some s := htask ▸ rfl
  refine wp_getRoom (wp_seq (wp_boundSession hs _) ?_)
  rintro previous w ⟨hw, hprevious⟩
  subst hw
  refine wp_seq (wp_displace hm previous s) ?_
  rintro _ w ⟨out, shut, rfl, hshut⟩
  refine wp_getOwn hs fun session _ htoken => ?_
  rw [htoken]
  have hmoved : ∀ old, (w.fenced out shut).data.members (w.fenced out shut).uid = some old →
      old.session ≠ s → live old.session → (w.fenced out shut).shut old.session :=
    fun old hold hne hlive => hshut old.session ((hprevious old hold).2 hlive) hne
  refine wp_getRoom (wp_setRoom (rebound_spec htask hjoin hpresents (fun old hold => (hprevious old hold).1)
    hmoved hresume hticket) ?_)
  refine wp_setMeeting (.inr ⟨rfl, hs⟩) (wp_seq (wp_pruneSilent (silent_staysInRoom s _ isReconnected)) ?_)
  rintro _ w ⟨ss, rfl⟩
  exact wp_getRoom (wp_setRoom (.sessions rfl rfl) trivial)

theorem wp_joinAnswer (uid : Uid) (a : Admission) (members : List Uid) (value : Reply) :
    (joinAnswer m uid a members value).wp (ledger distinct live m task) (fun _ _ => True) v := by
  refine wp_pass (neutral_of_silent (Makes.collect fun u _ => silent_memberJson m uid u)) fun listed => ?_
  refine wp_seq (P := fun _ _ => True) ?_ fun _ w _ => ?_
  · unfold joinedNotice
    split
    · exact wp_mono (fun _ _ _ => trivial) (wp_broadcast (by decide) _ _)
    · trivial
  · refine wp_seq (P := fun _ _ => True) ?_ fun _ _ _ => trivial
    unfold returnedNotice
    split
    · exact wp_mono (fun _ _ _ => trivial) (wp_broadcast (by decide) _ _)
    · trivial

/-- JOIN and RESUME, for a session whose user is `v.uid`. -/
theorem wp_join {s : SessionId} {r : Request} (resuming : Bool) (hm : m ≠ 0) (htask : task = .dispatch s (.request r))
    (hid : r.id = if resuming then .resumeMeetingRequest else .joinMeetingRequest) :
    (joinMeetingHandler m s resuming r.body).wp (ledger distinct live m task) anyEnd v := by
  have hs : task.session? = some s := htask ▸ rfl
  refine wp_seq (P := fun _ _ => True) ?_ fun value w _ => ?_
  · unfold joinBody
    split
    · trivial
    next root code hroot =>
    refine wp_getOwn hs fun session huser _ => ?_
    dsimp only
    rw [huser]
    split
    · trivial
    refine wp_seq (wp_joinChecks hs resuming _ _) ?_
    rintro checked w ⟨⟨now, rfl⟩, hchecked⟩
    split
    · trivial
    · next info resume =>
      obtain ⟨hmeeting, hresume⟩ := hchecked info resume rfl
      have hkind : (resume = none → r.id = .joinMeetingRequest ∧ resuming = false) ∧
          ∀ c checkedAt, resume = some (c, checkedAt) → task.Presents s c ∧ Credited v c checkedAt := by
        cases resuming with
        | true =>
          obtain ⟨c, checkedAt, rfl, hc, hcred⟩ := hresume
          refine ⟨nofun, ?_⟩
          rintro _ _ ⟨⟩
          exact ⟨⟨r, root, htask, hid, joinRoot_root hroot, hc⟩, hcred⟩
        | false =>
          have hnone : resume = none := hresume
          subst hnone
          exact ⟨fun _ => ⟨hid, rfl⟩, fun _ _ h => by cases h⟩
      refine wp_seq (wp_joinPlace (v := v.at now) _ _ _ _) ?_
      rintro place w ⟨rfl, hplace⟩
      split
      · trivial
      next a =>
      have ha : a.info.meetingId = m := (hplace a rfl).symm ▸ hmeeting
      refine wp_seq (wp_joinTicket (v := v.at now) resuming) ?_
      rintro ticket w ⟨⟨issued, rfl⟩, hticket⟩
      split
      · trivial
      · next ticket =>
        refine wp_pass (neutral_joinStore _ _ ha _) fun stored => ?_
        split
        · trivial
        exact wp_seq (wp_joinBind (v := { v.at now with issued := issued }) hm htask
          (fun h => (hkind.1 h).1) (fun c checkedAt h => (hkind.2 c checkedAt h).1)
          (fun c checkedAt h => (hkind.2 c checkedAt h).2) (fun h => hticket ticket rfl (hkind.1 h).2))
          fun member w _ => wp_joinAnswer _ _ _ _
  · refine wp_pass (neutral_of_quiet (quiet_send _ (by split <;> decide) _)) fun queued => ?_
    split
    · exact ⟨trivial, fun _ _ _ => trivial⟩
    · trivial

/-! ## LEAVE and END -/

theorem neutral_leaveStore (uid : Uid) : (leaveStore m uid).Makes (Neutral m) := by
  unfold leaveStore
  repeat' first
    | exact trivial | exact rfl | exact Or.inl rfl | split | refine Makes.step ?_ fun _ => ?_

theorem wp_leave {s : SessionId} {r : Request} (hm : m ≠ 0) (htask : task = .dispatch s (.request r))
    (hid : r.id = .leaveMeetingRequest) (hfence : fenceFor m r = .pass) :
    (leaveMeetingHandler m s r.body).wp (ledger distinct live m task) anyEnd v := by
  have hs : task.session? = some s := htask ▸ rfl
  refine wp_answer (Q := fun _ => True) (by decide) (wp_getOwn hs fun session huser _ => ?_)
  split
  · trivial
  next meeting hrequest =>
  obtain rfl : meeting = m := fence_meeting hm (by rw [hid]; decide) hfence hrequest
  refine wp_skip trivial fun session' => ?_
  split
  · refine wp_pass (neutral_leaveStore _) fun stored => ?_
    split
    · refine wp_seq (P := fun _ _ => True) ?_ fun _ _ _ => trivial
      refine wp_seq (P := fun _ v' => ∃ ss, v' = v.withSessions ss) ?_ ?_
      · refine wp_getRoom ?_
        split
        · exact ⟨v.data.sessions, rfl⟩
        · refine wp_seq (wp_pruneSilent (silent_notThis s)) ?_
          rintro _ w ⟨ss, rfl⟩
          refine wp_skip trivial fun count => wp_mono ?_ (wp_broadcast (by decide) _ _)
          rintro _ w' ⟨ss', rfl⟩
          exact ⟨ss', rfl⟩
      · rintro _ w ⟨ss, rfl⟩
        refine wp_pass (neutral_of_silent (silent_releaseMedia s)) fun _ => wp_getRoom (wp_setRoom ?_ ?_)
        · exact .event (.left session.userId) rfl rfl trivial ⟨⟨s, r, htask, hid⟩, huser⟩ nofun nofun
        · exact wp_skip (c := Call.releaseUser _ _) rfl fun _ => ⟨.inl rfl, fun _ _ _ => trivial⟩
    · trivial
  · refine wp_skip trivial fun found => ?_
    split <;> trivial

theorem neutral_endStore : (endStore m).Makes (Neutral m) := by
  refine Makes.step trivial fun found => ?_
  split
  · trivial
  · refine (Makes.collect fun uid _ => ?_).bind fun _ => Makes.step rfl fun _ => trivial
    exact Makes.step rfl fun _ => Makes.step rfl fun _ => Makes.step trivial fun _ =>
      Makes.step (.inl rfl) fun _ => trivial

theorem wp_endSession (meeting : MeetingId) (item : SessionId) :
    (endSession meeting item).wp (ledger distinct live m task)
      (fun _ v' => ∃ out shut, v' = v.fenced out shut) v := by
  refine wp_skip trivial fun r => ?_
  split
  · exact ⟨v.out, v.shut, rfl⟩
  · refine wp_skip (c := Call.send _ .meetingEnded _) RequestID.noConfusion fun _ => ?_
    exact wp_pass (neutral_of_silent (silent_releaseMedia _)) fun _ => ⟨.inl rfl, fun _ _ hv => ⟨_, _, hv⟩⟩

theorem wp_endSessions (meeting : MeetingId) (items : List SessionId) :
    (Prog.each (endSession meeting) items).wp (ledger distinct live m task)
      (fun _ v' => ∃ out shut, v' = v.fenced out shut) v := by
  refine wp_each (I := fun w => ∃ out shut, w = v.fenced out shut) (fun item _ w hw => ?_)
    ⟨v.out, v.shut, rfl⟩
  obtain ⟨out, shut, rfl⟩ := hw
  refine wp_mono ?_ (wp_endSession meeting item)
  rintro _ w ⟨out', shut', rfl⟩
  exact ⟨out', shut', rfl⟩

theorem wp_end {s : SessionId} {r : Request} (hm : m ≠ 0) (htask : task = .dispatch s (.request r))
    (hid : r.id = .endMeetingRequest) (hfence : fenceFor m r = .pass) :
    (endMeetingHandler m s r.body).wp (ledger distinct live m task) anyEnd v := by
  refine wp_answer (Q := fun _ => True) (by decide) (wp_skip trivial fun session => ?_)
  split
  · trivial
  next meeting hrequest =>
  obtain rfl : meeting = m := fence_meeting hm (by rw [hid]; decide) hfence hrequest
  refine wp_skip trivial fun found => ?_
  split
  · trivial
  · trivial
  split
  · trivial
  split
  · trivial
  refine wp_skip (c := Call.query .endMeeting _) rfl fun ended => ?_
  split
  · trivial
  refine wp_pass neutral_endStore fun cleaned => ?_
  refine wp_seq (P := fun _ _ => True) ?_ fun _ _ _ => trivial
  refine wp_getRoom (wp_setRoom ?_ ?_)
  · exact .event .ended rfl rfl trivial ⟨s, r, htask, hid⟩ nofun nofun
  · refine wp_skip (c := Call.releaseRoomUsers _) rfl fun _ => wp_getRoom ?_
    refine wp_seq (wp_endSessions _ _) ?_
    · rintro _ w ⟨out, shut, rfl⟩
      exact wp_getRoom ⟨⟨rfl, .sessions rfl rfl⟩, fun _ _ _ => trivial⟩

/-! ## Disconnect and expiry -/

theorem neutral_loseMember (uid : Uid) : (loseMember m uid).Makes (Neutral m) := by
  have mark : ∀ deadline, (markStore m uid deadline).Makes (Neutral m) := by
    intro deadline
    unfold markStore
    repeat' first
      | exact trivial | exact rfl | split | refine Makes.step ?_ fun _ => ?_
  unfold loseMember
  repeat' first
    | exact trivial | exact rfl | split | refine Makes.bind (mark _) fun _ => ?_
    | refine Makes.step ?_ fun _ => ?_

/-- The disconnect of the member's session starts the grace period. -/
theorem wp_stampDeadline {s : SessionId} (htask : task = .dispatch s .disconnected) :
    (stampDeadline m s v.uid).wp (ledger distinct live m task) (fun _ _ => True) v := by
  refine wp_getRoom ?_
  split
  · trivial
  · next member hmember =>
    split
    · next hsession =>
      refine wp_steadyNow fun now => ⟨⟨rfl, ?_⟩, fun _ _ _ => trivial⟩
      refine .event (.disconnected v.uid s now) ?_ rfl ⟨member, hmember, hsession⟩ ⟨htask, rfl, le_refl now⟩
        nofun nofun
      simp only [RoomEvent.apply, Ledger.at, hmember, Option.map_some]
    · trivial

theorem wp_leaveSession (s : SessionId) :
    (leaveSession s).wp (ledger distinct live m task) anyEnd v :=
  wp_pass (neutral_of_silent (silent_releaseMedia s)) fun _ => ⟨.inl rfl, fun _ _ _ => trivial⟩

theorem wp_disconnected {s : SessionId} (htask : task = .dispatch s .disconnected) :
    (sessionDisconnectedHandler m s).wp (ledger distinct live m task) anyEnd v := by
  have hs : task.session? = some s := htask ▸ rfl
  refine wp_getHere hs fun session hhere => ?_
  dsimp only
  split
  · trivial
  next hin =>
  have hmeeting : session.meetingId = m := hhere.resolve_left hin
  refine wp_getOwn hs fun session' huser _ => wp_getRoom ?_
  split
  · exact wp_leaveSession s
  refine wp_pass (neutral_of_silent (silent_lockAll _)) fun active => ?_
  refine wp_pass (neutral_of_silent (Makes.select fun item _ => silent_isOther _ _ _)) fun others => ?_
  refine wp_seq (wp_pruneSilent (silent_notThis s)) ?_
  rintro _ w ⟨ss, rfl⟩
  rw [show session'.userId = (v.withSessions ss).uid from huser]
  refine wp_seq (wp_stampDeadline htask) fun _ w _ => ?_
  refine wp_pass (p := loseIf _ _ _) ?_ fun notification => ?_
  · unfold loseIf
    split
    · rw [hmeeting]
      exact neutral_loseMember _
    · trivial
  · refine wp_seq (P := fun _ _ => True) ?_ fun _ _ _ => wp_leaveSession s
    cases notification with
    | none => trivial
    | some n => exact wp_anyEnd (wp_broadcast (by decide) _ _)

/-- What a passed grace check has established about the member, if there is one. -/
def GraceOver (v : Ledger) (uid : Uid) (checkedAt : Nat) : Prop :=
  checkedAt ≤ v.clock ∧ ∀ member, v.data.members uid = some member → ∀ d, member.deadline = some d → d ≤ checkedAt

theorem wp_graceOver (uid : Uid) :
    (graceOver m uid).wp (ledger distinct live m task)
      (fun r v' => (∃ now, v' = v.at now) ∧ ∀ checkedAt, r = some checkedAt → GraceOver v' uid checkedAt) v := by
  refine wp_getRoom ?_
  split
  · next hnone =>
    refine ⟨⟨v.clock, rfl⟩, fun checkedAt h => ?_⟩
    cases h
    exact ⟨Nat.zero_le _, fun member hm => by rw [hnone] at hm; cases hm⟩
  · next member hmember =>
    refine wp_steadyNow fun now => ?_
    split
    · next hnone =>
      refine ⟨⟨now, rfl⟩, fun checkedAt h => ?_⟩
      cases h
      refine ⟨le_refl now, fun member' hm d hd => ?_⟩
      rw [show (v.at now).data.members uid = some member from hmember] at hm
      cases hm
      rw [hnone] at hd
      cases hd
    · next deadline hdeadline =>
      refine ⟨⟨now, rfl⟩, fun checkedAt h => ?_⟩
      split at h
      · cases h
      · next hover =>
        cases h
        refine ⟨le_refl now, fun member' hm d hd => ?_⟩
        rw [show (v.at now).data.members uid = some member from hmember] at hm
        cases hm
        rw [hdeadline] at hd
        cases hd
        exact Nat.le_of_not_lt hover

theorem neutral_expiryDue (uid : Uid) (now : Nat) : (expiryDue m uid now).Makes (Neutral m) := by
  unfold expiryDue
  repeat' first | exact trivial | exact rfl | split | refine Makes.step ?_ fun _ => ?_

theorem wp_forgetMember {uid : Uid} (htask : task = .expire uid) {checkedAt : Nat}
    (hover : GraceOver v uid checkedAt) :
    (forgetMember m uid checkedAt).wp (ledger distinct live m task) (fun _ _ => True) v := by
  refine wp_getRoom ⟨⟨rfl, ?_⟩, fun _ _ _ => ⟨rfl, fun _ _ _ => trivial⟩⟩
  cases hmember : v.data.members uid with
  | none =>
    refine .sessions ?_ rfl
    rw [← hmember]
    exact Function.update_eq_self _ _
  | some member =>
    exact .event (.expired uid checkedAt) rfl rfl ⟨member, hmember, hover.2 member hmember⟩ ⟨htask, hover.1⟩
      nofun nofun

theorem wp_expire {uid : Uid} (htask : task = .expire uid) :
    (expireMemberHandler m uid).wp (ledger distinct live m task) anyEnd v := by
  refine wp_skip trivial fun reserved => ?_
  split
  · trivial
  refine wp_skip trivial fun now => ?_
  split
  · exact wp_skip (c := Call.query .expireBad _) rfl fun _ => trivial
  refine wp_seq (wp_graceOver uid) ?_
  rintro r w ⟨⟨now, rfl⟩, hr⟩
  split
  · trivial
  · next checkedAt =>
    refine wp_pass (neutral_expiryDue _ _) fun due => ?_
    split
    · trivial
    refine wp_skip (c := Call.query .expireRemove _) rfl fun removed => ?_
    split
    · trivial
    refine wp_skip (c := Call.query .expireIndex _) rfl fun dropped => ?_
    split
    · trivial
    refine wp_skip (c := Call.query .expireHash _) rfl fun _ => wp_skip trivial fun _ =>
      wp_skip (c := Call.query .expirePresenceMeeting _) (.inl rfl) fun _ => ?_
    refine wp_seq (wp_forgetMember htask (hr checkedAt rfl)) fun _ w _ => ?_
    exact wp_skip trivial fun count => wp_anyEnd (wp_broadcast (by decide) _ _)

/-! ## Every task -/

theorem wp_handle {s : SessionId} {r : Request} (hm : m ≠ 0) (htask : task = .dispatch s (.request r))
    (hfence : fenceFor m r = .pass) :
    (handle m s r).wp (ledger distinct live m task) anyEnd v := by
  unfold handle
  split
  · next hid => exact wp_login htask hid _
  · exact wp_neutral_any (neutral_of_quiet (quiet_answer s (by decide) (silent_ai s _)))
  · exact wp_neutral_any (neutral_of_quiet (quiet_answer s (by decide) (silent_create s _)))
  · exact wp_neutral_any (neutral_of_quiet (quiet_answer s (by decide) (silent_past s)))
  · next hid => exact wp_join false hm htask hid
  · next hid => exact wp_join true hm htask hid
  · next hid => exact wp_start s hm hid hfence
  · next hid => exact wp_leave hm htask hid hfence
  · next hid => exact wp_end hm htask hid hfence
  · next hid => exact wp_message hm htask hid hfence
  · exact wp_neutral_any (neutral_of_quiet (quiet_answer s (by decide) (silent_group s _)))
  · exact wp_neutral_any (neutral_of_quiet (quiet_answer s (by decide) (silent_private s _)))
  · exact wp_neutral_any (neutral_of_quiet (quiet_offer s _))
  · exact wp_neutral_any (neutral_of_quiet (quiet_candidate s _))
  · exact wp_neutral_any (neutral_of_silent (silent_answerOffer s _))
  · trivial

theorem wp_dispatch {s : SessionId} {command : Command} (hm : m ≠ 0) (htask : task = .dispatch s command) :
    (dispatch m s command).wp (ledger distinct live m task) anyEnd v := by
  cases command with
  | disconnected => exact wp_skip (c := Call.reservePool true) trivial fun _ => wp_disconnected htask
  | request r =>
    have hreply : ∀ code (w : Ledger), (replyError s r.id code).wp (ledger distinct live m task) anyEnd w :=
      fun code w => wp_neutral_any (neutral_of_quiet (quiet_replyError s r.id code))
    have hreserved : ∀ w : Ledger, fenceFor m r = .pass →
        (handleReserved m s r).wp (ledger distinct live m task) anyEnd w := by
      intro w hfence
      unfold handleReserved
      split
      · refine wp_skip trivial fun session => wp_skip (c := Call.reserveUser _ _) rfl fun reserved => ?_
        split
        · refine wp_seq (wp_handle hm htask hfence) fun _ w' _ => ?_
          exact wp_skip trivial fun session' => ⟨rfl, fun _ _ _ => trivial⟩
        · exact hreply _ _
      · exact wp_handle hm htask hfence
    show (dispatchRequest m s r).wp _ _ _
    unfold dispatchRequest
    split
    · refine wp_skip (c := Call.getSession s) trivial fun session => ?_
      split
      · trivial
      refine wp_pass (neutral_of_silent (silent_mayAct m s r)) fun may => ?_
      split
      · refine wp_pass (neutral_of_silent (silent_reserveFor r)) fun placed => ?_
        split
        · split
          · trivial
          · exact hreply _ _
          · next hfence => exact hreserved _ hfence
        · exact hreply _ _
      · exact hreply _ _
    · trivial

/-- Every operation of a room keeps to the history, whatever its calls are answered. -/
theorem wp_task (hm : m ≠ 0) : (task.op m).wp (ledger distinct live m task) anyEnd v := by
  cases task with
  | dispatch s command => exact wp_dispatch hm rfl
  | expire uid => exact wp_expire rfl
  | mediaReply epoch id registered message => exact wp_neutral_any (neutral_of_quiet (quiet_mediaReply m epoch id registered message))

end

end SyncRtc
