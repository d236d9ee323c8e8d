import SyncRtc.Laws.Steps

/-!
# One operation with nobody interfering

The run of an operation to its end, each of its calls answered as `os` chooses for it. A storage call
occurs once in a run of an operation, so `os` is a pattern of failing calls. The rules verify such a
run call by call: a call that works has its effect, one that fails has none, and a part of an operation
that only looks (`Looks`) leaves the server as it was.

**What it does not establish.** Nothing here speaks of operations that interleave; `Laws.Wiring` does.
-/

set_option autoImplicit false

namespace SyncRtc

open Prog

/-- The choices the outside makes for the calls of an operation. -/
abbrev Choices := Call → Oracle

/-- The machine of an operation that runs by itself. -/
def solo (os : Choices) : Machine calls Server := .ofInterp fun c σ => exec c (os c) σ

/-- The run of an operation by itself: its answer, and the server after it. -/
def alone {α : Type} (os : Choices) (p : Op α) (σ : Server) : α × Server := p.run (fun c σ => exec c (os c) σ) σ

/-- A storage call takes effect. -/
def Choices.Works (os : Choices) (site : Site) (q : Query) : Prop := (os (.query site q)).fail = false

/-- The server over other stores. -/
def Server.withStorage (σ : Server) (st : Storage) : Server := { σ with storage := st }

instance (os : Choices) (site : Site) (q : Query) : Decidable (os.Works site q) :=
  inferInstanceAs (Decidable (_ = _))

section

variable {os : Choices} {σ : Server} {α β : Type}

theorem alone_of_wp {p : Op α} {Q : α → Server → Prop} (h : p.wp (solo os) Q σ) :
    Q (alone os p σ).1 (alone os p σ).2 := wp_ofInterp.mp h

theorem alone_bind (p : Op α) (f : α → Op β) :
    alone os (p.bind f) σ = alone os (f (alone os p σ).1) (alone os p σ).2 := run_bind p f σ

variable {Q : α → Server → Prop}

/-- The rule for a call: it is answered, and has its effect, as `os` chooses. -/
theorem solo_call {c : Call} {k : c.Res → Op α}
    (hk : (k (exec c (os c) σ).1).wp (solo os) Q (exec c (os c) σ).2) : ((call c).bind k).wp (solo os) Q σ := by
  refine ⟨trivial, ?_⟩
  intro r σ' hr
  have heq : exec c (os c) σ = (r, σ') := hr
  rw [heq] at hk
  exact hk

theorem solo_getSession {s : SessionId} {k : Session → Op α} (hk : (k (σ.sessions s)).wp (solo os) Q σ) :
    ((getSession s).bind k).wp (solo os) Q σ := solo_call hk

/-- The rule for a storage call that works. -/
theorem solo_works {site : Site} {q : Query} {k : q.Res → Op α} (h : os.Works site q)
    (hk : (k (q.apply (os (.query site q)) σ.storage).1).wp (solo os) Q
      (σ.withStorage (q.apply (os (.query site q)) σ.storage).2)) :
    ((query site q).bind k).wp (solo os) Q σ := by
  refine solo_call ?_
  simp only [exec, Query.run, show (os (.query site q)).fail = false from h, Bool.false_eq_true, if_false]
  exact hk

/-- The storage calls that write nothing. -/
def Query.Reads : Query → Prop
  | .sMembers _ | .sIsMember _ _ | .sCard _ | .hGetRoomState _ _ | .hGetDeadline _ _ | .zRangeByScore _
  | .lookupAuth _ | .getMeetingInfoByCode _ | .getMeetingInfoById _ | .getMeetingPasswordHash _
  | .checkMeetingPassword _ _ | .hashMeetingPassword _ | .getUserDisplayNameById _
  | .getMeetingGroupMessages _ _ _ | .getMeetingPrivateMessages _ _ _ _ _ | .getUserInfo _
  | .getMeetingRecently _ | .getHistoryMeeting _ => True
  | _ => False

/-- The calls that change nothing. -/
def Looks : Call → Prop
  | .getRoom _ | .getSession _ | .lock _ | .reservePool _ | .askAi _ | .steadyNow | .wallNow
  | .findSignal _ | .mediaEpoch | .isCurrent _ => True
  | .query _ q => q.Reads
  | _ => False

theorem exec_looks {c : Call} (h : Looks c) (o : Oracle) (σ : Server) : (exec c o σ).2 = σ := by
  cases c with
  | query site q =>
    simp only [exec, Query.run]
    cases q <;> first | exact h.elim | (split <;> rfl)
  | _ => first | rfl | exact h.elim

/-- A part of an operation that only looks leaves the server as it was. -/
theorem solo_looks {p : Op α} (hp : p.Makes Looks) : p.wp (solo os) (fun _ σ' => σ' = σ) σ := by
  refine hp.wp (fun _ _ _ _ => trivial) ?_ rfl
  intro c σ₁ r σ' hc hσ hr
  have hlook := exec_looks hc (os c) σ₁
  rw [show exec c (os c) σ₁ = (r, σ') from hr] at hlook
  exact hlook.trans hσ

end

/-! ## The records -/

/-- What the server holds about a user, a meeting and a session. -/
structure Records where
  members : KeySet Uid
  hash : MemberHash
  presence : Presence
  deadline : Option Nat
  bound : Uid → Option Membership
  listed : List SessionId
  reservation : Option UserPresence
  meeting : MeetingId

def Server.records (σ : Server) (m : MeetingId) (u : Uid) (s : SessionId) : Records where
  members := σ.storage.redis.members m
  hash := σ.storage.redis.member m u
  presence := σ.storage.redis.presence u
  deadline := σ.storage.redis.deadlines.score (m, u)
  bound := (σ.rooms m).data.members
  listed := (σ.rooms m).data.sessions
  reservation := σ.users u
  meeting := (σ.sessions s).meetingId

section

variable {os : Choices} {σ : Server} {m : MeetingId} {u : Uid} {s : SessionId}

/-- The server but for what quiet calls change. -/
structure Server.Same (σ : Server) (m : MeetingId) (s : SessionId) (σ' : Server) : Prop where
  redis : σ'.storage.redis = σ.storage.redis
  users : σ'.users = σ.users
  data : (σ'.rooms m).data = (σ.rooms m).data
  meeting : (σ'.sessions s).meetingId = (σ.sessions s).meetingId

theorem Server.Same.trans {σ₁ σ₂ σ₃ : Server} (h : σ₁.Same m s σ₂) (h' : σ₂.Same m s σ₃) : σ₁.Same m s σ₃ :=
  ⟨h'.redis.trans h.redis, h'.users.trans h.users, h'.data.trans h.data, h'.meeting.trans h.meeting⟩

/-- The server with another session list in room `m`, and such changes. -/
structure Server.Pruned (σ : Server) (m : MeetingId) (s : SessionId) (kept : List SessionId) (σ' : Server) :
    Prop where
  redis : σ'.storage.redis = σ.storage.redis
  users : σ'.users = σ.users
  members : (σ'.rooms m).data.members = (σ.rooms m).data.members
  sessions : (σ'.rooms m).data.sessions = kept
  meeting : (σ'.sessions s).meetingId = (σ.sessions s).meetingId

theorem Server.Pruned.trans {σ₁ σ₂ σ₃ : Server} {kept kept' : List SessionId} (h : σ₁.Pruned m s kept σ₂)
    (h' : σ₂.Pruned m s kept' σ₃) : σ₁.Pruned m s kept' σ₃ :=
  ⟨h'.redis.trans h.redis, h'.users.trans h.users, h'.members.trans h.members, h'.sessions,
    h'.meeting.trans h.meeting⟩

end

end SyncRtc
