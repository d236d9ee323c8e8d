import SyncRtc.Laws.Wiring

/-!
# A meeting's state is written by its own room

Redis keeps a meeting's member set, member hashes and deadlines, MySQL the status of its row, and the
process its room. All of it is written by operations of that room's queue and by nothing else: the
meeting a command was routed to is the one its handler acts on, or the handler writes nothing. The meeting
is read off a command up to three times on the way (`routeTarget`, `roomFence`, the handlers' own
reading), and the session may change its meeting in between.

**What it does not establish.** A presence record belongs to its user and not to a meeting; it is not part
of what is shown to be confined.
-/

set_option autoImplicit false

namespace SyncRtc

open Prog

/-- The storage calls that write a record of meeting `m`. -/
def Query.Writes (m : MeetingId) : Query → Prop
  | .sAdd n _ | .sRem n _ | .delMembers n | .hSetRoomState n _ _ | .hSetDeadline n _ _
  | .delMember n _ | .activateMember n _ | .zAdd n _ _ | .zRem n _ => n = m
  | .startMeeting n _ | .endMeeting n _ => n = m
  | .saveMeetingMessage message => message.meetingId = m
  | .updateMeetingPart info _ => info.meetingId = m
  | _ => False

/-- The calls that write a record or the containers of meeting `m`. -/
def Call.Writes (m : MeetingId) : Call → Prop
  | .setRoom n _ => n = m
  | .query _ q => q.Writes m
  | _ => False

/-- What the server keeps of a meeting while it runs. -/
structure Shared where
  members : KeySet Uid
  member : Uid → MemberHash
  deadline : Uid → Option Nat
  data : RoomData

/-- The records of a meeting in Redis. -/
def Redis.shared (r : Redis) (m : MeetingId) (data : RoomData) : Shared where
  members := r.members m
  member := r.member m
  deadline u := r.deadlines.score (m, u)
  data := data

namespace Server

/-- The shared state of a meeting. -/
def shared (σ : Server) (m : MeetingId) : Shared := σ.storage.redis.shared m (σ.rooms m).data

/-- The status in the meeting's row, if it has one. -/
def status? (σ : Server) (m : MeetingId) : Option MeetingStatus :=
  (σ.storage.mysql.meetings.byId m).map MeetingRow.status

/-- Nothing of the meeting differs; a meeting that did not exist may have been created. -/
structure Untouched (m : MeetingId) (σ σ' : Server) : Prop where
  shared : σ'.shared m = σ.shared m
  status : ∀ status, σ.status? m = some status → σ'.status? m = some status

end Server

/-! ## Storage calls -/

namespace MeetingTable

variable {t : MeetingTable} {m n : MeetingId}

/-- An update of one meeting's status leaves the row of another alone. -/
theorem byId_transition (h : m ≠ n) (user : Uid) (before after : MeetingStatus) :
    (t.transition n user before after).2.byId m = t.byId m := by
  simp only [byId, transition]
  induction t.rows with
  | nil => rfl
  | cons r rows ih =>
    by_cases hr : r.id = m
    · have hhit : decide (r.id = n ∧ r.creatorUserId = user ∧ r.status = before) = false :=
        decide_eq_false fun hn => h (hr.symm.trans hn.1)
      have hfound : decide (r.id = m) = true := decide_eq_true hr
      rw [List.map_cons, if_neg (by simp only [hhit, Bool.false_eq_true, not_false_eq_true]),
        List.find?_cons_of_pos (by exact hfound), List.find?_cons_of_pos (by exact hfound)]
    · have hid : ∀ r' : MeetingRow, r'.id = r.id → decide (r'.id = m) = false := by
        intro r' hr'
        exact decide_eq_false (hr' ▸ hr)
      rw [List.map_cons, List.find?_cons_of_neg, List.find?_cons_of_neg]
      · exact ih
      · simp [hr]
      · rw [Bool.not_eq_true]
        refine hid _ ?_
        split <;> rfl

/-- A new row leaves those that are there. -/
theorem byId_push {row r : MeetingRow} (h : t.next < row.id) (hr : t.byId m = some r) :
    (t.push row h).byId m = some r := by
  simp only [byId, push] at hr ⊢
  rw [List.find?_append, hr, Option.some_or]

end MeetingTable

section

variable {m : MeetingId} {o : Oracle} {st : Storage} {data : RoomData}

/-- A storage call that writes no record of the meeting leaves those in Redis as they are. -/
theorem run_shared {q : Query} (h : ¬ q.Writes m) :
    (q.run o st).2.redis.shared m data = st.redis.shared m data := by
  unfold Query.run
  split
  · rfl
  have hne : ∀ {n : MeetingId}, ¬ n = m → m ≠ n := fun hn => Ne.symm hn
  have hkey : ∀ {n : MeetingId} (u v : Uid), ¬ n = m → (m, v) ≠ (n, u) :=
    fun u v hn e => hn (congrArg Prod.fst e).symm
  cases q with
  | sAdd n u => simp only [Query.apply, Redis.shared, Redis.setMembers, Function.update_of_ne (hne h)]
  | sRem n u => simp only [Query.apply, Redis.shared, Redis.setMembers, Function.update_of_ne (hne h)]
  | delMembers n => simp only [Query.apply, Redis.shared, Redis.setMembers, Function.update_of_ne (hne h)]
  | hSetRoomState n u v => simp only [Query.apply, Redis.shared, Redis.setMember, Function.update_of_ne (hne h)]
  | hSetDeadline n u v => simp only [Query.apply, Redis.shared, Redis.setMember, Function.update_of_ne (hne h)]
  | delMember n u => simp only [Query.apply, Redis.shared, Redis.setMember, Function.update_of_ne (hne h)]
  | activateMember n u =>
    simp only [Query.apply, Redis.activate]
    split
    · simp only [Redis.shared, Redis.setDeadlines, Redis.setMember, Function.update_of_ne (hne h),
        SortedSet.score_remove, if_neg (hkey u _ h)]
    · rfl
  | zAdd n u k =>
    simp only [Query.apply, Redis.shared, Redis.setDeadlines, SortedSet.score_add, if_neg (hkey u _ h)]
  | zRem n u =>
    simp only [Query.apply, Redis.shared, Redis.setDeadlines, SortedSet.score_remove, if_neg (hkey u _ h)]
  | createMeeting title creator hash =>
    simp only [Query.apply]
    split <;> rfl
  | _ => rfl

/-- A storage call that writes no record of the meeting leaves its status as it is. -/
theorem run_status {q : Query} (h : ¬ q.Writes m) {r : MeetingRow} (hr : st.mysql.meetings.byId m = some r) :
    ((q.run o st).2.mysql.meetings.byId m) = some r := by
  unfold Query.run
  split
  · exact hr
  cases q with
  | startMeeting n u => exact (MeetingTable.byId_transition (Ne.symm h) u _ _).trans hr
  | endMeeting n u => exact (MeetingTable.byId_transition (Ne.symm h) u _ _).trans hr
  | updateMeetingPart info u =>
    simp only [Query.apply, MySql.updateMeetingPart]
    repeat' first | exact hr | split
  | saveMeetingMessage message =>
    simp only [Query.apply, MySql.saveMeetingMessage]
    repeat' first | exact hr | split
  | createMeeting title creator hash =>
    simp only [Query.apply]
    split
    · exact hr
    · next id t hinsert =>
      unfold MeetingTable.insert at hinsert
      split at hinsert
      · cases hinsert
      · cases hinsert
        exact MeetingTable.byId_push (Nat.lt_succ_self _) hr
  | _ => exact hr

end

/-! ## Calls and steps -/

section

variable {m : MeetingId} {σ σ' : Server} {o : Oracle}

theorem Server.Untouched.of_eq (hrooms : (σ'.rooms m).data = (σ.rooms m).data) (hstorage : σ'.storage = σ.storage) :
    σ.Untouched m σ' := by
  refine ⟨?_, fun status hs => ?_⟩
  · simp only [Server.shared, hrooms, hstorage]
  · simpa only [Server.status?, hstorage] using hs

theorem confined_not_writes {n : MeetingId} {q : Query} (h : q.Confined n) (hn : n ≠ m) : ¬ q.Writes m := by
  intro hw
  cases q <;> first | exact hw | exact hn (h.symm.trans hw)

theorem outside_not_writes {s : SessionId} {c : Call} (h : Outside s c) : ¬ c.Writes m := by
  intro hw
  cases c with
  | query site q => cases q <;> first | exact hw | exact h
  | setRoom n d => exact h
  | _ => exact hw

end

end SyncRtc
