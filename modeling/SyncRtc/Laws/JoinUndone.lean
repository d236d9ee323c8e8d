import SyncRtc.Laws.Alone

/-!
# What a refused JOIN leaves behind

JOIN writes several records in turn and stops at the first call that fails. It compensates its first
write, the one to the member set, and nothing else; after its last reading of the set not even that. The
module runs a JOIN by itself (`Laws.Alone`) and says for which failing calls the records are again as
they were before.
-/

set_option autoImplicit false

namespace SyncRtc

open Prog

/-- A meeting that still admits anyone. -/
def MeetingInfo.Open (info : MeetingInfo) : Prop := ¬ (info.status = .kCancelled ∨ info.status = .kEnded)

section

variable {os : Choices} {σ : Server} {m : MeetingId} {u : Uid} {s : SessionId}

end

/-! ## The writes of JOIN -/

section

variable {os : Choices} {σ : Server} {m : MeetingId} {u : Uid} {s : SessionId}

/-- Every reservation has a reason: an entry is joined, or a JOIN or RESUME holds it. -/
def Server.Held (σ : Server) : Prop := ∀ u e, σ.users u = some e → e.joined = true ∨ e.joining ≠ 0

/-- The end of a JOIN: the reservation is settled by whether its session is in the room. -/
def joinSettle (room : MeetingId) (s : SessionId) (uid : Uid) (value : Reply) : Op (Option Reply) := do
  let session ← getSession s
  call (.finishJoin uid room (decide (session.meetingId = room)))
  return some value

/-- `Dispatch` of a JOIN, with the answer it makes; none when the session is closed. -/
def joinAttempt (room : MeetingId) (s : SessionId) (body : Payload) : Op (Option Reply) := do
  let session ← getSession s
  if session.closed then return none
  if ← reservePool false then
    let session ← getSession s
    let uid := session.userId
    let reserved : Bool ← call (.reserveUser uid room)
    if reserved then
      let value ← joinBody room s false body
      let queued ← send s .joinMeetingResponse value
      if !queued then requestClose s
      joinSettle room s uid value
    else
      let _ ← send s .joinMeetingResponse (Reply.error .meetingAccess)
      return some (Reply.error .meetingAccess)
  else
    let _ ← send s .joinMeetingResponse (Reply.error .network)
    return some (Reply.error .network)

/-- A JOIN is dispatched as the attempt says. -/
theorem dispatch_join (room : MeetingId) (s : SessionId) (body : Payload) :
    dispatch room s (.request ⟨.joinMeetingRequest, body⟩) =
      (joinAttempt room s body).bind fun _ => .pure () := by
  have hfence : fenceFor room ⟨.joinMeetingRequest, body⟩ = .pass := if_neg fun h => h.2 rfl
  have hact : mayAct room s ⟨.joinMeetingRequest, body⟩ = .pure true := if_neg fun h => nomatch h.2
  simp only [dispatch, dispatchRequest, hasHandler, if_true, joinAttempt, bind_eq, bind_assoc]
  congr 1
  funext session
  split
  · rfl
  simp only [admitRequest, hact, reserveFor, hfence, bind_eq, bind_assoc, bind_pure_left, if_true]
  congr 1
  funext granted
  cases granted with
  | false => rfl
  | true =>
    simp only [handleReserved, isEntry, handle, joinMeetingHandler, if_true, decide_true, Bool.true_or, bind_eq,
      bind_assoc, Bool.false_eq_true, if_false]
    congr 1
    funext session
    congr 1
    funext reserved
    cases reserved with
    | false => rfl
    | true =>
      simp only [if_true, bind_assoc]
      congr 1
      funext value
      congr 1
      funext queued
      cases queued <;> rfl

/-- What is known after a JOIN whose body left the server as `σ`. -/
def Settled (σ : Server) (m : MeetingId) (u : Uid) (s : SessionId) (value : Reply) (answer : Option Reply)
    (σ' : Server) : Prop :=
  answer = some value ∧ ((σ.sessions s).meetingId = 0 →
    σ'.records m u s = { σ.records m u s with reservation := (σ.finishJoin u m false).users u })

end

section

open Scenario

end

end SyncRtc
