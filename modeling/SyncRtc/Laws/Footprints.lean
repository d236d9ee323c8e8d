import SyncRtc.Laws.Quiet

/-!
# What the handlers call

The laws ask different things of the calls a handler makes, and of most calls they ask nothing. A call is
**inner** when it changes neither the user of a session nor who is in a member set, and sends, if
anything, one of the notices of a room other than a message. The module collects the handlers, and the
parts of JOIN, that make inner calls only; a law then derives what it asks from `Inner` alone.
-/

set_option autoImplicit false

namespace SyncRtc

open Prog

/-- The frames a client does not ask for. -/
def isNotice : RequestID → Bool
  | .meetingStarted | .meetingEnded | .meetingMessagePush | .meetingMemberJoined | .meetingMemberLeft
  | .meetingMemberReconnecting | .meetingMemberReconnected | .meetingMemberTimeoutLeft => true
  | _ => false

/-- No request is answered by a notice. -/
theorem responseId_ne_notice {id notice : RequestID} (h : isNotice notice = true) : responseId id ≠ some notice := by
  intro heq
  cases id <;> cases heq <;> cases h

def Inner : Call → Prop
  | .setUser _ _ _ => False
  | .query _ (.sAdd _ _) => False
  | .send _ id _ => isNotice id = true ∧ id ≠ .meetingMessagePush
  | _ => True

theorem Silent.inner {c : Call} (h : Silent c) : Inner c := by
  cases c with
  | query site q => cases q <;> first | exact trivial | exact h.elim
  | _ => first | exact trivial | exact h.elim

section

variable {m : MeetingId} {s : SessionId} {α : Type}

theorem inner_of_silent {p : Op α} (h : p.Makes Silent) : p.Makes Inner := h.mono fun _ => Silent.inner

theorem inner_prune {keep : SessionId → Op Bool} (h : ∀ item, (keep item).Makes Inner) :
    (pruneSessions m keep).Makes Inner :=
  Makes.step trivial fun _ => (Makes.select fun item _ => h item).bind fun _ =>
    Makes.step trivial fun _ => ⟨trivial, fun _ => trivial⟩

theorem inner_broadcast {id : RequestID} (hid : isNotice id = true ∧ id ≠ .meetingMessagePush)
    (notification : Reply) (isFor : Uid → Bool) : (broadcast m id notification isFor).Makes Inner := by
  refine inner_prune fun item => Makes.step trivial fun r => ?_
  split
  · trivial
  refine Makes.step trivial fun session => ?_
  dsimp only
  split
  · exact Makes.step hid fun _ => trivial
  · trivial

/-! ## START, LEAVE and END -/

theorem inner_start (body : Payload) : (startBody m s body).Makes Inner := by
  unfold startBody
  repeat' first
    | exact trivial | split | refine Makes.bind (inner_broadcast (by decide) _ _) fun _ => ?_
    | refine Makes.step trivial fun _ => ?_

theorem inner_leave (body : Payload) : (leaveBody m s body).Makes Inner := by
  have store : ∀ meeting uid, (leaveStore meeting uid).Makes Inner := by
    intro meeting uid
    unfold leaveStore
    repeat' first | exact trivial | split | exact ⟨trivial, fun _ => trivial⟩ | refine Makes.step trivial fun _ => ?_
  have notice : ∀ uid meeting, (leaveNotice m s uid meeting).Makes Inner := by
    intro uid meeting
    refine Makes.step trivial fun data => ?_
    split
    · trivial
    · refine (inner_prune fun item => inner_of_silent (silent_notThis s item)).bind fun _ => ?_
      exact Makes.step trivial fun _ => inner_broadcast (by decide) _ _
  unfold leaveBody leaveMember leaveAfterEnd leaveRoom
  repeat' first
    | exact trivial | split | exact ⟨trivial, fun _ => trivial⟩
    | refine Makes.bind (store _ _) fun _ => ?_ | refine Makes.bind (notice _ _) fun _ => ?_
    | refine Makes.bind (inner_of_silent (silent_releaseMedia s)) fun _ => ?_
    | refine Makes.bind ?_ fun _ => ?_

theorem inner_end (body : Payload) : (endBody m s body).Makes Inner := by
  have store : ∀ meeting, (endStore meeting).Makes Inner := by
    intro meeting
    refine Makes.step trivial fun found => ?_
    split
    · trivial
    · refine Makes.bind (Makes.collect fun u _ => ?_) fun _ => Makes.step trivial fun _ => trivial
      exact Makes.step trivial fun _ => Makes.step trivial fun _ => Makes.step trivial fun _ =>
        Makes.step trivial fun _ => trivial
  have session : ∀ meeting item, (endSession meeting item).Makes Inner := by
    intro meeting item
    refine Makes.step trivial fun r => ?_
    split
    · trivial
    · refine Makes.step (show isNotice .meetingEnded = true ∧ RequestID.meetingEnded ≠ .meetingMessagePush by decide) fun _ => ?_
      exact (inner_of_silent (silent_releaseMedia _)).bind fun _ => ⟨trivial, fun _ => trivial⟩
  unfold endBody endRoom
  repeat' first
    | exact trivial | split | exact ⟨trivial, fun _ => trivial⟩
    | refine Makes.bind (store _) fun _ => ?_
    | refine Makes.bind (Makes.each fun item _ => session _ item) fun _ => ?_
    | refine Makes.bind ?_ fun _ => ?_

/-! ## The parts of JOIN and RESUME -/

theorem inner_joinChecks (uid : Uid) (resuming : Bool) (root : Json) (code : String) :
    (joinChecks m s uid resuming root code).Makes Inner := by
  have deadline : ∀ d, (deadlineOpen d).Makes Inner := by
    intro d
    unfold deadlineOpen
    split
    · trivial
    · exact Makes.step trivial fun _ => trivial
  have credentials : ∀ c value, (resumeCheck m s uid c value).Makes Inner := by
    intro c value
    unfold resumeCheck
    repeat' first
      | exact trivial | split | refine Makes.bind (deadline _) fun _ => ?_ | refine Makes.step trivial fun _ => ?_
  unfold joinChecks
  repeat' first
    | exact trivial | split
    | refine Makes.bind (inner_of_silent (silent_joinInfo m resuming code)) fun _ => ?_
    | refine Makes.bind (credentials _ _) fun _ => ?_
    | refine Makes.bind (inner_of_silent (silent_joinPassword _ _ _)) fun _ => ?_

theorem inner_joinTicket (uid : Uid) (resuming : Bool) : (joinTicket m uid resuming).Makes Inner := by
  unfold joinTicket
  split
  · exact Makes.step trivial fun _ => trivial
  · exact ⟨trivial, fun _ => trivial⟩

theorem inner_joinUndo (uid : Uid) (alreadyInRoom : Bool) : (joinUndo m uid alreadyInRoom).Makes Inner := by
  unfold joinUndo
  split
  · exact Makes.step trivial fun _ => trivial
  · trivial

theorem inner_joinBind (uid : Uid) (isReconnected : Bool) (ticket : String)
    (resume : Option (Credentials × Option Nat)) : (joinBind m s uid isReconnected ticket resume).Makes Inner := by
  have displaced : ∀ previous, (displace previous s).Makes Inner := by
    intro previous
    unfold displace
    repeat' first
      | exact trivial | split | exact ⟨trivial, fun _ => trivial⟩
      | refine Makes.bind (inner_of_silent (silent_releaseMedia _)) fun _ => ?_
      | refine Makes.step trivial fun _ => ?_
  have bound : ∀ member, (boundSession member).Makes Inner := by
    intro member
    unfold boundSession
    split
    · exact ⟨trivial, fun _ => trivial⟩
    · trivial
  refine Makes.step trivial fun data => (bound _).bind fun previous => (displaced previous).bind fun _ => ?_
  refine Makes.step trivial fun _ => Makes.step trivial fun _ => Makes.step trivial fun _ => Makes.step trivial fun _ => ?_
  refine (inner_prune fun item => inner_of_silent (silent_staysInRoom s uid isReconnected item)).bind fun _ => ?_
  exact Makes.step trivial fun _ => Makes.step trivial fun _ => trivial

theorem inner_joinAnswer (uid : Uid) (a : Admission) (members : List Uid) (value : Reply) :
    (joinAnswer m uid a members value).Makes Inner := by
  refine (inner_of_silent (Makes.collect fun u _ => silent_memberJson m uid u)).bind fun listed => ?_
  refine Makes.bind ?_ fun _ => Makes.bind ?_ fun _ => trivial
  · unfold joinedNotice
    split
    · exact inner_broadcast (by decide) _ _
    · trivial
  · unfold returnedNotice
    split
    · exact inner_broadcast (by decide) _ _
    · trivial

/-! ## Disconnect, expiry, the timer and MediaServer's events -/

theorem inner_disconnected : (sessionDisconnectedHandler m s).Makes Inner := by
  have leave : (leaveSession s).Makes Inner :=
    (inner_of_silent (silent_releaseMedia s)).bind fun _ => ⟨trivial, fun _ => trivial⟩
  have stamp : ∀ uid, (stampDeadline m s uid).Makes Inner := by
    intro uid
    unfold stampDeadline
    repeat' first | exact trivial | split | exact ⟨trivial, fun _ => trivial⟩ | refine Makes.step trivial fun _ => ?_
  have lose : ∀ lost meeting uid, (loseIf lost meeting uid).Makes Inner := by
    intro lost meeting uid
    unfold loseIf loseMember markReconnecting markStore markUndo
    repeat' first
      | exact trivial | split | exact ⟨trivial, fun _ => trivial⟩
      | refine Makes.bind ?_ fun _ => ?_
  unfold sessionDisconnectedHandler lostInRoom lostNotice
  refine Makes.step trivial fun session => ?_
  dsimp only
  repeat' first
    | exact trivial | split | exact leave | exact inner_broadcast (by decide) _ _
    | refine Makes.bind (inner_of_silent (silent_lockAll _)) fun _ => ?_
    | refine Makes.bind (Makes.select fun item _ => inner_of_silent (silent_isOther s _ item)) fun _ => ?_
    | refine Makes.bind (inner_prune fun item => inner_of_silent (silent_notThis s item)) fun _ => ?_
    | refine Makes.bind (stamp _) fun _ => ?_ | refine Makes.bind (lose _ _ _) fun _ => ?_
    | refine Makes.bind (inner_broadcast (by decide) _ _) fun _ => ?_
    | refine Makes.bind trivial fun _ => ?_
    | refine Makes.step trivial fun _ => ?_

theorem inner_expire (uid : Uid) : (expireMemberHandler m uid).Makes Inner := by
  unfold expireMemberHandler graceOver expiryDue forgetMember
  repeat' first
    | exact trivial | split | exact inner_broadcast (by decide) _ _ | exact ⟨trivial, fun _ => trivial⟩
    | refine Makes.step trivial fun _ => ?_ | refine Makes.bind ?_ fun _ => ?_

theorem inner_timer : reconnectTimeoutCheckHandler.Makes Inner := by
  unfold reconnectTimeoutCheckHandler
  refine Makes.step trivial fun reserved => ?_
  split
  · trivial
  refine Makes.step trivial fun now => Makes.step trivial fun due => ?_
  split
  · trivial
  · refine Makes.each fun candidate _ => ?_
    unfold scanOne
    split <;> exact Makes.step trivial fun _ => trivial

theorem inner_controlOp (event : MediaEvent) (epoch : Nat) (message : Payload) :
    (controlOp event epoch message).Makes Inner := by
  unfold controlOp
  repeat' first
    | exact trivial | split | exact ⟨trivial, fun _ => trivial⟩ | refine Makes.step trivial fun _ => ?_ | dsimp only

/-! ## Routing -/

theorem inner_routeTarget (command : Command) : (routeTarget s command).Makes Inner := by
  unfold routeTarget
  repeat' first
    | exact trivial | split | refine Makes.step trivial fun _ => ?_ | dsimp only

end

end SyncRtc
