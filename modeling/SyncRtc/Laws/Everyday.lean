import SyncRtc.Laws.Footprints
import SyncRtc.Laws.Routing

/-!
# What only offers and AI requests call

Two handlers do something none of the others does: an AI request asks AIServer, and an offer draws a signal
id and registers it. A call is **everyday** when it is neither. Every operation but those of these two
requests makes everyday calls only, so a law about AI calls or about registrations has two handlers to look at.
A handler moreover stays **indoor**: only `Route`, the scan and MediaServer's events hand something to a room.
-/

set_option autoImplicit false

namespace SyncRtc

open Prog

def Everyday : Call → Prop
  | .askAi _ | .nextSignalId | .registerSignal _ _ _ | .setMediaSignalId _ _ => False
  | _ => True

/-- An everyday call of an operation that hands nothing over. -/
def Indoor : Call → Prop
  | .submitRoom _ _ => False
  | c => Everyday c

theorem Indoor.everyday {c : Call} (h : Indoor c) : Everyday c := by
  cases c <;> first | exact h | exact h.elim

section

variable {m : MeetingId} {s : SessionId} {α : Type}

/-! ## What the handlers share -/

theorem indoor_answer {p : Op Reply} (id : RequestID) (h : p.Makes Indoor) :
    (p.bind fun value => (send s id value).bind fun _ => .pure ()).Makes Indoor :=
  h.bind fun _ => Makes.step trivial fun _ => trivial

theorem indoor_replyError (id : RequestID) (code : ErrorCode) : (replyError s id code).Makes Indoor := by
  unfold replyError
  split
  · trivial
  · exact Makes.step trivial fun _ => trivial

theorem indoor_releaseMedia (s : SessionId) : (releaseMediaSession s).Makes Indoor := by
  unfold releaseMediaSession
  repeat' first
    | exact trivial | split | exact ⟨trivial, fun _ => trivial⟩ | dsimp only
    | refine Makes.step trivial fun _ => ?_

theorem indoor_prune {keep : SessionId → Op Bool} (h : ∀ item, (keep item).Makes Indoor) :
    (pruneSessions m keep).Makes Indoor :=
  Makes.step trivial fun _ => (Makes.select fun item _ => h item).bind fun _ =>
    Makes.step trivial fun _ => ⟨trivial, fun _ => trivial⟩

theorem indoor_broadcast (id : RequestID) (notification : Reply) (isFor : Uid → Bool) :
    (broadcast m id notification isFor).Makes Indoor := by
  refine indoor_prune fun item => Makes.step trivial fun r => ?_
  split
  · trivial
  refine Makes.step trivial fun session => ?_
  dsimp only
  split
  · exact Makes.step trivial fun _ => trivial
  · trivial

theorem indoor_notThis (item : SessionId) : (notThis s item).Makes Indoor := by
  refine Makes.step trivial fun r => ?_
  split <;> trivial

/-! ## Accounts, messages and media -/

theorem indoor_login (body : Payload) : (loginBody s body).Makes Indoor := by
  unfold loginBody
  repeat' first
    | exact trivial | split | exact ⟨trivial, fun _ => trivial⟩ | dsimp only
    | refine Makes.step trivial fun _ => ?_

theorem indoor_create (body : Payload) : (createMeetingBody s body).Makes Indoor := by
  unfold createMeetingBody createHash
  repeat' first
    | exact trivial | split | dsimp only | refine Makes.step trivial fun _ => ?_

theorem indoor_past : (pastMeetingBody s).Makes Indoor := by
  unfold pastMeetingBody
  repeat' first
    | exact trivial | split | exact ⟨trivial, fun _ => trivial⟩ | dsimp only
    | refine Makes.step trivial fun _ => ?_

theorem indoor_message (body : Payload) : (sendMessageBody m s body).Makes Indoor := by
  unfold sendMessageBody messageChecks
  repeat' first
    | exact trivial | split | exact ⟨trivial, fun _ => trivial⟩ | dsimp only
    | refine Makes.bind (indoor_broadcast _ _ _) fun _ => ?_
    | refine Makes.step trivial fun _ => ?_ | refine Makes.bind ?_ fun _ => ?_

theorem indoor_page (site : Site) (uid : Uid) (value : Reply) (rows : Option (List MeetingMessageInfo)) :
    (pageReply site uid value rows).Makes Indoor := by
  unfold pageReply
  split
  · trivial
  · refine Makes.bind (Makes.collect fun row _ => ?_) fun _ => trivial
    exact Makes.step trivial fun _ => trivial

theorem indoor_group (body : Payload) : (groupMessagesBody s body).Makes Indoor := by
  unfold groupMessagesBody
  repeat' first
    | exact trivial | split | exact indoor_page _ _ _ _ | dsimp only | refine Makes.step trivial fun _ => ?_

theorem indoor_private (body : Payload) : (privateMessagesBody s body).Makes Indoor := by
  unfold privateMessagesBody
  repeat' first
    | exact trivial | split | exact indoor_page _ _ _ _ | dsimp only | refine Makes.step trivial fun _ => ?_

theorem indoor_candidate (body : Payload) : (mediaCandidateHandler s body).Makes Indoor := by
  unfold mediaCandidateHandler mediaCandidateBody publishChecks currentSignal
  repeat' first
    | exact trivial | split | exact ⟨trivial, fun _ => trivial⟩ | dsimp only
    | refine Makes.step trivial fun _ => ?_ | refine Makes.bind ?_ fun _ => ?_

theorem indoor_answerOffer (body : Payload) : (mediaAnswerHandler s body).Makes Indoor := by
  unfold mediaAnswerHandler currentSignal
  repeat' first
    | exact trivial | split | exact ⟨trivial, fun _ => trivial⟩ | dsimp only
    | refine Makes.step trivial fun _ => ?_ | refine Makes.bind ?_ fun _ => ?_

/-! ## START, LEAVE and END -/

theorem indoor_start (body : Payload) : (startBody m s body).Makes Indoor := by
  unfold startBody
  repeat' first
    | exact trivial | split | dsimp only | refine Makes.bind (indoor_broadcast _ _ _) fun _ => ?_
    | refine Makes.step trivial fun _ => ?_

theorem indoor_leave (body : Payload) : (leaveBody m s body).Makes Indoor := by
  unfold leaveBody leaveMember leaveAfterEnd leaveRoom leaveStore leaveNotice
  repeat' first
    | exact trivial | split | exact ⟨trivial, fun _ => trivial⟩ | dsimp only
    | exact indoor_broadcast _ _ _ | refine Makes.bind (indoor_releaseMedia _) fun _ => ?_
    | refine Makes.bind (indoor_prune indoor_notThis) fun _ => ?_
    | refine Makes.step trivial fun _ => ?_ | refine Makes.bind ?_ fun _ => ?_

theorem indoor_end (body : Payload) : (endBody m s body).Makes Indoor := by
  unfold endBody endRoom endStore
  repeat' first
    | exact trivial | split | exact ⟨trivial, fun _ => trivial⟩ | dsimp only
    | refine Makes.bind (indoor_releaseMedia _) fun _ => ?_
    | refine Makes.step trivial fun _ => ?_
    | refine Makes.collect fun _ _ => ?_ | refine Makes.each fun _ _ => ?_
    | unfold endSession | refine Makes.bind ?_ fun _ => ?_

/-! ## JOIN and RESUME -/

theorem indoor_joinChecks (uid : Uid) (resuming : Bool) (root : Json) (code : String) :
    (joinChecks m s uid resuming root code).Makes Indoor := by
  unfold joinChecks joinInfo resumeCheck joinPassword deadlineOpen
  repeat' first
    | exact trivial | split | exact ⟨trivial, fun _ => trivial⟩ | dsimp only
    | refine Makes.step trivial fun _ => ?_ | refine Makes.bind ?_ fun _ => ?_

theorem indoor_joinPlace (uid : Uid) (resuming : Bool) (info : MeetingInfo) (value : Reply) :
    (joinPlace m uid resuming info value).Makes Indoor := by
  unfold joinPlace rejoinCheck
  repeat' first
    | exact trivial | split | exact ⟨trivial, fun _ => trivial⟩ | dsimp only
    | refine Makes.step trivial fun _ => ?_ | refine Makes.bind ?_ fun _ => ?_

theorem indoor_joinStore (uid : Uid) (resuming : Bool) (a : Admission) (value : Reply) :
    (joinStore m uid resuming a value).Makes Indoor := by
  unfold joinStore joinUndo
  repeat' first
    | exact trivial | split | exact ⟨trivial, fun _ => trivial⟩ | dsimp only
    | refine Makes.step trivial fun _ => ?_

theorem indoor_joinBind (uid : Uid) (isReconnected : Bool) (ticket : String)
    (resume : Option (Credentials × Option Nat)) : (joinBind m s uid isReconnected ticket resume).Makes Indoor := by
  have stays : ∀ item, (staysInRoom s uid isReconnected item).Makes Indoor := by
    intro item
    unfold staysInRoom
    repeat' first
      | exact trivial | split | dsimp only | refine Makes.step trivial fun _ => ?_
  unfold joinBind boundSession displace
  repeat' first
    | exact trivial | split | exact ⟨trivial, fun _ => trivial⟩ | dsimp only
    | refine Makes.bind (indoor_releaseMedia _) fun _ => ?_ | refine Makes.bind (indoor_prune stays) fun _ => ?_
    | refine Makes.step trivial fun _ => ?_ | refine Makes.bind ?_ fun _ => ?_

theorem indoor_joinAnswer (uid : Uid) (a : Admission) (members : List Uid) (value : Reply) :
    (joinAnswer m uid a members value).Makes Indoor := by
  have member : ∀ u, (memberJson m uid u).Makes Indoor := fun u =>
    Makes.step trivial fun _ => Makes.step trivial fun _ => trivial
  refine (Makes.collect fun u _ => member u).bind fun listed => Makes.bind ?_ fun _ => Makes.bind ?_ fun _ => trivial
  · unfold joinedNotice
    split
    · exact indoor_broadcast _ _ _
    · trivial
  · unfold returnedNotice
    split
    · exact indoor_broadcast _ _ _
    · trivial

theorem indoor_join (resuming : Bool) (body : Payload) : (joinMeetingHandler m s resuming body).Makes Indoor := by
  refine Makes.bind ?_ fun value => Makes.step trivial fun queued => ?_
  · unfold joinBody joinTicket
    repeat' first
      | exact trivial | split | exact ⟨trivial, fun _ => trivial⟩ | dsimp only
      | refine Makes.bind (indoor_joinChecks _ _ _ _) fun _ => ?_
      | refine Makes.bind (indoor_joinPlace _ _ _ _) fun _ => ?_
      | refine Makes.bind (indoor_joinStore _ _ _ _) fun _ => ?_
      | refine Makes.bind (indoor_joinBind _ _ _ _) fun _ => ?_
      | exact indoor_joinAnswer _ _ _ _
      | refine Makes.step trivial fun _ => ?_
  · split
    · exact ⟨trivial, fun _ => trivial⟩
    · trivial

/-! ## Disconnect, expiry, the timer and MediaServer's events -/

theorem indoor_disconnected : (sessionDisconnectedHandler m s).Makes Indoor := by
  have other : ∀ uid item, (isOtherConnection s uid item).Makes Indoor := by
    intro uid item
    unfold isOtherConnection
    repeat' first
      | exact trivial | split | dsimp only | refine Makes.step trivial fun _ => ?_
  unfold sessionDisconnectedHandler lostInRoom lostNotice leaveSession stampDeadline loseIf loseMember markReconnecting
    markStore markUndo lockAll
  repeat' first
    | exact trivial | split | exact ⟨trivial, fun _ => trivial⟩ | dsimp only | exact indoor_broadcast _ _ _
    | refine Makes.bind (indoor_releaseMedia _) fun _ => ?_
    | refine Makes.bind (indoor_prune indoor_notThis) fun _ => ?_
    | refine Makes.bind (Makes.select fun item _ => other _ item) fun _ => ?_
    | refine Makes.collect fun _ _ => ?_ | refine Makes.select fun _ _ => ?_
    | refine Makes.step trivial fun _ => ?_ | refine Makes.bind ?_ fun _ => ?_

theorem indoor_expire (uid : Uid) : (expireMemberHandler m uid).Makes Indoor := by
  unfold expireMemberHandler graceOver expiryDue forgetMember
  repeat' first
    | exact trivial | split | exact indoor_broadcast _ _ _ | exact ⟨trivial, fun _ => trivial⟩
    | refine Makes.step trivial fun _ => ?_ | refine Makes.bind ?_ fun _ => ?_

theorem everyday_timer : reconnectTimeoutCheckHandler.Makes Everyday := by
  unfold reconnectTimeoutCheckHandler
  refine Makes.step trivial fun reserved => ?_
  split
  · trivial
  refine Makes.step trivial fun now => Makes.step trivial fun due => ?_
  split
  · trivial
  · refine Makes.each fun candidate _ => ?_
    unfold scanOne
    split <;> exact Makes.step trivial fun _ => trivial

theorem everyday_controlOp (event : MediaEvent) (epoch : Nat) (message : Payload) :
    (controlOp event epoch message).Makes Everyday := by
  unfold controlOp
  repeat' first
    | exact trivial | split | exact ⟨trivial, fun _ => trivial⟩ | refine Makes.step trivial fun _ => ?_ | dsimp only

theorem indoor_mediaReply (epoch id : Nat) (registered : SessionId) (message : Payload) :
    (mediaReply m epoch id registered message).Makes Indoor := by
  unfold mediaReply mediaSignalResponseHandler
  repeat' first
    | exact trivial | split | exact ⟨trivial, fun _ => trivial⟩ | refine Makes.step trivial fun _ => ?_

/-! ## Dispatch and routing -/

/-- The requests whose handler makes other calls. -/
def Request.Special (r : Request) : Prop := r.id = .aiAskRequest ∨ r.id = .mediaOfferRequest

theorem indoor_handle {r : Request} (h : ¬ r.Special) : (handle m s r).Makes Indoor := by
  unfold handle
  split
  · exact indoor_answer _ (indoor_login _)
  · next hid => exact absurd (.inl hid) h
  · exact indoor_answer _ (indoor_create _)
  · exact indoor_answer _ indoor_past
  · exact indoor_join _ _
  · exact indoor_join _ _
  · exact indoor_answer _ (indoor_start _)
  · exact indoor_answer _ (indoor_leave _)
  · exact indoor_answer _ (indoor_end _)
  · exact indoor_answer _ (indoor_message _)
  · exact indoor_answer _ (indoor_group _)
  · exact indoor_answer _ (indoor_private _)
  · next hid => exact absurd (.inr hid) h
  · exact indoor_candidate _
  · exact indoor_answerOffer _
  · trivial

/-- What a dispatched request calls besides its handler. -/
theorem makes_dispatch {P : Call → Prop} (hP : ∀ c, Indoor c → P c) {r : Request} (h : (handle m s r).Makes P) :
    (dispatch m s (.request r)).Makes P := by
  have error : ∀ id code, (replyError s id code).Makes P := fun id code => (indoor_replyError id code).mono hP
  have acts : (mayAct m s r).Makes P := by
    refine Makes.mono hP ?_
    unfold mayAct bindingFence
    repeat' first
      | exact trivial | split | dsimp only | refine Makes.step trivial fun _ => ?_
  have reserved : (reserveFor r).Makes P := by
    refine Makes.mono hP ?_
    unfold reserveFor
    split
    · trivial
    · exact ⟨trivial, fun _ => trivial⟩
  have handled : (handleReserved m s r).Makes P := by
    unfold handleReserved
    split
    · refine Makes.step (hP _ trivial) fun session => Makes.step (hP _ trivial) fun granted => ?_
      split
      · refine h.bind fun _ => Makes.step (hP _ trivial) fun session => ?_
        exact ⟨hP _ trivial, fun _ => trivial⟩
      · exact error _ _
    · exact h
  simp only [dispatch, dispatchRequest, admitRequest]
  split
  · refine Makes.step (hP _ trivial) fun session => ?_
    split
    · trivial
    refine acts.bind fun a => ?_
    split
    · refine reserved.bind fun b => ?_
      split
      · split
        · trivial
        · exact error _ _
        · exact handled
      · exact error _ _
    · exact error _ _
  · trivial

/-- What a routed command calls besides what it calls where it is dispatched. -/
theorem makes_route {P : Call → Prop} (hP : ∀ c, Everyday c → P c) {command : Command}
    (h : (dispatch 0 s command).Makes P) : (route s command).Makes P := by
  have error : ∀ code, (routeError s code command).Makes P := by
    intro code
    cases command with
    | request r => exact (indoor_replyError r.id code).mono fun c hc => hP c hc.everyday
    | disconnected => trivial
  have target : (routeTarget s command).Makes P := by
    refine Makes.mono hP ?_
    unfold routeTarget
    repeat' first
      | exact trivial | split | refine Makes.step trivial fun _ => ?_ | dsimp only
  have delivered : ∀ place, (deliver s command place).Makes P := by
    intro place
    unfold deliver
    split
    · exact (error _).bind fun _ => trivial
    split
    · exact h.bind fun _ => trivial
    refine Makes.step (hP _ trivial) fun accepted => ?_
    split
    · trivial
    · exact (error _).bind fun _ => trivial
  cases command with
  | disconnected =>
    rw [route_disconnected]
    exact target.bind delivered
  | request r =>
    rw [route_request]
    refine Makes.step (hP _ trivial) fun session => ?_
    split
    · trivial
    · exact target.bind delivered

theorem indoor_dispatch {command : Command} (h : ∀ r, command = .request r → ¬ r.Special) :
    (dispatch m s command).Makes Indoor := by
  cases command with
  | disconnected => exact Makes.step trivial fun _ => indoor_disconnected
  | request r => exact makes_dispatch (fun _ hc => hc) (indoor_handle (h r rfl))

end

end SyncRtc
