import SyncRtc.Realtime.System

/-!
# Programs that leave a room alone

Most of what a handler does is look: at its request, its session, the stores. A call is **silent** when
it changes neither a room, nor a reservation, nor what a session is logged in as, nor a record in
Redis, and sends no frame; it is **quiet** when it may send frames, other than the push of a meeting
message. The module collects the programs all of whose calls are one or the other. What these programs
are answered does not matter, so one lemma each serves every machine they are run in.
-/

set_option autoImplicit false

namespace SyncRtc

open Prog

/-- The storage calls that write no record of a room: neither Redis, nor the row of an existing meeting,
nor its participants and messages. -/
def Query.KeepsRooms : Query → Prop
  | .sAdd _ _ | .sRem _ _ | .delMembers _ | .hSetRoomState _ _ _ | .hSetDeadline _ _ _
  | .delMember _ _ | .hSetPresenceStatus _ _ | .hSetPresenceMeeting _ _ | .activateMember _ _
  | .zAdd _ _ _ | .zRem _ _ => False
  | .startMeeting _ _ | .endMeeting _ _ | .saveMeetingMessage _ | .updateMeetingPart _ _ => False
  | _ => True

/-- The calls that send nothing to a client and change nothing a room depends on; they do not read the
steady clock either, on which a room's deadlines depend. -/
def Silent : Call → Prop
  | .setRoom _ _ | .setMeetingId _ _ | .setUser _ _ _ | .requestClose _ | .submitRoom _ _
  | .newResumeTicket | .steadyNow
  | .reserveUser _ _ | .finishJoin _ _ _ | .releaseUser _ _ | .releaseRoomUsers _ | .send _ _ _ => False
  | .query _ q => q.KeepsRooms
  | _ => True

/-- The calls that may send a frame besides, but no meeting message. -/
def Quiet : Call → Prop
  | .send _ id _ => id ≠ .meetingMessagePush
  | c => Silent c

theorem Silent.quiet {c : Call} (h : Silent c) : Quiet c := by
  cases c <;> first | exact h | exact h.elim

section

variable {α : Type}

theorem makes_quiet {p : Op α} (h : p.Makes Silent) : p.Makes Quiet := h.mono fun _ => Silent.quiet

/-- A handler that works out its answer silently is quiet. -/
theorem quiet_answer {p : Op Reply} (s : SessionId) {id : RequestID} (hid : id ≠ .meetingMessagePush)
    (h : p.Makes Silent) : (p.bind fun value => (send s id value).bind fun _ => .pure ()).Makes Quiet :=
  (makes_quiet h).bind fun _ => Makes.step hid fun _ => trivial

end

/-! ## What the handlers share -/

theorem quiet_send (s : SessionId) {id : RequestID} (hid : id ≠ .meetingMessagePush) (value : Reply) :
    (send s id value).Makes Quiet := ⟨hid, fun _ => trivial⟩

/-- No answer is a push. -/
theorem responseId_ne_push {id response : RequestID} (h : responseId id = some response) :
    response ≠ .meetingMessagePush := by
  rintro rfl
  cases id <;> cases h

theorem quiet_replyError (s : SessionId) (id : RequestID) (code : ErrorCode) :
    (replyError s id code).Makes Quiet := by
  unfold replyError
  split
  · trivial
  · next response hresponse => exact (quiet_send _ (responseId_ne_push hresponse) _).bind fun _ => trivial

theorem silent_releaseMedia (s : SessionId) : (releaseMediaSession s).Makes Silent := by
  unfold releaseMediaSession
  refine Makes.step trivial fun session => ?_
  dsimp only
  split
  · trivial
  refine Makes.step trivial fun binding => ?_
  split
  · split
    · exact Makes.step trivial fun _ => Makes.step trivial fun _ =>
        Makes.step trivial fun _ => ⟨trivial, fun _ => trivial⟩
    · exact Makes.step trivial fun _ => ⟨trivial, fun _ => trivial⟩
  · exact Makes.step trivial fun _ => ⟨trivial, fun _ => trivial⟩

theorem silent_notThis (s item : SessionId) : (notThis s item).Makes Silent := by
  refine Makes.step trivial fun r => ?_
  split <;> trivial

theorem quiet_notifyOne {id : RequestID} (hid : id ≠ .meetingMessagePush) (notification : Reply)
    (isFor : Uid → Bool) (item : SessionId) : (notifyOne id notification isFor item).Makes Quiet := by
  refine Makes.step trivial fun r => ?_
  split
  · trivial
  refine Makes.step trivial fun session => ?_
  dsimp only
  split
  · exact Makes.step hid fun _ => trivial
  · trivial

theorem silent_staysInRoom (s : SessionId) (uid : Uid) (b : Bool) (item : SessionId) :
    (staysInRoom s uid b item).Makes Silent := by
  refine Makes.step trivial fun r => ?_
  split
  · trivial
  split
  · trivial
  split
  · exact Makes.step trivial fun _ => trivial
  · trivial

theorem silent_lockAll (items : List SessionId) : (lockAll items).Makes Silent :=
  Makes.select fun item _ => Makes.step trivial fun r => by split <;> trivial

theorem silent_isOther (s : SessionId) (uid : Uid) (active : SessionId) :
    (isOtherConnection s uid active).Makes Silent := by
  unfold isOtherConnection
  split
  · trivial
  · exact Makes.step trivial fun _ => trivial

/-! ## Accounts, AI and history -/

theorem silent_create (s : SessionId) (body : Payload) : (createMeetingBody s body).Makes Silent := by
  have hash : ∀ password, (createHash password).Makes Silent := by
    intro password
    unfold createHash
    split
    · trivial
    · exact ⟨trivial, fun _ => trivial⟩
  unfold createMeetingBody
  repeat' first
    | exact trivial | split | refine Makes.step trivial fun _ => ?_
    | refine Makes.bind (hash _) fun _ => ?_
    | dsimp only

theorem silent_past (s : SessionId) : (pastMeetingBody s).Makes Silent := by
  unfold pastMeetingBody
  repeat' first | exact trivial | split | refine Makes.step trivial fun _ => ?_

theorem silent_ai (s : SessionId) (body : Payload) : (aiAskBody s body).Makes Silent := by
  unfold aiAskBody
  repeat' first | exact trivial | split | refine Makes.step trivial fun _ => ?_

theorem silent_page (site : Site) (uid : Uid) (value : Reply) (rows : Option (List MeetingMessageInfo)) :
    (pageReply site uid value rows).Makes Silent := by
  unfold pageReply
  split
  · trivial
  · refine Makes.bind (Makes.collect fun row _ => ?_) fun _ => trivial
    exact Makes.step trivial fun _ => trivial

theorem silent_group (s : SessionId) (body : Payload) : (groupMessagesBody s body).Makes Silent := by
  unfold groupMessagesBody
  repeat' first
    | exact trivial | split | exact silent_page _ _ _ _ | refine Makes.step trivial fun _ => ?_
    | dsimp only

theorem silent_private (s : SessionId) (body : Payload) : (privateMessagesBody s body).Makes Silent := by
  unfold privateMessagesBody
  repeat' first
    | exact trivial | split | exact silent_page _ _ _ _ | refine Makes.step trivial fun _ => ?_
    | dsimp only

theorem silent_messageChecks (s : SessionId) (uid : Uid) (r : MessageRequest) :
    (messageChecks s uid r).Makes Silent := by
  unfold messageChecks
  repeat' first | exact trivial | split | refine Makes.step trivial fun _ => ?_ | dsimp only

/-! ## Media signalling -/

theorem silent_publish (member info : Site) (s : SessionId) (uid : Uid) (meeting : MeetingId) :
    (publishChecks member info s uid meeting).Makes Silent := by
  unfold publishChecks
  repeat' first | exact trivial | split | refine Makes.step trivial fun _ => ?_

theorem silent_currentSignal (s : SessionId) : (currentSignal s).Makes Silent := by
  unfold currentSignal
  repeat' first | exact trivial | split | refine Makes.step trivial fun _ => ?_

theorem silent_offer (s : SessionId) (body : Payload) : (mediaOfferBody s body).Makes Silent := by
  unfold mediaOfferBody
  repeat' first
    | exact trivial | split | refine Makes.bind (silent_publish _ _ _ _ _) fun _ => ?_
    | refine Makes.step trivial fun _ => ?_

theorem silent_answerOffer (s : SessionId) (body : Payload) : (mediaAnswerHandler s body).Makes Silent := by
  unfold mediaAnswerHandler
  repeat' first
    | exact trivial | split | refine Makes.bind (silent_currentSignal _) fun _ => ?_
    | refine Makes.step trivial fun _ => ?_ | dsimp only

theorem silent_candidate (s : SessionId) (body : Payload) : (mediaCandidateBody s body).Makes Silent := by
  unfold mediaCandidateBody
  repeat' first
    | exact trivial | split | refine Makes.bind (silent_publish _ _ _ _ _) fun _ => ?_
    | refine Makes.bind (silent_currentSignal _) fun _ => ?_
    | refine Makes.step trivial fun _ => ?_

theorem quiet_offer (s : SessionId) (body : Payload) : (mediaOfferHandler s body).Makes Quiet := by
  refine (makes_quiet (silent_offer s body)).bind fun value => ?_
  split
  · exact (quiet_send s (by decide) _).bind fun _ => trivial
  · trivial

theorem quiet_candidate (s : SessionId) (body : Payload) : (mediaCandidateHandler s body).Makes Quiet := by
  refine (makes_quiet (silent_candidate s body)).bind fun value => ?_
  split
  · exact (quiet_send s (by decide) _).bind fun _ => trivial
  · trivial

/-- A frame made from a message of MediaServer is a signal. -/
theorem mediaFrame_id {root : Json} {id : RequestID} {value : Reply} (h : mediaFrame root = some (id, value)) :
    id ≠ .meetingMessagePush := by
  unfold mediaFrame at h
  split at h <;> cases h <;> decide

theorem quiet_mediaReply (m : MeetingId) (epoch id : Nat) (registered : SessionId) (message : Payload) :
    (mediaReply m epoch id registered message).Makes Quiet := by
  have response : (mediaSignalResponseHandler m message).Makes Quiet := by
    unfold mediaSignalResponseHandler
    repeat' first
      | exact trivial
      | split
      | exact Makes.step (mediaFrame_id (by assumption)) fun _ => trivial
      | refine Makes.step trivial fun _ => ?_
  unfold mediaReply
  repeat' first | exact trivial | split | exact response | refine Makes.step trivial fun _ => ?_

/-! ## The checks of JOIN and RESUME -/

theorem silent_joinInfo (m : MeetingId) (resuming : Bool) (code : String) :
    (joinInfo m resuming code).Makes Silent := by
  unfold joinInfo
  dsimp only
  split <;> refine Makes.step trivial fun _ => ?_ <;> split <;> trivial

theorem silent_joinPassword (info : MeetingInfo) (root : Json) (value : Reply) :
    (joinPassword info root value).Makes Silent := by
  unfold joinPassword
  repeat' first | exact trivial | split | refine Makes.step trivial fun _ => ?_

theorem silent_rejoin (m : MeetingId) (uid : Uid) (value : Reply) :
    (rejoinCheck m uid value).Makes Silent := by
  unfold rejoinCheck
  repeat' first | exact trivial | split | refine Makes.step trivial fun _ => ?_

theorem silent_joinPlace (m : MeetingId) (uid : Uid) (resuming : Bool) (info : MeetingInfo) (value : Reply) :
    (joinPlace m uid resuming info value).Makes Silent := by
  unfold joinPlace
  refine Makes.step trivial fun found => ?_
  dsimp only
  split
  · trivial
  split
  · trivial
  split
  · trivial
  split
  · refine (silent_rejoin m uid value).bind fun r => ?_
    split <;> trivial
  · trivial

theorem silent_memberJson (m : MeetingId) (self member : Uid) : (memberJson m self member).Makes Silent :=
  Makes.step trivial fun _ => Makes.step trivial fun _ => trivial

/-! ## The fences -/

theorem silent_mayAct (m : MeetingId) (s : SessionId) (r : Request) : (mayAct m s r).Makes Silent := by
  unfold mayAct bindingFence
  repeat' first | exact trivial | split | refine Makes.step trivial fun _ => ?_

theorem silent_reserveFor (r : Request) : (reserveFor r).Makes Silent := by
  unfold reserveFor
  split
  · trivial
  · exact ⟨trivial, fun _ => trivial⟩

end SyncRtc
