import SyncRtc.Realtime.Common

/-!
# Requests outside a meeting

`LogicSystem::LoginHandler`, `CreateMeetingHandler`, `GetPastMeetingHandler` and `AiAskHandler`.
The rows of a meeting list are MySQL's; what the handlers do with them is to pass them on.
-/

set_option autoImplicit false

namespace SyncRtc

/-! ## Login -/

/-- A login request. -/
structure LoginRequest where
  uid : Int
  token : String
  email : String

/-- The request of a login, when it has the right shape. -/
def loginRequest (root : Json) : Option LoginRequest :=
  match root.get "token", root.get "email" with
  | .str token, .str email =>
    if (root.get "uid").isInt then (root.get "uid").asInt.map fun uid => ⟨uid, token, email⟩ else none
  | _, _ => none

/-- `session_info["uid"].asInt()`: a text that is no JSON makes the token invalid, a value that has no
integer there throws. -/
def loginOwner (info : Payload) : Except ErrorCode Int :=
  match info with
  | .throws => .error .network
  | .malformed => .error .token
  | .value (.obj fields) => (Json.get (.obj fields) "uid").asInt.elim (.error .network) .ok
  | .value .null => .ok 0
  | .value _ => .error .network

/-- The body of `LogicSystem::LoginHandler`. A session that has logged in keeps its user; one that was
closed meanwhile is not bound. -/
def loginBody (s : SessionId) (body : Payload) : Op Reply := do
  match body.root with
  | .error code => return Reply.error code
  | .ok root =>
    match loginRequest root with
    | none => return Reply.error .json
    | some r =>
      match ← query .loginAuth (.lookupAuth r.token) with
      | .missing => return Reply.error .token
      | .unavailable => return Reply.error .redis
      | .found info =>
        match loginOwner info with
        | .error code => return Reply.error code
        | .ok owner =>
          let session ← getSession s
          if owner ≤ 0 ∨ r.uid ≠ owner ∨ (session.userId ≠ 0 ∧ (session.userId : Int) ≠ owner) then
            return Reply.error .token
          let user : Option UserInfo ← query .loginUser (.getUserInfo r.email)
          match user with
          | none => return Reply.error .mysql
          | some user =>
            if (user.uid : Int) ≠ owner ∨ user.username.isEmpty then return Reply.error .mysql
            let value : Reply := [("email", .str user.email), ("username", .str user.username)]
            let recent : Option (List Json) ← query .loginRecent (.getMeetingRecently owner.toNat)
            match recent with
            | none => return value.withError .mysql
            | some rows =>
              let value := value.set "meetings" (.arr rows)
              let session ← getSession s
              if session.closed then return value
              call (.setUser s owner.toNat r.token)
              return (value.set "capabilities"
                (.arr [.str "meeting_resume_v1", .str "heartbeat_v1", .str "heartbeat_v2"])).withError .success

def loginHandler (s : SessionId) (body : Payload) : Op Unit := do
  let value ← loginBody s body
  let _ ← send s .authLoginResponse value

/-! ## Meetings of a user -/

/-- An optional text member of a request. -/
def optionalText (root : Json) (name : String) : Option String :=
  match root.get name with
  | .null => some ""
  | .str text => some text
  | _ => none

/-- The title and the password of a CREATE_MEETING, or what is wrong with it. -/
def createRequest (root : Json) : Except ErrorCode (String × String) :=
  match root.get "title", optionalText root "scheduled_at", optionalText root "password" with
  | .str title, some _, some password =>
    if title.isEmpty ∨ title.utf8ByteSize > 200 then .error .json
    else if password.utf8ByteSize > 72 then .error .password
    else .ok (title, password)
  | _, _, _ => .error .json

/-- The hash of the password of a new meeting, if it has one; `none` when bcrypt fails. -/
def createHash (password : String) : Op (Option (Option String)) := do
  if password.isEmpty then return some none
  let hash : Option String ← query .createHash (.hashMeetingPassword password)
  return hash.map some

/-- The body of `LogicSystem::CreateMeetingHandler`. -/
def createMeetingBody (s : SessionId) (body : Payload) : Op Reply := do
  match body.root with
  | .error code => return Reply.error code
  | .ok root =>
    match createRequest root with
    | .error code => return Reply.error code
    | .ok (title, password) =>
      let session ← getSession s
      let uid := session.userId
      if uid = 0 then return Reply.error .token
      match ← createHash password with
      | none => return Reply.error .password
      | some hash =>
        let created : Bool ← query .createMeeting (.createMeeting title uid hash)
        if !created then return Reply.error .mysql
        let recent : Option (List Json) ← query .createRecent (.getMeetingRecently uid)
        match recent with
        | none => return [("meetings_sync", .bool false), ("error", .int ErrorCode.success.toInt)]
        | some rows =>
          return [("meetings", .arr rows), ("meetings_sync", .bool true),
            ("error", .int ErrorCode.success.toInt)]

def createMeetingHandler (s : SessionId) (body : Payload) : Op Unit := do
  let value ← createMeetingBody s body
  let _ ← send s .createMeetingResponse value

/-- The body of `LogicSystem::GetPastMeetingHandler`. -/
def pastMeetingBody (s : SessionId) : Op Reply := do
  let session ← getSession s
  if session.userId = 0 then return Reply.error .token
  let rows : Option (List Json) ← query .pastHistory (.getHistoryMeeting session.userId)
  match rows with
  | none => return Reply.error .mysql
  | some rows => return [("meetings", .arr rows), ("error", .int ErrorCode.success.toInt)]

def getPastMeetingHandler (s : SessionId) : Op Unit := do
  let value ← pastMeetingBody s
  let _ ← send s .pastMeetingResponse value

/-! ## AI -/

/-- An error with the text a client shows. -/
def aiError (code : ErrorCode) (text : String) : Reply :=
  [("error", .int code.toInt), ("error_message", .str text)]

/-- What AIServer's reply is answered with. -/
def aiAnswer : AiReply → Reply
  | .busy => Reply.error .network
  | .done .failed => aiError .aiRequestFailed "AI 服务暂时不可用，请稍后再试。"
  | .done (.answered error answer errorMessage) =>
    if error = 0 then [("error", .int error), ("answer", .str answer)]
    else [("error", .int error), ("error_message", .str errorMessage)]

/-- The body of `LogicSystem::AiAskHandler`. -/
def aiAskBody (s : SessionId) (body : Payload) : Op Reply := do
  let session ← getSession s
  if session.userId = 0 then return aiError .token "请先登录后再提问。"
  match body with
  | .throws => return Reply.error .network
  | .malformed => return aiError .json "问题格式不正确。"
  | .value root =>
    match root.isObject, root.get "question" with
    | true, .str question =>
      if question.isEmpty then return aiError .aiEmptyQuestion "问题不能为空。"
      let reply : AiReply ← call (.askAi question)
      return aiAnswer reply
    | _, _ => return aiError .json "问题格式不正确。"

def aiAskHandler (s : SessionId) (body : Payload) : Op Unit := do
  let value ← aiAskBody s body
  let _ ← send s .aiAskResponse value

end SyncRtc
