import SyncRtc.GateServer.LogicSystem
import SyncRtc.GateServer.Storage
import SyncRtc.Json
import SyncRtc.Lib.Hosting

/-!
# The routes of GateServer

`LogicSystem.cpp` has one handler for each route. The handlers run on the threads of a pool, each from its request to its
response without leaving its thread, and meet at MySQL, at Redis and at VarifyServer: every statement and every command is
a `Call`, and the handlers are programs over them (`Hosting`).

An exception that leaves a handler ends the connection without a response; what the handler has done before stays.
-/

set_option autoImplicit false

namespace SyncRtc.GateServer

open Prog

/-! ## Calls -/

/-- A field of a presence hash. -/
inductive PresenceField where
  | status
  | meetingId
  deriving DecidableEq

/-- What `RAND_bytes` fills. -/
abbrev TokenBytes := { bytes : List UInt8 // bytes.length = 32 }

/-- The part of `GetVarifyResponse` that is passed on. -/
structure VarifyReply where
  error : Int
  code : String

inductive Call where
  /-- `RedisMgr::Get("code_" + email)`. -/
  | getCode (email : String)
  /-- `RedisMgr::Get` and `RedisMgr::Set` under `kSessionKeyPrefix`. -/
  | getSession (token : String)
  | setSession (token : String) (session : Session)
  | hget (uid : Nat) (field : PresenceField)
  /-- `VarifyGrpcClient::GetCode`. -/
  | getVarifyCode (email : String)
  /-- `crypt_gensalt_ra`. -/
  | genSalt
  | randBytes
  /-- The `SELECT` of `RegisterUser`. -/
  | selectIdByEmail (email : String)
  /-- Its `INSERT`, with the `LAST_INSERT_ID` of the connection it still holds. -/
  | insertUser (username email passwordHash : String)
  | selectPasswordHash (email : String)
  | updatePwd (email passwordHash : String)
  | getUserInfo (email : String)
  | getUserInfoByUid (uid : Nat)
  | getContactListByUid (uid : Nat)
  | addContact (uid contact : Nat)
  | deleteContact (uid contact : Nat)

/-- What a call answers. A failure reads as the wrapper of the call has it: no value, or `false`. -/
def Call.Res : Call → Type
  | .getCode _ => Option String
  | .getSession _ => Option Session
  | .setSession _ _ => Bool
  | .hget _ _ => String
  | .getVarifyCode _ => VarifyReply
  | .genSalt => Option String
  | .randBytes => Option TokenBytes
  | .selectIdByEmail _ => Option (Option Nat)
  | .insertUser _ _ _ => Inserted
  | .selectPasswordHash _ => Option String
  | .updatePwd _ _ => Bool
  | .getUserInfo _ => Option UserInfo
  | .getUserInfoByUid _ => Option UserInfo
  | .getContactListByUid _ => Option (List ContactInfo)
  | .addContact _ _ => Bool
  | .deleteContact _ _ => Bool

def calls : Signature := ⟨Call, Call.Res⟩

/-! ## Responses -/

/-- The other members of `ErrorCodes`. -/
inductive RouteError where
  | handled (e : ErrorCodes)
  | redis
  | rpcFailed
  | passwordInvalid
  | sessionInvalid
  deriving DecidableEq

def RouteError.toInt : RouteError → Int
  | .handled e => e.toInt
  | .redis => 2
  | .rpcFailed => 102
  | .passwordInvalid => 1006
  | .sessionInvalid => 1007

/-- The body of a response, or none when an exception has left the handler. -/
abbrev Response := Option (List (String × Json))

def fail (e : RouteError) : Prog calls Response := .pure (some [("error", .int e.toInt)])

/-- The body that says `SUCCESS`. -/
def succeed (fields : List (String × Json)) : Prog calls Response :=
  .pure (some (("error", .int ErrorCodes.success.toInt) :: fields))

/-- Go on with a value, if reading it throws no exception. -/
def orThrow {α : Type} (x : Option α) (k : α → Prog calls Response) : Prog calls Response :=
  match x with
  | none => .pure none
  | some a => k a

/-- Parse the body of a request. -/
def withRoot (body : Payload) (k : Json → Prog calls Response) : Prog calls Response :=
  match body with
  | .throws => .pure none
  | .malformed => fail (.handled .json)
  | .value root => k root

/-- `root[name]`: a value that is neither an object nor null throws. -/
def member (root : Json) (name : String) : Option Json :=
  match root with
  | .null => some .null
  | .obj fields => some ((Json.obj fields).get name)
  | _ => none

/-! ## The server -/

/-- What GateServer was started with, and what it has from its libraries and its database. -/
structure Gate where
  /-- `utf8mb4_0900_ai_ci`, as a text that is the same for texts that compare equal. -/
  collation : String → String
  /-- `crypt_ra`. -/
  crypt : String → String → Option String
  /-- How jsoncpp writes a number that is no integer. -/
  realText : Rat → String
  /-- `RedisMgr::IsConnected`: whether the pool was healthy at the start. -/
  connected : Bool
  /-- Where RealtimeServer listens. -/
  host : String
  port : String

inductive Route where
  | getVarifyCode
  | registerUser
  | loginUser
  | resetPwd
  | getContacts
  | searchContacts
  | addContact
  | deleteContact
  deriving DecidableEq

structure Request where
  route : Route
  body : Payload

/-- A hexadecimal digit, as `std::hex` writes it. -/
def hexDigit (n : Nat) : Char := if n < 10 then Char.ofNat ('0'.toNat + n) else Char.ofNat ('a'.toNat + (n - 10))

/-- `std::setw(2)` with `std::setfill('0')`. -/
def hexByte (b : UInt8) : List Char := [hexDigit (b.toNat / 16), hexDigit (b.toNat % 16)]

/-- `GenerateToken`, from the random bytes. -/
def tokenText (bytes : TokenBytes) : String := String.ofList (bytes.1.flatMap hexByte)

namespace Gate

variable (g : Gate)

def asString : Json → Option String
  | .real q => some (g.realText q)
  | value => value.asString

/-- `root[name].asString()`. -/
def text (root : Json) (name : String) : Option String := (member root name).bind g.asString

/-! ### Passwords and sessions -/

/-- `crypt_ra(password, setting)`, an empty text when it fails. -/
def hashed (password : String) (setting : Option String) : String :=
  setting.elim "" fun setting => (g.crypt password setting).getD ""

def hashPassword (password : String) : Prog calls String := .call .genSalt fun setting => .pure (g.hashed password setting)

def verifyPassword (password storedHash : String) : Bool :=
  !storedHash.isEmpty && decide (g.crypt password storedHash = some storedHash)

/-- `SaveSession`. -/
def saveSession (token : String) (uid : Nat) (deviceId : String) : Prog calls Bool :=
  if token.isEmpty ∨ uid = 0 ∨ deviceId.isEmpty then .pure false
  else .call (.setSession token ⟨uid, deviceId⟩) .pure

/-- `ValidateSession`, with the user if it is one. -/
def validateSession (token deviceId : String) : Prog calls (Option Nat) :=
  if token.isEmpty ∨ deviceId.isEmpty then .pure none
  else .call (.getSession token) fun session =>
    match session with
    | none => .pure none
    | some session =>
      if session.deviceId ≠ deviceId then .pure none
      else if 0 < session.uid then .pure (some session.uid.toNat)
      else .pure none

/-- What a request is told whose session is not valid. -/
def sessionError : RouteError := if g.connected then .sessionInvalid else .redis

/-! ### Statements with checks of their own -/

/-- `MysqlMgr::RegisterUser`. -/
def registerUserInDb (username email passwordHash : String) : Prog calls Int :=
  .call (.selectIdByEmail email) fun found =>
    match found with
    | none => .pure (-1)
    | some (some _) => .pure 0
    | some none => .call (.insertUser username email passwordHash) fun result =>
      match result with
      | .inserted id => .pure id
      | .duplicate => .pure 0
      | .failed => .pure (-1)

/-- `MysqlMgr::GetUserInfoByUid`. -/
def userInfoByUid (uid : Nat) : Prog calls (Option UserInfo) :=
  if uid = 0 then .pure none
  else .call (.getUserInfoByUid uid) fun info => .pure (info.filter fun u => !u.username.isEmpty && !u.email.isEmpty)

/-- `MysqlMgr::GetContactListByUid`. -/
def contactListByUid (uid : Nat) : Prog calls (Option (List ContactInfo)) :=
  if uid = 0 then .pure none else .call (.getContactListByUid uid) .pure

/-- `MysqlMgr::AddContact` and `MysqlMgr::DeleteContact` up to the statement. -/
def withContact (uid : Nat) (contact : Int) (call : Nat → Nat → Prog calls Bool) : Prog calls Bool :=
  if uid = 0 ∨ contact ≤ 0 ∨ (uid : Int) = contact then .pure false else call uid contact.toNat

/-- What a contact is doing, by its presence. -/
def statusOf (uid : Nat) : Prog calls String :=
  .call (.hget uid .status) fun (status : String) => .call (.hget uid .meetingId) fun (meetingId : String) =>
    let status := if status.isEmpty then "offline" else status
    .pure (if meetingId.isEmpty then status else "in_meeting")

/-! ### The handlers -/

def getVarifyCode (body : Payload) : Prog calls Response :=
  withRoot body fun root => orThrow (g.text root "email") fun email => orThrow (member root "email") fun given =>
    .call (.getVarifyCode email) fun (reply : VarifyReply) =>
      .pure (some [("error", .int reply.error), ("email", given), ("code", .str reply.code)])

def registerUser (body : Payload) : Prog calls Response :=
  withRoot body fun root => orThrow (member root "UserData") fun data =>
  orThrow (g.text data "username") fun username => orThrow (g.text data "email") fun email =>
  orThrow (g.text data "password") fun password => orThrow (g.text root "VarifyCode") fun code =>
  orThrow (g.text root "Comfirm") fun comfirm =>
    if comfirm ≠ password then fail (.handled .password)
    else .call (.getCode email) fun (stored : Option String) =>
      match stored with
      | none => fail (.handled .varifyExpired)
      | some varifyCode =>
        if varifyCode ≠ code then fail (.handled .varifyCode)
        else (g.hashPassword password).bind fun hash => (registerUserInDb username email hash).bind fun uid =>
          if uid = -1 then fail (.handled .mysql)
          else if uid = 0 then fail (.handled .userExist)
          else succeed [("email", .str email), ("uid", .int uid), ("username", .str username)]

/-- The end of a successful login. -/
def welcome (uid : Nat) (username email token : String) : Prog calls Response :=
  succeed [("email", .str email), ("uid", .int uid), ("username", .str username), ("session_token", .str token),
    ("host", .str g.host), ("port", .str g.port), ("expires_in", .int kTokenExpireSeconds)]

/-- `/login_user` with a session token. -/
def resumeSession (token deviceId : String) : Prog calls Response :=
  if !g.connected then fail .redis
  else (validateSession token deviceId).bind fun valid =>
    match valid with
    | none => fail g.sessionError
    | some uid => (userInfoByUid uid).bind fun info =>
      match info with
      | none => fail (.handled .mysql)
      | some user => (saveSession token user.uid deviceId).bind fun saved =>
        if !saved then fail .redis else g.welcome user.uid user.username user.email token

/-- `/login_user` with an account and a password. -/
def passwordLogin (email password deviceId : String) : Prog calls Response :=
  .call (.selectPasswordHash email) fun (stored : Option String) =>
    match stored.filter fun hash => !hash.isEmpty with
    | none => fail (.handled .mysql)
    | some hash =>
      if !g.verifyPassword password hash then fail .passwordInvalid
      else .call (.getUserInfo email) fun (info : Option UserInfo) =>
        match info.filter fun u => decide (0 < u.uid) && !u.username.isEmpty with
        | none => fail (.handled .mysql)
        | some user => .call .randBytes fun (bytes : Option TokenBytes) =>
          match bytes with
          | none => fail .redis
          | some bytes => (saveSession (tokenText bytes) user.uid deviceId).bind fun saved =>
            if !saved then fail .redis else g.welcome user.uid user.username email (tokenText bytes)

def loginUser (body : Payload) : Prog calls Response :=
  withRoot body fun root => orThrow (g.text root "device_id") fun deviceId =>
    if deviceId.isEmpty then fail (.handled .json)
    else if root.isMember "session_token" then
      orThrow (g.text root "session_token") fun token => g.resumeSession token deviceId
    else
      orThrow (g.text root "account") fun email => orThrow (g.text root "password") fun password =>
        if email.isEmpty ∨ password.isEmpty then fail (.handled .json) else g.passwordLogin email password deviceId

def resetPwd (body : Payload) : Prog calls Response :=
  withRoot body fun root => orThrow (g.text root "email") fun email => orThrow (g.text root "VarifyCode") fun code =>
  orThrow (g.text root "password") fun password => orThrow (g.text root "confirm") fun confirm =>
    if confirm ≠ password then fail (.handled .password)
    else .call (.getCode email) fun (stored : Option String) =>
      match stored with
      | none => fail (.handled .varifyExpired)
      | some varifyCode =>
        if varifyCode ≠ code then fail (.handled .varifyCode)
        else (g.hashPassword password).bind fun hash => .call (.updatePwd email hash) fun (updated : Bool) =>
          if !updated then fail (.handled .password) else succeed [("email", .str email)]

/-- The beginning of the routes that need a session: they go on with its user. -/
def authorised (root : Json) (k : Nat → Prog calls Response) : Prog calls Response :=
  orThrow (g.text root "session_token") fun token => orThrow (g.text root "device_id") fun deviceId =>
    (validateSession token deviceId).bind fun valid =>
      match valid with
      | none => fail g.sessionError
      | some uid => k uid

/-- A contact as the client is told of it. -/
def contactJson (contact : ContactInfo) (status : String) : Json :=
  .obj [("uid", .int contact.uid), ("username", .str contact.username), ("email", .str contact.email),
    ("display_name", .str contact.displayName), ("alias", .str contact.aliasName), ("remark", .str contact.remark),
    ("relation_status", .int contact.relationStatus), ("status", .str status)]

def getContacts (body : Payload) : Prog calls Response :=
  withRoot body fun root => g.authorised root fun uid =>
    if !g.connected then fail .redis
    else (contactListByUid uid).bind fun list =>
      match list with
      | none => fail (.handled .mysql)
      | some contacts =>
        (collect (fun contact : ContactInfo => (statusOf contact.uid).bind fun status => .pure (contactJson contact status))
          contacts).bind fun items => succeed [("contacts", .arr items), ("count", .int contacts.length)]

def searchContacts (body : Payload) : Prog calls Response :=
  withRoot body fun root => g.authorised root fun _ => orThrow (g.text root "keyword") fun email =>
    if email.isEmpty then fail (.handled .json)
    else .call (.getUserInfo email) fun (info : Option UserInfo) =>
      match info with
      | none => fail (.handled .mysql)
      | some user =>
        succeed [("uid", .int user.uid), ("email", .str user.email), ("username", .str user.username)]

/-- The contact that a request is about. -/
def withContactUid (root : Json) (k : Int → Prog calls Response) : Prog calls Response :=
  orThrow ((member root "contact_uid").bind Json.asInt) fun contact =>
    if contact < 0 then fail (.handled .json) else k contact

def addContact (body : Payload) : Prog calls Response :=
  withRoot body fun root => withContactUid root fun contact => g.authorised root fun uid =>
    if !g.connected then fail .redis
    else (withContact uid contact fun u c => .call (.addContact u c) .pure).bind fun added =>
      if !added then fail (.handled .mysql)
      else (userInfoByUid contact.toNat).bind fun info =>
        match info with
        | none => fail (.handled .mysql)
        | some user => (statusOf contact.toNat).bind fun status =>
          succeed [("uid", .int user.uid), ("email", .str user.email), ("username", .str user.username),
            ("status", .str status)]

def deleteContact (body : Payload) : Prog calls Response :=
  withRoot body fun root => withContactUid root fun contact => g.authorised root fun uid =>
    (withContact uid contact fun u c => .call (.deleteContact u c) .pure).bind fun deleted =>
      if !deleted then fail (.handled .mysql) else succeed [("contact_uid", .int contact)]

/-- The handler of a route. -/
def handler (request : Request) : Prog calls Response :=
  match request.route with
  | .getVarifyCode => g.getVarifyCode request.body
  | .registerUser => g.registerUser request.body
  | .loginUser => g.loginUser request.body
  | .resetPwd => g.resetPwd request.body
  | .getContacts => g.getContacts request.body
  | .searchContacts => g.searchContacts request.body
  | .addContact => g.addContact request.body
  | .deleteContact => g.deleteContact request.body

end Gate

/-! ## The stores answer -/

/-- What the outside makes of a call: it is carried out and answered, or its answer is lost, or it is not carried out.
The random values and the answer of VarifyServer come from here, and which of two contacts changed in the same
millisecond comes first. -/
structure Outcome where
  ran : Bool := true
  answered : Bool := true
  salt : Option String := none
  bytes : Option TokenBytes := none
  varify : VarifyReply := ⟨0, ""⟩
  tie : Nat → Nat := id

/-- What others do to the stores. -/
inductive Change where
  | elapse (milliseconds : Nat)
  /-- VarifyServer writes a code, or its time is over. -/
  | code (email : String) (code : Option String)
  /-- RealtimeServer writes the presence of a user. -/
  | presence (uid : Nat) (presence : Presence)

def UserRow.info (r : UserRow) : UserInfo := ⟨r.id, r.username, r.email⟩

namespace Storage

variable {collation : String → String} (st : Storage collation)

def setTables (tables : Tables collation) : Storage collation := { st with tables }

/-- `INSERT INTO users`; the table keeps every id it has. -/
def insertUser (username email passwordHash : String) : Inserted × Storage collation :=
  let inserted := st.tables.users.insert username email passwordHash
  (inserted.1, st.setTables (st.tables.withUsers inserted.2 (by
    intro id hid
    show id ∈ (st.tables.users.insert username email passwordHash).2.rows.map UserRow.id
    unfold UserTable.insert
    split
    · exact hid
    · split
      · exact hid
      · rw [List.map_append]
        exact List.mem_append_left _ hid)))

def updatePwd (email passwordHash : String) : Bool × Storage collation :=
  let updated := st.tables.users.updatePwd email passwordHash
  (updated.1, st.setTables (st.tables.withUsers updated.2 (by
    intro id hid
    show id ∈ (st.tables.users.updatePwd email passwordHash).2.rows.map UserRow.id
    unfold UserTable.updatePwd
    split
    · exact hid
    · rw [UserTable.map_rehash st.tables.users UserRow.id fun _ _ => rfl]
      exact hid)))

def exec (c : Call) (o : Outcome) : c.Res × Storage collation :=
  match c with
  | .getCode email => (if o.answered then st.codes email else none, st)
  | .getSession token => (if o.answered then st.sessions.get st.now token else none, st)
  | .setSession token session =>
    (o.ran && o.answered, if o.ran then
      { st with sessions := st.sessions.setFor st.now token session (kTokenExpireSeconds * 1000) } else st)
  | .hget uid field =>
    (if o.answered then
      match field with
      | .status => (st.presence uid).status
      | .meetingId => (st.presence uid).meetingId
    else "", st)
  | .getVarifyCode _ => (if o.answered then o.varify else ⟨RouteError.rpcFailed.toInt, ""⟩, st)
  | .genSalt => (o.salt, st)
  | .randBytes => (o.bytes, st)
  | .selectIdByEmail email => (if o.answered then some ((st.tables.users.byEmail email).map UserRow.id) else none, st)
  | .insertUser username email passwordHash =>
    if o.ran then
      let (result, st') := st.insertUser username email passwordHash
      (if o.answered then result else .failed, st')
    else (.failed, st)
  | .selectPasswordHash email =>
    (if o.answered then (st.tables.users.byEmail email).map UserRow.passwordHash else none, st)
  | .updatePwd email passwordHash =>
    if o.ran then
      let (changed, st') := st.updatePwd email passwordHash
      (o.answered && changed, st')
    else (false, st)
  | .getUserInfo email =>
    (if o.answered then (st.tables.users.byEmail email).map fun r => ⟨r.id, r.username, email⟩ else none, st)
  | .getUserInfoByUid uid => (if o.answered then (st.tables.users.byId uid).map UserRow.info else none, st)
  | .getContactListByUid uid => (if o.answered then some (st.tables.contactList o.tie uid) else none, st)
  | .addContact u c =>
    match st.tables.addContact st.now u c with
    | some tables => if o.ran then (o.answered, st.setTables tables) else (false, st)
    | none => (false, st)
  | .deleteContact u c =>
    if o.ran then
      let (changed, tables) := st.tables.deleteContact st.now u c
      (o.answered && changed, st.setTables tables)
    else (false, st)

def change : Change → Storage collation
  | .elapse milliseconds => { st with now := st.now + milliseconds }
  | .code email code => { st with codes := Function.update st.codes email code }
  | .presence uid presence => { st with presence := Function.update st.presence uid presence }

end Storage

/-- The stores, as the handlers of a server find them. -/
def Gate.stores (g : Gate) : Host calls (Storage g.collation) Outcome Change where
  exec c o st := st.exec c o
  outside e st := st.change e

/-- GateServer at work: its stores, the requests so far, and what has been asked for them. -/
abbrev Gate.Service (g : Gate) : Type := Hosting calls Request Response (Storage g.collation)

/-! ## A server to try things with -/

namespace Scenario

/-- The hash of a password is its salt of three characters and the password. -/
def crypt (password setting : String) : Option String :=
  if setting.toList.length < 3 then none else some (String.ofList (setting.toList.take 3 ++ password.toList))

/-- Addresses and names compare without case. -/
def gate : Gate where
  collation text := String.ofList (text.toList.map Char.toLower)
  crypt := crypt
  realText _ := ""
  connected := true
  host := "h"
  port := "p"

/-- No users, and an empty Redis. -/
def empty : Storage gate.collation where
  tables :=
    { users := { rows := [], next := 1, below := by simp, pos := Nat.one_pos, ids := .nil, usernames := .nil, emails := .nil }
      contacts := fun _ _ => none
      known := fun _ _ _ h => by cases h }

def register (username email password code : String) : Request :=
  ⟨.registerUser, .value (.obj [("UserData", .obj [("username", .str username), ("email", .str email),
    ("password", .str password)]), ("VarifyCode", .str code), ("Comfirm", .str password)])⟩

def login (email password deviceId : String) : Request :=
  ⟨.loginUser, .value (.obj [("device_id", .str deviceId), ("account", .str email), ("password", .str password)])⟩

/-- A request about contacts. -/
def contacts (route : Route) (token deviceId : String) (contact : Int) : Request :=
  ⟨route, .value (.obj [("session_token", .str token), ("device_id", .str deviceId), ("contact_uid", .int contact)])⟩

abbrev Event := Hosting.Event Request Outcome Change

/-- The request makes its next calls; the salt is always the same. -/
def goes (i calls : Nat) : List Event := List.replicate calls (.proceed i { salt := some "$2b" })

/-- The first user registers as request 0, with the code that was mailed. -/
def joins : List Event := .outside (.code "a" (some "1234")) :: .arrive (register "u" "a" "pw" "1234") :: goes 0 4

/-- Random bytes. -/
def bytes (b : UInt8) : TokenBytes := ⟨List.replicate 32 b, List.length_replicate⟩

end Scenario

end SyncRtc.GateServer
