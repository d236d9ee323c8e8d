import SyncRtc.GateServer.LogicSystem
import SyncRtc.Lib.Expiring

/-!
# Verification codes

`GetVarifyCode` of VarifyServer looks a code up, or makes one, stores it and limits its time, and mails
it. Each of these is an `await`: between two of them the other requests run, and GateServer reads the
same keys whenever it is asked to. Redis counts in milliseconds.
-/

set_option autoImplicit false

namespace SyncRtc.VarifyServer

/-- `code_prefix + email`. -/
def redisKey (email : String) : String := "code_" ++ email

/-- `Errors`. -/
inductive Errors
  | success
  | redisErr
  | exception
deriving DecidableEq, Repr

/-- `GetVarifyRsp`. -/
structure GetVarifyRsp where
  email : String
  error : Errors
  code : String
deriving DecidableEq, Repr

/-- What becomes of a command, or of a mail: it is answered, it runs but its answer is lost, or it never
runs. The awaiting function sees an exception in the last two cases. -/
inductive Outcome
  | answered
  | lost
  | refused
deriving DecidableEq, Repr

/-- Whether Redis ran the command. -/
def Outcome.ran : Outcome → Bool
  | .answered | .lost => true
  | .refused => false

/-- What a request waits for. -/
inductive Await
  /-- `RedisCli.get`, in `GetRedis`. -/
  | get
  /-- `RedisCli.set`, in `SetRedisExpire`. -/
  | set (code : String)
  /-- `RedisCli.expire`, in `SetRedisExpire`. -/
  | expire (code : String)
  | sendMail (code : String)
  | returned (rsp : GetVarifyRsp)
deriving DecidableEq, Repr

/-- A call of `GetVarifyCode`. -/
structure Request where
  email : String
  await : Await := .get
  /-- When its `set` ran: kept for the statements only. -/
  setAt : Nat := 0
deriving DecidableEq, Repr

/-- `uuidv4()`, cut to four characters. -/
def newCode (uuid : String) : String :=
  if uuid.length > 4 then String.ofList (uuid.toList.take 4) else uuid

namespace Request

variable (r : Request)

/-- The continuation of `GetRedis`: a failed read is a code that is not there. -/
def afterGet (existing : Option String) (uuid : String) : Request :=
  match existing with
  | some code => { r with await := .sendMail code }
  | none => { r with await := .set (newCode uuid) }

/-- The continuation of `RedisCli.set`. -/
def afterSet (code : String) (ok : Bool) (now : Nat) : Request :=
  if ok then { r with await := .expire code, setAt := now }
  else { r with await := .returned ⟨r.email, .redisErr, ""⟩, setAt := now }

/-- The continuation of `RedisCli.expire`. -/
def afterExpire (code : String) (ok : Bool) : Request :=
  if ok then { r with await := .sendMail code } else { r with await := .returned ⟨r.email, .redisErr, ""⟩ }

/-- The response, once `SendMail` is through. -/
def response (code : String) (ok : Bool) : GetVarifyRsp :=
  if ok then ⟨r.email, .success, code⟩ else ⟨r.email, .exception, ""⟩

end Request

/-- A code that was stored: for whom, which, and when. -/
structure Stored where
  email : String
  code : String
  storedAt : Nat
deriving DecidableEq, Repr

/-- A response that was sent, and the code of its address that was valid then. -/
structure Answer where
  rsp : GetVarifyRsp
  valid : Option String
deriving DecidableEq, Repr

/-- VarifyServer and its Redis. `stored` and `answers` are kept for the statements only. -/
structure Service where
  now : Nat := 0
  redis : Expiring String String := Expiring.empty
  requests : List Request := []
  stored : List Stored := []
  answers : List Answer := []

inductive Event
  | call (email : String)
  /-- The command or the mail the request waits for comes to its end; `uuid` is what `uuidv4` draws. -/
  | resume (i : Nat) (outcome : Outcome) (uuid : String)
  /-- VarifyServer dies, and its requests with it. -/
  | crash
  | tick (time : Nat)

namespace Service

variable (s : Service)

/-- The code under an address, unless it has run out. -/
def code (email : String) : Option String := s.redis.get s.now (redisKey email)

/-- What `RedisMgr::Get` of GateServer answers, when Redis can be asked or not. -/
def reading (reachable : Bool) (key : String) : Option String :=
  if reachable then s.redis.get s.now key else none

/-- `RedisCli.set`. -/
def runSet (email code : String) : Service :=
  { s with redis := s.redis.set (redisKey email) code, stored := ⟨email, code, s.now⟩ :: s.stored }

/-- `RedisCli.expire(key, 600)`. -/
def runExpire (email : String) : Service :=
  { s with redis := s.redis.expire s.now (redisKey email) (600 * 1000) }

def answer (rsp : GetVarifyRsp) : Service := { s with answers := ⟨rsp, s.code rsp.email⟩ :: s.answers }

def setRequest (i : Nat) (r : Request) : Service := { s with requests := s.requests.set i r }

/-- A request goes on to its next `await`. -/
def resume (i : Nat) (r : Request) (outcome : Outcome) (uuid : String) : Option Service :=
  match r.await with
  | .get =>
    let existing := if outcome = .answered then s.code r.email else none
    some (s.setRequest i (r.afterGet existing uuid))
  | .set code =>
    let s' := if outcome.ran then s.runSet r.email code else s
    let r' := r.afterSet code (outcome = .answered) s.now
    some ((if outcome = .answered then s' else s'.answer ⟨r.email, .redisErr, ""⟩).setRequest i r')
  | .expire code =>
    let s' := if outcome.ran then s.runExpire r.email else s
    let r' := r.afterExpire code (outcome = .answered)
    some ((if outcome = .answered then s' else s'.answer ⟨r.email, .redisErr, ""⟩).setRequest i r')
  | .sendMail code =>
    let rsp := r.response code (outcome = .answered)
    some ((s.answer rsp).setRequest i { r with await := .returned rsp })
  | .returned _ => none

def step : Event → Option Service
  | .call email => some { s with requests := s.requests ++ [{ email }] }
  | .resume i outcome uuid => s.requests[i]?.bind fun r => s.resume i r outcome uuid
  | .crash => some { s with requests := [] }
  | .tick time => some { s with now := s.now + time }

end Service

end SyncRtc.VarifyServer
