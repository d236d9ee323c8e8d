/-!
# Registering and resetting a password

The two handlers of GateServer that ask for a verification code. They read the code from Redis under the
address of the request; `database` is what they then ask MySQL for, and nothing is asked for unless the
code was right.
-/

set_option autoImplicit false

namespace SyncRtc.GateServer

/-- `ErrorCodes`, those the two handlers answer with. -/
inductive ErrorCodes
  | success
  | json
  | mysql
  | password
  | varifyExpired
  | varifyCode
  | userExist
deriving DecidableEq, Repr

/-- The code on the wire. -/
def ErrorCodes.toInt : ErrorCodes → Int
  | .success => 0
  | .json => 1
  | .mysql => 3
  | .password => 103
  | .varifyExpired => 1003
  | .varifyCode => 1004
  | .userExist => 1005

/-- What the body of `/register_user` holds. -/
structure RegisterUserRequest where
  username : String
  email : String
  password : String
  varifyCode : String
  comfirm : String

/-- What the body of `/reset_pwd` holds. -/
structure ResetPwdRequest where
  email : String
  varifyCode : String
  password : String
  confirm : String

inductive DatabaseCall
  | registerUser (username email passwordHash : String)
  | updatePwd (email passwordHash : String)
deriving DecidableEq, Repr

/-- The members of the response, and what was asked of the database before. -/
structure Handled where
  error : ErrorCodes
  email : Option String := none
  uid : Option Int := none
  username : Option String := none
  database : Option DatabaseCall := none

variable (get : String → Option String) (hashPassword : String → String)

/-- The handler of `/register_user`; `get` is `RedisMgr::Get`, and `register` the answer of
`MysqlMgr::RegisterUser`. A body that is no JSON is `none`. -/
def registerUser (register : String → String → String → Int) : Option RegisterUserRequest → Handled
  | none => { error := .json }
  | some request =>
    if request.comfirm ≠ request.password then { error := .password }
    else
      match get ("code_" ++ request.email) with
      | none => { error := .varifyExpired }
      | some varifyCode =>
        if varifyCode ≠ request.varifyCode then { error := .varifyCode }
        else
          let passwordHash := hashPassword request.password
          let uid := register request.username request.email passwordHash
          let database := some (.registerUser request.username request.email passwordHash)
          if uid = -1 then { error := .mysql, database }
          else if uid = 0 then { error := .userExist, database }
          else
            { error := .success, email := some request.email, uid := some uid, username := some request.username, database }

/-- The handler of `/reset_pwd`; `updatePwd` is the answer of `MysqlMgr::UpdatePwd`. -/
def resetPwd (updatePwd : String → String → Bool) : Option ResetPwdRequest → Handled
  | none => { error := .json }
  | some request =>
    if request.confirm ≠ request.password then { error := .password }
    else
      match get ("code_" ++ request.email) with
      | none => { error := .varifyExpired }
      | some varifyCode =>
        if varifyCode ≠ request.varifyCode then { error := .varifyCode }
        else
          let passwordHash := hashPassword request.password
          let database := some (.updatePwd request.email passwordHash)
          if updatePwd request.email passwordHash then { error := .success, email := some request.email, database }
          else { error := .password, database }

variable {get hashPassword}

/-- A registration gets to the database if and only if its code is the one under its address. -/
theorem registerUser_database (register : String → String → String → Int) (request : RegisterUserRequest) :
    (registerUser get hashPassword register (some request)).database ≠ none ↔
      request.comfirm = request.password ∧ get ("code_" ++ request.email) = some request.varifyCode := by
  unfold registerUser
  dsimp only
  split
  next h => exact ⟨fun hn => absurd rfl hn, fun hc => absurd hc.1 h⟩
  next h =>
    cases hget : get ("code_" ++ request.email) with
    | none => exact ⟨fun hn => absurd rfl hn, fun hc => nomatch hc.2⟩
    | some varifyCode =>
      dsimp only
      split
      next hne => exact ⟨fun hn => absurd rfl hn, fun hc => absurd (Option.some.inj hc.2) hne⟩
      next heq =>
        refine ⟨fun _ => ⟨Decidable.not_not.mp h, congrArg some (Decidable.not_not.mp heq)⟩, fun _ => ?_⟩
        split
        · nofun
        · split <;> nofun

/-- A reset gets to the database if and only if its code is the one under its address. -/
theorem resetPwd_database (updatePwd : String → String → Bool) (request : ResetPwdRequest) :
    (resetPwd get hashPassword updatePwd (some request)).database ≠ none ↔
      request.confirm = request.password ∧ get ("code_" ++ request.email) = some request.varifyCode := by
  unfold resetPwd
  dsimp only
  split
  next h => exact ⟨fun hn => absurd rfl hn, fun hc => absurd hc.1 h⟩
  next h =>
    cases hget : get ("code_" ++ request.email) with
    | none => exact ⟨fun hn => absurd rfl hn, fun hc => nomatch hc.2⟩
    | some varifyCode =>
      dsimp only
      split
      next hne => exact ⟨fun hn => absurd rfl hn, fun hc => absurd (Option.some.inj hc.2) hne⟩
      next heq =>
        refine ⟨fun _ => ⟨Decidable.not_not.mp h, congrArg some (Decidable.not_not.mp heq)⟩, fun _ => ?_⟩
        split <;> nofun

end SyncRtc.GateServer
