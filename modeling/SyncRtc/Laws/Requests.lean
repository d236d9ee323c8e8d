import SyncRtc.GateServer.Routes

/-!
# What the handlers of GateServer may do

A handler writes to MySQL or to Redis only after it has been told what entitles it: an account is made or its password
changed for a request that shows the code Redis holds for the address, a session is written for a login whose password
matched or for one who presents it, and contacts are read and changed for the user of the session presented. What a
handler may do (`Gate.permits`) is stated of its own calls so far, and so is what a successful response tells (`Gate.post`).
-/

set_option autoImplicit false

namespace SyncRtc.GateServer

open Hosting

/-- The body that says `SUCCESS`. -/
def success (fields : List (String × Json)) : Response := some (("error", .int 0) :: fields)

def failure (e : RouteError) : Response := some [("error", .int e.toInt)]

theorem failure_ne_success {e : RouteError} {fields : List (String × Json)} (he : e.toInt ≠ 0) :
    failure e ≠ success fields := by
  intro h
  simp only [failure, success, Option.some.injEq, List.cons.injEq, Prod.mk.injEq, true_and, Json.int.injEq] at h
  exact he h.1

namespace Gate

variable (g : Gate)

/-- The calls a handler has made. -/
abbrev Known : Type := List (Entry calls (Storage g.collation))

/-! ## What a request asks for -/

/-- A registration that repeats its password. -/
structure Registers (req : Request) (username email password code : String) : Prop where
  route : req.route = .registerUser
  body : ∃ root data, req.body = .value root ∧ member root "UserData" = some data ∧
    g.text data "username" = some username ∧ g.text data "email" = some email ∧ g.text data "password" = some password ∧
    g.text root "VarifyCode" = some code ∧ g.text root "Comfirm" = some password

/-- A reset that repeats its password. -/
structure Resets (req : Request) (email password code : String) : Prop where
  route : req.route = .resetPwd
  body : ∃ root, req.body = .value root ∧ g.text root "email" = some email ∧ g.text root "password" = some password ∧
    g.text root "VarifyCode" = some code ∧ g.text root "confirm" = some password

/-- A login with a password. -/
structure LogsIn (req : Request) (email password deviceId : String) : Prop where
  route : req.route = .loginUser
  body : ∃ root, req.body = .value root ∧ g.text root "device_id" = some deviceId ∧ g.text root "account" = some email ∧
    g.text root "password" = some password

/-- A request with a session token. -/
def Presents (req : Request) (token deviceId : String) : Prop :=
  ∃ root, req.body = .value root ∧ g.text root "session_token" = some token ∧ g.text root "device_id" = some deviceId

/-! ## What entitles a handler -/

variable {g}

/-- The hash is one of the password, with a salt of its own. -/
def Salted (known : g.Known) (password hash : String) : Prop :=
  ∃ setting, Told known .genSalt setting ∧ hash = g.hashed password setting

/-- Redis has shown the code of the address. -/
def Shown (known : g.Known) (email code : String) : Prop := Told known (.getCode email) (some code)

/-- The password matched the hash of the account, which is the user's. -/
def Matched (known : g.Known) (email password : String) (uid : Nat) : Prop :=
  ∃ hash user, Told known (.selectPasswordHash email) (some hash) ∧ g.verifyPassword password hash = true ∧
    Told known (.getUserInfo email) (some user) ∧ user.uid = uid ∧ 0 < uid

/-- The token was drawn for a login of the user. -/
def Drawn (known : g.Known) (req : Request) (token : String) (uid : Nat) (deviceId : String) : Prop :=
  ∃ email password bytes, g.LogsIn req email password deviceId ∧ Matched known email password uid ∧
    Told known .randBytes (some bytes) ∧ token = tokenText bytes

/-- Redis has shown that the token presented is the user's. -/
def LetIn (known : g.Known) (req : Request) (token : String) (uid : Nat) (deviceId : String) : Prop :=
  g.Presents req token deviceId ∧ Told known (.getSession token) (some ⟨uid, deviceId⟩) ∧ 0 < uid

/-- The session is renewed for the user it is of. -/
def Renewed (known : g.Known) (req : Request) (token : String) (uid : Nat) (deviceId : String) : Prop :=
  ∃ holder info, LetIn known req token holder deviceId ∧ Told known (.getUserInfoByUid holder) (some info) ∧ info.uid = uid

/-- The calls that a handler may make, by what it has been told. -/
def permits (req : Request) (c : Call) (known : g.Known) : Prop :=
  match c with
  | .insertUser username email hash => ∃ password code, g.Registers req username email password code ∧
      Shown known email code ∧ Salted known password hash
  | .updatePwd email hash => ∃ password code, g.Resets req email password code ∧ Shown known email code ∧
      Salted known password hash
  | .setSession token session => ∃ uid : Nat, session.uid = uid ∧
      (Drawn known req token uid session.deviceId ∨ Renewed known req token uid session.deviceId)
  | .getContactListByUid uid => ∃ token deviceId, LetIn known req token uid deviceId
  | .addContact uid c => req.route = .addContact ∧ uid ≠ c ∧ ∃ token deviceId, LetIn known req token uid deviceId
  | .deleteContact uid c => req.route = .deleteContact ∧ uid ≠ c ∧ ∃ token deviceId, LetIn known req token uid deviceId
  | _ => True

/-- A postcondition that speaks of success only. -/
def OnSuccess (P : List (String × Json) → g.Known → Prop) (response : Response) (known : g.Known) : Prop :=
  ∀ fields, response = success fields → P fields known

/-- What the response of a registration tells. -/
def registerPost (req : Request) (response : Response) (known : g.Known) : Prop :=
  (∀ fields, response = success fields → ∃ username email password code hash id,
    g.Registers req username email password code ∧ Told known (.insertUser username email hash) (.inserted id) ∧
    fields = [("email", .str email), ("uid", .int id), ("username", .str username)]) ∧
  (response = failure (.handled .userExist) → ∃ username email password code, g.Registers req username email password code ∧
    ((∃ id, Told known (.selectIdByEmail email) (some (some id))) ∨
      ∃ hash, Told known (.insertUser username email hash) .duplicate))

def resetTells (req : Request) (fields : List (String × Json)) (known : g.Known) : Prop :=
  ∃ email password code setting, g.Resets req email password code ∧
    Told known (.updatePwd email (g.hashed password setting)) true ∧ fields = [("email", .str email)]

/-- The members of a login's response. -/
def welcomed (g : Gate) (uid : Nat) (username email token : String) : List (String × Json) :=
  [("email", .str email), ("uid", .int uid), ("username", .str username), ("session_token", .str token),
    ("host", .str g.host), ("port", .str g.port), ("expires_in", .int kTokenExpireSeconds)]

def loginTells (req : Request) (fields : List (String × Json)) (known : g.Known) : Prop :=
  ∃ uid username email token deviceId, fields = g.welcomed uid username email token ∧
    (Drawn known req token uid deviceId ∨ Renewed known req token uid deviceId) ∧
    Told known (.setSession token ⟨uid, deviceId⟩) true

def contactsTells (req : Request) (fields : List (String × Json)) (known : g.Known) : Prop :=
  ∃ token deviceId uid contacts, ∃ statuses : List String,
    LetIn known req token uid deviceId ∧ Told known (.getContactListByUid uid) (some contacts) ∧
    statuses.length = contacts.length ∧
    fields = [("contacts", .arr (contacts.zipWith contactJson statuses)), ("count", .int contacts.length)]

def addTells (req : Request) (fields : List (String × Json)) (known : g.Known) : Prop :=
  ∃ token deviceId uid contact user status, LetIn known req token uid deviceId ∧
    Told known (.addContact uid contact) true ∧ Told known (.getUserInfoByUid contact) (some user) ∧
    fields = [("uid", .int user.uid), ("email", .str user.email), ("username", .str user.username), ("status", .str status)]

def deleteTells (req : Request) (fields : List (String × Json)) (known : g.Known) : Prop :=
  ∃ token deviceId uid, ∃ contact : Nat, LetIn known req token uid deviceId ∧
    Told known (.deleteContact uid contact) true ∧ fields = [("contact_uid", .int contact)]

def searchTells (req : Request) (fields : List (String × Json)) (known : g.Known) : Prop :=
  ∃ token deviceId uid email user, LetIn known req token uid deviceId ∧ Told known (.getUserInfo email) (some user) ∧
    fields = [("uid", .int user.uid), ("email", .str user.email), ("username", .str user.username)]

/-- What the response of a request tells. -/
def post (req : Request) (response : Response) (known : g.Known) : Prop :=
  match req.route with
  | .registerUser => registerPost req response known
  | .resetPwd => OnSuccess (resetTells req) response known
  | .loginUser => OnSuccess (loginTells req) response known
  | .getContacts => OnSuccess (contactsTells req) response known
  | .addContact => OnSuccess (addTells req) response known
  | .deleteContact => OnSuccess (deleteTells req) response known
  | .searchContacts => OnSuccess (searchTells req) response known
  | .getVarifyCode => True

/-! ## What stays known -/

section

variable {known known' : g.Known} {req : Request} {email password code hash token deviceId : String} {uid : Nat}

theorem Salted.mono (h : Salted known password hash) (hle : known <+: known') : Salted known' password hash := by
  obtain ⟨setting, htold, hhash⟩ := h
  exact ⟨setting, htold.mono hle, hhash⟩

theorem Matched.mono (h : Matched known email password uid) (hle : known <+: known') :
    Matched known' email password uid := by
  obtain ⟨hash, user, hhash, hverify, huser, huid⟩ := h
  exact ⟨hash, user, hhash.mono hle, hverify, huser.mono hle, huid⟩

theorem Drawn.mono (h : Drawn known req token uid deviceId) (hle : known <+: known') :
    Drawn known' req token uid deviceId := by
  obtain ⟨email, password, bytes, hlogs, hmatched, hbytes, htoken⟩ := h
  exact ⟨email, password, bytes, hlogs, hmatched.mono hle, hbytes.mono hle, htoken⟩

theorem LetIn.mono (h : LetIn known req token uid deviceId) (hle : known <+: known') :
    LetIn known' req token uid deviceId := ⟨h.1, h.2.1.mono hle, h.2.2⟩

theorem Renewed.mono (h : Renewed known req token uid deviceId) (hle : known <+: known') :
    Renewed known' req token uid deviceId := by
  obtain ⟨holder, info, hin, hinfo, huid⟩ := h
  exact ⟨holder, info, hin.mono hle, hinfo.mono hle, huid⟩

end

/-! ## Rules for the pieces of a handler -/

variable (g) in
/-- A handler of the request runs beside others. -/
abbrev beside (req : Request) : Prog.Machine calls g.Known := own g.stores (permits req)

section

variable {req : Request} {Q : Response → g.Known → Prop} {known : g.Known}

theorem wp_orThrow {α : Type} {x : Option α} {k : α → Prog calls Response} (hthrow : Q none known)
    (hk : ∀ a, x = some a → (k a).wp (g.beside req) Q known) : (orThrow x k).wp (g.beside req) Q known := by
  cases x with
  | none => exact hthrow
  | some a => exact hk a rfl

theorem wp_withRoot {body : Payload} {k : Json → Prog calls Response} (hthrow : Q none known)
    (hmalformed : Q (failure (.handled .json)) known)
    (hk : ∀ root, body = .value root → (k root).wp (g.beside req) Q known) :
    (withRoot body k).wp (g.beside req) Q known := by
  cases body with
  | throws => exact hthrow
  | malformed => exact hmalformed
  | value root => exact hk root rfl

variable {P : List (String × Json) → g.Known → Prop}

theorem onSuccess_none : OnSuccess P none known := fun _ h => by cases h

theorem onSuccess_failure {e : RouteError} (he : e.toInt ≠ 0) : OnSuccess P (failure e) known :=
  fun _ h => absurd h (failure_ne_success he)

theorem wp_fail {e : RouteError} (he : e.toInt ≠ 0) : (fail e).wp (g.beside req) (OnSuccess P) known :=
  onSuccess_failure he

theorem onSuccess_success {fields : List (String × Json)} (h : P fields known) : OnSuccess P (success fields) known := by
  intro fields' heq
  cases heq
  exact h

theorem wp_validateSession {token deviceId : String} :
    (validateSession token deviceId).wp (g.beside req) (fun valid known' => known <+: known' ∧ ∀ uid, valid = some uid →
      Told known' (.getSession token) (some ⟨uid, deviceId⟩) ∧ 0 < uid) known := by
  refine Prog.wp_ite (fun _ => ⟨List.prefix_rfl, fun _ h => by cases h⟩) fun _ => ?_
  refine wp_tell trivial fun session known' hle htold => ?_
  cases session with
  | none => exact ⟨hle, fun _ h => by cases h⟩
  | some session =>
    refine Prog.wp_ite (fun _ => ⟨hle, fun _ h => by cases h⟩) fun hdevice => ?_
    refine Prog.wp_ite (fun hpos => ⟨hle, ?_⟩) fun _ => ⟨hle, fun _ h => by cases h⟩
    intro uid h
    cases h
    have huid : session.uid = (session.uid.toNat : Int) := (Int.toNat_of_nonneg hpos.le).symm
    have hsession : session = ⟨(session.uid.toNat : Int), deviceId⟩ := by
      rw [← huid, ← not_not.mp hdevice]
    exact ⟨hsession ▸ htold, Int.lt_toNat.mpr hpos⟩

theorem wp_saveSession {token deviceId : String} {uid : Nat}
    (hentitled : Drawn known req token uid deviceId ∨ Renewed known req token uid deviceId) :
    (saveSession token uid deviceId).wp (g.beside req) (fun saved known' => known <+: known' ∧
      (saved = true → Told known' (.setSession token ⟨uid, deviceId⟩) true)) known := by
  refine Prog.wp_ite (fun _ => ⟨List.prefix_rfl, fun h => by cases h⟩) fun _ => ?_
  refine wp_tell ⟨uid, rfl, hentitled⟩ fun saved known' hle htold => ⟨hle, ?_⟩
  rintro rfl
  exact htold

theorem wp_hashPassword {password : String} :
    (g.hashPassword password).wp (g.beside req) (fun hash known' => known <+: known' ∧ Salted known' password hash)
      known :=
  wp_tell trivial fun setting _ hle htold => ⟨hle, setting, htold, rfl⟩

theorem wp_userInfoByUid {uid : Nat} :
    (userInfoByUid uid).wp (g.beside req) (fun info known' => known <+: known' ∧
      ∀ user, info = some user → Told known' (.getUserInfoByUid uid) (some user)) known := by
  refine Prog.wp_ite (fun _ => ⟨List.prefix_rfl, fun _ h => by cases h⟩) fun _ => ?_
  refine wp_tell trivial fun info known' hle htold => ⟨hle, fun user h => ?_⟩
  exact (Option.filter_eq_some_iff.mp h).1 ▸ htold

/-- A user that has been inserted has an id. -/
theorem inserted_pos {username email hash : String} {o : Outcome} {st : Storage g.collation} {id : Nat}
    (h : (st.exec (.insertUser username email hash) o).1 = .inserted id) : 0 < id := by
  have hinsert {t : UserTable g.collation} (h : (t.insert username email hash).1 = .inserted id) : 0 < id := by
    unfold UserTable.insert at h
    split at h
    · cases h
    · split at h <;> cases h
      exact t.pos
  obtain ⟨ran, answered⟩ := o
  cases ran with
  | false => cases h
  | true =>
    cases answered with
    | false => cases h
    | true => exact hinsert h

/-- What `RegisterUser` answers. -/
theorem wp_registerUserInDb {username email password code hash : String} (hregisters : g.Registers req username email password code)
    (hshown : Shown known email code) (hsalted : Salted known password hash) :
    (registerUserInDb username email hash).wp (g.beside req) (fun uid known' => uid = -1 ∨
      (uid = 0 ∧ ((∃ id, Told known' (.selectIdByEmail email) (some (some id))) ∨
        Told known' (.insertUser username email hash) .duplicate)) ∨
      ∃ id : Nat, uid = id ∧ 0 < id ∧ Told known' (.insertUser username email hash) (.inserted id)) known := by
  refine wp_tell trivial fun found known' hle htold => ?_
  cases found with
  | none => exact .inl rfl
  | some found =>
    cases found with
    | some id => exact .inr (.inl ⟨rfl, .inl ⟨id, htold⟩⟩)
    | none =>
      refine ⟨⟨password, code, hregisters, hshown.mono hle, hsalted.mono hle⟩, ?_⟩
      rintro result known'' ⟨i, o, st, hexec, rfl⟩
      have hlast := List.mem_append_right known' (List.mem_cons_self (a := (⟨i, _, result, st⟩ : Entry calls _)) (l := []))
      cases result with
      | inserted id => exact .inr (.inr ⟨id, rfl, inserted_pos hexec, i, st, hlast⟩)
      | duplicate => exact .inr (.inl ⟨rfl, .inr ⟨i, st, hlast⟩⟩)
      | failed => exact .inl rfl

theorem wp_statusOf {uid : Nat} : (statusOf uid).wp (g.beside req) (fun _ known' => known <+: known') known :=
  wp_tell trivial fun _ _ hle _ => wp_tell trivial fun _ _ hle' _ => hle.trans hle'

/-- The statuses of all contacts are looked up one after the other. -/
theorem wp_collect_statuses (contacts : List ContactInfo) :
    (Prog.collect (fun contact : ContactInfo =>
      (statusOf contact.uid).bind fun status => .pure (contactJson contact status)) contacts).wp (g.beside req)
      (fun items known' => known <+: known' ∧
        ∃ statuses : List String, statuses.length = contacts.length ∧ items = contacts.zipWith contactJson statuses) known := by
  induction contacts generalizing known with
  | nil => exact ⟨List.prefix_rfl, [], rfl, rfl⟩
  | cons contact contacts ih =>
    have hitem : ((statusOf contact.uid).bind fun status => .pure (contactJson contact status)).wp (g.beside req)
        (fun item known' => known <+: known' ∧ ∃ status, item = contactJson contact status) known :=
      Prog.wp_seq wp_statusOf fun status known' hle => ⟨hle, status, rfl⟩
    refine Prog.wp_seq hitem fun item known' h => ?_
    obtain ⟨hle, status, rfl⟩ := h
    refine Prog.wp_seq ih fun items known'' h => ?_
    obtain ⟨hle', statuses, hlength, rfl⟩ := h
    exact ⟨hle.trans hle', status :: statuses, congrArg Nat.succ hlength, rfl⟩

end

/-! ## The handlers -/

section

variable {req : Request}

theorem wp_registerUser (hroute : req.route = .registerUser) :
    (g.registerUser req.body).wp (g.beside req) (registerPost req) [] := by
  have hfail {known : g.Known} (e : RouteError) (he : e.toInt ≠ 0) (hne : e.toInt ≠ 1005) :
      registerPost req (failure e) known := by
    refine ⟨fun fields h => absurd h (failure_ne_success he), fun h => ?_⟩
    simp only [failure, Option.some.injEq, List.cons.injEq, Prod.mk.injEq, true_and, and_true, Json.int.injEq] at h
    exact absurd h hne
  have hnone {known : g.Known} : registerPost req none known := ⟨fun _ h => (by cases h), fun h => (by cases h)⟩
  refine wp_withRoot hnone (hfail _ (by decide) (by decide)) fun root hbody => ?_
  refine wp_orThrow hnone fun data hdata => ?_
  refine wp_orThrow hnone fun username husername => ?_
  refine wp_orThrow hnone fun email hemail => ?_
  refine wp_orThrow hnone fun password hpassword => ?_
  refine wp_orThrow hnone fun code hcode => ?_
  refine wp_orThrow hnone fun comfirm hcomfirm => ?_
  refine Prog.wp_ite (fun _ => hfail _ (by decide) (by decide)) fun hsame => ?_
  have hregisters : g.Registers req username email password code :=
    ⟨hroute, root, data, hbody, hdata, husername, hemail, hpassword, hcode, not_not.mp hsame ▸ hcomfirm⟩
  refine wp_tell trivial fun stored known hle htold => ?_
  cases stored with
  | none => exact hfail _ (by decide) (by decide)
  | some varifyCode =>
    refine Prog.wp_ite (fun _ => hfail _ (by decide) (by decide)) fun heq => ?_
    have hshown : Shown known email code := not_not.mp heq ▸ htold
    refine Prog.wp_seq wp_hashPassword fun hash known' h => ?_
    obtain ⟨hle', hsalted⟩ := h
    refine Prog.wp_seq (wp_registerUserInDb hregisters (hshown.mono hle') hsalted) fun uid known'' huid => ?_
    refine Prog.wp_ite (fun _ => hfail _ (by decide) (by decide)) fun hfailed => ?_
    refine Prog.wp_ite (fun hzero => ?_) fun hzero => ?_
    · refine ⟨fun fields h => absurd h (failure_ne_success (by decide)), fun _ =>
        ⟨username, email, password, code, hregisters, ?_⟩⟩
      rcases huid with hneg | ⟨-, hexist⟩ | ⟨id, rfl, hpos, -⟩
      · exact absurd hneg hfailed
      · exact hexist.imp_right fun hduplicate => ⟨hash, hduplicate⟩
      · omega
    · refine ⟨fun fields h => ?_, fun h => ?_⟩
      · rcases huid with hneg | ⟨hnone, -⟩ | ⟨id, rfl, -, htold⟩
        · exact absurd hneg hfailed
        · exact absurd hnone hzero
        · cases h
          exact ⟨username, email, password, code, hash, id, hregisters, htold, rfl⟩
      · simp only [failure, Option.some.injEq, List.cons.injEq, reduceCtorEq, and_false] at h

theorem wp_resetPwd (hroute : req.route = .resetPwd) :
    (g.resetPwd req.body).wp (g.beside req) (OnSuccess (resetTells req)) [] := by
  refine wp_withRoot onSuccess_none (onSuccess_failure (by decide)) fun root hbody => ?_
  refine wp_orThrow onSuccess_none fun email hemail => ?_
  refine wp_orThrow onSuccess_none fun code hcode => ?_
  refine wp_orThrow onSuccess_none fun password hpassword => ?_
  refine wp_orThrow onSuccess_none fun confirm hconfirm => ?_
  refine Prog.wp_ite (fun _ => wp_fail (by decide)) fun hsame => ?_
  have hresets : g.Resets req email password code :=
    ⟨hroute, root, hbody, hemail, hpassword, hcode, not_not.mp hsame ▸ hconfirm⟩
  refine wp_tell trivial fun stored known hle htold => ?_
  cases stored with
  | none => exact wp_fail (by decide)
  | some varifyCode =>
    refine Prog.wp_ite (fun _ => wp_fail (by decide)) fun heq => ?_
    have hshown : Shown known email code := not_not.mp heq ▸ htold
    refine Prog.wp_seq wp_hashPassword fun hash known' h => ?_
    obtain ⟨hle', hsalted⟩ := h
    refine wp_tell ⟨password, code, hresets, hshown.mono hle', hsalted⟩ fun updated known'' hle'' htold' => ?_
    cases updated with
    | false => exact wp_fail (by decide)
    | true =>
      obtain ⟨setting, -, rfl⟩ := hsalted
      exact onSuccess_success ⟨email, password, code, setting, hresets, htold', rfl⟩

theorem sessionError_ne_zero : g.sessionError.toInt ≠ 0 := by
  unfold sessionError
  split <;> decide

theorem wp_resumeSession {known : g.Known} {token deviceId : String} (hpresents : g.Presents req token deviceId) :
    (g.resumeSession token deviceId).wp (g.beside req) (OnSuccess (loginTells req)) known := by
  refine Prog.wp_ite (fun _ => wp_fail (by decide)) fun _ => ?_
  refine Prog.wp_seq wp_validateSession fun valid known' h => ?_
  obtain ⟨-, hvalid⟩ := h
  cases valid with
  | none => exact wp_fail sessionError_ne_zero
  | some uid =>
    have hin : LetIn known' req token uid deviceId := ⟨hpresents, hvalid uid rfl⟩
    refine Prog.wp_seq wp_userInfoByUid fun info known'' h => ?_
    obtain ⟨hle, hinfo⟩ := h
    cases info with
    | none => exact wp_fail (by decide)
    | some user =>
      have hrenewed : Renewed known'' req token user.uid deviceId := ⟨uid, user, hin.mono hle, hinfo user rfl, rfl⟩
      refine Prog.wp_seq (wp_saveSession (.inr hrenewed)) fun saved known₃ h => ?_
      obtain ⟨hle', hsaved⟩ := h
      refine Prog.wp_ite (fun _ => wp_fail (by decide)) fun hok => ?_
      exact onSuccess_success ⟨user.uid, user.username, user.email, token, deviceId, rfl, .inr (hrenewed.mono hle'),
        hsaved (by simpa using hok)⟩

theorem wp_passwordLogin {known : g.Known} {email password deviceId : String} (hlogs : g.LogsIn req email password deviceId) :
    (g.passwordLogin email password deviceId).wp (g.beside req) (OnSuccess (loginTells req)) known := by
  refine wp_tell trivial fun stored known₁ _ hstored => ?_
  cases hhash : Option.filter (fun hash => !hash.isEmpty) stored with
  | none => exact wp_fail (by decide)
  | some hash =>
    obtain ⟨rfl, -⟩ := Option.filter_eq_some_iff.mp hhash
    refine Prog.wp_ite (fun _ => wp_fail (by decide)) fun hverify => ?_
    refine wp_tell trivial fun info known₂ hle₂ hinfo => ?_
    cases huser : Option.filter (fun u => decide (0 < u.uid) && !u.username.isEmpty) info with
    | none => exact wp_fail (by decide)
    | some user =>
      obtain ⟨rfl, hpos⟩ := Option.filter_eq_some_iff.mp huser
      refine wp_tell trivial fun bytes known₃ hle₃ hbytes => ?_
      cases bytes with
      | none => exact wp_fail (by decide)
      | some bytes =>
        have hmatched : Matched known₂ email password user.uid :=
          ⟨hash, user, hstored.mono hle₂, by simpa using hverify, hinfo, rfl, of_decide_eq_true (Bool.and_eq_true_iff.mp hpos).1⟩
        have hdrawn : Drawn known₃ req (tokenText bytes) user.uid deviceId :=
          ⟨email, password, bytes, hlogs, hmatched.mono hle₃, hbytes, rfl⟩
        refine Prog.wp_seq (wp_saveSession (.inl hdrawn)) fun saved known₄ h => ?_
        obtain ⟨hle₄, hsaved⟩ := h
        refine Prog.wp_ite (fun _ => wp_fail (by decide)) fun hok => ?_
        exact onSuccess_success ⟨user.uid, user.username, email, tokenText bytes, deviceId, rfl, .inl (hdrawn.mono hle₄),
          hsaved (by simpa using hok)⟩

theorem wp_loginUser (hroute : req.route = .loginUser) :
    (g.loginUser req.body).wp (g.beside req) (OnSuccess (loginTells req)) [] := by
  refine wp_withRoot onSuccess_none (onSuccess_failure (by decide)) fun root hbody => ?_
  refine wp_orThrow onSuccess_none fun deviceId hdevice => ?_
  refine Prog.wp_ite (fun _ => wp_fail (by decide)) fun _ => ?_
  refine Prog.wp_ite (fun _ => ?_) fun _ => ?_
  · exact wp_orThrow onSuccess_none fun token htoken => wp_resumeSession ⟨root, hbody, htoken, hdevice⟩
  · refine wp_orThrow onSuccess_none fun email hemail => ?_
    refine wp_orThrow onSuccess_none fun password hpassword => ?_
    refine Prog.wp_ite (fun _ => wp_fail (by decide)) fun _ => ?_
    exact wp_passwordLogin ⟨hroute, root, hbody, hdevice, hemail, hpassword⟩

variable {P : List (String × Json) → g.Known → Prop}

/-- The routes that need a session go on for its user. -/
theorem wp_authorised {known : g.Known} {root : Json} {k : Nat → Prog calls Response} (hbody : req.body = .value root)
    (hk : ∀ token deviceId uid known', LetIn known' req token uid deviceId →
      (k uid).wp (g.beside req) (OnSuccess P) known') :
    (g.authorised root k).wp (g.beside req) (OnSuccess P) known := by
  refine wp_orThrow onSuccess_none fun token htoken => ?_
  refine wp_orThrow onSuccess_none fun deviceId hdevice => ?_
  refine Prog.wp_seq wp_validateSession fun valid known' h => ?_
  obtain ⟨-, hvalid⟩ := h
  cases valid with
  | none => exact wp_fail sessionError_ne_zero
  | some uid => exact hk token deviceId uid known' ⟨⟨root, hbody, htoken, hdevice⟩, hvalid uid rfl⟩

theorem wp_getContacts : (g.getContacts req.body).wp (g.beside req) (OnSuccess (contactsTells req)) [] := by
  refine wp_withRoot onSuccess_none (onSuccess_failure (by decide)) fun root hbody => ?_
  refine wp_authorised hbody fun token deviceId uid known hin => ?_
  refine Prog.wp_ite (fun _ => wp_fail (by decide)) fun _ => ?_
  refine Prog.wp_seq (P := fun list known' => known <+: known' ∧
    ∀ contacts, list = some contacts → Told known' (.getContactListByUid uid) (some contacts)) ?_ fun list known' h => ?_
  · refine Prog.wp_ite (fun _ => ⟨List.prefix_rfl, fun _ h => by cases h⟩) fun _ => ?_
    refine wp_tell ⟨token, deviceId, hin⟩ fun list known' hle htold => ⟨hle, ?_⟩
    rintro contacts rfl
    exact htold
  · obtain ⟨hle, hlist⟩ := h
    cases list with
    | none => exact wp_fail (by decide)
    | some contacts =>
      refine Prog.wp_seq (wp_collect_statuses contacts) fun items known'' h => ?_
      obtain ⟨hle', statuses, hlength, rfl⟩ := h
      exact onSuccess_success ⟨token, deviceId, uid, contacts, statuses, hin.mono (hle.trans hle'),
        (hlist contacts rfl).mono hle', hlength, rfl⟩

/-- A contact is changed by the one statement, if the two users are different. -/
theorem wp_withContact {known : g.Known} {uid : Nat} {contact : Int} {statement : Nat → Nat → Prog calls Bool}
    {T : Nat → g.Known → Prop} (hstatement : uid ≠ contact.toNat → (statement uid contact.toNat).wp (g.beside req)
      (fun done known' => known <+: known' ∧ (done = true → T contact.toNat known')) known) :
    (withContact uid contact statement).wp (g.beside req)
      (fun done known' => known <+: known' ∧ (done = true → T contact.toNat known')) known := by
  refine Prog.wp_ite (fun _ => ⟨List.prefix_rfl, fun h => by cases h⟩) fun hchecked => hstatement ?_
  omega

theorem wp_withContactUid {known : g.Known} {root : Json} {k : Int → Prog calls Response}
    (hk : ∀ contact, 0 ≤ contact → (k contact).wp (g.beside req) (OnSuccess P) known) :
    (withContactUid root k).wp (g.beside req) (OnSuccess P) known := by
  refine wp_orThrow onSuccess_none fun contact _ => ?_
  exact Prog.wp_ite (fun _ => wp_fail (by decide)) fun hneg => hk contact (not_lt.mp hneg)

theorem wp_addContact (hroute : req.route = .addContact) :
    (g.addContact req.body).wp (g.beside req) (OnSuccess (addTells req)) [] := by
  refine wp_withRoot onSuccess_none (onSuccess_failure (by decide)) fun root hbody => ?_
  refine wp_withContactUid fun contact _ => ?_
  refine wp_authorised hbody fun token deviceId uid known hin => ?_
  refine Prog.wp_ite (fun _ => wp_fail (by decide)) fun _ => ?_
  refine Prog.wp_seq (wp_withContact (T := fun c known => Told known (.addContact uid c) true) fun hne =>
    wp_tell ⟨hroute, hne, token, deviceId, hin⟩ fun added known' hle htold => ⟨hle, fun hadded => hadded ▸ htold⟩)
    fun added known' h => ?_
  obtain ⟨hle, hadded⟩ := h
  refine Prog.wp_ite (fun _ => wp_fail (by decide)) fun hok => ?_
  have htold := hadded (by simpa using hok)
  refine Prog.wp_seq wp_userInfoByUid fun info known'' h => ?_
  obtain ⟨hle', hinfo⟩ := h
  cases info with
  | none => exact wp_fail (by decide)
  | some user =>
    refine Prog.wp_seq wp_statusOf fun status known₃ hle'' => ?_
    have hprefix := hle'.trans hle''
    exact onSuccess_success ⟨token, deviceId, uid, contact.toNat, user, status, hin.mono (hle.trans hprefix),
      htold.mono hprefix, (hinfo user rfl).mono hle'', rfl⟩

theorem wp_deleteContact (hroute : req.route = .deleteContact) :
    (g.deleteContact req.body).wp (g.beside req) (OnSuccess (deleteTells req)) [] := by
  refine wp_withRoot onSuccess_none (onSuccess_failure (by decide)) fun root hbody => ?_
  refine wp_withContactUid fun contact hpos => ?_
  refine wp_authorised hbody fun token deviceId uid known hin => ?_
  refine Prog.wp_seq (wp_withContact (T := fun c known => Told known (.deleteContact uid c) true) fun hne =>
    wp_tell ⟨hroute, hne, token, deviceId, hin⟩ fun deleted known' hle htold => ⟨hle, fun hdeleted => hdeleted ▸ htold⟩)
    fun deleted known' h => ?_
  obtain ⟨hle, hdeleted⟩ := h
  refine Prog.wp_ite (fun _ => wp_fail (by decide)) fun hok => ?_
  have hcontact : (contact.toNat : Int) = contact := Int.toNat_of_nonneg hpos
  exact onSuccess_success ⟨token, deviceId, uid, contact.toNat, hin.mono hle, hdeleted (by simpa using hok), hcontact ▸ rfl⟩

theorem wp_searchContacts : (g.searchContacts req.body).wp (g.beside req) (OnSuccess (searchTells req)) [] := by
  refine wp_withRoot onSuccess_none (onSuccess_failure (by decide)) fun root hbody => ?_
  refine wp_authorised hbody fun token deviceId uid known hin => ?_
  refine wp_orThrow onSuccess_none fun email _ => ?_
  refine Prog.wp_ite (fun _ => wp_fail (by decide)) fun _ => ?_
  refine wp_tell trivial fun info known' hle htold => ?_
  cases info with
  | none => exact wp_fail (by decide)
  | some user => exact onSuccess_success ⟨token, deviceId, uid, email, user, hin.mono hle, htold, rfl⟩

/-- The client is told the code; nothing is written. -/
theorem wp_getVarifyCode : (g.getVarifyCode req.body).wp (g.beside req) (fun _ _ => True) [] :=
  wp_withRoot trivial trivial fun _ _ => wp_orThrow trivial fun _ _ => wp_orThrow trivial fun _ _ =>
    wp_tell trivial fun _ _ _ _ => trivial

end

/-- Every handler does only what it may, and a response tells what it should. -/
theorem wp_handler (req : Request) : (g.handler req).wp (g.beside req) (post req) [] := by
  obtain ⟨route, body⟩ := req
  cases route with
  | getVarifyCode => exact wp_getVarifyCode
  | registerUser => exact wp_registerUser rfl
  | loginUser => exact wp_loginUser rfl
  | resetPwd => exact wp_resetPwd rfl
  | getContacts => exact wp_getContacts
  | searchContacts => exact wp_searchContacts
  | addContact => exact wp_addContact rfl
  | deleteContact => exact wp_deleteContact rfl

end Gate

/-! ## One handler alone

`registerUser` and `resetPwd` of the module `LogicSystem` are the handlers as one of them sees the world: run by itself,
with the answers fixed, a handler here responds the same. -/

/-- The body of the response. -/
def Handled.response (h : Handled) : Response :=
  some (("error", .int h.error.toInt) :: (h.email.toList.map fun email => ("email", .str email)) ++
    (h.uid.toList.map fun uid => ("uid", .int uid)) ++ h.username.toList.map fun username => ("username", .str username))

def RegisterUserRequest.payload (request : RegisterUserRequest) : Payload :=
  .value (.obj [("UserData", .obj [("username", .str request.username), ("email", .str request.email),
    ("password", .str request.password)]), ("VarifyCode", .str request.varifyCode), ("Comfirm", .str request.comfirm)])

def ResetPwdRequest.payload (request : ResetPwdRequest) : Payload :=
  .value (.obj [("email", .str request.email), ("VarifyCode", .str request.varifyCode), ("password", .str request.password),
    ("confirm", .str request.confirm)])

section Alone

variable {g : Gate} {get : String → Option String}

/-- The result of a program when every call has its answer. -/
def result {α : Type} (answers : (c : Call) → c.Res) (p : Prog calls α) : α := (p.run (fun c u => (answers c, u)) ()).1

theorem result_call {α : Type} (answers : (c : Call) → c.Res) (c : Call) (k : c.Res → Prog calls α) :
    result answers (.call c k) = result answers (k (answers c)) :=
  rfl

theorem result_bind {α β : Type} (answers : (c : Call) → c.Res) (p : Prog calls α) (f : α → Prog calls β) :
    result answers (p.bind f) = result answers (f (result answers p)) := by
  rw [result, Prog.run_bind]
  rfl

theorem registerUser_alone (answers : (c : Call) → c.Res) (hget : ∀ email, get ("code_" ++ email) = answers (.getCode email))
    (request : RegisterUserRequest) :
    result answers (g.registerUser request.payload) =
      (GateServer.registerUser get (fun password => result answers (g.hashPassword password))
        (fun username email hash => result answers (Gate.registerUserInDb username email hash)) (some request)).response := by
  show result answers (if request.comfirm ≠ request.password then _ else Prog.call (.getCode request.email) _) = _
  unfold GateServer.registerUser
  dsimp only
  split
  · rfl
  · rw [hget]
    refine (result_call answers (.getCode request.email) _).trans ?_
    generalize (answers (.getCode request.email) : Option String) = stored
    cases stored with
    | none => rfl
    | some varifyCode =>
      dsimp only
      split
      · rfl
      · rw [result_bind, result_bind]
        split
        · rfl
        · split <;> rfl

theorem resetPwd_alone (answers : (c : Call) → c.Res) (hget : ∀ email, get ("code_" ++ email) = answers (.getCode email))
    (request : ResetPwdRequest) :
    result answers (g.resetPwd request.payload) =
      (GateServer.resetPwd get (fun password => result answers (g.hashPassword password))
        (fun email hash => answers (.updatePwd email hash)) (some request)).response := by
  show result answers (if request.confirm ≠ request.password then _ else Prog.call (.getCode request.email) _) = _
  unfold GateServer.resetPwd
  dsimp only
  split
  · rfl
  · rw [hget]
    refine (result_call answers (.getCode request.email) _).trans ?_
    generalize (answers (.getCode request.email) : Option String) = stored
    cases stored with
    | none => rfl
    | some varifyCode =>
      dsimp only
      split
      · rfl
      · rw [result_bind]
        refine (result_call answers (.updatePwd request.email _) _).trans ?_
        have hupdated (updated : Bool) (database : Option DatabaseCall) :
            result answers (if !updated then fail (.handled .password) else succeed [("email", .str request.email)]) =
              (if updated then { error := .success, email := some request.email, database }
                else { error := .password, database } : Handled).response := by
          cases updated <;> rfl
        exact hupdated _ _

end Alone

end SyncRtc.GateServer
