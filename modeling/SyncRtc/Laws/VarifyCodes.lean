import Mathlib.Algebra.Group.Nat.Defs
import SyncRtc.Lib.Transition
import SyncRtc.VarifyServer.Server

/-!
# A code is good for ten minutes

What a code promises whoever it was mailed to: it is accepted for its address, for ten minutes and no
longer, and nobody else is mailed another one meanwhile. VarifyServer keeps this promise as long as no
code is stored over another one and every code that is stored gets its time at once.
-/

set_option autoImplicit false

namespace SyncRtc.VarifyServer

open GateServer (registerUser resetPwd RegisterUserRequest ResetPwdRequest)

/-- Ten minutes, the time a code is given. -/
abbrev validity : Nat := 600 * 1000

/-- GateServer gets to its database with the code, registering under the address or resetting its
password. -/
def Accepted (s : Service) (email code : String) : Prop :=
  ∃ reachable hashPassword,
    (∃ register request, request.email = email ∧ request.varifyCode = code ∧
      (registerUser (s.reading reachable) hashPassword register (some request)).database ≠ none) ∨
    (∃ updatePwd request, request.email = email ∧ request.varifyCode = code ∧
      (resetPwd (s.reading reachable) hashPassword updatePwd (some request)).database ≠ none)

/-- Whoever asks with the code, and with a password typed twice alike, gets to the database. -/
def Honoured (s : Service) (email code : String) : Prop :=
  (∀ hashPassword register (request : RegisterUserRequest), request.email = email → request.varifyCode = code →
    request.comfirm = request.password →
    (registerUser (s.reading true) hashPassword register (some request)).database ≠ none) ∧
  (∀ hashPassword updatePwd (request : ResetPwdRequest), request.email = email → request.varifyCode = code →
    request.confirm = request.password →
    (resetPwd (s.reading true) hashPassword updatePwd (some request)).database ≠ none)

/-- What the codes promise, when up to `gap` milliseconds pass between storing one and limiting it. -/
structure Promised (gap : Nat) (s : Service) : Prop where
  /-- A code is accepted only for the address it was stored for, and for ten minutes. -/
  accepted : ∀ email code, Accepted s email code →
    ∃ st ∈ s.stored, st.email = email ∧ st.code = code ∧ s.now ≤ st.storedAt + validity + gap
  /-- While a code is valid, nobody is told another one. -/
  agreed : ∀ a ∈ s.answers, a.rsp.error = .success → ∀ code, a.valid = some code → a.rsp.code = code
  /-- A code that was mailed is accepted for its ten minutes. -/
  honoured : ∀ a ∈ s.answers, a.rsp.error = .success →
    (∃ st ∈ s.stored, st.email = a.rsp.email ∧ st.code = a.rsp.code) ∧
      ∀ st ∈ s.stored, st.email = a.rsp.email → st.code = a.rsp.code → s.now ≤ st.storedAt + validity →
        Honoured s a.rsp.email a.rsp.code
  /-- A code without a limit is one whose request is about to limit it, and has not answered. -/
  limited : ∀ email code, s.redis (redisKey email) = some ⟨code, none⟩ →
    ∃ r ∈ s.requests, r.email = email ∧ r.await = .expire code

/-- The request has stored a code, or found one, and has not answered yet. -/
def Request.Holds (r : Request) : Prop := ∃ code, r.await = .expire code ∨ r.await = .sendMail code

/-- A code is stored where there is none, and while nobody else is about to report one; `expire` runs
whenever `set` did, within `gap` milliseconds. -/
def Careful (gap : Nat) (s : Service) : Event → Prop
  | .call _ => True
  | .resume i outcome _ => ∀ r ∈ s.requests[i]?,
      match r.await with
      | .set _ => outcome.ran = true →
          outcome = .answered ∧ s.code r.email = none ∧ ∀ r' ∈ s.requests, r'.email = r.email → ¬ r'.Holds
      | .expire _ => outcome.ran = true
      | _ => True
  | .crash => ∀ r ∈ s.requests, ∀ code, r.await ≠ .expire code
  | .tick time => ∀ r ∈ s.requests, ∀ code, r.await = .expire code → s.now + time ≤ r.setAt + gap

/-- What is kept by every careful step. -/
structure Kept (gap : Nat) (s : Service) : Prop where
  past : ∀ st ∈ s.stored, st.storedAt ≤ s.now
  /-- What is under a key was stored for its address, and is limited unless its request is about to. -/
  entry : ∀ email code x?, s.redis (redisKey email) = some ⟨code, x?⟩ →
    ∃ t, ⟨email, code, t⟩ ∈ s.stored ∧ (∀ x ∈ x?, x ≤ t + validity + gap) ∧
      (x? = none → ∃ i : Nat, ∃ r : Request, s.requests[i]? = some r ∧ r.email = email ∧ r.await = .expire code ∧ r.setAt = t)
  /-- What was stored stays for its ten minutes. -/
  lasting : ∀ st ∈ s.stored, s.now ≤ st.storedAt + validity →
    ∃ x?, s.redis (redisKey st.email) = some ⟨st.code, x?⟩ ∧ ∀ x ∈ x?, st.storedAt + validity ≤ x
  expiring : ∀ (i : Nat) (r : Request) code, s.requests[i]? = some r → r.await = .expire code →
    s.redis (redisKey r.email) = some ⟨code, none⟩ ∧ ⟨r.email, code, r.setAt⟩ ∈ s.stored ∧ s.now ≤ r.setAt + gap
  alone : ∀ (i j : Nat) (r r' : Request) code code', s.requests[i]? = some r → s.requests[j]? = some r' → r.email = r'.email →
    r.await = .expire code → r'.await = .expire code' → i = j
  mailing : ∀ (i : Nat) (r : Request) code, s.requests[i]? = some r → r.await = .sendMail code →
    (∃ t, ⟨r.email, code, t⟩ ∈ s.stored) ∧ ∀ d, s.code r.email = some d → code = d
  answered : ∀ a ∈ s.answers, a.rsp.error = .success →
    (∃ t, ⟨a.rsp.email, a.rsp.code, t⟩ ∈ s.stored) ∧ ∀ d, a.valid = some d → a.rsp.code = d

variable {gap : Nat} {s s' : Service}

theorem redisKey_injective {email email' : String} (h : redisKey email = redisKey email') : email = email' := by
  have h' := congrArg String.toList h
  rw [redisKey, redisKey, String.toList_append, String.toList_append] at h'
  exact String.toList_injective (List.append_cancel_left h')

theorem redisKey_ne {email email' : String} (h : email ≠ email') : redisKey email ≠ redisKey email' :=
  fun he => h (redisKey_injective he)

/-! ## Accepting -/

theorem reading_eq_some {reachable : Bool} {key v : String} (h : s.reading reachable key = some v) :
    s.redis.get s.now key = some v := by
  unfold Service.reading at h
  split at h
  · exact h
  · cases h

/-- GateServer accepts what is under the key of the address, and nothing else. -/
theorem code_of_accepted {email code : String} (h : Accepted s email code) : s.code email = some code := by
  obtain ⟨reachable, hashPassword, ⟨register, request, rfl, rfl, hdb⟩ | ⟨updatePwd, request, rfl, rfl, hdb⟩⟩ := h
  · exact reading_eq_some ((GateServer.registerUser_database register request).mp hdb).2
  · exact reading_eq_some ((GateServer.resetPwd_database updatePwd request).mp hdb).2

theorem honoured_of_code {email code : String} (h : s.code email = some code) : Honoured s email code := by
  constructor
  · rintro hashPassword register request rfl rfl hsame
    exact (GateServer.registerUser_database register request).mpr ⟨hsame, h⟩
  · rintro hashPassword updatePwd request rfl rfl hsame
    exact (GateServer.resetPwd_database updatePwd request).mpr ⟨hsame, h⟩

namespace Kept

theorem code_of_stored (hk : Kept gap s) {st : Stored} (hst : st ∈ s.stored) (hnow : s.now ≤ st.storedAt + validity) :
    s.code st.email = some st.code := by
  obtain ⟨x?, hentry, hx⟩ := hk.lasting st hst hnow
  exact Expiring.get_eq_some.mpr ⟨x?, hentry, fun x hmem => Nat.le_trans hnow (hx x hmem)⟩

theorem stored_of_code (hk : Kept gap s) {email code : String} (h : s.code email = some code) :
    ∃ t, ⟨email, code, t⟩ ∈ s.stored ∧ s.now ≤ t + validity + gap := by
  obtain ⟨x?, hentry, hlive⟩ := Expiring.get_eq_some.mp h
  obtain ⟨t, hst, hx, hnone⟩ := hk.entry email code x? hentry
  refine ⟨t, hst, ?_⟩
  cases x? with
  | some x => exact Nat.le_trans (hlive x rfl) (hx x rfl)
  | none =>
    obtain ⟨i, r, hr, rfl, hawait, rfl⟩ := hnone rfl
    have hgap := (hk.expiring i r code hr hawait).2.2
    omega

/-- What is kept is what was promised. -/
theorem promised (hk : Kept gap s) : Promised gap s where
  accepted email code h := by
    obtain ⟨t, hst, hnow⟩ := hk.stored_of_code (code_of_accepted h)
    exact ⟨_, hst, rfl, rfl, hnow⟩
  agreed a ha hsuccess code hvalid := (hk.answered a ha hsuccess).2 code hvalid
  honoured a ha hsuccess := by
    obtain ⟨t, ht⟩ := (hk.answered a ha hsuccess).1
    refine ⟨⟨_, ht, rfl, rfl⟩, ?_⟩
    intro st hst hemail hcode hnow
    have h := hk.code_of_stored hst hnow
    rw [hemail, hcode] at h
    exact honoured_of_code h
  limited email code h := by
    obtain ⟨t, -, -, hnone⟩ := hk.entry email code none h
    obtain ⟨i, r, hr, hemail, hawait, -⟩ := hnone rfl
    exact ⟨r, List.mem_of_getElem? hr, hemail, hawait⟩

/-! ## The steps -/

section
variable {i j : Nat} {r r' q : Request}

theorem requests_setRequest (h : (s.setRequest i r').requests[j]? = some q) :
    (j = i ∧ q = r') ∨ (j ≠ i ∧ s.requests[j]? = some q) := by
  rw [Service.setRequest, List.getElem?_set] at h
  split at h
  next heq =>
    split at h
    · exact .inl ⟨heq.symm, (Option.some.inj h).symm⟩
    · cases h
  next hne => exact .inr ⟨Ne.symm hne, h⟩

theorem requests_setRequest_self (hr : s.requests[i]? = some r) : (s.setRequest i r').requests[i]? = some r' := by
  obtain ⟨hlt, -⟩ := List.getElem?_eq_some_iff.mp hr
  rw [Service.setRequest, List.getElem?_set_self hlt]

theorem requests_setRequest_of_ne (hne : j ≠ i) : (s.setRequest i r').requests[j]? = s.requests[j]? :=
  List.getElem?_set_ne (Ne.symm hne)

/-- A request that neither was about to limit a code nor comes to be. -/
theorem setRequest (hk : Kept gap s) (hr : s.requests[i]? = some r)
    (hold : ∀ code, r.await ≠ .expire code) (hnew : ∀ code, r'.await ≠ .expire code)
    (hmail : ∀ code, r'.await = .sendMail code →
      (∃ t, ⟨r'.email, code, t⟩ ∈ s.stored) ∧ ∀ d, s.code r'.email = some d → code = d) :
    Kept gap (s.setRequest i r') where
  past := hk.past
  entry email code x? h := by
    obtain ⟨t, hst, hx, hnone⟩ := hk.entry email code x? h
    refine ⟨t, hst, hx, fun hx? => ?_⟩
    obtain ⟨j, q, hq, hemail, hawait, hat⟩ := hnone hx?
    have hne : j ≠ i := by
      rintro rfl
      cases hr.symm.trans hq
      exact hold code hawait
    exact ⟨j, q, (requests_setRequest_of_ne hne).trans hq, hemail, hawait, hat⟩
  lasting := hk.lasting
  expiring j q code hq hawait := by
    rcases requests_setRequest hq with ⟨rfl, rfl⟩ | ⟨-, hq⟩
    · exact absurd hawait (hnew code)
    · exact hk.expiring j q code hq hawait
  alone j j' q q' code code' hq hq' hemail hawait hawait' := by
    rcases requests_setRequest hq with ⟨rfl, rfl⟩ | ⟨-, hq⟩
    · exact absurd hawait (hnew code)
    · rcases requests_setRequest hq' with ⟨rfl, rfl⟩ | ⟨-, hq'⟩
      · exact absurd hawait' (hnew code')
      · exact hk.alone j j' q q' code code' hq hq' hemail hawait hawait'
  mailing j q code hq hawait := by
    rcases requests_setRequest hq with ⟨rfl, rfl⟩ | ⟨-, hq⟩
    · exact hmail code hawait
    · exact hk.mailing j q code hq hawait
  answered := hk.answered

theorem answer (hk : Kept gap s) {rsp : GetVarifyRsp}
    (hrsp : rsp.error = .success →
      (∃ t, ⟨rsp.email, rsp.code, t⟩ ∈ s.stored) ∧ ∀ d, s.code rsp.email = some d → rsp.code = d) :
    Kept gap (s.answer rsp) where
  past := hk.past
  entry := hk.entry
  lasting := hk.lasting
  expiring := hk.expiring
  alone := hk.alone
  mailing := hk.mailing
  answered a ha hsuccess := by
    rcases List.mem_cons.mp ha with rfl | ha
    · exact hrsp hsuccess
    · exact hk.answered a ha hsuccess

theorem code_runSet_of_ne {email email' code : String} (h : email' ≠ email) :
    (s.runSet email code).code email' = s.code email' :=
  Expiring.get_set_of_ne (redisKey_ne h)

/-- A code is stored where there is none. -/
theorem runSet (hk : Kept gap s) {code : String} (hr : s.requests[i]? = some r)
    (hnone : s.code r.email = none) (hfree : ∀ q ∈ s.requests, q.email = r.email → ¬ q.Holds) :
    Kept gap ((s.runSet r.email code).setRequest i { r with await := .expire code, setAt := s.now }) := by
  have hothers : ∀ (j : Nat) (q : Request), s.requests[j]? = some q → ∀ code, q.await = .expire code ∨ q.await = .sendMail code →
      q.email ≠ r.email :=
    fun j q hq code hcode hemail => hfree q (List.mem_of_getElem? hq) hemail ⟨code, hcode⟩
  refine ⟨?past, ?entry, ?lasting, ?expiring, ?alone, ?mailing, ?answered⟩
  case past =>
    intro st hst
    rcases List.mem_cons.mp hst with rfl | hst
    · exact Nat.le_refl _
    · exact hk.past st hst
  case entry =>
    intro email code' x? h
    by_cases hemail : email = r.email
    · subst hemail
      cases Expiring.set_self.symm.trans h
      exact ⟨s.now, List.mem_cons_self, nofun, fun _ => ⟨i, _, requests_setRequest_self hr, rfl, rfl, rfl⟩⟩
    · obtain ⟨t, hst, hx, hlimit⟩ := hk.entry email code' x? ((Expiring.set_of_ne (redisKey_ne hemail)).symm.trans h)
      refine ⟨t, List.mem_cons_of_mem _ hst, hx, fun hx? => ?_⟩
      obtain ⟨j, q, hq, hqemail, hqawait, hat⟩ := hlimit hx?
      have hne : j ≠ i := by
        rintro rfl
        cases hr.symm.trans hq
        exact hemail hqemail.symm
      exact ⟨j, q, (requests_setRequest_of_ne hne).trans hq, hqemail, hqawait, hat⟩
  case lasting =>
    intro st hst hnow
    rcases List.mem_cons.mp hst with rfl | hst
    · exact ⟨none, Expiring.set_self, nofun⟩
    · have hcode := hk.code_of_stored hst hnow
      have hne : st.email ≠ r.email := by
        intro he
        rw [he, hnone] at hcode
        cases hcode
      obtain ⟨x?, hentry, hx⟩ := hk.lasting st hst hnow
      exact ⟨x?, (Expiring.set_of_ne (redisKey_ne hne)).trans hentry, hx⟩
  case expiring =>
    intro j q code' hq hq'
    rcases requests_setRequest hq with ⟨rfl, rfl⟩ | ⟨-, hq⟩
    · cases hq'
      exact ⟨Expiring.set_self, List.mem_cons_self, Nat.le_add_right _ _⟩
    · obtain ⟨hentry, hst, hgap⟩ := hk.expiring j q code' hq hq'
      have hne := hothers j q hq code' (.inl hq')
      exact ⟨(Expiring.set_of_ne (redisKey_ne hne)).trans hentry, List.mem_cons_of_mem _ hst, hgap⟩
  case alone =>
    intro j j' q q' c c' hq hq' hemail hc hc'
    rcases requests_setRequest hq with ⟨rfl, rfl⟩ | ⟨-, hold⟩
    · rcases requests_setRequest hq' with ⟨rfl, -⟩ | ⟨-, hold'⟩
      · rfl
      · exact absurd hemail.symm (hothers j' q' hold' c' (.inl hc'))
    · rcases requests_setRequest hq' with ⟨rfl, rfl⟩ | ⟨-, hold'⟩
      · exact absurd hemail (hothers j q hold c (.inl hc))
      · exact hk.alone j j' q q' c c' hold hold' hemail hc hc'
  case mailing =>
    intro j q c hq hc
    rcases requests_setRequest hq with ⟨rfl, rfl⟩ | ⟨-, hq⟩
    · cases hc
    · obtain ⟨⟨t, ht⟩, hsame⟩ := hk.mailing j q c hq hc
      refine ⟨⟨t, List.mem_cons_of_mem _ ht⟩, fun d hd => hsame d ?_⟩
      exact (code_runSet_of_ne (hothers j q hq c (.inr hc))).symm.trans hd
  case answered =>
    intro a ha hsuccess
    obtain ⟨⟨t, ht⟩, hsame⟩ := hk.answered a ha hsuccess
    exact ⟨⟨t, List.mem_cons_of_mem _ ht⟩, hsame⟩

/-- A code that is there keeps being there when it is limited. -/
theorem code_runExpire {email code : String} (h : s.redis (redisKey email) = some ⟨code, none⟩) (email' : String) :
    (s.runExpire email).code email' = s.code email' := by
  by_cases he : email' = email
  · subst he
    have hold : s.code email' = some code := Expiring.get_eq_some.mpr ⟨none, h, nofun⟩
    rw [hold]
    refine Expiring.get_eq_some.mpr ⟨_, Expiring.expire_self h _, fun x hx => ?_⟩
    cases hx
    exact Nat.le_add_right _ _
  · exact Expiring.get_expire_of_ne (redisKey_ne he) _

/-- The code a request has stored gets its time. -/
theorem runExpire (hk : Kept gap s) {code : String} (hr : s.requests[i]? = some r) (hawait : r.await = .expire code)
    (hemail : r'.email = r.email) (hnew : ∀ code, r'.await ≠ .expire code)
    (hmail : ∀ code', r'.await = .sendMail code' → code' = code) :
    Kept gap ((s.runExpire r.email).setRequest i r') := by
  obtain ⟨hmine, hstored, hgap⟩ := hk.expiring i r code hr hawait
  have hothers : ∀ (j : Nat) (q : Request), j ≠ i → s.requests[j]? = some q → ∀ code, q.await = .expire code → q.email ≠ r.email :=
    fun j q hne hq code' hq' he => hne (hk.alone j i q r code' code hq hr he hq' hawait)
  have hcode : s.code r.email = some code := Expiring.get_eq_some.mpr ⟨none, hmine, nofun⟩
  refine ⟨hk.past, ?entry, ?lasting, ?expiring, ?alone, ?mailing, hk.answered⟩
  case entry =>
    intro email code' x? h
    by_cases he : email = r.email
    · subst he
      cases (Expiring.expire_self hmine _).symm.trans h
      refine ⟨r.setAt, hstored, fun x hx => ?_, nofun⟩
      cases hx
      have hlate : s.now + validity ≤ r.setAt + validity + gap := by omega
      exact hlate
    · obtain ⟨t, hst, hx, hlimit⟩ := hk.entry email code' x? ((Expiring.expire_of_ne (redisKey_ne he) _).symm.trans h)
      refine ⟨t, hst, hx, fun hx? => ?_⟩
      obtain ⟨j, q, hq, hqemail, hqawait, hat⟩ := hlimit hx?
      have hne : j ≠ i := by
        rintro rfl
        cases hr.symm.trans hq
        exact he hqemail.symm
      exact ⟨j, q, (requests_setRequest_of_ne hne).trans hq, hqemail, hqawait, hat⟩
  case lasting =>
    intro st hst hnow
    obtain ⟨x?, hentry, hx⟩ := hk.lasting st hst hnow
    by_cases he : st.email = r.email
    · rw [he] at hentry ⊢
      cases hmine.symm.trans hentry
      refine ⟨_, Expiring.expire_self hmine _, fun x hx => ?_⟩
      cases hx
      exact Nat.add_le_add_right (hk.past st hst) _
    · exact ⟨x?, (Expiring.expire_of_ne (redisKey_ne he) _).trans hentry, hx⟩
  case expiring =>
    intro j q code' hq hq'
    rcases requests_setRequest hq with ⟨rfl, rfl⟩ | ⟨hne, hq⟩
    · exact absurd hq' (hnew code')
    · obtain ⟨hentry, hst, hgap'⟩ := hk.expiring j q code' hq hq'
      exact ⟨(Expiring.expire_of_ne (redisKey_ne (hothers j q hne hq code' hq')) _).trans hentry, hst, hgap'⟩
  case alone =>
    intro j j' q q' c c' hq hq' he hc hc'
    rcases requests_setRequest hq with ⟨rfl, rfl⟩ | ⟨-, hq⟩
    · exact absurd hc (hnew c)
    · rcases requests_setRequest hq' with ⟨rfl, rfl⟩ | ⟨-, hq'⟩
      · exact absurd hc' (hnew c')
      · exact hk.alone j j' q q' c c' hq hq' he hc hc'
  case mailing =>
    intro j q c hq hc
    have hsame : ∀ d, ((s.runExpire r.email).setRequest i r').code q.email = some d → s.code q.email = some d :=
      fun d hd => (code_runExpire hmine q.email).symm.trans hd
    rcases requests_setRequest hq with ⟨rfl, rfl⟩ | ⟨-, hq⟩
    · cases hmail c hc
      rw [hemail] at hsame ⊢
      exact ⟨⟨_, hstored⟩, fun d hd => Option.some.inj (hcode.symm.trans (hsame d hd))⟩
    · obtain ⟨ht, hagree⟩ := hk.mailing j q c hq hc
      exact ⟨ht, fun d hd => hagree d (hsame d hd)⟩

end

theorem call (hk : Kept gap s) (email : String) : Kept gap { s with requests := s.requests ++ [{ email := email }] } := by
  have hfresh : ∀ (j : Nat) (q : Request), (s.requests ++ [{ email := email }])[j]? = some q →
      s.requests[j]? = some q ∨ q.await = .get := by
    intro j q hq
    rw [List.getElem?_append] at hq
    split at hq
    · exact .inl hq
    · rw [List.mem_singleton.mp (List.mem_of_getElem? hq)]
      exact .inr rfl
  refine ⟨hk.past, ?entry, hk.lasting, ?expiring, ?alone, ?mailing, hk.answered⟩
  case entry =>
    intro email' code x? h
    obtain ⟨t, hst, hx, hnone⟩ := hk.entry email' code x? h
    refine ⟨t, hst, hx, fun hx? => ?_⟩
    obtain ⟨j, q, hq, hrest⟩ := hnone hx?
    obtain ⟨hlt, -⟩ := List.getElem?_eq_some_iff.mp hq
    exact ⟨j, q, (List.getElem?_append_left hlt).trans hq, hrest⟩
  case expiring =>
    intro j q code hq hawait
    rcases hfresh j q hq with hq | hget
    · exact hk.expiring j q code hq hawait
    · cases hget.symm.trans hawait
  case alone =>
    intro j j' q q' c c' hq hq' hemail hc hc'
    rcases hfresh j q hq with hq | hget
    · rcases hfresh j' q' hq' with hq' | hget
      · exact hk.alone j j' q q' c c' hq hq' hemail hc hc'
      · cases hget.symm.trans hc'
    · cases hget.symm.trans hc
  case mailing =>
    intro j q code hq hawait
    rcases hfresh j q hq with hq | hget
    · exact hk.mailing j q code hq hawait
    · cases hget.symm.trans hawait

theorem crash (hk : Kept gap s) (hnone : ∀ r ∈ s.requests, ∀ code, r.await ≠ .expire code) :
    Kept gap { s with requests := [] } where
  past := hk.past
  entry email code x? h := by
    obtain ⟨t, hst, hx, hlimit⟩ := hk.entry email code x? h
    refine ⟨t, hst, hx, fun hx? => ?_⟩
    obtain ⟨j, q, hq, -, hawait, -⟩ := hlimit hx?
    exact absurd hawait (hnone q (List.mem_of_getElem? hq) code)
  lasting := hk.lasting
  expiring := nofun
  alone := nofun
  mailing := nofun
  answered := hk.answered

theorem tick (hk : Kept gap s) {time : Nat}
    (hsoon : ∀ r ∈ s.requests, ∀ code, r.await = .expire code → s.now + time ≤ r.setAt + gap) :
    Kept gap { s with now := s.now + time } where
  past st hst := Nat.le_add_right_of_le (hk.past st hst)
  entry := hk.entry
  lasting st hst hnow := hk.lasting st hst (Nat.le_trans (Nat.le_add_right _ _) hnow)
  expiring j q code hq hawait := by
    obtain ⟨hentry, hst, -⟩ := hk.expiring j q code hq hawait
    exact ⟨hentry, hst, hsoon q (List.mem_of_getElem? hq) code hawait⟩
  alone := hk.alone
  mailing j q code hq hawait := by
    obtain ⟨hst, hsame⟩ := hk.mailing j q code hq hawait
    exact ⟨hst, fun d hd => hsame d (Expiring.get_earlier hd (Nat.le_add_right _ _))⟩
  answered := hk.answered

/-- A request that goes on keeps what is kept. -/
theorem resume (hk : Kept gap s) {i : Nat} {r : Request} {outcome : Outcome} {uuid : String}
    (hr : s.requests[i]? = some r) (hok : Careful gap s (.resume i outcome uuid))
    (hstep : s.resume i r outcome uuid = some s') : Kept gap s' := by
  have hcare := hok r hr
  unfold Service.resume at hstep
  cases hawait : r.await with
  | get =>
    rw [hawait] at hstep
    cases hstep
    have hold : ∀ code, r.await ≠ .expire code := fun code h => nomatch hawait.symm.trans h
    unfold Request.afterGet
    split
    next code hexisting =>
      have hcode : s.code r.email = some code := by
        split at hexisting
        · exact hexisting
        · cases hexisting
      refine setRequest hk hr hold nofun fun code' h => ?_
      cases h
      obtain ⟨t, hst, -⟩ := hk.stored_of_code hcode
      exact ⟨⟨t, hst⟩, fun d hd => Option.some.inj (hcode.symm.trans hd)⟩
    next => exact setRequest hk hr hold nofun nofun
  | set code =>
    rw [hawait] at hstep hcare
    cases hstep
    cases outcome with
    | answered =>
      obtain ⟨-, hnone, hfree⟩ := hcare rfl
      exact runSet hk hr hnone hfree
    | lost => cases (hcare rfl).1
    | refused =>
      have hold : ∀ code, r.await ≠ .expire code := fun code h => nomatch hawait.symm.trans h
      exact setRequest (answer hk nofun) hr hold nofun nofun
  | expire code =>
    rw [hawait] at hstep hcare
    cases hstep
    cases outcome with
    | answered =>
      refine runExpire hk hr hawait rfl nofun fun code' h => ?_
      cases h
      rfl
    | lost =>
      have hlimited : Kept gap ((s.runExpire r.email).setRequest i { r with await := .returned ⟨r.email, .redisErr, ""⟩ }) :=
        runExpire hk hr hawait rfl nofun nofun
      exact answer hlimited nofun
    | refused => cases hcare
  | sendMail code =>
    rw [hawait] at hstep
    cases hstep
    have hold : ∀ code, r.await ≠ .expire code := fun code h => nomatch hawait.symm.trans h
    refine setRequest (answer hk fun hsuccess => ?_) hr hold nofun nofun
    unfold Request.response at hsuccess ⊢
    split
    next => exact hk.mailing i r code hr hawait
    next hno =>
      rw [if_neg hno] at hsuccess
      cases hsuccess
  | returned rsp =>
    rw [hawait] at hstep
    cases hstep

theorem step (hk : Kept gap s) {e : Event} (hok : Careful gap s e) (hstep : s.step e = some s') : Kept gap s' := by
  cases e with
  | call email =>
    cases hstep
    exact call hk email
  | resume i outcome uuid =>
    obtain ⟨r, hr, hresume⟩ := Option.bind_eq_some_iff.mp hstep
    exact resume hk hr hok hresume
  | crash =>
    cases hstep
    exact crash hk hok
  | tick time =>
    cases hstep
    exact tick hk hok

theorem start : Kept gap {} := ⟨nofun, nofun, nofun, nofun, nofun, nofun, nofun⟩

end Kept

/-- **The promise is kept** in every run that stores and limits its codes with care, however the requests
interleave and whichever of the other commands fail. -/
theorem promised_of_reachable (h : Reach Service.step (Careful gap) {} s) : Promised gap s :=
  (h.invariant Kept.start fun _ _ _ hk hok hstep => hk.step hok hstep).promised

/-- A code looked up, made, stored, limited and mailed, and ten minutes later it is still good. -/
theorem promised_once :
    ∃ s, Promised 0 s ∧ s.now = validity ∧ s.answers = [⟨⟨"a", .success, "1f0c"⟩, some "1f0c"⟩] ∧
      s.code "a" = some "1f0c" := by
  have hcalled : Reach Service.step (Careful 0) {} { requests := [{ email := "a" }] } :=
    .next (e := .call "a") .start trivial rfl
  have hmade := hcalled.next (e := .resume 0 .answered "1f0c9") (by rintro _ ⟨⟩; trivial) rfl
  have hstored := hmade.next (e := .resume 0 .answered "")
    (by rintro _ ⟨⟩ -; exact ⟨rfl, rfl, by rintro _ (_ | ⟨_, ⟨⟩⟩) - ⟨_, h | h⟩ <;> cases h⟩) rfl
  have hlimited := hstored.next (e := .resume 0 .answered "") (by rintro _ ⟨⟩; rfl) rfl
  have hmailed := hlimited.next (e := .resume 0 .answered "") (by rintro _ ⟨⟩; trivial) rfl
  have hlater := hmailed.next (e := .tick validity) (by rintro _ (_ | ⟨_, ⟨⟩⟩) _ ⟨⟩) rfl
  exact ⟨_, promised_of_reachable hlater, rfl, rfl, rfl⟩

/-- Take every event of a list. -/
def Service.run (s : Service) (events : List Event) : Option Service := events.foldlM Service.step s

theorem reach_run (events : List Event) (h : s.run events = some s') : Reach Service.step (fun _ _ => True) s s' := by
  induction events generalizing s with
  | nil =>
    cases h
    exact .start
  | cons e events ih =>
    obtain ⟨s₁, hstep, hrest⟩ := Option.bind_eq_some_iff.mp h
    exact (Reach.start.next trivial hstep).trans (ih hrest)

/-- Two requests look at once and find nothing: both are told their own code, and the first is overwritten.
And where `expire` fails, the error leaves a code behind that is good for ever. -/
theorem promise_broken :
    (∃ s, Reach Service.step (fun _ _ => True) {} s ∧ s.now = 0 ∧
      s.answers = [⟨⟨"a", .success, "77aa"⟩, some "77aa"⟩, ⟨⟨"a", .success, "1f0c"⟩, some "77aa"⟩] ∧
      ¬ Accepted s "a" "1f0c" ∧ ∀ gap, ¬ Promised gap s) ∧
    ∃ s, Reach Service.step (fun _ _ => True) {} s ∧ s.now = 10 ^ 9 ∧ s.stored = [⟨"a", "1f0c", 0⟩] ∧
      s.answers = [⟨⟨"a", .redisErr, ""⟩, some "1f0c"⟩] ∧ Honoured s "a" "1f0c" ∧ ∀ gap, ¬ Promised gap s := by
  constructor
  · refine ⟨_, reach_run [.call "a", .call "a", .resume 0 .answered "1f0c9", .resume 1 .answered "77aa9",
      .resume 0 .answered "", .resume 0 .answered "", .resume 1 .answered "", .resume 1 .answered "",
      .resume 0 .answered "", .resume 1 .answered ""] rfl, rfl, rfl, fun h => ?_, fun gap h => ?_⟩
    · exact absurd (code_of_accepted h) (by decide)
    · exact absurd (h.agreed _ (List.mem_cons_of_mem _ List.mem_cons_self) rfl "77aa" rfl) (by decide)
  · refine ⟨_, reach_run [.call "a", .resume 0 .answered "1f0c9", .resume 0 .answered "",
      .resume 0 .refused "", .tick (10 ^ 9)] rfl, rfl, rfl, rfl, honoured_of_code rfl, fun gap h => ?_⟩
    obtain ⟨r, hr, -, hawait⟩ := h.limited "a" "1f0c" rfl
    cases List.mem_singleton.mp hr
    cases hawait

end SyncRtc.VarifyServer
