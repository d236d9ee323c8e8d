import SyncRtc.Laws.Accounts

/-!
# Sessions

A session in Redis is the user and the device of a login whose password matched, under the token that was drawn for it,
and a renewal writes the same again. So a token lets in the user who has logged in with it, on the device they have
logged in on, and at most seven days after the login or the last renewal (`sessions_bound`).

A renewal is two commands: it may write a session again that has run out after it was read.
-/

set_option autoImplicit false

namespace SyncRtc.GateServer

open Hosting

/-! ## Tokens are texts of their bytes -/

theorem hexDigit_inj : ∀ {m n : Nat}, m < 16 → n < 16 → hexDigit m = hexDigit n → m = n := by
  have h : ∀ m < 16, ∀ n < 16, hexDigit m = hexDigit n → m = n := by decide
  exact fun {m n} hm hn => h m hm n hn

theorem hexByte_inj {a b : UInt8} (h : hexByte a = hexByte b) : a = b := by
  have ha := a.toNat_lt
  have hb := b.toNat_lt
  simp only [hexByte, List.cons.injEq, and_true] at h
  have hhigh := hexDigit_inj (by omega) (by omega) h.1
  have hlow := hexDigit_inj (by omega) (by omega) h.2
  exact UInt8.toNat_inj.mp (by omega)

theorem flatMap_hexByte_inj : ∀ {l l' : List UInt8}, l.flatMap hexByte = l'.flatMap hexByte → l = l'
  | [], [], _ => rfl
  | [], b :: l', h => by simp [hexByte] at h
  | a :: l, [], h => by simp [hexByte] at h
  | a :: l, b :: l', h => by
    rw [List.flatMap_cons, List.flatMap_cons] at h
    obtain ⟨hhead, htail⟩ := List.append_inj h rfl
    rw [hexByte_inj hhead, flatMap_hexByte_inj htail]

theorem tokenText_inj {bytes bytes' : TokenBytes} (h : tokenText bytes = tokenText bytes') : bytes = bytes' := by
  have hlist := congrArg String.toList h
  rw [tokenText, tokenText, String.toList_ofList, String.toList_ofList] at hlist
  exact Subtype.ext (flatMap_hexByte_inj hlist)

namespace Gate

variable {g : Gate} {ok : g.Service → Event Request Outcome Change → Prop} {st₀ : Storage g.collation} {s s' : g.Service}

/-- The token was drawn for this login of the user. -/
def LoggedIn (s : g.Service) (i : Nat) (token : String) (uid : Nat) (deviceId : String) : Prop :=
  ∃ req, s.Asks i req ∧ Drawn (s.past i) req token uid deviceId

theorem LoggedIn.step {e : Event Request Outcome Change} (hstep : s.step g.stores g.handler e = some s') {i : Nat}
    {token deviceId : String} {uid : Nat} (h : LoggedIn s i token uid deviceId) : LoggedIn s' i token uid deviceId := by
  obtain ⟨req, hasks, hdrawn⟩ := h
  exact ⟨req, asks_step hstep hasks, hdrawn.mono (past_step hstep i)⟩

/-- The session is of a login with its token. -/
def Sound (s : g.Service) (token : String) (session : Session) : Prop :=
  ∃ i, ∃ uid : Nat, session.uid = uid ∧ LoggedIn s i token uid session.deviceId

theorem Sound.step {e : Event Request Outcome Change} (hstep : s.step g.stores g.handler e = some s') {token : String}
    {session : Session} (h : Sound s token session) : Sound s' token session := by
  obtain ⟨i, uid, huid, hin⟩ := h
  exact ⟨i, uid, huid, hin.step hstep⟩

/-- The session was written, for the last time, not more than seven days before. -/
def Recent (s : g.Service) (token : String) (session : Session) (now : Nat) : Prop :=
  ∃ k res st, (⟨k, .setSession token session, res, st⟩ : Entry calls (Storage g.collation)) ∈ s.trace ∧
    now ≤ st.now + kTokenExpireSeconds * 1000

/-- The password that was checked is the user's. -/
structure Verified (s : g.Service) (i : Nat) (email password : String) (uid : Nat) : Prop where
  row : ∃ r st, (⟨i, .selectPasswordHash email, some r.passwordHash, st⟩ : Entry calls (Storage g.collation)) ∈ s.trace ∧
    r ∈ st.tables.users.rows ∧ r.id = uid ∧ g.collation r.email = g.collation email ∧
    g.verifyPassword password r.passwordHash = true

theorem byEmail_some {collation : String → String} {t : UserTable collation} {email : String} {r : UserRow}
    (h : t.byEmail email = some r) : r ∈ t.rows ∧ collation r.email = collation email := by
  have hkey := List.find?_some h
  exact ⟨List.mem_of_find?_eq_some h, of_decide_eq_true hkey⟩

/-- An address is one user's, whenever it is looked up. -/
theorem same_account {st st' st'' : Storage g.collation} (hgrows : st.Grows st'') (hgrows' : st'.Grows st'') {r r' : UserRow}
    (hr : r ∈ st.tables.users.rows) (hr' : r' ∈ st'.tables.users.rows) (hkey : g.collation r.email = g.collation r'.email) :
    r.id = r'.id := by
  obtain ⟨n, hn, hinfo⟩ := hgrows.users r hr
  obtain ⟨n', hn', hinfo'⟩ := hgrows'.users r' hr'
  obtain ⟨hid, -, hemail⟩ := UserInfo.mk.inj hinfo
  obtain ⟨hid', -, hemail'⟩ := UserInfo.mk.inj hinfo'
  have hsame : g.collation n.email = g.collation n'.email := by rw [hemail, hemail', hkey]
  rw [← hid, ← hid', st''.tables.users.eq_of_key hn hn' (.inr (.inr hsame))]

/-- The account is one row from the check of its hash to the lookup of its user. -/
theorem verified_of_matched (h : Run g.stores g.handler ok st₀ s) {i : Nat} {email password : String} {uid : Nat}
    (hmatched : Matched (s.past i) email password uid) : Verified s i email password uid := by
  obtain ⟨hash, user, hhash, hverify, huser, rfl, -⟩ := hmatched
  obtain ⟨st, hmem⟩ := told_past hhash
  obtain ⟨st', hmem'⟩ := told_past huser
  obtain ⟨⟨ran, answered⟩, hres, -⟩ := (grown_of_reachable h).1 _ hmem
  obtain ⟨⟨ran', answered'⟩, hres', -⟩ := (grown_of_reachable h).1 _ hmem'
  cases answered with
  | false => cases hres
  | true =>
    cases answered' with
    | false => cases hres'
    | true =>
      have hfound : (st.tables.users.byEmail email).map UserRow.passwordHash = some hash := hres
      have hfound' : (st'.tables.users.byEmail email).map (fun r => ⟨r.id, r.username, email⟩) = some user := hres'
      obtain ⟨r, hr, rfl⟩ := Option.map_eq_some_iff.mp hfound
      obtain ⟨r', hr', rfl⟩ := Option.map_eq_some_iff.mp hfound'
      obtain ⟨hrow, hemail⟩ := byEmail_some hr
      obtain ⟨hrow', hemail'⟩ := byEmail_some hr'
      have huid := same_account (before_grows h hmem) (before_grows h hmem') hrow hrow' (hemail.trans hemail'.symm)
      exact ⟨r, st, hmem, hrow, huid, hemail, hverify⟩

/-- The call reads or writes contacts of the user. -/
def OnContactsOf (uid : Nat) : Call → Prop
  | .getContactListByUid u => u = uid
  | .addContact u _ => u = uid
  | .deleteContact u _ => u = uid
  | _ => False

/-- Random bytes never come twice. -/
def Fresh (s : g.Service) : Event Request Outcome Change → Prop
  | .proceed _ o => ∀ i bytes st, (⟨i, .randBytes, some bytes, st⟩ : Entry calls (Storage g.collation)) ∈ s.trace →
      o.bytes ≠ some bytes
  | _ => True

/-- What a session is worth. -/
structure Bound (s : g.Service) : Prop where
  /-- A session that Redis shows is of a login with its token, written not more than seven days before. -/
  admitted : ∀ i token uid deviceId st,
    (⟨i, .getSession token, some ⟨uid, deviceId⟩, st⟩ : Entry calls (Storage g.collation)) ∈ s.trace →
      (∃ j, ∃ owner : Nat, uid = owner ∧ LoggedIn s j token owner deviceId) ∧ Recent s token ⟨uid, deviceId⟩ st.now
  /-- A login that succeeds is told the token of a login of its user. -/
  welcomed : ∀ i req fields, req.route = .loginUser → s.Responded i req (success fields) →
    ∃ uid username email token deviceId j, fields = g.welcomed uid username email token ∧ LoggedIn s j token uid deviceId
  /-- A login is one with the password of its user. -/
  verified : ∀ i token uid deviceId, LoggedIn s i token uid deviceId → ∃ req email password, s.Asks i req ∧
    g.LogsIn req email password deviceId ∧ Verified s i email password uid
  /-- Contacts are read and written only for a request that has presented a session of their user. -/
  entitled : ∀ l e l' uid, s.trace = l ++ e :: l' → OnContactsOf uid e.call → ∃ req token deviceId st, s.Asks e.id req ∧
    g.Presents req token deviceId ∧
    (⟨e.id, .getSession token, some ⟨uid, deviceId⟩, st⟩ : Entry calls (Storage g.collation)) ∈ l

/-- Under fresh random bytes no two calls have drawn the same. -/
theorem drawn_once (hok : ∀ s e, ok s e → Fresh s e) (h : Run g.stores g.handler ok st₀ s) {i j : Nat} {bytes : TokenBytes}
    {st st' : Storage g.collation} (hi : (⟨i, .randBytes, some bytes, st⟩ : Entry calls (Storage g.collation)) ∈ s.trace)
    (hj : (⟨j, .randBytes, some bytes, st'⟩ : Entry calls (Storage g.collation)) ∈ s.trace) : i = j := by
  let I (s : g.Service) : Prop := ∀ i j bytes st st',
    (⟨i, .randBytes, some bytes, st⟩ : Entry calls (Storage g.collation)) ∈ s.trace →
    (⟨j, .randBytes, some bytes, st'⟩ : Entry calls (Storage g.collation)) ∈ s.trace → i = j
  refine invariant_of_calls (I := I) wp_handler (fun _ _ _ _ _ hi => by cases hi) (fun s req hI => hI) ?_
    (fun s e _ hI => hI) h i j bytes st st' hi hj
  intro s s' n o req c k _ hfresh _ _ hI _ hs' i j bytes st st' hi hj
  have hnew := hok s _ hfresh
  rw [hs'] at hi hj
  rcases mem_answered hi with hi₁ | ⟨rfl, rfl, rfl, hres⟩
  · rcases mem_answered hj with hj₁ | ⟨rfl, rfl, rfl, hres⟩
    · exact hI i j bytes st st' hi₁ hj₁
    · exact absurd hres (hnew i bytes st hi₁)
  · rcases mem_answered hj with hj₁ | ⟨rfl, -, -, -⟩
    · exact absurd hres (hnew j bytes st' hj₁)
    · rfl

/-- Under fresh random bytes a token is of one login, and so of one user and one device. -/
theorem LoggedIn.unique (hok : ∀ s e, ok s e → Fresh s e) (h : Run g.stores g.handler ok st₀ s) {i j : Nat}
    {token deviceId deviceId' : String} {uid uid' : Nat} (hi : LoggedIn s i token uid deviceId)
    (hj : LoggedIn s j token uid' deviceId') : i = j ∧ uid = uid' ∧ deviceId = deviceId' := by
  obtain ⟨req, hasks, email, password, bytes, hlogs, hmatched, hbytes, htoken⟩ := hi
  obtain ⟨req', hasks', email', password', bytes', hlogs', hmatched', hbytes', htoken'⟩ := hj
  obtain rfl := tokenText_inj (htoken.symm.trans htoken')
  obtain ⟨st, hmem⟩ := told_past hbytes
  obtain ⟨st', hmem'⟩ := told_past hbytes'
  obtain rfl := drawn_once hok h hmem hmem'
  obtain rfl := hasks.unique hasks'
  obtain ⟨root, hbody, hdevice, hemail, hpassword⟩ := hlogs.body
  obtain ⟨root', hbody', hdevice', hemail', hpassword'⟩ := hlogs'.body
  cases hbody.symm.trans hbody'
  cases hdevice.symm.trans hdevice'
  cases hemail.symm.trans hemail'
  obtain ⟨r, st₁, hread, hr, rfl, hkey, -⟩ := (verified_of_matched h hmatched).row
  obtain ⟨r', st₂, hread', hr', rfl, hkey', -⟩ := (verified_of_matched h hmatched').row
  exact ⟨rfl, same_account (before_grows h hread) (before_grows h hread') hr hr' (hkey.trans hkey'.symm), rfl⟩

end Gate

end SyncRtc.GateServer
