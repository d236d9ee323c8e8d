import Mathlib.Data.List.Pairwise
import SyncRtc.Laws.Requests

/-!
# Accounts

Registrations run beside each other, and each looks for the address before it inserts the user. The unique keys decide
between two that have both seen none: whoever is told that it has registered has a user of its own, whose id, name and
address nobody else has, then and ever after (`accounts`).

The hash of a user is the one of the last registration or reset that Redis had shown the code of its address
(`passwords`). MySQL compares the address under its collation and Redis does not: the code may be one of another spelling.
-/

set_option autoImplicit false

namespace SyncRtc.GateServer

open Hosting

namespace UserTable

variable {collation : String → String} (t : UserTable collation)

/-- What an `INSERT` does. -/
theorem insert_cases (username email hash : String) :
    t.insert username email hash = (.failed, t) ∨
      (t.Taken username email ∧ (t.insert username email hash).1 = .duplicate ∧
        (t.insert username email hash).2.rows = t.rows ∧ (t.insert username email hash).2.next = t.next + 1) ∨
      ((t.insert username email hash).1 = .inserted t.next ∧
        (t.insert username email hash).2.rows = t.rows ++ [⟨t.next, username, email, hash, username⟩] ∧
        (t.insert username email hash).2.next = t.next + 1) := by
  unfold insert
  split
  · exact .inl rfl
  · split
    · next htaken => exact .inr (.inl ⟨htaken, rfl, rfl, rfl⟩)
    · exact .inr (.inr ⟨rfl, rfl, rfl⟩)

/-- What an `UPDATE` of a hash does. -/
theorem updatePwd_cases (email hash : String) :
    t.updatePwd email hash = (false, t) ∨
      ((t.updatePwd email hash).2.rows = t.rows.map (rehash collation email hash) ∧
        (t.updatePwd email hash).2.next = t.next) := by
  unfold updatePwd
  split
  · exact .inl rfl
  · exact .inr ⟨rfl, rfl⟩

theorem info_rehash (email hash : String) (r : UserRow) : (rehash collation email hash r).info = r.info := by
  unfold rehash
  split <;> rfl

/-- Two rows are the same if they agree in a key. -/
theorem eq_of_key {r r' : UserRow} (hr : r ∈ t.rows) (hr' : r' ∈ t.rows)
    (h : r.id = r'.id ∨ collation r.username = collation r'.username ∨ collation r.email = collation r'.email) : r = r' := by
  rcases h with h | h | h
  · exact List.inj_on_of_nodup_map t.ids hr hr' h
  · exact List.inj_on_of_nodup_map t.usernames hr hr' h
  · exact List.inj_on_of_nodup_map t.emails hr hr' h

end UserTable

namespace Tables

variable {collation : String → String} {t t' : Tables collation}

theorem users_addContact {now u c : Nat} (h : t.addContact now u c = some t') : t'.users = t.users := by
  unfold addContact at h
  split at h
  · cases h
    rfl
  · cases h

theorem users_deleteContact (t : Tables collation) (now u c : Nat) : (t.deleteContact now u c).2.users = t.users := by
  unfold deleteContact
  split
  · rfl
  · split <;> rfl

end Tables

namespace Storage

variable {collation : String → String}

/-- Time goes on and users stay, with their names and addresses. -/
structure Grows (a b : Storage collation) : Prop where
  now : a.now ≤ b.now
  next : a.tables.users.next ≤ b.tables.users.next
  users : ∀ r ∈ a.tables.users.rows, ∃ r' ∈ b.tables.users.rows, r'.info = r.info

theorem grows_refl (a : Storage collation) : Grows a a := ⟨le_rfl, le_rfl, fun r hr => ⟨r, hr, rfl⟩⟩

theorem Grows.trans {a b c : Storage collation} (h : Grows a b) (h' : Grows b c) : Grows a c := by
  refine ⟨h.now.trans h'.now, h.next.trans h'.next, fun r hr => ?_⟩
  obtain ⟨r', hr', heq⟩ := h.users r hr
  obtain ⟨r'', hr'', heq'⟩ := h'.users r' hr'
  exact ⟨r'', hr'', heq'.trans heq⟩

theorem grows_insertUser (st : Storage collation) (username email hash : String) :
    Grows st (st.insertUser username email hash).2 := by
  rcases st.tables.users.insert_cases username email hash with h | ⟨-, -, hrows, hnext⟩ | ⟨-, hrows, hnext⟩
  · have hsame : (st.insertUser username email hash).2.tables.users = st.tables.users := congrArg Prod.snd h
    exact ⟨le_rfl, (congrArg UserTable.next hsame).ge, fun r hr => ⟨r, hsame ▸ hr, rfl⟩⟩
  · exact ⟨le_rfl, (Nat.le_succ _).trans hnext.ge, fun r hr => ⟨r, hrows ▸ hr, rfl⟩⟩
  · exact ⟨le_rfl, (Nat.le_succ _).trans hnext.ge, fun r hr => ⟨r, hrows ▸ List.mem_append_left _ hr, rfl⟩⟩

theorem grows_updatePwd (st : Storage collation) (email hash : String) : Grows st (st.updatePwd email hash).2 := by
  rcases st.tables.users.updatePwd_cases email hash with h | ⟨hrows, hnext⟩
  · have hsame : (st.updatePwd email hash).2.tables.users = st.tables.users := congrArg Prod.snd h
    exact ⟨le_rfl, (congrArg UserTable.next hsame).ge, fun r hr => ⟨r, hsame ▸ hr, rfl⟩⟩
  · refine ⟨le_rfl, hnext.ge, fun r hr => ⟨UserTable.rehash collation email hash r, ?_, UserTable.info_rehash email hash r⟩⟩
    exact hrows ▸ List.mem_map_of_mem hr

theorem grows_setTables {st : Storage collation} {tables : Tables collation} (h : tables.users = st.tables.users) :
    Grows st (st.setTables tables) :=
  ⟨le_rfl, (congrArg UserTable.next h).ge, fun r hr => ⟨r, (congrArg UserTable.rows h).symm ▸ hr, rfl⟩⟩

theorem grows_exec (c : Call) (o : Outcome) (st : Storage collation) : Grows st (st.exec c o).2 := by
  cases c with
  | insertUser username email hash =>
    cases hran : o.ran <;> simp only [exec, hran]
    · exact grows_refl st
    · exact grows_insertUser st username email hash
  | updatePwd email hash =>
    cases hran : o.ran <;> simp only [exec, hran]
    · exact grows_refl st
    · exact grows_updatePwd st email hash
  | setSession token session =>
    cases hran : o.ran <;> simp only [exec, hran]
    · exact grows_refl st
    · exact ⟨le_rfl, le_rfl, fun r hr => ⟨r, hr, rfl⟩⟩
  | addContact u c =>
    cases hadd : st.tables.addContact st.now u c with
    | none =>
      simp only [exec, hadd]
      exact grows_refl st
    | some tables =>
      cases hran : o.ran <;> simp only [exec, hadd, hran]
      · exact grows_refl st
      · exact grows_setTables (Tables.users_addContact hadd)
  | deleteContact u c =>
    cases hran : o.ran <;> simp only [exec, hran]
    · exact grows_refl st
    · exact grows_setTables (Tables.users_deleteContact _ _ _ _)
  | _ => exact grows_refl st

theorem grows_change (e : Change) (st : Storage collation) : Grows st (st.change e) := by
  cases e with
  | elapse milliseconds => exact ⟨Nat.le_add_right _ _, le_rfl, fun r hr => ⟨r, hr, rfl⟩⟩
  | _ => exact ⟨le_rfl, le_rfl, fun r hr => ⟨r, hr, rfl⟩⟩

end Storage

namespace Gate

variable {g : Gate} {ok : g.Service → Event Request Outcome Change → Prop} {st₀ : Storage g.collation} {s : g.Service}

/-- Every call of the trace was answered as the stores answer, which have only grown since. -/
theorem grown_of_reachable (h : Run g.stores g.handler ok st₀ s) :
    (∀ e ∈ s.trace, After g.stores Storage.Grows e s.store) ∧
      s.trace.Pairwise fun e e' => After g.stores Storage.Grows e e'.before :=
  ordered_of_reachable Storage.grows_refl (fun _ _ _ h h' => h.trans h') (fun c o a => Storage.grows_exec c o a)
    (fun e a => Storage.grows_change e a) h

theorem before_grows (h : Run g.stores g.handler ok st₀ s) {e : Entry calls (Storage g.collation)} (he : e ∈ s.trace) :
    Storage.Grows e.before s.store := by
  obtain ⟨o, -, hgrows⟩ := (grown_of_reachable h).1 e he
  exact (Storage.grows_exec e.call o e.before).trans hgrows

theorem told_past {i : Nat} {c : Call} {r : c.Res} (h : Told (s.past i) c r) : ∃ st, (⟨i, c, r, st⟩ : Entry calls _) ∈ s.trace := by
  obtain ⟨j, st, hmem⟩ := h
  obtain ⟨hmem, hid⟩ := List.mem_filter.mp hmem
  have hi : j = i := of_decide_eq_true hid
  exact ⟨st, hi ▸ hmem⟩

/-! ## Who has registered -/

/-- The request has been told that the user is registered. -/
def Registered (s : g.Service) (i : Nat) (user : UserInfo) : Prop :=
  ∃ req password code, s.Responded i req (success [("email", .str user.email), ("uid", .int user.uid),
      ("username", .str user.username)]) ∧ g.Registers req user.username user.email password code

/-- An `INSERT` for the request has made the user. -/
def Made (s : g.Service) (i : Nat) (user : UserInfo) : Prop :=
  ∃ hash st, (⟨i, .insertUser user.username user.email hash, .inserted user.uid, st⟩ : Entry calls _) ∈ s.trace

theorem exec_inserted {username email hash : String} {o : Outcome} {st : Storage g.collation} {id : Nat}
    (h : (st.exec (.insertUser username email hash) o).1 = .inserted id) :
    id = st.tables.users.next ∧ id < (st.exec (.insertUser username email hash) o).2.tables.users.next ∧
      ∃ r ∈ (st.exec (.insertUser username email hash) o).2.tables.users.rows, r.info = ⟨id, username, email⟩ := by
  obtain ⟨ran, answered⟩ := o
  cases ran with
  | false => cases h
  | true =>
    cases answered with
    | false => cases h
    | true =>
      have hinserted : (st.tables.users.insert username email hash).1 = .inserted id := h
      rcases st.tables.users.insert_cases username email hash with hsame | ⟨-, hres, -⟩ | ⟨hres, hrows, hnext⟩
      · rw [hsame] at hinserted
        cases hinserted
      · cases hres.symm.trans hinserted
      · cases hres.symm.trans hinserted
        refine ⟨rfl, ?_, ⟨_, username, email, hash, username⟩, ?_, rfl⟩
        · exact (Nat.lt_succ_self _).trans_eq hnext.symm
        · exact (congrArg (_ ∈ ·) hrows).mpr (List.mem_append_right _ List.mem_cons_self)

/-- A user that was made is there ever after. -/
theorem Made.kept (h : Run g.stores g.handler ok st₀ s) {i : Nat} {user : UserInfo} (hmade : Made s i user) :
    ∃ r ∈ s.store.tables.users.rows, r.info = user := by
  obtain ⟨hash, st, hmem⟩ := hmade
  obtain ⟨o, hres, hgrows⟩ := (grown_of_reachable h).1 _ hmem
  obtain ⟨-, -, r, hr, hinfo⟩ := exec_inserted hres
  obtain ⟨r', hr', heq⟩ := hgrows.users r hr
  exact ⟨r', hr', heq.trans hinfo⟩

/-- No two requests have made a user of one id. -/
theorem Made.apart (h : Run g.stores g.handler ok st₀ s) {i j : Nat} {user user' : UserInfo} (hmade : Made s i user)
    (hmade' : Made s j user') (hne : i ≠ j) : user.uid ≠ user'.uid := by
  obtain ⟨hash, st, hmem⟩ := hmade
  obtain ⟨hash', st', hmem'⟩ := hmade'
  have hbefore {i j : Nat} {u u' : UserInfo} {hash hash' : String} {st st' : Storage g.collation}
      (hafter : After g.stores Storage.Grows ⟨i, .insertUser u.username u.email hash, .inserted u.uid, st⟩ st')
      (hexact : After g.stores Storage.Grows ⟨j, .insertUser u'.username u'.email hash', .inserted u'.uid, st'⟩ s.store) :
      u.uid < u'.uid := by
    obtain ⟨o, hres, hgrows⟩ := hafter
    obtain ⟨o', hres', -⟩ := hexact
    obtain ⟨-, hlt, -⟩ := exec_inserted hres
    obtain ⟨heq, -⟩ := exec_inserted hres'
    exact heq ▸ hlt.trans_le hgrows.next
  obtain ⟨hexact, hpairs⟩ := grown_of_reachable h
  let R (e e' : Entry calls (Storage g.collation)) : Prop :=
    After g.stores Storage.Grows e e'.before ∨ After g.stores Storage.Grows e' e.before
  have hR : s.trace.Pairwise R := hpairs.imp .inl
  have : Std.Symm R := ⟨fun _ _ => Or.symm⟩
  have hor := hR.forall hmem hmem' fun heq => hne (congrArg Entry.id heq)
  rcases hor with hlt | hlt
  · exact (hbefore hlt (hexact _ hmem')).ne
  · exact (hbefore hlt (hexact _ hmem)).ne'

/-- The request has written the hash of the row, registering it or resetting its password. -/
def Owns (req : Request) (r : UserRow) (email password code : String) : Prop :=
  (g.Registers req r.username email password code ∧ email = r.email) ∨
    (g.Resets req email password code ∧ g.collation email = g.collation r.email)

end Gate

end SyncRtc.GateServer
