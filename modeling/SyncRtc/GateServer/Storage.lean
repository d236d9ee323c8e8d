import Mathlib.Data.List.Nodup
import Mathlib.Data.List.Lex
import SyncRtc.Lib.Expiring

/-!
# What GateServer stores

The tables `users` and `user_contacts` of MySQL and the keys of Redis that GateServer reads or writes. The keys of the
tables are part of them: no two rows have one id, one user name or one address under the collation, and a contact is
between two different users that exist.

A verification code is written by VarifyServer, the presence of a user by RealtimeServer; sessions are GateServer's own.
Redis counts in milliseconds, as does a `DATETIME(3)`.
-/

set_option autoImplicit false

namespace SyncRtc.GateServer

/-! ## Users -/

/-- A row of `users`. -/
structure UserRow where
  id : Nat
  username : String
  email : String
  passwordHash : String
  displayName : String
  deriving DecidableEq, Repr

/-- `UserInfo`. -/
structure UserInfo where
  uid : Nat
  username : String
  email : String
  deriving DecidableEq, Repr

/-- The table `users` with the next value of its AUTO_INCREMENT; its unique keys compare under `collation`. -/
structure UserTable (collation : String → String) where
  rows : List UserRow
  next : Nat
  below : ∀ r ∈ rows, 0 < r.id ∧ r.id < next
  pos : 0 < next
  ids : (rows.map UserRow.id).Nodup
  usernames : (rows.map fun r => collation r.username).Nodup
  emails : (rows.map fun r => collation r.email).Nodup

/-- What becomes of an `INSERT` into `users` and the `LAST_INSERT_ID` of the same connection. -/
inductive Inserted where
  | inserted (id : Nat)
  /-- Error 1062. -/
  | duplicate
  /-- Another `SQLException`, or no connection. -/
  | failed
  deriving DecidableEq, Repr

namespace UserTable

variable {collation : String → String} (t : UserTable collation)

/-- `WHERE email = ?`. -/
def byEmail (email : String) : Option UserRow := t.rows.find? fun r => collation r.email = collation email

/-- `WHERE id = ?`. -/
def byId (id : Nat) : Option UserRow := t.rows.find? fun r => r.id = id

/-- A unique key is violated. -/
def Taken (username email : String) : Prop :=
  ∃ r ∈ t.rows, collation r.username = collation username ∨ collation r.email = collation email

instance (username email : String) : Decidable (t.Taken username email) :=
  inferInstanceAs (Decidable (∃ r ∈ t.rows, _))

/-- The lengths of the columns. -/
def Fits (username email passwordHash : String) : Prop :=
  username.length ≤ 64 ∧ email.length ≤ 254 ∧ passwordHash.length ≤ 255

instance (username email passwordHash : String) : Decidable (Fits username email passwordHash) :=
  inferInstanceAs (Decidable (_ ∧ _))

theorem nodup_concat {α β : Type} {f : α → β} {l : List α} {a : α} (h : (l.map f).Nodup) (ha : ∀ b ∈ l, f b ≠ f a) :
    ((l ++ [a]).map f).Nodup := by
  rw [List.map_append, List.map_singleton, List.nodup_append]
  refine ⟨h, List.nodup_singleton _, fun x hx y hy => ?_⟩
  obtain ⟨b, hb, rfl⟩ := List.mem_map.mp hx
  rw [List.mem_singleton.mp hy]
  exact ha b hb

/-- `INSERT INTO users (username, email, password_hash, display_name) VALUES (name, email, hash, name)`. An attempt that
violates a key has used up a value of AUTO_INCREMENT. -/
def insert (username email passwordHash : String) : Inserted × UserTable collation :=
  if ¬ Fits username email passwordHash then (.failed, t)
  else if h : t.Taken username email then
    (.duplicate, { t with
      next := t.next + 1
      below := fun r hr => ⟨(t.below r hr).1, Nat.lt_succ_of_lt (t.below r hr).2⟩
      pos := Nat.succ_pos _ })
  else
    (.inserted t.next, { t with
      rows := t.rows ++ [⟨t.next, username, email, passwordHash, username⟩]
      next := t.next + 1
      below := by
        intro r hr
        rcases List.mem_append.mp hr with hr | hr
        · exact ⟨(t.below r hr).1, Nat.lt_succ_of_lt (t.below r hr).2⟩
        · rw [List.mem_singleton.mp hr]
          exact ⟨t.pos, Nat.lt_succ_self _⟩
      pos := Nat.succ_pos _
      ids := nodup_concat t.ids fun r hr => Nat.ne_of_lt (t.below r hr).2
      usernames := nodup_concat t.usernames fun r hr heq => h ⟨r, hr, .inl heq⟩
      emails := nodup_concat t.emails fun r hr heq => h ⟨r, hr, .inr heq⟩ })

/-- A row whose address is the given one gets the new hash. -/
def rehash (collation : String → String) (email passwordHash : String) (r : UserRow) : UserRow :=
  if collation r.email = collation email then { r with passwordHash } else r

theorem map_rehash {β : Type} (f : UserRow → β) (hf : ∀ (r : UserRow) (hash : String), f { r with passwordHash := hash } = f r)
    (email passwordHash : String) : (t.rows.map (rehash collation email passwordHash)).map f = t.rows.map f := by
  rw [List.map_map]
  refine List.map_congr_left fun r _ => ?_
  simp only [Function.comp, rehash]
  split
  · exact hf r passwordHash
  · rfl

/-- `UPDATE users SET password_hash = ? WHERE email = ?`: whether a row was changed, and the table. A hash that is too
long is an error. -/
def updatePwd (email passwordHash : String) : Bool × UserTable collation :=
  if 255 < passwordHash.length then (false, t)
  else
    (t.rows.any fun r => decide (collation r.email = collation email ∧ r.passwordHash ≠ passwordHash), { t with
      rows := t.rows.map (rehash collation email passwordHash)
      below := by
        intro r hr
        obtain ⟨r', hr', rfl⟩ := List.mem_map.mp hr
        rw [show (rehash collation email passwordHash r').id = r'.id by unfold rehash; split <;> rfl]
        exact t.below r' hr'
      ids := by
        rw [map_rehash t UserRow.id fun _ _ => rfl]
        exact t.ids
      usernames := by
        rw [map_rehash t (fun r => collation r.username) fun _ _ => rfl]
        exact t.usernames
      emails := by
        rw [map_rehash t (fun r => collation r.email) fun _ _ => rfl]
        exact t.emails })

end UserTable

/-! ## Contacts -/

/-- A row of `user_contacts` besides its key. -/
structure ContactRow where
  relationStatus : Nat
  aliasName : Option String
  remark : Option String
  createdAt : Nat
  updatedAt : Nat
  deriving DecidableEq, Repr

/-- `ContactInfo`. -/
structure ContactInfo where
  uid : Nat
  username : String
  email : String
  displayName : String
  aliasName : String
  remark : String
  relationStatus : Nat
  deriving DecidableEq, Repr

/-- The two tables; a contact is between two different users that exist. -/
structure Tables (collation : String → String) where
  users : UserTable collation
  contacts : Nat → Nat → Option ContactRow
  known : ∀ u c r, contacts u c = some r → u ∈ users.rows.map UserRow.id ∧ c ∈ users.rows.map UserRow.id ∧ u ≠ c

namespace Tables

variable {collation : String → String} (t : Tables collation)

/-- One contact is written. -/
def setContact (u c : Nat) (r : ContactRow) (h : u ∈ t.users.rows.map UserRow.id ∧ c ∈ t.users.rows.map UserRow.id ∧ u ≠ c) :
    Tables collation where
  users := t.users
  contacts := fun u' c' => if u' = u ∧ c' = c then some r else t.contacts u' c'
  known := by
    intro u' c' r' hr
    split at hr
    · next heq => exact heq.1 ▸ heq.2 ▸ h
    · exact t.known u' c' r' hr

/-- The row of `INSERT … VALUES (?, ?, 1) ON DUPLICATE KEY UPDATE relation_status = 1`; `updated_at` changes when
another column does. -/
def added (now : Nat) : Option ContactRow → ContactRow
  | none => ⟨1, none, none, now, now⟩
  | some r => if r.relationStatus = 1 then r else { r with relationStatus := 1, updatedAt := now }

/-- `AddContact`; `none` when a foreign key or the check is violated. -/
def addContact (now u c : Nat) : Option (Tables collation) :=
  if h : u ∈ t.users.rows.map UserRow.id ∧ c ∈ t.users.rows.map UserRow.id ∧ u ≠ c then
    some (t.setContact u c (added now (t.contacts u c)) h)
  else none

/-- `DeleteContact`: `UPDATE user_contacts SET relation_status = 0` for the one row, and whether that changed it. -/
def deleteContact (now u c : Nat) : Bool × Tables collation :=
  match h : t.contacts u c with
  | none => (false, t)
  | some r =>
    if r.relationStatus = 0 then (false, t)
    else (true, t.setContact u c { r with relationStatus := 0, updatedAt := now } (t.known u c r h))

/-- A row of the join in `GetContactListByUid`, with what it is sorted by. -/
def joined (uid : Nat) (row : UserRow) : Option (ContactInfo × ContactRow) :=
  match t.contacts uid row.id with
  | none => none
  | some r =>
    if r.relationStatus = 1 then
      some (⟨row.id, row.username, row.email,
        if collation row.displayName = collation "" then row.username else row.displayName,
        r.aliasName.getD "", r.remark.getD "", r.relationStatus⟩, r)
    else none

/-- `ORDER BY uc.updated_at DESC, uc.created_at DESC`; what stands first among equals is left open. -/
def sortsBefore (tie : Nat → Nat) (a b : ContactInfo × ContactRow) : Bool :=
  decide (b.2.updatedAt < a.2.updatedAt ∨ b.2.updatedAt = a.2.updatedAt ∧
    (b.2.createdAt < a.2.createdAt ∨ b.2.createdAt = a.2.createdAt ∧ tie a.1.uid ≤ tie b.1.uid))

/-- `GetContactListByUid`. -/
def contactList (tie : Nat → Nat) (uid : Nat) : List ContactInfo :=
  ((t.users.rows.filterMap (t.joined uid)).mergeSort (sortsBefore tie)).map Prod.fst

/-- Other users, the same ids. -/
def withUsers (users : UserTable collation) (h : ∀ id ∈ t.users.rows.map UserRow.id, id ∈ users.rows.map UserRow.id) :
    Tables collation where
  users := users
  contacts := t.contacts
  known := fun u c r hr => ⟨h u (t.known u c r hr).1, h c (t.known u c r hr).2.1, (t.known u c r hr).2.2⟩

end Tables

/-! ## Redis -/

/-- The value under `auth::session:` and a token. -/
structure Session where
  uid : Int
  deviceId : String
  deriving DecidableEq, Repr

/-- A hash `presence:` and a user id, with missing fields as empty texts. -/
structure Presence where
  status : String := ""
  meetingId : String := ""
  deriving DecidableEq, Repr

structure Storage (collation : String → String) where
  tables : Tables collation
  sessions : Expiring String Session := .empty
  /-- The codes that can be read, by address. -/
  codes : String → Option String := fun _ => none
  presence : Nat → Presence := fun _ => {}
  now : Nat := 0

/-- `kTokenExpireSeconds`. -/
def kTokenExpireSeconds : Nat := 7 * 24 * 60 * 60

end SyncRtc.GateServer
