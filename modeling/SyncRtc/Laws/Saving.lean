import Mathlib.Data.List.Pairwise
import SyncRtc.Lib.Paging
import SyncRtc.Realtime.MysqlMgr

/-!
# A message is saved at once

`SaveMeetingMessage` inserts, and reads back what it has inserted or what was there; other connections save
their messages between its statements. The table of messages only grows, and a row under a unique key stays
the row under that key. So the statements of one call, wherever they fall among those of others, come to one
call that takes effect at a single moment (`AtOnce`): the one the handlers make.
-/

set_option autoImplicit false

namespace SyncRtc

open Prog

/-! ## The table -/

/-- The unique key under which a message is stored. -/
def MySql.SameKey (m : MySql) (a b : MeetingMessageInfo) : Prop :=
  a.meetingId = b.meetingId ∧ a.senderUserId = b.senderUserId ∧ m.collation a.clientMsgId = m.collation b.clientMsgId

/-- A table MySQL keeps: in the order of its keys, which fit into a `BIGINT` and are below the next one, and with
one row for a unique key. -/
structure MySql.Table (m : MySql) : Prop where
  keyed : Paging.Keyed MeetingMessageInfo.messageId m.messages
  next : ∀ row ∈ m.messages, row.messageId < m.nextMessageId
  positive : 0 < m.nextMessageId
  unique : m.messages.Pairwise fun a b => ¬ m.SameKey a b

/-- A later state of the table: rows are added, and that is all. -/
structure MySql.Grows (m m' : MySql) : Prop where
  table : m'.Table
  rows : m.messages <+: m'.messages
  collation : m'.collation = m.collation

variable {m m' m'' : MySql} {message row : MeetingMessageInfo}

theorem MySql.Grows.refl (h : m.Table) : m.Grows m := ⟨h, List.prefix_rfl, rfl⟩

theorem MySql.Grows.trans (h : m.Grows m') (h' : m'.Grows m'') : m.Grows m'' :=
  ⟨h'.table, h.rows.trans h'.rows, h'.collation.trans h.collation⟩

theorem MySql.messageByUniqueKey_some (h : m.messageByUniqueKey message = some row) :
    row ∈ m.messages ∧ m.SameKey row message := by
  have hkey := List.find?_some h
  have hsame := of_decide_eq_true hkey
  exact ⟨List.mem_of_find?_eq_some h, hsame⟩

/-- The row of a key stays the row of its key. -/
theorem MySql.Grows.byUniqueKey (h : m.Grows m') (hrow : m.messageByUniqueKey message = some row) :
    m'.messageByUniqueKey message = some row := by
  obtain ⟨new, hnew⟩ := h.rows
  unfold messageByUniqueKey at hrow ⊢
  rw [← hnew, List.find?_append, h.collation, hrow]
  rfl

theorem MySql.Table.byId (h : m.Table) (hrow : row ∈ m.messages) : m.messageById row.messageId = some row := by
  obtain ⟨before, after, hcut⟩ := List.append_of_mem hrow
  have hordered := h.keyed.ascending
  rw [hcut] at hordered
  have hcross := (List.pairwise_append.mp hordered).2.2
  unfold messageById
  rw [hcut, List.find?_append, List.find?_eq_none.mpr, Option.none_or, List.find?_cons_of_pos (by simp)]
  intro other hother
  have hlt := hcross other hother row List.mem_cons_self
  rw [decide_eq_true_eq]
  omega

/-- A row under a new key. -/
theorem MySql.Table.insert (h : m.Table) (hfree : m.messageByUniqueKey message = none) (createdAt : String) :
    m.Grows (m.insertMessage message createdAt) := by
  have hnew : ∀ a ∈ m.messages, ¬ m.SameKey a message := by
    intro a ha hsame
    exact List.find?_eq_none.mp hfree a ha (decide_eq_true (p := _ ∧ _ ∧ _) hsame)
  refine ⟨⟨⟨?ascending, ?nonzero⟩, ?next, Nat.succ_pos _, ?unique⟩, List.prefix_append _ _, rfl⟩
  case ascending =>
    refine List.pairwise_append.mpr ⟨h.keyed.ascending, List.pairwise_singleton _ _, fun a ha b hb => ?_⟩
    rw [List.mem_singleton.mp hb]
    exact h.next a ha
  case nonzero =>
    intro a ha
    rcases List.mem_append.mp ha with ha | ha
    · exact h.keyed.positive a ha
    · rw [List.mem_singleton.mp ha]
      exact h.positive
  case next =>
    intro a ha
    rcases List.mem_append.mp ha with ha | ha
    · exact Nat.lt_succ_of_lt (h.next a ha)
    · rw [List.mem_singleton.mp ha]
      exact Nat.lt_succ_self _
  case unique =>
    refine List.pairwise_append.mpr ⟨h.unique, List.pairwise_singleton _ _, fun a ha b hb => ?_⟩
    rw [List.mem_singleton.mp hb]
    exact hnew a ha

/-- Two rows under one key are one row. -/
theorem MySql.Table.eq_of_sameKey (h : m.Table) {a b : MeetingMessageInfo} (ha : a ∈ m.messages) (hb : b ∈ m.messages)
    (hkey : m.SameKey a b) : a = b := by
  by_contra hne
  have hsymm : Std.Symm fun x y => ¬ m.SameKey x y := ⟨fun x y hn hs => hn ⟨hs.1.symm, hs.2.1.symm, hs.2.2.symm⟩⟩
  exact h.unique.forall ha hb hne hkey

/-- A call of `SaveMeetingMessage` adds the row of a new key, or leaves the table. -/
theorem MySql.Table.save (h : m.Table) (o : Oracle) (message : MeetingMessageInfo) :
    m.Grows (m.saveMeetingMessage o message).2 := by
  unfold saveMeetingMessage
  split
  · exact .refl h
  · split
    · exact .refl h
    next hfree => exact h.insert hfree o.text

/-! ## Statement by statement -/

namespace MysqlMgr

/-- A connection: the table, and the id of the row it has inserted last. -/
structure Connection where
  mysql : MySql
  lastInsertId : Nat := 0

/-- A statement meets the table as other connections have left it. An insert under a key that is taken is refused;
any statement may fail, an insert also after it has taken effect. -/
inductive Executes : (c : Statement) → Connection → c.Res → Connection → Prop where
  | getConnection {s : Connection} {t : MySql} (connected : Bool) (h : s.mysql.Grows t) :
    Executes .getConnection s connected { s with mysql := t }
  | inserted {s : Connection} {t : MySql} {message : MeetingMessageInfo} (createdAt : String) (h : s.mysql.Grows t)
      (hfree : t.messageByUniqueKey message = none) :
    Executes (.insert message) s (.ok 1 : Except Nat Nat) ⟨t.insertMessage message createdAt, t.nextMessageId⟩
  | insertLost {s : Connection} {t : MySql} {message : MeetingMessageInfo} (createdAt : String) (code : Nat)
      (h : s.mysql.Grows t) (hfree : t.messageByUniqueKey message = none) (hcode : code ≠ duplicateEntry) :
    Executes (.insert message) s (.error code : Except Nat Nat) ⟨t.insertMessage message createdAt, t.nextMessageId⟩
  | duplicate {s : Connection} {t : MySql} {message row : MeetingMessageInfo} (h : s.mysql.Grows t)
      (hrow : t.messageByUniqueKey message = some row) :
    Executes (.insert message) s (.error duplicateEntry : Except Nat Nat) { s with mysql := t }
  | insertFailed {s : Connection} {t : MySql} {message : MeetingMessageInfo} (code : Nat) (h : s.mysql.Grows t)
      (hcode : code ≠ duplicateEntry) : Executes (.insert message) s (.error code : Except Nat Nat) { s with mysql := t }
  | lastInsertId {s : Connection} {t : MySql} (h : s.mysql.Grows t) :
    Executes .lastInsertId s (.ok (some s.lastInsertId) : Except Nat (Option Nat)) { s with mysql := t }
  | lastInsertIdFailed {s : Connection} {t : MySql} (code : Nat) (h : s.mysql.Grows t) (hcode : code ≠ duplicateEntry) :
    Executes .lastInsertId s (.error code : Except Nat (Option Nat)) { s with mysql := t }
  | byId {s : Connection} {t : MySql} (messageId : Nat) (h : s.mysql.Grows t) :
    Executes (.byId messageId) s (.ok (t.messageById messageId) : Except Nat (Option MeetingMessageInfo)) { s with mysql := t }
  | byIdFailed {s : Connection} {t : MySql} (messageId code : Nat) (h : s.mysql.Grows t) (hcode : code ≠ duplicateEntry) :
    Executes (.byId messageId) s (.error code : Except Nat (Option MeetingMessageInfo)) { s with mysql := t }
  | byUniqueKey {s : Connection} {t : MySql} (message : MeetingMessageInfo) (h : s.mysql.Grows t) :
    Executes (.byUniqueKey message) s (.ok (t.messageByUniqueKey message) : Except Nat (Option MeetingMessageInfo))
      { s with mysql := t }
  | byUniqueKeyFailed {s : Connection} {t : MySql} (message : MeetingMessageInfo) (code : Nat) (h : s.mysql.Grows t) :
    Executes (.byUniqueKey message) s (.error code : Except Nat (Option MeetingMessageInfo)) { s with mysql := t }

/-- The statements of one connection, among those of all others. -/
def connection : Machine statements Connection := ⟨fun _ _ => True, Executes⟩

/-- The handler's view of an answer. -/
def saved (answer : Bool × MeetingMessageInfo) : Option MeetingMessageInfo := if answer.1 then some answer.2 else none

/-- What a call comes to is what one call of `Query.saveMeetingMessage` comes to that takes effect at once, somewhere
between its start and its end. -/
def AtOnce (message : MeetingMessageInfo) (redis : Redis) (m : MySql) (answer : Bool × MeetingMessageInfo) (s : Connection) : Prop :=
  ∃ t o, m.Grows t ∧ ((Query.saveMeetingMessage message).run o ⟨redis, t⟩).1 = saved answer ∧
    ((Query.saveMeetingMessage message).run o ⟨redis, t⟩).2.mysql.Grows s.mysql

variable {s s' : Connection} {redis : Redis} {answer : Bool × MeetingMessageInfo}

/-- A call that comes to nothing. -/
theorem AtOnce.failed {t : MySql} (h : m.Grows t) (hs : t.Grows s.mysql) : AtOnce message redis m (false, message) s :=
  ⟨t, { fail := true }, h, rfl, hs⟩

/-- A call whose row was there. -/
theorem AtOnce.repeated {t : MySql} (h : m.Grows t) (hr : ¬ Refuses message) (hrow : t.messageByUniqueKey message = some row)
    (hs : t.Grows s.mysql) (hanswer : saved answer = some row ∨ saved answer = none) : AtOnce message redis m answer s := by
  have hcall : ∀ o : Oracle, t.saveMeetingMessage o message = (if o.late then none else some row, t) := by
    intro o
    unfold MySql.saveMeetingMessage
    refine (if_neg hr).trans ?_
    rw [hrow]
  rcases hanswer with hanswer | hanswer
  · refine ⟨t, {}, h, ?_, ?_⟩
    · rw [hanswer]
      exact congrArg Prod.fst (hcall {})
    · change MySql.Grows (t.saveMeetingMessage {} message).2 s.mysql
      rw [hcall]
      exact hs
  · refine ⟨t, { late := true }, h, ?_, ?_⟩
    · rw [hanswer]
      exact congrArg Prod.fst (hcall { late := true })
    · change MySql.Grows (t.saveMeetingMessage { late := true } message).2 s.mysql
      rw [hcall]
      exact hs

/-- A call that has inserted its row. -/
theorem AtOnce.inserted {t : MySql} {createdAt : String} (h : m.Grows t) (hr : ¬ Refuses message)
    (hfree : t.messageByUniqueKey message = none) (hs : (t.insertMessage message createdAt).Grows s.mysql)
    (hanswer : saved answer = some (t.newMessage message createdAt) ∨ saved answer = none) : AtOnce message redis m answer s := by
  have hcall : ∀ o : Oracle, t.saveMeetingMessage o message =
      (if o.late then none else some (t.newMessage message o.text), t.insertMessage message o.text) := by
    intro o
    unfold MySql.saveMeetingMessage
    refine (if_neg hr).trans ?_
    rw [hfree]
    rfl
  rcases hanswer with hanswer | hanswer
  · refine ⟨t, { text := createdAt }, h, ?_, ?_⟩
    · rw [hanswer]
      exact congrArg Prod.fst (hcall { text := createdAt })
    · change MySql.Grows (t.saveMeetingMessage { text := createdAt } message).2 s.mysql
      rw [hcall]
      exact hs
  · refine ⟨t, { text := createdAt, late := true }, h, ?_, ?_⟩
    · rw [hanswer]
      exact congrArg Prod.fst (hcall { text := createdAt, late := true })
    · change MySql.Grows (t.saveMeetingMessage { text := createdAt, late := true } message).2 s.mysql
      rw [hcall]
      exact hs

/-- A structure is filled with all of a row. -/
theorem fillMeetingMessage_eq (result message : MeetingMessageInfo) : fillMeetingMessage result message = result := rfl

theorem saved_loaded (message : MeetingMessageInfo) (result : Option MeetingMessageInfo) :
    saved (loaded message result) = result := by
  cases result <;> rfl

/-- What the `try` block of a call leaves. -/
def Tried (message : MeetingMessageInfo) (redis : Redis) (m : MySql) (result : Except Nat (Bool × MeetingMessageInfo))
    (s : Connection) : Prop :=
  match result with
  | .ok answer => AtOnce message redis m answer s
  | .error code =>
    if code = duplicateEntry then ∃ t row, m.Grows t ∧ t.messageByUniqueKey message = some row ∧ t.Grows s.mysql
    else AtOnce message redis m (false, message) s

theorem Tried.failed {code : Nat} (hcode : code ≠ duplicateEntry) (h : AtOnce message redis m (false, message) s) :
    Tried message redis m (.error code) s := (if_neg hcode).mpr h

theorem Tried.duplicate {t : MySql} (h : m.Grows t) (hrow : t.messageByUniqueKey message = some row)
    (hs : t.Grows s.mysql) : Tried message redis m (.error duplicateEntry) s := by
  unfold Tried
  dsimp only
  rw [if_pos rfl]
  exact ⟨t, row, h, hrow, hs⟩

/-- The row that was inserted is read back. -/
theorem wp_readBack {t : MySql} {createdAt : String} (h : m.Grows t) (hr : ¬ Refuses message)
    (hfree : t.messageByUniqueKey message = none) (hs : (t.insertMessage message createdAt).Grows s.mysql) :
    (loadMeetingMessageById t.nextMessageId message).wp connection (Tried message redis m) s := by
  refine ⟨trivial, fun result s' hread => ?_⟩
  cases hread with
  | byId _ hgrows =>
    have hall := hs.trans hgrows
    have hin : t.newMessage message createdAt ∈ (t.insertMessage message createdAt).messages :=
      List.mem_append_right _ (List.mem_singleton_self _)
    have hread := hall.table.byId (hall.rows.subset hin)
    refine AtOnce.inserted h hr hfree hall (.inl ?_)
    rw [saved_loaded]
    exact hread
  | byIdFailed _ code hgrows hcode => exact .failed hcode (.inserted h hr hfree (hs.trans hgrows) (.inr rfl))

/-- The `try` block. -/
theorem wp_insertMeetingMessage (hr : ¬ Refuses message) (hs : m.Grows s.mysql) (redis : Redis) :
    (insertMeetingMessage message).wp connection (Tried message redis m) s := by
  refine wp_step trivial fun result s₁ hinsert => ?_
  cases hinsert with
  | @inserted _ t _ createdAt hgrows hfree =>
    have h := hs.trans hgrows
    have hinserted := h.table.insert hfree createdAt
    refine wp_step trivial fun id s₂ hid => ?_
    cases hid with
    | lastInsertId hgrows' => exact wp_readBack h hr hfree hgrows'
    | lastInsertIdFailed code hgrows' hcode => exact .failed hcode (.inserted h hr hfree hgrows' (.inr rfl))
  | @insertLost _ t _ createdAt code hgrows hfree hcode =>
    have h := hs.trans hgrows
    have hinserted := h.table.insert hfree createdAt
    exact .failed hcode (.inserted h hr hfree (.refl hinserted.table) (.inr rfl))
  | @duplicate _ t _ row hgrows hrow =>
    have h := hs.trans hgrows
    exact .duplicate h hrow (.refl h.table)
  | @insertFailed _ t _ code hgrows hcode =>
    have h := hs.trans hgrows
    exact .failed hcode (.failed h (.refl h.table))

/-- **The statements of a call, among those of others, come to one call at one moment.** -/
theorem wp_saveMeetingMessage (hs : s.mysql.Table) :
    (saveMeetingMessage message).wp connection (AtOnce message redis s.mysql) s := by
  unfold saveMeetingMessage
  refine wp_ite (fun _ => AtOnce.failed (.refl hs) (.refl hs)) fun hr => ?_
  refine wp_step trivial fun connected s₁ hconnect => ?_
  have h : s.mysql.Grows s₁.mysql := by
    cases hconnect with
    | getConnection connected hgrows => exact hgrows
  refine wp_ite (fun _ => AtOnce.failed h (.refl h.table)) fun _ => ?_
  refine wp_seq (wp_insertMeetingMessage hr h redis) fun result s₂ htried => ?_
  cases result with
  | ok answer => exact htried
  | error code =>
    by_cases hcode : code = duplicateEntry
    · obtain ⟨t, row, hgrows, hrow, hs₂⟩ := (if_pos hcode).mp htried
      refine wp_ite (fun _ => ?_) fun hne => absurd hcode hne
      refine wp_step trivial fun found s₃ hload => ?_
      cases hload with
      | byUniqueKey _ hlater =>
        have hfound := (hs₂.trans hlater).byUniqueKey hrow
        refine AtOnce.repeated hgrows hr hrow (hs₂.trans hlater) (.inl ?_)
        rw [saved_loaded]
        exact hfound
      | byUniqueKeyFailed _ code hlater => exact AtOnce.repeated hgrows hr hrow (hs₂.trans hlater) (.inr rfl)
    · refine wp_ite (fun heq => absurd heq hcode) fun _ => ?_
      exact (if_neg hcode).mp htried

end MysqlMgr

end SyncRtc
