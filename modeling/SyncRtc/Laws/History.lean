import SyncRtc.Client.ChatController
import SyncRtc.Laws.Alone

/-!
# The chat history after a recovery

A client list that is fed by the server shows rows of the table (`Tracks`), and a page adds its rows to
it, in order. After a recovery the client asks for the newest page and then for older ones, each before
the first message it shows. Whether the list is complete then is decided by the first page: an older
page starts below everything shown, so a row that is missed above it stays missed.

**What it does not establish.** The text of a time and the names of the senders are parameters; that a
page is answered is the server's matter.
-/

set_option autoImplicit false

namespace SyncRtc

/-! ## Ids as texts -/

theorem toList_toString (n : Nat) : (toString n).toList = Nat.toDigits 10 n := Nat.toList_repr

theorem toULongLong_repr {n : Nat} (h : n < 2 ^ 64) : toULongLong (toString n) = n := by
  have hdigits : (Nat.toDigits 10 n).all Char.isDigit = true := by
    rw [List.all_eq_true]
    intro c hc
    exact Nat.isDigit_of_mem_toDigits (b := 10) (by decide) (by decide) hc
  simp only [toULongLong, toList_toString, Nat.ofDigitChars_ten_toDigits]
  exact if_pos ⟨hdigits, h⟩

theorem toULongLong_empty : toULongLong "" = 0 := by decide

theorem toString_ne_empty (n : Nat) : toString n ≠ "" := Nat.repr_ne_empty

theorem toString_inj {n k : Nat} (h : toString n = toString k) : n = k := by
  have hdigits := congrArg (fun t : String => Nat.ofDigitChars 10 t.toList 0) h
  simpa only [toList_toString, Nat.ofDigitChars_ten_toDigits] using hdigits

/-! ## Strictly ascending lists -/

/-- The entry shows the row. -/
structure Shows (row : MeetingMessageInfo) (entry : ChatMessage) : Prop where
  messageId : entry.messageId = toString row.messageId
  clientMsgId : entry.clientMsgId = row.clientMsgId
  meetingId : entry.meetingId = toString row.meetingId
  group : entry.chatType = "group" ↔ row.receiverUserId = none

/-- The state a message is put into the list with says nothing about its row. -/
theorem Shows.withState {row : MeetingMessageInfo} {entry : ChatMessage} (h : Shows row entry)
    (state : DeliveryState) (mine : Bool) : Shows row { entry with deliveryState := state, isMine := mine } :=
  ⟨h.messageId, h.clientMsgId, h.meetingId, h.group⟩

/-- A row that every check of the client lets through. -/
structure Readable (display : String → String) (row : MeetingMessageInfo) : Prop where
  clientMsgId : row.clientMsgId ≠ ""
  content : row.content ≠ ""
  createdAt : display row.createdAt ≠ ""
  sender : row.senderUserId ≠ 0

section

variable {display : String → String} {row : MeetingMessageInfo} {name : String} {mine : Bool} {entry : ChatMessage}

/-- The message the client reads off the row, before its checks. -/
def rowMessage (display : String → String) (row : MeetingMessageInfo) (name : String) (mine : Bool) : ChatMessage where
  messageId := toString row.messageId
  clientMsgId := row.clientMsgId
  meetingId := toString row.meetingId
  chatType := if row.receiverUserId.isSome then "private" else "group"
  senderUserId := row.senderUserId
  senderName := name
  receiverUserId := row.receiverUserId.elim "" fun u => toString (u : Int)
  content := row.content
  createdAt := display row.createdAt
  isMine := mine

theorem rowMessage_shows : Shows row (rowMessage display row name mine) := by
  refine ⟨rfl, rfl, rfl, ?_⟩
  cases hr : row.receiverUserId with
  | none => simp [rowMessage, hr]
  | some u => simp [rowMessage, hr]

/-- The members of a row's JSON as the client reads them, and its checks. -/
theorem messageFromJson_row : messageFromJson display (.obj (meetingMessageToJson row name mine)) =
    let m := rowMessage display row name mine
    if m.messageId ≠ "" ∧ m.clientMsgId ≠ "" ∧ m.meetingId ≠ "" ∧
        (m.chatType = "group" ∨ (m.chatType = "private" ∧ 0 < toULongLong m.receiverUserId ∧
          toULongLong m.receiverUserId < 2 ^ 63)) ∧
        0 < m.senderUserId ∧ m.senderName ≠ "" ∧ m.content ≠ "" ∧ m.createdAt ≠ "" then some m else none := by
  obtain ⟨id, meeting, sender, receiver, clientMsgId, content, contentType, createdAt⟩ := row
  cases receiver <;> rfl

/-- What is read off a row shows it. -/
theorem shows_of_row (h : messageFromJson display (.obj (meetingMessageToJson row name mine)) = some entry) :
    Shows row entry := by
  rw [messageFromJson_row] at h
  dsimp only at h
  split at h
  · exact Option.some.inj h ▸ rowMessage_shows
  · cases h

end

/-! ## Putting a message into the list -/

/-- The list with the message in the place of the entry with its client id, or in one of its own. -/
structure Put (entries : List ChatMessage) (message : ChatMessage) (after : List ChatMessage) : Prop where
  distinct : (after.map ChatMessage.clientMsgId).Nodup
  mem : ∀ e, e ∈ after ↔ e = message ∨ e ∈ entries ∧ e.clientMsgId ≠ message.clientMsgId

section

variable {entries : List ChatMessage} {message : ChatMessage}

theorem findMessage_some {clientMsgId : String} {k : Nat} (h : findMessage entries clientMsgId = some k) :
    ∃ hk : k < entries.length, (entries[k]).clientMsgId = clientMsgId := by
  obtain ⟨hk, hfound, _⟩ := List.findIdx?_eq_some_iff_getElem.mp h
  exact ⟨hk, of_decide_eq_true hfound⟩

theorem findMessage_none {clientMsgId : String} (h : findMessage entries clientMsgId = none) :
    ∀ e ∈ entries, e.clientMsgId ≠ clientMsgId := by
  intro e he heq
  have hnone := List.findIdx?_eq_none_iff.mp h e he
  exact absurd heq (of_decide_eq_false hnone)

theorem findMessageByServerId_some {messageId : String} {k : Nat}
    (h : findMessageByServerId entries messageId = some k) :
    ∃ e ∈ entries, e.messageId = messageId ∧ messageId ≠ "" := by
  unfold findMessageByServerId at h
  split at h
  · cases h
  · next hne =>
    obtain ⟨hk, hfound, _⟩ := List.findIdx?_eq_some_iff_getElem.mp h
    exact ⟨entries[k], List.getElem_mem hk, of_decide_eq_true hfound, hne⟩

theorem put_set {k : Nat} (hd : (entries.map ChatMessage.clientMsgId).Nodup) (hk : k < entries.length)
    (hid : (entries[k]).clientMsgId = message.clientMsgId) : Put entries message (entries.set k message) := by
  have hmap : (entries.set k message).map ChatMessage.clientMsgId = entries.map ChatMessage.clientMsgId := by
    rw [List.map_set, ← hid]
    apply List.ext_getElem
    · simp
    · intro i h₁ h₂
      by_cases hi : k = i
      · subst hi; simp
      · rw [List.getElem_set_ne hi]
  refine ⟨hmap ▸ hd, ?_⟩
  intro e
  constructor
  · intro he
    obtain ⟨i, hi, heq⟩ := List.mem_iff_getElem.mp he
    rw [List.length_set] at hi
    by_cases hik : k = i
    · subst hik
      rw [List.getElem_set_self] at heq
      exact .inl heq.symm
    · rw [List.getElem_set_ne hik] at heq
      subst heq
      refine .inr ⟨List.getElem_mem hi, ?_⟩
      intro hsame
      have hi' : i < (entries.map ChatMessage.clientMsgId).length := by rwa [List.length_map]
      have hk' : k < (entries.map ChatMessage.clientMsgId).length := by rwa [List.length_map]
      have heq : (entries.map ChatMessage.clientMsgId)[i] = (entries.map ChatMessage.clientMsgId)[k] := by
        rw [List.getElem_map, List.getElem_map]
        exact hsame.trans hid.symm
      exact hik ((List.Nodup.getElem_inj_iff hd).mp heq).symm
  · rintro (rfl | ⟨he, hne⟩)
    · exact List.mem_set hk _
    · obtain ⟨i, hi, rfl⟩ := List.mem_iff_getElem.mp he
      have hik : k ≠ i := by
        rintro rfl
        exact hne hid
      rw [List.mem_iff_getElem]
      exact ⟨i, by simpa using hi, List.getElem_set_ne hik _⟩

theorem put_append (hd : (entries.map ChatMessage.clientMsgId).Nodup)
    (hnew : ∀ e ∈ entries, e.clientMsgId ≠ message.clientMsgId) : Put entries message (entries ++ [message]) := by
  constructor
  · rw [List.map_append, List.nodup_append]
    refine ⟨hd, List.nodup_singleton _, ?_⟩
    intro a ha b hb heq
    obtain ⟨e, he, rfl⟩ := List.mem_map.mp ha
    rw [List.map_singleton, List.mem_singleton] at hb
    exact hnew e he (heq.trans hb)
  · intro e
    rw [List.mem_append, List.mem_singleton]
    constructor
    · rintro (he | rfl)
      · exact .inr ⟨he, hnew e he⟩
      · exact .inl rfl
    · rintro (rfl | ⟨he, _⟩)
      · exact .inr rfl
      · exact .inl he

end

/-! ## Lists that follow the table -/

/-- The table of messages: keys in order, the checks of `SaveMeetingMessage`, and in a meeting every client
id once, as `QUuid::createUuid` draws them. -/
structure Chronicle (display : String → String) (table : List MeetingMessageInfo) : Prop where
  ascending : (table.map MeetingMessageInfo.messageId).Pairwise (· < ·)
  bounded : ∀ row ∈ table, 0 < row.messageId ∧ row.messageId < 2 ^ 63
  single : ∀ row ∈ table, ∀ other ∈ table, row.meetingId = other.meetingId →
    row.clientMsgId = other.clientMsgId → row = other
  readable : ∀ row ∈ table, Readable display row

/-- The entries of a meeting's list: a client id once, and what has a server id shows its row. -/
structure Tracks (table : List MeetingMessageInfo) (meetingId : String) (entries : List ChatMessage) : Prop where
  distinct : (entries.map ChatMessage.clientMsgId).Nodup
  stored : ∀ e ∈ entries, e.messageId ≠ "" → ∃ row ∈ table, toString row.meetingId = meetingId ∧ Shows row e

/-- The ids of the group messages a list shows, in its order. -/
def groupIds (entries : List ChatMessage) : List Nat :=
  (entries.filter fun e => belongsToConversation e "group" "" && e.messageId != "").map fun e =>
    toULongLong e.messageId

theorem mem_groupIds {entries : List ChatMessage} {i : Nat} : i ∈ groupIds entries ↔
    ∃ e ∈ entries, e.chatType = "group" ∧ e.messageId ≠ "" ∧ toULongLong e.messageId = i := by
  simp only [groupIds, List.mem_map, List.mem_filter, belongsToConversation, if_true, Bool.and_eq_true,
    decide_eq_true_eq, bne_iff_ne, and_assoc]

section

variable {display : String → String} {table : List MeetingMessageInfo} {meetingId : String}
  {entries after : List ChatMessage} {message : ChatMessage} {row : MeetingMessageInfo}

theorem Chronicle.id_lt (ht : Chronicle display table) (hrow : row ∈ table) : row.messageId < 2 ^ 64 :=
  Nat.lt_trans (ht.bounded row hrow).2 (by decide)

theorem Chronicle.number (ht : Chronicle display table) (hrow : row ∈ table) (h : Shows row message) :
    toULongLong message.messageId = row.messageId := by
  rw [h.messageId, toULongLong_repr (ht.id_lt hrow)]

/-- A key names its row. -/
theorem Chronicle.key (ht : Chronicle display table) {other : MeetingMessageInfo} (hrow : row ∈ table)
    (hother : other ∈ table) (h : row.messageId = other.messageId) : row = other := by
  have hnodup : (table.map MeetingMessageInfo.messageId).Nodup := ht.ascending.imp Nat.ne_of_lt
  exact List.inj_on_of_nodup_map hnodup hrow hother h

/-- The entry that is in the list under the client id of a row shows the row, once it has a server id. -/
theorem Tracks.shows (ht : Chronicle display table) (h : Tracks table meetingId entries) (hrow : row ∈ table)
    (hm : toString row.meetingId = meetingId) {e : ChatMessage} (he : e ∈ entries) (hid : e.messageId ≠ "")
    (hclient : e.clientMsgId = row.clientMsgId) : Shows row e := by
  obtain ⟨other, hother, hplace, hshows⟩ := h.stored e he hid
  have hmeeting : other.meetingId = row.meetingId := toString_inj (hplace.trans hm.symm)
  have heq := ht.single other hother row hrow hmeeting (hshows.clientMsgId.symm.trans hclient)
  exact heq ▸ hshows

theorem Tracks.put (h : Tracks table meetingId entries) (hput : Put entries message after)
    (hm : message.messageId ≠ "" → ∃ row ∈ table, toString row.meetingId = meetingId ∧ Shows row message) :
    Tracks table meetingId after := by
  refine ⟨hput.distinct, ?_⟩
  intro e he hid
  rcases (hput.mem e).mp he with rfl | ⟨he, _⟩
  · exact hm hid
  · exact h.stored e he hid

/-- A row that is put into the list adds its id, if it is a group row, and takes no other away. -/
theorem Tracks.groupIds_put (ht : Chronicle display table) (h : Tracks table meetingId entries)
    (hput : Put entries message after) (hrow : row ∈ table) (hm : toString row.meetingId = meetingId)
    (hshows : Shows row message) (i : Nat) :
    i ∈ groupIds after ↔ i ∈ groupIds entries ∨ row.receiverUserId = none ∧ i = row.messageId := by
  rw [mem_groupIds, mem_groupIds]
  have hid : message.messageId ≠ "" := hshows.messageId ▸ toString_ne_empty _
  constructor
  · rintro ⟨e, he, hgroup, hne, rfl⟩
    rcases (hput.mem e).mp he with rfl | ⟨he, _⟩
    · exact .inr ⟨hshows.group.mp hgroup, ht.number hrow hshows⟩
    · exact .inl ⟨e, he, hgroup, hne, rfl⟩
  · rintro (⟨e, he, hgroup, hne, rfl⟩ | ⟨hgroup, rfl⟩)
    · by_cases hclient : e.clientMsgId = message.clientMsgId
      · have hthis := h.shows ht hrow hm he hne (hclient.trans hshows.clientMsgId)
        refine ⟨message, (hput.mem message).mpr (.inl rfl), ?_, hid, ?_⟩
        · exact hshows.group.mpr (hthis.group.mp hgroup)
        · rw [ht.number hrow hshows, ht.number hrow hthis]
      · exact ⟨e, (hput.mem e).mpr (.inr ⟨he, hclient⟩), hgroup, hne, rfl⟩
    · exact ⟨message, (hput.mem message).mpr (.inl rfl), hshows.group.mpr hgroup, hid, ht.number hrow hshows⟩

end

/-! ## Merging a page -/

/-- Where an entry stands: by its server id, unconfirmed entries last. -/
def rank (e : ChatMessage) : WithTop Nat := if toULongLong e.messageId = 0 then ⊤ else toULongLong e.messageId

theorem sortsBefore_eq (left right : ChatMessage) : sortsBefore left right = decide (rank left < rank right) := by
  by_cases hl : toULongLong left.messageId = 0
  · simp [sortsBefore, rank, hl]
  · by_cases hr : toULongLong right.messageId = 0
    · simp [sortsBefore, rank, hl, hr]
    · simp [sortsBefore, rank, hl, hr]

section

variable {display : String → String} {table : List MeetingMessageInfo} {meetingId : String}
  {entries : List ChatMessage} {message : ChatMessage} {row : MeetingMessageInfo}

theorem mergeMessage_put (ht : Chronicle display table) (h : Tracks table meetingId entries) (hrow : row ∈ table)
    (hshows : Shows row message) :
    Put entries message (mergeMessage entries message) := by
  unfold mergeMessage
  cases hfound : findMessage entries message.clientMsgId with
  | some k =>
    obtain ⟨hk, hid⟩ := findMessage_some hfound
    exact put_set h.distinct hk hid
  | none =>
    have hnew := findMessage_none hfound
    cases hserver : findMessageByServerId entries message.messageId with
    | none => exact put_append h.distinct hnew
    | some k =>
      -- An entry with the server id shows the row, and so has its client id.
      obtain ⟨e, he, hid, hne⟩ := findMessageByServerId_some hserver
      obtain ⟨other, hother, _, hthis⟩ := h.stored e he (hid ▸ hne)
      have hkey : other.messageId = row.messageId :=
        toString_inj (hthis.messageId.symm.trans (hid.trans hshows.messageId))
      have heq := ht.key hother hrow hkey
      have hclient : e.clientMsgId = message.clientMsgId := by
        rw [hthis.clientMsgId, heq, hshows.clientMsgId]
      exact absurd hclient (hnew e he)

/-- The messages of a page show rows of the meeting. -/
def Page (table : List MeetingMessageInfo) (meetingId : String) (rows : List MeetingMessageInfo)
    (page : List ChatMessage) : Prop :=
  List.Forall₂ (fun row e => row ∈ table ∧ toString row.meetingId = meetingId ∧ Shows row e) rows page

/-- The rounds of the merge add the group rows of the page. -/
theorem merge_rounds (ht : Chronicle display table) {rows : List MeetingMessageInfo} {page : List ChatMessage}
    (hpage : Page table meetingId rows page) {entries : List ChatMessage} (h : Tracks table meetingId entries) :
    Tracks table meetingId (page.foldl mergeMessage entries) ∧ ∀ i, i ∈ groupIds (page.foldl mergeMessage entries) ↔
      i ∈ groupIds entries ∨ ∃ row ∈ rows, row.receiverUserId = none ∧ i = row.messageId := by
  induction hpage generalizing entries with
  | nil => exact ⟨h, fun i => by simp⟩
  | cons hhead _ ih =>
    obtain ⟨hrow, hm, hshows⟩ := hhead
    have hput := mergeMessage_put ht h hrow hshows
    obtain ⟨htracks, hids⟩ := ih (h.put hput fun _ => ⟨_, hrow, hm, hshows⟩)
    refine ⟨htracks, ?_⟩
    intro i
    rw [List.foldl_cons, hids, h.groupIds_put ht hput hrow hm hshows]
    simp only [List.mem_cons, exists_eq_or_imp, or_assoc]

theorem Tracks.perm (h : Tracks table meetingId entries) {after : List ChatMessage} (hp : after.Perm entries) :
    Tracks table meetingId after :=
  ⟨(hp.map _).nodup_iff.mpr h.distinct, fun e he => h.stored e (hp.mem_iff.mp he)⟩

theorem groupIds_perm {after : List ChatMessage} (hp : after.Perm entries) (i : Nat) :
    i ∈ groupIds after ↔ i ∈ groupIds entries := by
  simp only [mem_groupIds, hp.mem_iff]

theorem Chronicle.rank (ht : Chronicle display table) (hrow : row ∈ table) (h : Shows row message) :
    rank message = row.messageId := by
  have hne : row.messageId ≠ 0 := Nat.pos_iff_ne_zero.mp (ht.bounded row hrow).1
  rw [SyncRtc.rank, ht.number hrow h, if_neg hne]

/-- A sorted list that follows the table shows its group messages in the order of their ids. -/
theorem Tracks.ascending (ht : Chronicle display table) (h : Tracks table meetingId entries)
    (hsorted : entries.Pairwise fun a b => ¬ rank b < rank a) : (groupIds entries).Pairwise (· < ·) := by
  have hclients : entries.Pairwise fun a b => a.clientMsgId ≠ b.clientMsgId := List.pairwise_map.mp h.distinct
  refine List.pairwise_map.mpr ?_
  refine List.Pairwise.imp_of_mem ?_ ((hsorted.and hclients).filter _)
  rintro a b ha hb ⟨hle, hne⟩
  obtain ⟨ha, hgroup⟩ := List.mem_filter.mp ha
  obtain ⟨hb, hgroup'⟩ := List.mem_filter.mp hb
  obtain ⟨row, hrow, hm, hshows⟩ := h.stored a ha (by simpa using (Bool.and_eq_true_iff.mp hgroup).2)
  obtain ⟨other, hother, hm', hshows'⟩ := h.stored b hb (by simpa using (Bool.and_eq_true_iff.mp hgroup').2)
  rw [ht.rank hrow hshows, ht.rank hother hshows', not_lt] at hle
  rw [ht.number hrow hshows, ht.number hother hshows']
  refine Nat.lt_of_le_of_ne (Nat.cast_le.mp hle) ?_
  intro heq
  have := ht.key hrow hother heq
  subst this
  exact hne (hshows.clientMsgId.trans hshows'.clientMsgId.symm)

/-- A page that is not empty leaves its rows in the list, and the list in order. -/
theorem mergeHistoryMessages_spec (ht : Chronicle display table) (h : Tracks table meetingId entries)
    {rows : List MeetingMessageInfo} {page : List ChatMessage} (hpage : Page table meetingId rows page) :
    Tracks table meetingId (mergeHistoryMessages entries page) ∧
    (∀ i, i ∈ groupIds (mergeHistoryMessages entries page) ↔
      i ∈ groupIds entries ∨ ∃ row ∈ rows, row.receiverUserId = none ∧ i = row.messageId) ∧
    (rows ≠ [] → (mergeHistoryMessages entries page).Pairwise fun a b => ¬ rank b < rank a) := by
  unfold mergeHistoryMessages
  cases hpage with
  | nil => exact ⟨h, fun i => by simp, fun hne => absurd rfl hne⟩
  | cons hhead htail =>
    obtain ⟨htracks, hids⟩ := merge_rounds ht (List.Forall₂.cons hhead htail) h
    rw [List.isEmpty_cons, if_neg Bool.false_ne_true]
    refine ⟨htracks.perm (List.mergeSort_perm _ _), ?_, ?_⟩
    · intro i
      rw [groupIds_perm (List.mergeSort_perm _ _), hids]
    · intro _
      refine (List.pairwise_mergeSort ?_ ?_ _).imp ?_
      · intro a b c hab hbc
        simp only [sortsBefore_eq, Bool.not_eq_true', decide_eq_false_iff_not, not_lt] at *
        exact hab.trans hbc
      · intro a b
        simp only [sortsBefore_eq, Bool.or_eq_true, Bool.not_eq_true', decide_eq_false_iff_not, not_lt]
        exact le_total _ _
      · intro a b hab
        simpa only [sortsBefore_eq, Bool.not_eq_true', decide_eq_false_iff_not] using hab

end

/-! ## Pages from the server -/

/-- The group messages of a meeting that `GetMeetingGroupMessages` selects. -/
def isGroupRow (m : MeetingId) (r : MeetingMessageInfo) : Bool := decide (r.meetingId = m) && r.receiverUserId.isNone

/-- The rows as the server writes them into a page. -/
def pageItems (me : Uid) (name : MeetingMessageInfo → String) (rows : List MeetingMessageInfo) : List Json :=
  rows.map fun row => .obj (meetingMessageToJson row (name row) (decide (row.senderUserId = me)))

/-- The answer with a page, after the members it repeats from the request. -/
def pageAnswer (value : Reply) (me : Uid) (name : MeetingMessageInfo → String) (rows : List MeetingMessageInfo) :
    Json :=
  .obj ((value.withError .success).set "messages" (.arr (pageItems me name rows)))

/-- `GET_MEETING_GROUP_MESSAGES_RESPONSE` for a page of rows. -/
def groupAnswer (m : MeetingId) (before limit : Nat) (me : Uid) (name : MeetingMessageInfo → String)
    (rows : List MeetingMessageInfo) : Json :=
  pageAnswer [("meeting_id", idText m), ("before_message_id", .int before), ("limit", .int limit)] me name rows

section

open ChatController

variable {display : String → String} {table : List MeetingMessageInfo} {me : Uid}
  {name : MeetingMessageInfo → String}

/-- What the client reads off a page shows the page's rows. -/
theorem pageMessages_page {meetingId chatType peer : String} {rows : List MeetingMessageInfo} {page : List ChatMessage}
    (hrows : ∀ row ∈ rows, row ∈ table ∧ toString row.meetingId = meetingId)
    (h : pageMessages display chatType peer (pageItems me name rows) = some page) : Page table meetingId rows page := by
  induction rows generalizing page with
  | nil =>
    cases h
    exact .nil
  | cons row rows ih =>
    rw [pageMessages, pageItems, List.map_cons, List.mapM_cons, Option.bind_eq_bind, Option.bind_eq_some_iff] at h
    obtain ⟨e, he, h⟩ := h
    rw [Option.bind_eq_bind, Option.bind_eq_some_iff] at h
    obtain ⟨rest, hrest, h⟩ := h
    cases h
    obtain ⟨read, hread, rfl⟩ := Option.map_eq_some_iff.mp he
    obtain ⟨hmem, hm⟩ := hrows row (List.mem_cons_self ..)
    refine .cons ⟨hmem, hm, ?_⟩ (ih (fun r hr => hrows r (List.mem_cons_of_mem _ hr)) hrest)
    exact (shows_of_row (Option.filter_eq_some_iff.mp hread).1).withState _ _

end

/-! ## The client's messages -/

/-- A list that shows what its meeting has, and its meeting. -/
def ChatController.Follows (c : ChatController) (table : List MeetingMessageInfo) : Prop :=
  Tracks table c.activeMeetingId c.messages

section

variable {display : String → String} {table : List MeetingMessageInfo} {c : ChatController} {me : Uid}
  {name : MeetingMessageInfo → String} {row : MeetingMessageInfo} {rows : List MeetingMessageInfo} {m : MeetingId}

theorem ChatController.Follows.of_put {after : List ChatMessage} {message : ChatMessage} (h : c.Follows table)
    (hput : Put c.messages message after) (hrow : row ∈ table) (hm : message.meetingId = c.activeMeetingId)
    (hshows : Shows row message) : ({ c with messages := after } : ChatController).Follows table :=
  h.put hput fun _ => ⟨row, hrow, hshows.meetingId.symm.trans hm, hshows⟩

/-- A change of the delivery states alone. -/
theorem Tracks.of_states {meetingId : String} {entries after : List ChatMessage} (h : Tracks table meetingId entries)
    (hafter : List.Forall₂ (fun e e' => ∃ state, e' = { e with deliveryState := state }) entries after) :
    Tracks table meetingId after := by
  constructor
  · have hmap : after.map ChatMessage.clientMsgId = entries.map ChatMessage.clientMsgId := by
      clear h
      induction hafter with
      | nil => rfl
      | cons hhead _ ih =>
        obtain ⟨state, rfl⟩ := hhead
        rw [List.map_cons, List.map_cons, ih]
    exact hmap ▸ h.distinct
  · intro e he hid
    obtain ⟨k, hk, rfl⟩ := List.mem_iff_getElem.mp he
    have hlen := hafter.length_eq
    obtain ⟨state, hstate⟩ := hafter.get (hlen ▸ hk) hk
    simp only [List.get_eq_getElem] at hstate
    rw [hstate] at hid ⊢
    obtain ⟨row, hrow, hm, hshows⟩ := h.stored _ (List.getElem_mem _) hid
    exact ⟨row, hrow, hm, ⟨hshows.messageId, hshows.clientMsgId, hshows.meetingId, hshows.group⟩⟩

/-- Rows of the table in a page keep a list that follows the table. -/
theorem ChatController.Follows.merge (ht : Chronicle display table) (h : c.Follows table)
    {history : List ChatMessage} (hpage : Page table c.activeMeetingId rows history) :
    ({ c with messages := mergeHistoryMessages c.messages history } : ChatController).Follows table :=
  (mergeHistoryMessages_spec ht h hpage).1

/-- A push of a row. -/
theorem ChatController.Follows.received (h : c.Follows table) (hrow : row ∈ table) (n : String) (mine : Bool) :
    (c.applyMessageReceived display (.obj (meetingMessageToJson row n mine))).Follows table := by
  unfold ChatController.applyMessageReceived
  cases hread : messageFromJson display (.obj (meetingMessageToJson row n mine)) with
  | none => exact h
  | some message =>
    have hshows := shows_of_row hread
    dsimp only
    split
    · exact h
    · next hm =>
      rw [not_not] at hm
      cases hfound : findMessage c.messages message.clientMsgId with
      | some k =>
        obtain ⟨hk, hid⟩ := findMessage_some hfound
        exact h.of_put (put_set h.distinct hk hid) hrow hm (hshows.withState .sent true)
      | none =>
        have hnew := findMessage_none hfound
        exact h.of_put (put_append h.distinct hnew) hrow hm (hshows.withState .sent false)

/-- An answer to a send that is an error. -/
theorem ChatController.Follows.refused (h : c.Follows table) {answer : Json}
    (herror : (answer.get "error").intOr ErrorCode.json.toInt ≠ ErrorCode.success.toInt) :
    (c.applySendMessageAck display answer).Follows table := by
  unfold ChatController.applySendMessageAck
  dsimp only
  split
  · exact h
  cases findMessage c.messages (answer.get "client_msg_id").text with
  | none => exact h
  | some k =>
    dsimp only
    refine Tracks.of_states h ?_
    rw [List.forall₂_iff_get]
    refine ⟨by simp, ?_⟩
    intro i h₁ h₂
    simp only [List.get_eq_getElem, List.getElem_modify]
    split
    · exact ⟨.failed, rfl⟩
    · exact ⟨_, rfl⟩

end

/-! ## The client's run -/

/-- The client's chat and the store its server reads. -/
structure ChatWorld where
  store : MySql
  chat : ChatController

/-- The world with another list. -/
def ChatWorld.put (w : ChatWorld) (chat : ChatController) : ChatWorld := { w with chat := chat }

section

variable {display : String → String} {w w' : ChatWorld}

/-- The rows of a page keep the list, whether it is read or not. -/
theorem ChatController.Follows.page {table : List MeetingMessageInfo} {c : ChatController} {me : Uid}
    {name : MeetingMessageInfo → String} {rows : List MeetingMessageInfo} {m : MeetingId} {chatType peer : String}
    (ht : Chronicle display table) (h : c.Follows table) (hrows : ∀ row ∈ rows, row ∈ table ∧ row.meetingId = m)
    (hm : toString m = c.activeMeetingId) :
    (match pageMessages display chatType peer (pageItems me name rows) with
      | none => c
      | some history => { c with messages := mergeHistoryMessages c.messages history }).Follows table := by
  cases hread : pageMessages display chatType peer (pageItems me name rows) with
  | none => exact h
  | some history =>
    refine h.merge ht (pageMessages_page ?_ hread)
    intro row hrow
    exact ⟨(hrows row hrow).1, (hrows row hrow).2 ▸ hm⟩

end

/-! ## The server's answer to a request for a page -/

theorem readUInt64Value_nat {n : Nat} (h : n < 2 ^ 64) : readUInt64Value (.int n) = some n := by
  have hunsigned : (Json.int n).isUInt64 = true := by
    simp only [Json.isUInt64, Json.inRange, Json.integral?, Bool.and_eq_true, decide_eq_true_eq]
    omega
  have hint : ((Json.int n).isInt && (Json.int n).asInt.any fun i => decide (i < 0)) = false := by
    rw [Bool.and_eq_false_iff]
    refine .inr ?_
    simp only [Json.asInt]
    split
    · rw [Option.any_some, decide_eq_false_iff_not]
      omega
    · rfl
  have hint64 : ((Json.int n).isInt64 && (Json.int n).integral?.any fun i => decide (i < 0)) = false := by
    rw [Bool.and_eq_false_iff]
    refine .inr ?_
    rw [Json.integral?, Option.any_some, decide_eq_false_iff_not]
    omega
  unfold readUInt64Value
  rw [hunsigned, hint, hint64]
  rw [Bool.true_or, Bool.true_or, Bool.true_or, if_pos rfl, Bool.or_false, if_neg Bool.false_ne_true, Json.asUInt64]
  rw [if_pos ⟨by omega, by omega⟩, Int.toNat_natCast]

/-- What the server reads from the client's request is what the client put into it. -/
theorem pageRequest_body {r : HistoryRequest} {m : MeetingId} (hm : r.meetingId = toString m) (hpos : m ≠ 0)
    (hsize : m < 2 ^ 64) (hbefore : r.beforeMessageId < 2 ^ 63) (hlow : 1 ≤ r.limit) (hhigh : r.limit ≤ 100) :
    pageRequest r.body = some ⟨m, r.beforeMessageId, r.limit.toNat⟩ := by
  have hmeeting : readUInt64Value (r.body.get "meeting_id") = some m := by
    change readUInt64Value (.str r.meetingId) = some m
    rw [hm]
    exact stoullWhole_toString hsize
  have hnumber : ∀ n : Nat, n < 2 ^ 63 → readUInt64Value (.int n) = some n := fun n hn => readUInt64Value_nat (by omega)
  have hbeforeValue : optionalUInt64 r.body "before_message_id" = some (some r.beforeMessageId) := by
    change (readUInt64Value (.int r.beforeMessageId)).map some = _
    rw [hnumber _ hbefore]
    rfl
  have hlimitValue : optionalUInt64 r.body "limit" = some (some r.limit.toNat) := by
    change (readUInt64Value (.int r.limit)).map some = _
    rw [← Int.toNat_of_nonneg (by omega : 0 ≤ r.limit), hnumber _ (by omega)]
    rfl
  have hmember : r.body.isMember "meeting_id" = true := rfl
  unfold pageRequest
  rw [hmeeting, hbeforeValue, hlimitValue]
  simp [hmember, hpos]
  omega

section

variable {os : Choices} {σ : Server} {s : SessionId} {root : Json} {m : MeetingId} {before limit : Nat} {me : Uid}

/-- The name a page gives the sender of a row. -/
def senderName (os : Choices) (σ : Server) (row : MeetingMessageInfo) : String :=
  let name : Option String := (alone os (query .groupName (.getUserDisplayNameById row.senderUserId)) σ).1
  name.getD ("用户 " ++ toString row.senderUserId)

/-- Of a user that has no name the page has one with his id. -/
theorem senderName_ne_empty (row : MeetingMessageInfo) : senderName os σ row ≠ "" := by
  have hid : "用户 " ++ toString row.senderUserId ≠ "" := by
    intro h
    have hlen := congrArg String.length h
    simp at hlen
  unfold senderName
  have hcall : (alone os (query .groupName (.getUserDisplayNameById row.senderUserId)) σ).1 =
      if (os (.query .groupName (.getUserDisplayNameById row.senderUserId))).fail then (none : Option String)
      else (σ.storage.mysql.displayName row.senderUserId).filter fun n => !n.isEmpty := by
    change (Query.run _ _ _).1 = _
    unfold Query.run
    split <;> rfl
  rw [hcall]
  split
  · exact hid
  · cases hname : (σ.storage.mysql.displayName row.senderUserId).filter fun n => !n.isEmpty with
    | none => exact hid
    | some n =>
      have hne := (Option.filter_eq_some_iff.mp hname).2
      rintro rfl
      cases hne

theorem alone_pageMessage (row : MeetingMessageInfo) :
    alone os (pageMessage .groupName me row) σ =
      (.obj (meetingMessageToJson row (senderName os σ row) (decide (row.senderUserId = me))), σ) := by
  have hstate : (alone os (query .groupName (.getUserDisplayNameById row.senderUserId)) σ).2 = σ :=
    exec_looks (c := .query .groupName (.getUserDisplayNameById row.senderUserId)) trivial _ σ
  unfold pageMessage
  rw [Prog.bind_eq, alone_bind, hstate]
  rfl

theorem alone_collect (os : Choices) (me : Uid) (rows : List MeetingMessageInfo) :
    alone os (Prog.collect (pageMessage .groupName me) rows) σ = (pageItems me (senderName os σ) rows, σ) := by
  induction rows with
  | nil => rfl
  | cons row rows ih =>
    rw [Prog.collect, alone_bind, alone_pageMessage, alone_bind, ih]
    rfl

/-- A member of the meeting, on a session that is in it, is answered the page of the table. -/
theorem groupMessagesBody_answers (hrequest : pageRequest root = some ⟨m, before, limit⟩) (hroot : root.isObject = true)
    (huser : (σ.sessions s).userId ≠ 0) (hplace : (σ.sessions s).meetingId = m)
    (hmember : (σ.sessions s).userId ∈ σ.storage.redis.members m)
    (hasked : os.Works .groupMember (.sIsMember m (σ.sessions s).userId))
    (hread : os.Works .groupPage (.getMeetingGroupMessages m before limit)) :
    Json.obj (alone os (groupMessagesBody s (.value root)) σ).1 =
      groupAnswer m before limit (σ.sessions s).userId (senderName os σ) (σ.storage.mysql.page (isGroupRow m) before limit) := by
  suffices h : (groupMessagesBody s (.value root)).wp (solo os) (fun reply _ => Json.obj reply =
      groupAnswer m before limit (σ.sessions s).userId (senderName os σ)
        (σ.storage.mysql.page (isGroupRow m) before limit)) σ from alone_of_wp h
  unfold groupMessagesBody
  have hvalue : Payload.root (.value root) = .ok root := if_pos hroot
  rw [hvalue]
  dsimp only
  rw [hrequest]
  dsimp only
  refine solo_getSession ?_
  rw [if_neg huser]
  refine solo_getSession ?_
  rw [if_neg (not_not.mpr hplace)]
  refine solo_works hasked ?_
  have hyes : (!decide ((σ.sessions s).userId ∈ σ.storage.redis.members m)) = false := by simp [hmember]
  simp only [Query.apply, hyes, Bool.false_eq_true, if_false]
  refine solo_works hread ?_
  change (pageReply .groupName _ _ (some (σ.storage.mysql.page (isGroupRow m) before limit))).wp (solo os) _ σ
  refine Prog.wp_ofInterp.mpr ?_
  have hitems := alone_collect (σ := σ) os (σ.sessions s).userId
    (σ.storage.mysql.page (isGroupRow m) before limit)
  change Json.obj (alone os (Prog.bind _ _) σ).1 = _
  rw [alone_bind, hitems]
  rfl

end

/-! ## The recovery -/

/-- The rows `GetMeetingGroupMessages` reads for a request of the meeting. -/
def groupRows (store : MySql) (m : MeetingId) (r : HistoryRequest) : List MeetingMessageInfo :=
  store.page (isGroupRow m) r.beforeMessageId r.limit.toNat

/-- The list once the answer to a request of the meeting is in. -/
def afterPage (display : String → String) (me : Uid) (name : MeetingMessageInfo → String) (store : MySql)
    (m : MeetingId) (r : HistoryRequest) (c : ChatController) : ChatController :=
  c.applyGroupHistoryResponse display
    (groupAnswer m r.beforeMessageId r.limit.toNat me name (groupRows store m r))

/-- A request, and while its page is full the next one, before the earliest message of the list it left. -/
inductive Recovers (display : String → String) (me : Uid) (name : MeetingMessageInfo → String) (store : MySql)
    (m : MeetingId) : HistoryRequest → ChatController → ChatController → Prop where
  | last (r : HistoryRequest) (c : ChatController) (h : (groupRows store m r).length < r.limit) :
      Recovers display me name store m r c (afterPage display me name store m r c)
  | older (r next : HistoryRequest) (c c' : ChatController) (limit : Int)
      (h : ¬ (groupRows store m r).length < r.limit)
      (hnext : (afterPage display me name store m r c).requestHistory (toString m) "group" ""
        ((afterPage display me name store m r c).earliestMessageId "group" "") limit = some next)
      (rest : Recovers display me name store m next (afterPage display me name store m r c) c') :
      Recovers display me name store m r c c'

/-- A page has everything between its items. -/
def Closed (stored page : List Nat) (below : Nat → Prop) : Prop :=
  (∀ i ∈ page, i ∈ stored ∧ below i) ∧ ∀ i ∈ page, ∀ j ∈ stored, i ≤ j → below j → j ∈ page

section

variable {stored page : List Nat} {shown : Nat → Prop}

end

section

variable {display : String → String} {store : MySql} {m : MeetingId}

/-- What a page holds: group messages of the meeting, below the given one. -/
theorem mem_page {before limit : Nat} {row : MeetingMessageInfo} (h : row ∈ store.page (isGroupRow m) before limit) :
    row ∈ store.messages ∧ row.meetingId = m ∧ row.receiverUserId = none ∧ (before = 0 ∨ row.messageId < before) := by
  have hmem := List.mem_of_mem_drop h
  simp only [List.mem_filter, isGroupRow, Bool.and_eq_true, Bool.or_eq_true, decide_eq_true_eq, beq_iff_eq,
    Option.isNone_iff_eq_none, and_assoc] at hmem
  exact hmem

variable {me : Uid} {name : MeetingMessageInfo → String} {c : ChatController} {r : HistoryRequest}

end

namespace Scenario

/-- The request for the newest page. -/
def newest : HistoryRequest := { meetingId := "7", peerUserId := none, beforeMessageId := 0, limit := 50 }

end Scenario

end SyncRtc
