import SyncRtc.Laws.Pushes
import SyncRtc.Lib.Upsert

/-!
# Merging a page of the history

`mergeHistoryMessages` looks for a message's row by its client id, whoever has sent it. Where the ids of the table hold, the
server id finds nothing that the client id has not found, and a round is `upsert` by the client id
(`mergeMessages_eq`). So the messages of one client id form a class of their own, and the merge of a page is read off its
classes (`classOf_upserts`).

**The law** (`merge_iff`): a merge loses and duplicates nothing, counts the new rows, leaves the list in order and does
nothing a second time, exactly when in each class the last message of the page takes the place of its own row, stands
before the rows of the other senders, and the earlier ones are listed already.

**What it does not establish.** The rows of one meeting are looked at; the list holds none of them twice.
-/

set_option autoImplicit false

namespace SyncRtc

/-! ## Rows and their keys -/

/-- The key of a row besides its server id: client ids are one sender's own. -/
def senderKey (me : Int) (m : ChatMessage) : Int × String := (senderOf me m, m.clientMsgId)

/-- The listed message and the one of the page are the same: by the server id, or by the sender's client id. -/
def Identified (me : Int) (e p : ChatMessage) : Prop :=
  e.messageId = p.messageId ∨ senderOf me e = p.senderUserId ∧ e.clientMsgId = p.clientMsgId

instance (me : Int) (e p : ChatMessage) : Decidable (Identified me e p) := inferInstanceAs (Decidable (_ ∨ _))

/-- A message with no server id yet. -/
def isUnconfirmed (m : ChatMessage) : Bool := m.messageId = ""

/-- A server id: the decimal text of a positive number of 64 bits. -/
def IsServerId (text : String) : Prop := ∃ n, 0 < n ∧ n < 2 ^ 64 ∧ text = toString n

/-- The list and the page show rows of one table: the server id is its key, and so are sender and client id; the list has
no row twice, and the page no server id. -/
structure Coherent (me : Int) (entries page : List ChatMessage) : Prop where
  listed : ∀ e ∈ entries, e.messageId = "" ∨ IsServerId e.messageId
  stored : ∀ p ∈ page, IsServerId p.messageId
  keys : ∀ a ∈ entries ++ page, ∀ b ∈ entries ++ page, a.messageId ≠ "" → b.messageId ≠ "" →
    (a.messageId = b.messageId ↔ senderKey me a = senderKey me b)
  distinct : (entries.map (senderKey me)).Nodup
  ids : (page.map ChatMessage.messageId).Nodup

theorem IsServerId.ne_empty {text : String} (h : IsServerId text) : text ≠ "" := by
  obtain ⟨n, -, -, rfl⟩ := h
  exact toString_ne_empty n

theorem rank_of_serverId {m : ChatMessage} {n : Nat} (hpos : 0 < n) (hlt : n < 2 ^ 64) (h : m.messageId = toString n) :
    rank m = (n : WithTop Nat) := by
  rw [rank, h, toULongLong_repr hlt, if_neg hpos.ne']

theorem rank_unconfirmed {m : ChatMessage} (h : m.messageId = "") : rank m = ⊤ := by
  rw [rank, h, toULongLong_empty, if_pos rfl]

/-- Server ids of the same rank are the same. -/
theorem messageId_of_rank {a b : ChatMessage} (ha : IsServerId a.messageId) (hb : IsServerId b.messageId)
    (h : rank a = rank b) : a.messageId = b.messageId := by
  obtain ⟨n, hn, hn', hna⟩ := ha
  obtain ⟨k, hk, hk', hkb⟩ := hb
  rw [rank_of_serverId hn hn' hna, rank_of_serverId hk hk' hkb, Nat.cast_inj] at h
  rw [hna, hkb, h]

namespace Coherent

variable {me : Int} {entries page : List ChatMessage}

theorem nodup (h : Coherent me entries page) : entries.Nodup := h.distinct.of_map _

theorem page_nodup (h : Coherent me entries page) : page.Nodup := h.ids.of_map _

theorem key_inj (h : Coherent me entries page) {a b : ChatMessage} (ha : a ∈ entries) (hb : b ∈ entries)
    (hkey : senderKey me a = senderKey me b) : a = b := List.inj_on_of_nodup_map h.distinct ha hb hkey

theorem page_key_inj (h : Coherent me entries page) {a b : ChatMessage} (ha : a ∈ page) (hb : b ∈ page)
    (hkey : senderKey me a = senderKey me b) : a = b :=
  List.inj_on_of_nodup_map h.ids ha hb ((h.keys a (List.mem_append_right _ ha) b (List.mem_append_right _ hb)
    (h.stored a ha).ne_empty (h.stored b hb).ne_empty).mpr hkey)

theorem senderOf_page (h : Coherent me entries page) {p : ChatMessage} (hp : p ∈ page) :
    senderOf me p = p.senderUserId := senderOf_of_messageId (h.stored p hp).ne_empty

theorem identified_iff (h : Coherent me entries page) {e p : ChatMessage} (he : e ∈ entries) (hp : p ∈ page) :
    Identified me e p ↔ senderKey me e = senderKey me p := by
  simp only [Identified, ← h.senderOf_page hp]
  constructor
  · rintro (hid | ⟨hsender, hclient⟩)
    · have hne := (h.stored p hp).ne_empty
      exact (h.keys e (List.mem_append_left _ he) p (List.mem_append_right _ hp) (hid ▸ hne) hne).mp hid
    · exact Prod.ext hsender hclient
  · intro hkey
    exact .inr ⟨congrArg Prod.fst hkey, congrArg Prod.snd hkey⟩

end Coherent

/-! ## Rounds by the client id -/

theorem mergeMessage_eq {l : List ChatMessage} {m : ChatMessage}
    (h : ∀ e ∈ l, e.messageId = m.messageId → m.messageId ≠ "" → e.clientMsgId = m.clientMsgId) :
    mergeMessage l m = upsert ChatMessage.clientMsgId l m ∧
      ((findMessage l m.clientMsgId).orElse fun _ => findMessageByServerId l m.messageId).isNone =
        decide (m.clientMsgId ∉ l.map ChatMessage.clientMsgId) := by
  have byClient : ∀ l : List ChatMessage, ∀ i, findMessage l m.clientMsgId = some i →
      l.set i m = upsert ChatMessage.clientMsgId l m ∧ m.clientMsgId ∈ l.map ChatMessage.clientMsgId := by
    intro l
    induction l with
    | nil => exact fun _ hi => nomatch hi
    | cons e l ih =>
      intro i hi
      rw [findMessage, List.findIdx?_cons] at hi
      rw [upsert]
      split at hi
      · next he =>
        cases hi
        rw [if_pos (of_decide_eq_true he), List.set_cons_zero]
        exact ⟨rfl, List.mem_cons.mpr (.inl (of_decide_eq_true he).symm)⟩
      · next he =>
        obtain ⟨j, hj, rfl⟩ := Option.map_eq_some_iff.mp hi
        obtain ⟨hset, hmem⟩ := ih j hj
        rw [if_neg (by simpa using he), List.set_cons_succ, hset]
        exact ⟨rfl, List.mem_cons_of_mem _ hmem⟩
  cases hfound : findMessage l m.clientMsgId with
  | some i =>
    obtain ⟨hset, hmem⟩ := byClient l i hfound
    rw [mergeMessage, hfound]
    exact ⟨hset, by simpa using hmem⟩
  | none =>
    have hnew := findMessage_none hfound
    have hnot : m.clientMsgId ∉ l.map ChatMessage.clientMsgId := by
      intro hmem
      obtain ⟨e, he, hid⟩ := List.mem_map.mp hmem
      exact hnew e he hid
    have hserver : findMessageByServerId l m.messageId = none := by
      cases hs : findMessageByServerId l m.messageId with
      | none => rfl
      | some i =>
        obtain ⟨e, he, hid, hne⟩ := findMessageByServerId_some hs
        exact absurd (h e he hid hne) (hnew e he)
    rw [mergeMessage, hfound, Option.orElse_none, hserver, upsert_of_notMem hnot]
    exact ⟨rfl, by simpa using hnot⟩

/-- While rows of the table are merged, the server id finds nothing more, and the count is of the rows that came. -/
theorem mergeMessages_eq {known : List ChatMessage}
    (h : ∀ a ∈ known, ∀ b ∈ known, a.messageId = b.messageId → b.messageId ≠ "" → a.clientMsgId = b.clientMsgId)
    {page : List ChatMessage} (hpage : ∀ p ∈ page, p ∈ known) :
    ∀ {l : List ChatMessage}, (∀ e ∈ l, e ∈ known) →
      page.foldl mergeMessage l = page.foldl (upsert ChatMessage.clientMsgId) l ∧
        (page.foldl (upsert ChatMessage.clientMsgId) l).length = l.length + addedCount l page := by
  induction page with
  | nil => exact fun _ => ⟨rfl, rfl⟩
  | cons p page ih =>
    intro l hl
    have hp := hpage p List.mem_cons_self
    obtain ⟨hround, hcount⟩ := mergeMessage_eq fun e he hid hne => h e (hl e he) p hp hid hne
    have hnext : ∀ e ∈ upsert ChatMessage.clientMsgId l p, e ∈ known := by
      intro e he
      rcases mem_upsert he with rfl | he
      · exact hp
      · exact hl e he
    obtain ⟨hrest, hlen⟩ := ih (fun q hq => hpage q (List.mem_cons_of_mem _ hq)) hnext
    rw [List.foldl_cons, List.foldl_cons, hround, hrest, addedCount, hround, hlen]
    refine ⟨rfl, ?_⟩
    by_cases hmem : p.clientMsgId ∈ l.map ChatMessage.clientMsgId
    · have hlength := congrArg List.length (map_upsert_of_mem hmem)
      rw [List.length_map, List.length_map] at hlength
      rw [decide_eq_false (not_not.mpr hmem), Option.isNone_eq_false_iff, Option.isSome_iff_exists] at hcount
      obtain ⟨i, hi⟩ := hcount
      rw [hi]
      dsimp only
      omega
    · rw [decide_eq_true hmem, Option.isNone_iff_eq_none] at hcount
      rw [hcount, upsert_of_notMem hmem, List.length_append, List.length_singleton]
      dsimp only
      omega

/-! ## The two sides of the law -/

/-- The rows of the list that the page has nothing of. -/
def others (me : Int) (entries page : List ChatMessage) : List ChatMessage :=
  entries.filter fun e => ∀ p ∈ page, ¬ Identified me e p

/-- A merge loses and duplicates nothing. What is listed is the page and the rows it has nothing of, each once; the
confirmed messages stand in the order of their ids and the others after them in the order they had; the count is of the
messages that no row was; and a second time nothing happens. -/
structure Merged (me : Int) (entries page : List ChatMessage) : Prop where
  perm : (mergeHistoryMessages entries page).Perm (others me entries page ++ page)
  ordered : (mergeHistoryMessages entries page).Pairwise fun a b => rank a ≤ rank b
  kept : (mergeHistoryMessages entries page).filter isUnconfirmed = (others me entries page).filter isUnconfirmed
  count : addedCount entries page = (page.filter fun p => ∀ e ∈ entries, ¬ Identified me e p).length
  again : mergeHistoryMessages (mergeHistoryMessages entries page) page = mergeHistoryMessages entries page
  again_count : addedCount (mergeHistoryMessages entries page) page = 0

/-- The message is the last of the page with its client id. -/
def IsLast (page : List ChatMessage) (p : ChatMessage) : Prop :=
  (classOf ChatMessage.clientMsgId p.clientMsgId page).getLast? = some p

/-- The messages of one client id get along. Those of the page but the last are listed already; the first row under the
client id is the last one's sender's; and it stands before the rows of the others. An empty page does not sort. -/
structure GetAlong (me : Int) (entries page : List ChatMessage) : Prop where
  sorted : page = [] → entries.Pairwise fun a b => rank a ≤ rank b
  earlier : ∀ p ∈ page, IsLast page p ∨ p ∈ entries
  first : ∀ p ∈ page, IsLast page p → ∀ e, (classOf ChatMessage.clientMsgId p.clientMsgId entries).head? = some e →
    senderOf me e = p.senderUserId
  before : ∀ p ∈ page, IsLast page p → ∀ e ∈ entries, e.clientMsgId = p.clientMsgId →
    senderOf me e ≠ p.senderUserId → rank p < rank e

/-! ## Sorting -/

theorem mergeHistoryMessages_nil (entries : List ChatMessage) : mergeHistoryMessages entries [] = entries := rfl

theorem sortsBefore_trans (a b c : ChatMessage) (hab : (!sortsBefore b a) = true) (hbc : (!sortsBefore c b) = true) :
    (!sortsBefore c a) = true := by
  simp only [sortsBefore_eq, Bool.not_eq_true', decide_eq_false_iff_not, not_lt] at *
  exact hab.trans hbc

theorem sortsBefore_total (a b : ChatMessage) : (!sortsBefore b a || !sortsBefore a b) = true := by
  simp only [sortsBefore_eq, Bool.or_eq_true, Bool.not_eq_true', decide_eq_false_iff_not, not_lt]
  exact le_total _ _

theorem notBefore_iff {a b : ChatMessage} : (!sortsBefore b a) = true ↔ rank a ≤ rank b := by
  simp only [sortsBefore_eq, Bool.not_eq_true', decide_eq_false_iff_not, not_lt]

/-- The list sorted by rank, rows of one rank in the order they had. -/
def byRank (l : List ChatMessage) : List ChatMessage := l.mergeSort fun a b => !sortsBefore b a

theorem byRank_perm (l : List ChatMessage) : (byRank l).Perm l := List.mergeSort_perm _ _

theorem byRank_ordered (l : List ChatMessage) : (byRank l).Pairwise fun a b => rank a ≤ rank b :=
  (List.pairwise_mergeSort sortsBefore_trans sortsBefore_total l).imp notBefore_iff.mp

theorem byRank_of_ordered {l : List ChatMessage} (h : l.Pairwise fun a b => rank a ≤ rank b) : byRank l = l :=
  List.mergeSort_of_pairwise (h.imp notBefore_iff.mpr)

/-- The sort is stable: the unconfirmed rows, all of one rank, stay in their order. -/
theorem byRank_unconfirmed (l : List ChatMessage) : (byRank l).filter isUnconfirmed = l.filter isUnconfirmed := by
  have same : (l.filter isUnconfirmed).Pairwise fun a b => (!sortsBefore b a) = true := by
    refine List.pairwise_of_forall_mem_list fun a ha b hb => notBefore_iff.mpr ?_
    have hb := of_decide_eq_true (List.mem_filter.mp hb).2
    rw [rank_unconfirmed hb]
    exact le_top
  have sub := List.sublist_mergeSort sortsBefore_trans sortsBefore_total same List.filter_sublist
  have sub' := sub.filter isUnconfirmed
  rw [List.filter_filter] at sub'
  simp only [Bool.and_self] at sub'
  exact (sub'.eq_of_length ((byRank_perm l).filter _).length_eq.symm).symm

namespace Coherent

variable {me : Int} {entries page : List ChatMessage}

/-! ## The list before it is sorted -/

/-- The list after the rounds of the merge. -/
def rounds (entries page : List ChatMessage) : List ChatMessage := page.foldl (upsert ChatMessage.clientMsgId) entries

theorem known (h : Coherent me entries page) : ∀ a ∈ entries ++ page, ∀ b ∈ entries ++ page,
    a.messageId = b.messageId → b.messageId ≠ "" → a.clientMsgId = b.clientMsgId := by
  intro a ha b hb hid hne
  exact congrArg Prod.snd ((h.keys a ha b hb (hid ▸ hne) hne).mp hid)

/-- From any list of known rows the rounds are by the client id. -/
theorem rounds_eq (h : Coherent me entries page) {l : List ChatMessage} (hl : ∀ e ∈ l, e ∈ entries ++ page) :
    page.foldl mergeMessage l = rounds l page ∧ (rounds l page).length = l.length + addedCount l page :=
  mergeMessages_eq h.known (fun _ hp => List.mem_append_right _ hp) hl

theorem merge_eq (h : Coherent me entries page) (hne : page ≠ []) {l : List ChatMessage}
    (hl : ∀ e ∈ l, e ∈ entries ++ page) : mergeHistoryMessages l page = byRank (rounds l page) := by
  unfold mergeHistoryMessages
  rw [if_neg (by simpa using hne), (h.rounds_eq hl).1]
  rfl

theorem mem_others {e : ChatMessage} :
    e ∈ others me entries page ↔ e ∈ entries ∧ ∀ p ∈ page, ¬ Identified me e p := by
  rw [others, List.mem_filter, decide_eq_true_eq]

theorem classOf_others (x : String) : classOf ChatMessage.clientMsgId x (others me entries page) =
    (classOf ChatMessage.clientMsgId x entries).filter fun e => ∀ p ∈ page, ¬ Identified me e p := by
  simp only [classOf, others, List.filter_filter, Bool.and_comm]

/-- A row that the page has something of, with the message of the page. -/
theorem identified_of_notOthers (h : Coherent me entries page) {e : ChatMessage} (he : e ∈ entries)
    (hnot : e ∉ others me entries page) : ∃ p ∈ page, senderKey me e = senderKey me p := by
  rw [mem_others, not_and] at hnot
  have hex := hnot he
  simp only [not_forall, not_not] at hex
  obtain ⟨p, hp, hid⟩ := hex
  exact ⟨p, hp, (h.identified_iff he hp).mp hid⟩

theorem notOthers_of_key (h : Coherent me entries page) {e p : ChatMessage} (he : e ∈ entries) (hp : p ∈ page)
    (hkey : senderKey me e = senderKey me p) : e ∉ others me entries page :=
  fun hmem => (mem_others.mp hmem).2 p hp ((h.identified_iff he hp).mpr hkey)

/-- The class of a client id that the page has nothing of. -/
theorem classOf_others_of_nil (h : Coherent me entries page) {x : String}
    (hx : classOf ChatMessage.clientMsgId x page = []) :
    classOf ChatMessage.clientMsgId x (others me entries page) = classOf ChatMessage.clientMsgId x entries := by
  rw [classOf_others, List.filter_eq_self]
  intro e he
  obtain ⟨hmem, hclient⟩ := mem_classOf.mp he
  refine decide_eq_true fun p hp hid => ?_
  have hkey := (h.identified_iff hmem hp).mp hid
  exact classOf_eq_nil.mp hx p hp ((congrArg Prod.snd hkey).symm.trans hclient)

/-- The messages of a page that get along with the list leave each class as it should be. -/
theorem classOf_rounds_perm (h : Coherent me entries page) (along : GetAlong me entries page) (x : String) :
    (classOf ChatMessage.clientMsgId x (rounds entries page)).Perm
      (classOf ChatMessage.clientMsgId x (others me entries page ++ page)) := by
  rw [rounds, classOf_upserts, classOf_append]
  cases hlast : (classOf ChatMessage.clientMsgId x page).getLast? with
  | none =>
    rw [List.getLast?_eq_none_iff] at hlast
    rw [hlast, List.append_nil, h.classOf_others_of_nil hlast]
  | some p =>
  obtain ⟨hp, hclient⟩ := mem_classOf.mp (List.mem_of_getLast? hlast)
  have isLast : IsLast page p := by
    rw [IsLast, hclient]
    exact hlast
  have hsplit := List.dropLast_append_getLast? p hlast
  have hnodup : (classOf ChatMessage.clientMsgId x page).Nodup := h.page_nodup.filter _
  -- the messages before the last one are listed
  have hdrop : ∀ q ∈ (classOf ChatMessage.clientMsgId x page).dropLast, q ∈ page ∧ q ∈ entries ∧ q ≠ p ∧ q.clientMsgId = x := by
    intro q hq
    obtain ⟨hqpage, hqx⟩ := mem_classOf.mp ((List.dropLast_sublist _).subset hq)
    have hqp : q ≠ p := by
      rintro rfl
      rw [← hsplit, List.nodup_append] at hnodup
      exact hnodup.2.2 q hq q (List.mem_singleton_self q) rfl
    refine ⟨hqpage, (along.earlier q hqpage).resolve_left fun hql => ?_, hqp, hqx⟩
    rw [IsLast, hqx, hlast] at hql
    exact hqp (Option.some.inj hql).symm
  cases hE : classOf ChatMessage.clientMsgId x entries with
  | nil =>
    have hnil : (classOf ChatMessage.clientMsgId x page).dropLast = [] := by
      refine List.eq_nil_iff_forall_not_mem.mpr fun q hq => ?_
      obtain ⟨-, hqe, -, hqx⟩ := hdrop q hq
      exact classOf_eq_nil.mp hE q hqe hqx
    rw [hnil, List.nil_append] at hsplit
    rw [classOf_others, hE, ← hsplit]
    exact List.Perm.refl _
  | cons e rest =>
    have hecls : e ∈ classOf ChatMessage.clientMsgId x entries := by
      rw [hE]
      exact List.mem_cons_self
    obtain ⟨he, hex⟩ := mem_classOf.mp hecls
    have hekey : senderKey me e = senderKey me p := by
      refine Prod.ext ?_ (hex.trans hclient.symm)
      exact (along.first p hp isLast e (by rw [hclient, hE]; rfl)).trans (h.senderOf_page hp).symm
    have henodup : (e :: rest).Nodup := hE ▸ h.nodup.filter _
    have hrest : ∀ r ∈ rest, r ∈ entries ∧ r.clientMsgId = x := fun r hr =>
      mem_classOf.mp (by rw [hE]; exact List.mem_cons_of_mem e hr)
    -- of the rows after the first, those of the page are the messages before the last one
    have hident : (rest.filter fun r => !decide (∀ q ∈ page, ¬ Identified me r q)).Perm
        (classOf ChatMessage.clientMsgId x page).dropLast := by
      refine (List.perm_ext_iff_of_nodup (henodup.of_cons.filter _)
        (hnodup.sublist (List.dropLast_sublist _))).mpr fun r => ?_
      rw [List.mem_filter]
      constructor
      · rintro ⟨hr, hrid⟩
        obtain ⟨hre, hrx⟩ := hrest r hr
        have hnot : r ∉ others me entries page := fun hmem => by
          rw [decide_eq_true (mem_others.mp hmem).2] at hrid
          cases hrid
        obtain ⟨q, hq, hkey⟩ := h.identified_of_notOthers hre hnot
        have hqx : q.clientMsgId = x := (congrArg Prod.snd hkey).symm.trans hrx
        have hqp : q ≠ p := by
          rintro rfl
          exact (List.nodup_cons.mp henodup).1 (h.key_inj hre he (hkey.trans hekey.symm) ▸ hr)
        have hqdrop : q ∈ (classOf ChatMessage.clientMsgId x page).dropLast := by
          have hqcls : q ∈ classOf ChatMessage.clientMsgId x page := mem_classOf.mpr ⟨hq, hqx⟩
          rw [← hsplit] at hqcls
          exact (List.mem_append.mp hqcls).resolve_right fun hm => hqp (List.mem_singleton.mp hm)
        rwa [h.key_inj hre (hdrop q hqdrop).2.1 hkey]
      · intro hr
        obtain ⟨hrpage, hre, hrp, hrx⟩ := hdrop r hr
        refine ⟨?_, ?_⟩
        · have hrcls : r ∈ classOf ChatMessage.clientMsgId x entries := mem_classOf.mpr ⟨hre, hrx⟩
          rw [hE] at hrcls
          refine (List.mem_cons.mp hrcls).resolve_left ?_
          rintro rfl
          exact hrp (h.page_key_inj hrpage hp hekey)
        · simp only [Bool.not_eq_true', decide_eq_false_iff_not, not_forall, not_not]
          exact ⟨r, hrpage, .inl rfl⟩
    have hefalse : decide (∀ q ∈ page, ¬ Identified me e q) = false :=
      decide_eq_false fun hall => hall p hp ((h.identified_iff he hp).mpr hekey)
    rw [classOf_others, hE, List.filter_cons_of_neg (by rw [hefalse]; nofun), ← hsplit, List.tail_cons]
    refine (List.Perm.cons p ((List.filter_append_perm _ rest).symm.trans (hident.append_left _))).trans ?_
    rw [← List.append_assoc]
    exact (List.perm_append_singleton p _).symm

/-! ## A page that gets along -/

/-- As many rows of the list are the page's as messages of the page are the list's. -/
theorem length_identified (h : Coherent me entries page) :
    (entries.filter fun e => !decide (∀ p ∈ page, ¬ Identified me e p)).length =
      (page.filter fun p => !decide (∀ e ∈ entries, ¬ Identified me e p)).length := by
  have hmaps : ((entries.filter fun e => !decide (∀ p ∈ page, ¬ Identified me e p)).map (senderKey me)).Perm
      ((page.filter fun p => !decide (∀ e ∈ entries, ¬ Identified me e p)).map (senderKey me)) := by
    have hentries : ((entries.filter fun e => !decide (∀ p ∈ page, ¬ Identified me e p)).map (senderKey me)).Nodup :=
      (List.filter_sublist.map _).nodup h.distinct
    have hpage : ((page.filter fun p => !decide (∀ e ∈ entries, ¬ Identified me e p)).map (senderKey me)).Nodup :=
      List.Nodup.map_on (fun a ha b hb => h.page_key_inj (List.mem_filter.mp ha).1 (List.mem_filter.mp hb).1)
        (h.page_nodup.filter _)
    refine (List.perm_ext_iff_of_nodup hentries hpage).mpr fun key => ?_
    simp only [List.mem_map, List.mem_filter, Bool.not_eq_true', decide_eq_false_iff_not, not_forall, not_not]
    constructor
    · rintro ⟨e, ⟨he, p, hp, hid⟩, rfl⟩
      exact ⟨p, ⟨hp, e, he, hid⟩, ((h.identified_iff he hp).mp hid).symm⟩
    · rintro ⟨p, ⟨hp, e, he, hid⟩, rfl⟩
      exact ⟨e, ⟨he, p, hp, hid⟩, (h.identified_iff he hp).mp hid⟩
  have hlen := hmaps.length_eq
  rwa [List.length_map, List.length_map] at hlen

theorem length_split {α : Type} (p : α → Bool) (l : List α) :
    l.length = (l.filter p).length + (l.filter fun a => !p a).length := by
  rw [← List.length_append]
  exact (List.filter_append_perm p l).length_eq.symm

/-- What the rounds have left is what should be listed. -/
theorem count_of_perm (h : Coherent me entries page)
    (hperm : (rounds entries page).Perm (others me entries page ++ page)) :
    addedCount entries page = (page.filter fun p => ∀ e ∈ entries, ¬ Identified me e p).length := by
  have hlen := hperm.length_eq
  have hentries := length_split (fun e => decide (∀ p ∈ page, ¬ Identified me e p)) entries
  have hpage := length_split (fun p => decide (∀ e ∈ entries, ¬ Identified me e p)) page
  have hsame := h.length_identified
  rw [List.length_append, (h.rounds_eq fun e he => List.mem_append_left page he).2, others] at hlen
  omega

/-- Sorted, each class that the page has something of begins with the last message of the page. -/
theorem head_byRank (h : Coherent me entries page) (along : GetAlong me entries page) {p : ChatMessage} (hp : p ∈ page)
    (hlast : IsLast page p) :
    (classOf ChatMessage.clientMsgId p.clientMsgId (byRank (rounds entries page))).head? = some p := by
  have hclass := (byRank_perm (rounds entries page)).filter fun a => decide (a.clientMsgId = p.clientMsgId)
  have hrounds := classOf_upserts (f := ChatMessage.clientMsgId) page p.clientMsgId entries
  rw [hlast] at hrounds
  change (classOf _ _ _).Perm (classOf ChatMessage.clientMsgId p.clientMsgId (rounds entries page)) at hclass
  rw [rounds, hrounds] at hclass
  have hordered : (classOf ChatMessage.clientMsgId p.clientMsgId (byRank (rounds entries page))).Pairwise
      fun a b => rank a ≤ rank b := (byRank_ordered _).filter _
  rw [← rounds] at hclass
  cases hc : classOf ChatMessage.clientMsgId p.clientMsgId (byRank (rounds entries page)) with
  | nil =>
    rw [hc] at hclass
    exact absurd hclass.symm.length_eq (by simp)
  | cons c rest =>
    rw [hc] at hclass hordered
    rw [List.head?_cons]
    by_contra hne
    have hcp : c ≠ p := fun heq => hne (by rw [heq])
    have htail : c ∈ (classOf ChatMessage.clientMsgId p.clientMsgId entries).tail :=
      (List.mem_cons.mp (hclass.mem_iff.mp List.mem_cons_self)).resolve_left hcp
    have hprest : p ∈ rest :=
      (List.mem_cons.mp (hclass.mem_iff.mpr List.mem_cons_self)).resolve_left (Ne.symm hcp)
    obtain ⟨hce, hcx⟩ := mem_classOf.mp (List.mem_of_mem_tail htail)
    -- the first of the class is the last message's sender's, so this one is another's
    have hother : senderOf me c ≠ p.senderUserId := by
      intro hsender
      cases hE : classOf ChatMessage.clientMsgId p.clientMsgId entries with
      | nil => rw [hE] at htail; cases htail
      | cons e others =>
        have hecls : e ∈ classOf ChatMessage.clientMsgId p.clientMsgId entries := by
          rw [hE]
          exact List.mem_cons_self
        obtain ⟨hemem, heclient⟩ := mem_classOf.mp hecls
        have hfirst := along.first p hp hlast e (by rw [hE]; rfl)
        have hsame : c = e := h.key_inj hce hemem (Prod.ext (hsender.trans hfirst.symm) (hcx.trans heclient.symm))
        have hnodup : (e :: others).Nodup := hE ▸ h.nodup.filter _
        rw [hE, List.tail_cons] at htail
        exact (List.nodup_cons.mp hnodup).1 (hsame ▸ htail)
    have hlt := along.before p hp hlast c hce hcx hother
    exact absurd (List.rel_of_pairwise_cons hordered hprest) (not_le.mpr hlt)

theorem merged_of_getAlong (h : Coherent me entries page) (along : GetAlong me entries page) :
    Merged me entries page := by
  rcases eq_or_ne page [] with rfl | hne
  · have hothers : others me entries [] = entries := by
      simp only [others, List.not_mem_nil, false_implies, implies_true, decide_true, List.filter_true]
    refine ⟨?_, along.sorted rfl, ?_, rfl, rfl, rfl⟩
    · rw [mergeHistoryMessages_nil, hothers, List.append_nil]
    · rw [mergeHistoryMessages_nil, hothers]
  have hperm := perm_of_classes (f := ChatMessage.clientMsgId) (h.classOf_rounds_perm along)
  have hmerge := h.merge_eq hne fun e he => List.mem_append_left page he
  have hafter := (byRank_perm (rounds entries page)).trans hperm
  have hknown : ∀ e ∈ byRank (rounds entries page), e ∈ entries ++ page := by
    intro e he
    rcases List.mem_append.mp (hafter.mem_iff.mp he) with he | he
    · exact List.mem_append_left page (mem_others.mp he).1
    · exact List.mem_append_right entries he
  have hfixed : rounds (byRank (rounds entries page)) page = byRank (rounds entries page) := by
    refine eq_of_classes (f := ChatMessage.clientMsgId) (map_upserts_of_mem fun p hp => ?_) fun x => ?_
    · exact List.mem_map_of_mem (hafter.mem_iff.mpr (List.mem_append_right _ hp))
    · rw [rounds, classOf_upserts]
      cases hlast : (classOf ChatMessage.clientMsgId x page).getLast? with
      | none => rfl
      | some p =>
        obtain ⟨hp, rfl⟩ := mem_classOf.mp (List.mem_of_getLast? hlast)
        exact List.cons_head?_tail (h.head_byRank along hp hlast)
  refine ⟨hmerge ▸ hafter, hmerge ▸ byRank_ordered _, ?_, h.count_of_perm hperm, ?_, ?_⟩
  · rw [hmerge, byRank_unconfirmed]
    have hconfirmed : ∀ p ∈ page, isUnconfirmed p = false := fun p hp => decide_eq_false (h.stored p hp).ne_empty
    refine eq_of_sublist_of_mem h.nodup ((filter_upserts_sublist isUnconfirmed entries hconfirmed).trans
      List.filter_sublist) (List.filter_sublist.trans List.filter_sublist) fun e => ?_
    rw [List.mem_filter, List.mem_filter]
    refine and_congr_left fun hun => ?_
    rw [hperm.mem_iff, List.mem_append, or_iff_left]
    intro he
    rw [hconfirmed e he] at hun
    cases hun
  · rw [hmerge, h.merge_eq hne hknown, hfixed, byRank_of_ordered (byRank_ordered _)]
  · have hlen := (h.rounds_eq hknown).2
    rw [hfixed] at hlen
    rw [hmerge]
    omega

/-! ## A merge that does as it should -/

theorem rank_ne_of_key_ne (h : Coherent me entries page) {p e : ChatMessage} (hp : p ∈ page) (he : e ∈ entries)
    (hkey : senderKey me e ≠ senderKey me p) : rank p ≠ rank e := by
  intro heq
  rcases h.listed e he with hun | hid
  · obtain ⟨n, hpos, hlt, hn⟩ := h.stored p hp
    rw [rank_of_serverId hpos hlt hn, rank_unconfirmed hun] at heq
    exact WithTop.coe_ne_top heq
  · have hsame := messageId_of_rank (h.stored p hp) hid heq
    exact hkey ((h.keys e (List.mem_append_left _ he) p (List.mem_append_right _ hp) hid.ne_empty
      (h.stored p hp).ne_empty).mp hsame.symm)

theorem getAlong_of_merged (h : Coherent me entries page) (merged : Merged me entries page) :
    GetAlong me entries page := by
  have hmerge := fun hne : page ≠ [] => h.merge_eq hne fun e he => List.mem_append_left page he
  have hclass : page ≠ [] → ∀ x, (classOf ChatMessage.clientMsgId x (rounds entries page)).Perm
      (classOf ChatMessage.clientMsgId x (others me entries page ++ page)) := by
    intro hne x
    have hperm := merged.perm
    rw [hmerge hne] at hperm
    exact ((byRank_perm _).symm.trans hperm).filter _
  -- the class of a message of the page, after the rounds
  have hrounds : ∀ x q, (classOf ChatMessage.clientMsgId x page).getLast? = some q →
      classOf ChatMessage.clientMsgId x (rounds entries page) = q :: (classOf ChatMessage.clientMsgId x entries).tail := by
    intro x q hq
    rw [rounds, classOf_upserts, hq]
  have hfirst : ∀ p ∈ page, IsLast page p → ∀ e,
      (classOf ChatMessage.clientMsgId p.clientMsgId entries).head? = some e → senderOf me e = p.senderUserId := by
    intro p hp hlast e hhead
    obtain ⟨rest, hE⟩ := List.head?_eq_some_iff.mp hhead
    have hperm := hclass (List.ne_nil_of_mem hp) p.clientMsgId
    rw [hrounds _ p hlast, hE, List.tail_cons] at hperm
    have hnodup : (e :: rest).Nodup := hE ▸ h.nodup.filter _
    have hecls : e ∈ classOf ChatMessage.clientMsgId p.clientMsgId entries := by
      rw [hE]
      exact List.mem_cons_self
    obtain ⟨he, hclient⟩ := mem_classOf.mp hecls
    by_cases hothers : e ∈ others me entries page
    · have hmem : e ∈ p :: rest :=
        hperm.mem_iff.mpr (mem_classOf.mpr ⟨List.mem_append_left _ hothers, hclient⟩)
      rcases List.mem_cons.mp hmem with rfl | hmem
      · exact h.senderOf_page hp
      · exact ((List.nodup_cons.mp hnodup).1 hmem).elim
    · obtain ⟨q, hq, hkey⟩ := h.identified_of_notOthers he hothers
      have hqclient : q.clientMsgId = p.clientMsgId := (congrArg Prod.snd hkey).symm.trans hclient
      have hmem : q ∈ p :: rest := hperm.mem_iff.mpr (mem_classOf.mpr ⟨List.mem_append_right _ hq, hqclient⟩)
      rcases List.mem_cons.mp hmem with rfl | hmem
      · exact (congrArg Prod.fst hkey).trans (h.senderOf_page hp)
      · have hqe : q ∈ entries := (mem_classOf.mp (by rw [hE]; exact List.mem_cons_of_mem e hmem)).1
        exact ((List.nodup_cons.mp hnodup).1 (h.key_inj he hqe hkey ▸ hmem)).elim
  refine ⟨?_, ?_, hfirst, ?_⟩
  · rintro rfl
    exact merged.ordered
  · intro p hp
    have hpcls : p ∈ classOf ChatMessage.clientMsgId p.clientMsgId page := mem_classOf.mpr ⟨hp, rfl⟩
    cases hlast : (classOf ChatMessage.clientMsgId p.clientMsgId page).getLast? with
    | none =>
      rw [List.getLast?_eq_none_iff] at hlast
      rw [hlast] at hpcls
      cases hpcls
    | some q =>
      by_cases hqp : q = p
      · exact .inl (by rw [IsLast, hlast, hqp])
      · have hmem := (hclass (List.ne_nil_of_mem hp) p.clientMsgId).mem_iff.mpr
          (mem_classOf.mpr ⟨List.mem_append_right _ hp, rfl⟩)
        rw [hrounds _ q hlast] at hmem
        have htail := (List.mem_cons.mp hmem).resolve_left (Ne.symm hqp)
        exact .inr (mem_classOf.mp (List.mem_of_mem_tail htail)).1
  · intro p hp hlast e he hclient hsender
    have hne := List.ne_nil_of_mem hp
    have hafter : (byRank (rounds entries page)).Perm (others me entries page ++ page) := hmerge hne ▸ merged.perm
    have hknown : ∀ a ∈ byRank (rounds entries page), a ∈ entries ++ page := by
      intro a ha
      rcases List.mem_append.mp (hafter.mem_iff.mp ha) with ha | ha
      · exact List.mem_append_left page (mem_others.mp ha).1
      · exact List.mem_append_right entries ha
    have hagain := merged.again
    rw [hmerge hne, h.merge_eq hne hknown] at hagain
    have hclasses : (classOf ChatMessage.clientMsgId p.clientMsgId (rounds (byRank (rounds entries page)) page)).Perm
        (classOf ChatMessage.clientMsgId p.clientMsgId (byRank (rounds entries page))) := by
      have := (byRank_perm (rounds (byRank (rounds entries page)) page)).symm
      rw [hagain] at this
      exact this.filter _
    rw [rounds, classOf_upserts, hlast] at hclasses
    have hordered : (classOf ChatMessage.clientMsgId p.clientMsgId (byRank (rounds entries page))).Pairwise
        fun a b => rank a ≤ rank b := (byRank_ordered _).filter _
    -- the row is not the first of its class, so the rounds leave it
    have hemem : e ∈ classOf ChatMessage.clientMsgId p.clientMsgId (byRank (rounds entries page)) := by
      refine ((byRank_perm _).filter _).mem_iff.mpr ?_
      change e ∈ classOf ChatMessage.clientMsgId p.clientMsgId (rounds entries page)
      rw [hrounds _ p hlast]
      have hecls : e ∈ classOf ChatMessage.clientMsgId p.clientMsgId entries := mem_classOf.mpr ⟨he, hclient⟩
      cases hE : classOf ChatMessage.clientMsgId p.clientMsgId entries with
      | nil =>
        rw [hE] at hecls
        cases hecls
      | cons f rest =>
        rw [hE] at hecls
        rcases List.mem_cons.mp hecls with rfl | hrest
        · exact absurd (hfirst p hp hlast e (by rw [hE]; rfl)) hsender
        · exact List.mem_cons_of_mem _ hrest
    cases hC : classOf ChatMessage.clientMsgId p.clientMsgId (byRank (rounds entries page)) with
    | nil =>
      rw [hC] at hemem
      cases hemem
    | cons c rest =>
      rw [hC] at hclasses hordered hemem
      -- merged again, the message takes the place of the first row, so it is that row
      have hcp : c = p := by
        have hcount := hclasses.count_eq p
        rw [List.tail_cons, List.count_cons_self, List.count_cons] at hcount
        by_contra hcp
        rw [if_neg (by simpa using hcp)] at hcount
        omega
      subst hcp
      have hkey : senderKey me e ≠ senderKey me c := by
        intro hkey
        exact hsender ((congrArg Prod.fst hkey).trans (h.senderOf_page hp))
      have herest : e ∈ rest := (List.mem_cons.mp hemem).resolve_left fun heq => hkey (by rw [heq])
      exact lt_of_le_of_ne (List.rel_of_pairwise_cons hordered herest) (h.rank_ne_of_key_ne hp he hkey)

end Coherent

/-- **Merging a page loses and duplicates nothing**, counts what came, leaves the list in order and does nothing a second
time, exactly when the messages of each client id get along. -/
theorem merge_iff {me : Int} {entries page : List ChatMessage} (h : Coherent me entries page) :
    Merged me entries page ↔ GetAlong me entries page :=
  ⟨h.getAlong_of_merged, h.merged_of_getAlong⟩

/-- A group message of user `sender` under the client id `x`, as a page has it. -/
def underX (messageId : String) (sender : Int) : ChatMessage where
  messageId := messageId
  clientMsgId := "x"
  meetingId := "7"
  chatType := "group"
  senderUserId := sender
  senderName := "a"
  receiverUserId := ""
  content := "hello"
  createdAt := "10:00"
  deliveryState := .sent

theorem coherent_underX (entries : List ChatMessage) (hentries : entries = [] ∨ entries = [underX "1" 1]) :
    Coherent 3 entries [underX "1" 1, underX "2" 2] := by
  have one : IsServerId "1" := ⟨1, by decide, by decide, rfl⟩
  have two : IsServerId "2" := ⟨2, by decide, by decide, rfl⟩
  rcases hentries with rfl | rfl
  · exact ⟨nofun, by simpa [underX] using ⟨one, two⟩, by simp [underX, senderKey, senderOf], List.nodup_nil,
      by simp [underX]⟩
  · exact ⟨by simpa [underX] using one, by simpa [underX] using ⟨one, two⟩, by simp [underX, senderKey, senderOf],
      by simp, by simp [underX]⟩

theorem merge_underX : Merged 3 [underX "1" 1] [underX "1" 1, underX "2" 2] ↔
    GetAlong 3 [underX "1" 1] [underX "1" 1, underX "2" 2] :=
  merge_iff (coherent_underX _ (.inr rfl))

/-- Two users' messages under one client id: of the page only the second is listed. -/
theorem merge_loses :
    ¬ ∀ (me : Int) (entries page : List ChatMessage), Coherent me entries page → Merged me entries page := by
  intro h
  have coherent := coherent_underX [] (.inl rfl)
  have along := coherent.getAlong_of_merged (h 3 [] _ coherent)
  rcases along.earlier (underX "1" 1) List.mem_cons_self with hlast | hlisted
  · exact absurd hlast (by simp [IsLast, classOf, underX])
  · cases hlisted

end SyncRtc
