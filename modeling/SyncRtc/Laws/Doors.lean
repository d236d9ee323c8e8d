import SyncRtc.Laws.Confinement
import SyncRtc.Laws.Grounds
import SyncRtc.Laws.Processes

/-!
# Who comes into a meeting, and who goes

What an operation has read of its own room stays true until it writes it, since nobody else does. So the grounds of a
call are grounds in the state in which the call is made. From this the module concludes who gets into a member set and
out of it, who changes the status of a meeting, that no meeting ever has more members than its row allows, and that
every user of a session is the one its token was given to.
-/

set_option autoImplicit false

namespace SyncRtc

open Prog

/-! ## Rows -/

namespace MeetingTable

variable {t : MeetingTable} {m n : MeetingId}

/-- What an update of the status makes of a row. -/
def moved (m : MeetingId) (user : Uid) (before after : MeetingStatus) (r : MeetingRow) : MeetingRow :=
  if r.id = m ∧ r.creatorUserId = user ∧ r.status = before then { r with status := after } else r

theorem byId_moved (user : Uid) (before after : MeetingStatus) :
    (t.transition n user before after).2.byId m = (t.byId m).map (moved n user before after) := by
  have hrows : (t.transition n user before after).2.rows = t.rows.map (moved n user before after) := by
    refine List.map_congr_left fun r _ => ?_
    simp only [moved, decide_eq_true_eq]
  have hid (r : MeetingRow) : (moved n user before after r).id = r.id := by
    unfold moved
    split <;> rfl
  rw [byId, byId, hrows, List.find?_map]
  congr 2
  funext r
  simp only [Function.comp, hid]

theorem byId_some {r : MeetingRow} (h : t.byId m = some r) : r ∈ t.rows ∧ r.id = m := by
  have hid := List.find?_some h
  exact ⟨List.mem_of_find?_eq_some h, of_decide_eq_true hid⟩

theorem byId_of_mem {r : MeetingRow} (h : r ∈ t.rows) : t.byId r.id = some r := by
  have hsome : (t.byId r.id).isSome = true := List.find?_isSome.mpr ⟨r, h, decide_eq_true rfl⟩
  obtain ⟨r', hr'⟩ := Option.isSome_iff_exists.mp hsome
  have hmem := byId_some hr'
  rw [hr', List.inj_on_of_nodup_map t.nodup hmem.1 h hmem.2]

/-- An update that has hit has hit the meeting's row. -/
theorem hit_of_transition {user : Uid} {before : MeetingStatus} (after : MeetingStatus) (h : (t.transition m user before after).1 = true) :
    ∃ r, t.byId m = some r ∧ r.creatorUserId = user ∧ r.status = before := by
  obtain ⟨r, hr, hhit⟩ := List.any_eq_true.mp h
  obtain ⟨hid, huser, hstatus⟩ := of_decide_eq_true hhit
  exact ⟨r, hid ▸ byId_of_mem hr, huser, hstatus⟩

end MeetingTable

/-! ## Grounds in a state -/

/-- What an operation of the room has read of it is so. -/
structure Grounds.Room (v : Grounds) (m : MeetingId) (st : Storage) (data : RoomData) : Prop where
  info : ∀ info, v.info m = some info → ∃ r, st.mysql.meetings.byId m = some r ∧ r.info = info
  members : ∀ l, v.members m = some l → (st.redis.members m).elems = l
  ended : ∀ u, v.ended m = some u → ∃ r, st.mysql.meetings.byId m = some r ∧ r.creatorUserId = u ∧ r.status = .kEnded
  state : ∀ u x, v.state m u = some x → (st.redis.member m u).roomState = some x
  deadline : ∀ u d, v.deadline m u = some d → (st.redis.member m u).reconnectDeadlineAt = some d
  data : ∀ d, v.data m = some d → data = d

/-- The same is known of the room, or less. -/
structure Grounds.Less (m : MeetingId) (v' v : Grounds) : Prop where
  info : ∀ x, v'.info m = some x → v.info m = some x
  members : ∀ x, v'.members m = some x → v.members m = some x
  ended : ∀ x, v'.ended m = some x → v.ended m = some x
  state : ∀ u x, v'.state m u = some x → v.state m u = some x
  deadline : ∀ u x, v'.deadline m u = some x → v.deadline m u = some x
  data : ∀ x, v'.data m = some x → v.data m = some x

section

variable {v v' : Grounds} {m n : MeetingId} {st st' : Storage} {data : RoomData} {o : Oracle}

theorem Grounds.Less.refl (v : Grounds) : v.Less m v :=
  ⟨fun _ => id, fun _ => id, fun _ => id, fun _ _ => id, fun _ _ => id, fun _ => id⟩

theorem Grounds.Room.less (h : v.Room m st data) (hless : v'.Less m v) : v'.Room m st data :=
  ⟨fun x hx => h.info x (hless.info x hx), fun x hx => h.members x (hless.members x hx),
    fun x hx => h.ended x (hless.ended x hx), fun u x hx => h.state u x (hless.state u x hx),
    fun u x hx => h.deadline u x (hless.deadline u x hx), fun x hx => h.data x (hless.data x hx)⟩

/-- What is known of a room does not depend on anything else. -/
theorem Grounds.Room.frame (h : v.Room m st data) (hmembers : st'.redis.members m = st.redis.members m)
    (hmember : st'.redis.member m = st.redis.member m)
    (hrow : ∀ r, st.mysql.meetings.byId m = some r → st'.mysql.meetings.byId m = some r) : v.Room m st' data := by
  refine ⟨fun x hx => ?_, fun x hx => ?_, fun x hx => ?_, fun u x hx => ?_, fun u x hx => ?_, h.data⟩
  · obtain ⟨r, hr, hinfo⟩ := h.info x hx
    exact ⟨r, hrow r hr, hinfo⟩
  · rw [hmembers]
    exact h.members x hx
  · obtain ⟨r, hr, hended⟩ := h.ended x hx
    exact ⟨r, hrow r hr, hended⟩
  · rw [hmember]
    exact h.state u x hx
  · rw [hmember]
    exact h.deadline u x hx

/-- What is known after an update is what it has told, or was known before. -/
theorem known_update {β : Type} {f : MeetingId → Option β} {x : β} {y : Option β} (h : Function.update f n y m = some x) :
    (n = m ∧ y = some x) ∨ f m = some x := by
  by_cases hn : m = n
  · subst hn
    rw [Function.update_self] at h
    exact .inl ⟨rfl, h⟩
  · rw [Function.update_of_ne hn] at h
    exact .inr h

theorem known_updateAt {β : Type} {f : MeetingId → Uid → Option β} {u u' : Uid} {x : β} {y : Option β}
    (h : Function.update f n (Function.update (f n) u y) m u' = some x) :
    (n = m ∧ u = u' ∧ y = some x) ∨ f m u' = some x := by
  by_cases hn : m = n
  · subst hn
    rw [Function.update_self] at h
    by_cases hu : u' = u
    · subst hu
      rw [Function.update_self] at h
      exact .inl ⟨rfl, rfl, h⟩
    · rw [Function.update_of_ne hu] at h
      exact .inr h
  · rw [Function.update_of_ne hn] at h
    exact .inr h

theorem of_update_none {β : Type} {f : MeetingId → Option β} {x : β} (h : Function.update f n none m = some x) :
    f m = some x :=
  (known_update h).resolve_left fun hnone => by cases hnone.2

theorem of_update_nobody {β : Type} {f : MeetingId → Uid → Option β} {u : Uid} {x : β}
    (h : Function.update f n (fun _ => none) m u = some x) : f m u = some x := by
  by_cases hn : m = n
  · subst hn
    rw [Function.update_self] at h
    cases h
  · rwa [Function.update_of_ne hn] at h

/-- A storage call that fails tells nothing. -/
theorem less_failed (q : Query) : (v.told q q.failed).Less m v := by
  cases q with
  | sMembers n => exact { Grounds.Less.refl v with members := fun _ => of_update_none }
  | sAdd n u => exact { Grounds.Less.refl v with members := fun _ => of_update_none }
  | sRem n u => exact { Grounds.Less.refl v with members := fun _ => of_update_none }
  | delMembers n => exact { Grounds.Less.refl v with members := fun _ => of_update_none }
  | hGetRoomState n u =>
    refine { Grounds.Less.refl v with state := fun u' x h => ?_ }
    exact (known_updateAt h).resolve_left fun hnone => by cases hnone.2.2
  | hGetDeadline n u =>
    refine { Grounds.Less.refl v with deadline := fun u' x h => ?_ }
    exact (known_updateAt h).resolve_left fun hnone => by cases hnone.2.2
  | hSetRoomState n u x =>
    exact { Grounds.Less.refl v with state := fun _ _ => of_update_nobody, deadline := fun _ _ => of_update_nobody }
  | hSetDeadline n u x =>
    exact { Grounds.Less.refl v with state := fun _ _ => of_update_nobody, deadline := fun _ _ => of_update_nobody }
  | delMember n u =>
    exact { Grounds.Less.refl v with state := fun _ _ => of_update_nobody, deadline := fun _ _ => of_update_nobody }
  | activateMember n u =>
    exact { Grounds.Less.refl v with state := fun _ _ => of_update_nobody, deadline := fun _ _ => of_update_nobody }
  | startMeeting n u =>
    exact { Grounds.Less.refl v with info := fun _ => of_update_none, ended := fun _ => of_update_none }
  | endMeeting n u =>
    exact { Grounds.Less.refl v with info := fun _ => of_update_none, ended := fun _ => of_update_none }
  | _ => exact .refl v

/-- What a storage call makes of a row: START and END write its status, and nothing else writes it. -/
theorem row_cases (q : Query) {r : MeetingRow} (hr : st.mysql.meetings.byId m = some r) :
    (q.apply o st).2.mysql.meetings.byId m = some r ∨
      ∃ u before after, ((q = .startMeeting m u ∧ before = .kScheduled ∧ after = .kInProgress) ∨
          (q = .endMeeting m u ∧ before = .kInProgress ∧ after = .kEnded)) ∧
        (q.apply o st).2.mysql.meetings.byId m = some (MeetingTable.moved m u before after r) := by
  cases q with
  | startMeeting n u =>
    by_cases hn : m = n
    · subst hn
      refine .inr ⟨u, _, _, .inl ⟨rfl, rfl, rfl⟩, (MeetingTable.byId_moved u _ _).trans ?_⟩
      rw [hr, Option.map_some]
    · exact .inl ((MeetingTable.byId_transition hn u _ _).trans hr)
  | endMeeting n u =>
    by_cases hn : m = n
    · subst hn
      refine .inr ⟨u, _, _, .inr ⟨rfl, rfl, rfl⟩, (MeetingTable.byId_moved u _ _).trans ?_⟩
      rw [hr, Option.map_some]
    · exact .inl ((MeetingTable.byId_transition hn u _ _).trans hr)
  | updateMeetingPart info u =>
    left
    simp only [Query.apply, MySql.updateMeetingPart]
    repeat' first | exact hr | split
  | saveMeetingMessage message =>
    left
    simp only [Query.apply, MySql.saveMeetingMessage]
    repeat' first | exact hr | split
  | createMeeting title creator hash =>
    left
    simp only [Query.apply]
    split
    · exact hr
    · next id t hinsert =>
      unfold MeetingTable.insert at hinsert
      split at hinsert
      · cases hinsert
      · cases hinsert
        exact MeetingTable.byId_push (Nat.lt_succ_self _) hr
  | _ => exact .inl hr

theorem row_kept {q : Query} (hstart : ∀ u, q ≠ .startMeeting m u) (hend : ∀ u, q ≠ .endMeeting m u) {r : MeetingRow}
    (hr : st.mysql.meetings.byId m = some r) : (q.apply o st).2.mysql.meetings.byId m = some r := by
  rcases row_cases (o := o) q hr with hsame | ⟨u, _, _, ⟨heq, -⟩ | ⟨heq, -⟩, -⟩
  · exact hsame
  · exact absurd heq (hstart u)
  · exact absurd heq (hend u)

/-- A call that writes the member set of another meeting, or is no longer known of. -/
theorem Grounds.Room.wroteMembers (h : v.Room m st data) (hredis : n ≠ m → st'.redis.members m = st.redis.members m)
    (hmember : st'.redis.member = st.redis.member) (hmysql : st'.mysql = st.mysql) :
    ({ v with members := Function.update v.members n none } : Grounds).Room m st' data := by
  refine ⟨fun x hx => hmysql ▸ h.info x hx, fun l hl => ?_, fun x hx => hmysql ▸ h.ended x hx,
    fun u x hx => hmember ▸ h.state u x hx, fun u x hx => hmember ▸ h.deadline u x hx, h.data⟩
  have hne : n ≠ m := by
    rintro rfl
    have hnone : Function.update v.members n none n = some l := hl
    rw [Function.update_self] at hnone
    cases hnone
  rw [hredis hne]
  exact h.members l (of_update_none hl)

/-- A call that writes a member hash of another meeting, or is no longer known of. -/
theorem Grounds.Room.wroteMember (h : v.Room m st data) (hredis : n ≠ m → st'.redis.member m = st.redis.member m)
    (hmembers : st'.redis.members = st.redis.members) (hmysql : st'.mysql = st.mysql) :
    ({ v with
        state := Function.update v.state n fun _ => none
        deadline := Function.update v.deadline n fun _ => none } : Grounds).Room m st' data := by
  have hne {β : Type} {f : MeetingId → Uid → Option β} {u : Uid} {x : β}
      (hx : Function.update f n (fun _ => none) m u = some x) : n ≠ m := by
    rintro rfl
    rw [Function.update_self] at hx
    cases hx
  refine ⟨fun x hx => hmysql ▸ h.info x hx, fun l hl => hmembers ▸ h.members l hl, fun x hx => hmysql ▸ h.ended x hx,
    fun u x hx => ?_, fun u x hx => ?_, h.data⟩
  · rw [hredis (hne hx)]
    exact h.state u x (of_update_nobody hx)
  · rw [hredis (hne hx)]
    exact h.deadline u x (of_update_nobody hx)

/-- A call that writes the status of a meeting: of the room's own it tells at most who has ended it. -/
theorem Grounds.Room.wroteRow (h : v.Room m st data) (hredis : st'.redis = st.redis) (ender : Option Uid)
    (hrow : m ≠ n → st'.mysql.meetings.byId m = st.mysql.meetings.byId m)
    (hended : ∀ u, n = m → ender = some u →
      ∃ r, st'.mysql.meetings.byId m = some r ∧ r.creatorUserId = u ∧ r.status = .kEnded) :
    ({ v with info := Function.update v.info n none, ended := Function.update v.ended n ender } : Grounds).Room m st' data := by
  refine ⟨fun x hx => ?_, fun l hl => hredis ▸ h.members l hl, fun u hu => ?_, fun u x hx => hredis ▸ h.state u x hx,
    fun u x hx => hredis ▸ h.deadline u x hx, h.data⟩
  · have hne : m ≠ n := by
      rintro rfl
      have hnone : Function.update v.info m none m = some x := hx
      rw [Function.update_self] at hnone
      cases hnone
    rw [hrow hne]
    exact h.info x (of_update_none hx)
  · by_cases hn : n = m
    · subst hn
      have hby : Function.update v.ended n ender n = some u := hu
      rw [Function.update_self] at hby
      exact hended u rfl hby
    · have hold : Function.update v.ended n ender m = some u := hu
      rw [Function.update_of_ne (Ne.symm hn)] at hold
      rw [hrow (Ne.symm hn)]
      exact h.ended u hold

/-- What a storage call tells of the room is so. -/
theorem Grounds.Room.apply (h : v.Room m st data) (q : Query) :
    (v.told q (q.apply o st).1).Room m (q.apply o st).2 data := by
  have hne {x y : MeetingId} (hxy : x ≠ y) : y ≠ x := Ne.symm hxy
  cases q with
  | getMeetingInfoById n =>
    simp only [Query.apply]
    cases hn : st.mysql.meetings.byId n with
    | none => exact h
    | some r =>
      refine { h with info := fun x hx => ?_ }
      rcases known_update hx with ⟨rfl, heq⟩ | hold
      · exact ⟨r, hn, Option.some.inj heq⟩
      · exact h.info x hold
  | getMeetingInfoByCode code =>
    simp only [Query.apply]
    cases hc : st.mysql.meetings.byCode code with
    | none => exact h
    | some r =>
      refine { h with info := fun x hx => ?_ }
      rcases known_update hx with ⟨rfl, heq⟩ | hold
      · exact ⟨r, MeetingTable.byId_of_mem (List.mem_of_find?_eq_some hc), Option.some.inj heq⟩
      · exact h.info x hold
  | sMembers n =>
    refine { h with members := fun l hl => ?_ }
    rcases known_update hl with ⟨rfl, heq⟩ | hold
    · exact Option.some.inj heq
    · exact h.members l hold
  | hGetRoomState n u =>
    refine { h with state := fun u' x hx => ?_ }
    rcases known_updateAt hx with ⟨rfl, rfl, heq⟩ | hold
    · exact heq
    · exact h.state u' x hold
  | hGetDeadline n u =>
    refine { h with deadline := fun u' x hx => ?_ }
    rcases known_updateAt hx with ⟨rfl, rfl, heq⟩ | hold
    · exact heq
    · exact h.deadline u' x hold
  | sAdd n u => exact h.wroteMembers (fun hn => Function.update_of_ne (hne hn) _ _) rfl rfl
  | sRem n u => exact h.wroteMembers (fun hn => Function.update_of_ne (hne hn) _ _) rfl rfl
  | delMembers n => exact h.wroteMembers (fun hn => Function.update_of_ne (hne hn) _ _) rfl rfl
  | hSetRoomState n u x => exact h.wroteMember (fun hn => Function.update_of_ne (hne hn) _ _) rfl rfl
  | hSetDeadline n u x => exact h.wroteMember (fun hn => Function.update_of_ne (hne hn) _ _) rfl rfl
  | delMember n u => exact h.wroteMember (fun hn => Function.update_of_ne (hne hn) _ _) rfl rfl
  | activateMember n u =>
    have hactivate : (st.redis.activate n u).2.members = st.redis.members ∧
        (n ≠ m → (st.redis.activate n u).2.member m = st.redis.member m) := by
      unfold Redis.activate
      split
      · exact ⟨rfl, fun hn => Function.update_of_ne (hne hn) _ _⟩
      · exact ⟨rfl, fun _ => rfl⟩
    exact h.wroteMember hactivate.2 hactivate.1 rfl
  | startMeeting n u =>
    refine h.wroteRow ?_ none ?_ ?_
    · rfl
    · exact fun hn => MeetingTable.byId_transition hn u _ _
    · exact fun _ _ hnone => by cases hnone
  | endMeeting n u =>
    refine h.wroteRow ?_ _ ?_ ?_
    · rfl
    · exact fun hn => MeetingTable.byId_transition hn u _ _
    · intro u' hn hended
      subst hn
      split at hended
      · next hhit =>
        cases hended
        obtain ⟨r, hr, huser, hstatus⟩ := MeetingTable.hit_of_transition .kEnded hhit
        refine ⟨{ r with status := .kEnded }, (MeetingTable.byId_moved u _ _).trans ?_, huser, rfl⟩
        rw [hr, Option.map_some, MeetingTable.moved, if_pos ⟨(MeetingTable.byId_some hr).2, huser, hstatus⟩]
      · cases hended
  | createMeeting title creator hash =>
    have hredis : (Query.apply o (.createMeeting title creator hash) st).2.redis = st.redis := by
      simp only [Query.apply]
      split <;> rfl
    exact h.frame (congrArg (fun x => Redis.members x m) hredis) (congrArg (fun x => Redis.member x m) hredis)
      fun r => row_kept (fun _ hq => by cases hq) fun _ hq => by cases hq
  | updateMeetingPart info u =>
    exact h.frame rfl rfl fun r => row_kept (fun _ hq => by cases hq) fun _ hq => by cases hq
  | saveMeetingMessage message =>
    exact h.frame rfl rfl fun r => row_kept (fun _ hq => by cases hq) fun _ hq => by cases hq
  | _ => exact h.frame rfl rfl fun _ hr => hr

theorem Grounds.Room.run (h : v.Room m st data) (q : Query) :
    (v.told q (q.run o st).1).Room m (q.run o st).2 data := by
  unfold Query.run
  split
  · exact h.less (less_failed q)
  · exact h.apply q

end

/-- What an operation has read is so: of users, of its own room, and of the time. -/
structure Grounds.Of (v : Grounds) (w : Work) (σ : Server) : Prop where
  users : ∀ t u, v.users t = some u → (w.session? = some t ∨ u ≠ 0) → (σ.sessions t).userId = u
  auth : v.auth = σ.storage.redis.auth
  steady : v.steady ≤ σ.steady
  room : ∀ m, m ≠ 0 → w.thread = .room m → v.Room m σ.storage (σ.rooms m).data

/-- The user of every session is the one its token is of, and no meeting has more members than its row allows. -/
structure Server.Guarded (σ : Server) : Prop where
  tokens : ∀ s, (σ.sessions s).userId ≠ 0 → Owns σ.storage.redis.auth (σ.sessions s).authToken (σ.sessions s).userId
  capacity : ∀ m, m ≠ 0 → ∀ u ∈ σ.storage.redis.members m, ∃ r, σ.storage.mysql.meetings.byId m = some r ∧
    (σ.storage.redis.members m).card ≤ r.maxParticipants

def grounds : Law Grounds where
  state := Server.Guarded
  machine := groundsMachine
  agrees w v σ := v.Of w σ

section

variable {σ σ' : Server} {w w' : Work} {c : Call} {k : c.Res → Op Unit} {o : Oracle} {v : Grounds} {m : MeetingId}

/-- What is written of a meeting is written by its own room. -/
theorem Server.Runs.own {distinct : Prop} (hw : Wired distinct none σ) (h : σ.Runs w (.call c k)) (hm : m ≠ 0)
    (hwrites : c.Writes m) : w.thread = .room m := by
  cases w with
  | conn s command =>
    obtain ⟨p, hp, hcall⟩ := h
    cases p with
    | pure r => cases hcall
    | call c' k' =>
      cases hcall
      obtain ⟨v, -, hpre, -⟩ := hw.conn s command _ hp nofun
      cases c with
      | submitRoom n task => exact hwrites.elim
      | _ => exact absurd hwrites (outside_not_writes hpre.2)
  | room n task =>
    have hactive : (σ.rooms n).active = some (task, .call c k) := h
    obtain ⟨v, -, hwp⟩ := hw.room n task _ hactive nofun
    have hpre : ledgerPre distinct σ.live n task c v := (hwp σ.live fun _ hs => hs).1
    by_contra hne
    have hnm : n ≠ m := fun heq => hne (congrArg Thread.room heq)
    cases c with
    | query site q => exact confined_not_writes hpre hnm hwrites
    | setRoom n' d => exact hnm (hpre.1.symm.trans hwrites)
    | _ => exact hwrites.elim
  | timer =>
    have hcall := (hw.timer _ h nofun).1
    cases c with
    | query site q =>
      cases q with
      | zRem n u => exact absurd (hwrites.symm.trans hcall) hm
      | zRangeByScore bound => exact hwrites.elim
      | _ => exact hcall.elim
    | setRoom n d => exact hcall.elim
    | _ => exact hwrites.elim
  | control =>
    have hcall := (hw.control _ h nofun).1
    cases c with
    | query site q => exact hcall.elim
    | setRoom n d => exact hcall.elim
    | _ => exact hwrites.elim

/-- A call leaves the user of a session that has one, and of a session that is not its work's. -/
theorem userId_kept (hv : v.Of w σ) (hpre : groundsPre w c v) {t : SessionId}
    (ht : (σ.sessions t).userId ≠ 0 ∨ w.session? ≠ some t) :
    ((exec c o σ).2.sessions t).userId = (σ.sessions t).userId := by
  by_cases hset : ∃ u token, c = .setUser t u token
  · obtain ⟨u, token, rfl⟩ := hset
    obtain ⟨hs, hold, -⟩ := hpre
    have hu : (σ.sessions t).userId = 0 ∨ (σ.sessions t).userId = u :=
      hold.imp (fun h => hv.users t 0 h (.inl hs)) fun h => hv.users t u h (.inl hs)
    have hkeep : (σ.sessions t).userId = u := hu.resolve_left (ht.resolve_right fun hne => hne hs)
    simp only [exec, Server.setSession_self, hkeep]
  · exact ((exec_session c o σ t).user fun u token hc => hset ⟨u, token, hc⟩).1

theorem run_auth (q : Query) (st : Storage) : (q.run o st).2.redis.auth = st.redis.auth := by
  unfold Query.run
  split
  · rfl
  cases q with
  | activateMember n u =>
    simp only [Query.apply, Redis.activate]
    split <;> rfl
  | createMeeting title creator hash =>
    simp only [Query.apply]
    split <;> rfl
  | _ => rfl

theorem exec_auth : (exec c o σ).2.storage.redis.auth = σ.storage.redis.auth := by
  by_cases hq : ∃ site q, c = .query site q
  · obtain ⟨site, q, rfl⟩ := hq
    exact run_auth q σ.storage
  · rw [exec_storage fun site q hc => hq ⟨site, q, hc⟩]

theorem learn_auth (r : c.Res) : (v.learn c r).auth = v.auth := by
  cases c with
  | query site q => cases q <;> first | rfl | (cases r <;> rfl)
  | _ => rfl

theorem learn_steady (hc : c ≠ .steadyNow) (r : c.Res) : (v.learn c r).steady = v.steady := by
  cases c with
  | steadyNow => exact absurd rfl hc
  | query site q => cases q <;> first | rfl | (cases r <;> rfl)
  | _ => rfl

/-- What a call tells of users is so. -/
theorem of_users (hv : v.Of w σ) (t : SessionId) (u : Uid) (hu : (v.learn c (exec c o σ).1).users t = some u)
    (hown : w.session? = some t ∨ u ≠ 0) : ((exec c o σ).2.sessions t).userId = u := by
  have hkept (hu : v.users t = some u) (hc : ∀ u token, c ≠ .setUser t u token) :
      ((exec c o σ).2.sessions t).userId = u :=
    ((exec_session c o σ t).user hc).1.trans (hv.users t u hu hown)
  cases c with
  | setUser t' u' token =>
    by_cases htt : t' = t
    · subst htt
      have hread : Function.update v.users t' (some u') t' = some u := hu
      rw [Function.update_self] at hread
      cases hread
      simp only [exec, Server.setSession_self]
    · have hread : Function.update v.users t' (some u') t = some u := hu
      rw [Function.update_of_ne (Ne.symm htt)] at hread
      exact hkept hread fun _ _ heq => htt (by cases heq; rfl)
  | getSession t' =>
    by_cases htt : t' = t
    · subst htt
      have hread : Function.update v.users t' (some (σ.sessions t').userId) t' = some u := hu
      rw [Function.update_self] at hread
      exact Option.some.inj hread
    · have hread : Function.update v.users t' (some (σ.sessions t').userId) t = some u := hu
      rw [Function.update_of_ne (Ne.symm htt)] at hread
      exact hkept hread fun _ _ heq => by cases heq
  | query site q =>
    refine hkept ?_ fun _ _ heq => by cases heq
    cases q <;> first | exact hu | (revert hu; generalize (exec _ o σ).1 = r; intro hu; cases r <;> exact hu)
  | _ => exact hkept hu fun _ _ heq => by cases heq

/-- What a call tells of the room is so. -/
theorem of_room (hm : m ≠ 0) (hroom : v.Room m σ.storage (σ.rooms m).data) :
    (v.learn c (exec c o σ).1).Room m (exec c o σ).2.storage ((exec c o σ).2.rooms m).data := by
  have hplain (hq : ∀ site q, c ≠ .query site q) (hd : ∀ d, c ≠ .setRoom m d)
      (hless : (v.learn c (exec c o σ).1).Less m v) :
      (v.learn c (exec c o σ).1).Room m (exec c o σ).2.storage ((exec c o σ).2.rooms m).data := by
    rw [exec_storage hq, exec_data m hd]
    exact hroom.less hless
  cases c with
  | query site q => exact hroom.run q
  | getRoom n =>
    refine { hroom with data := fun d hd => ?_ }
    rcases known_update hd with ⟨rfl, heq⟩ | hold
    · have hread : σ.roomData n = d := Option.some.inj heq
      rwa [Server.roomData, if_neg hm] at hread
    · exact hroom.data d hold
  | setRoom n d =>
    by_cases hn : n = m
    · subst hn
      rw [exec_storage fun site q heq => by cases heq]
      refine ⟨hroom.info, hroom.members, hroom.ended, hroom.state, hroom.deadline, fun d' hd' => ?_⟩
      have hnone : Function.update v.data n none n = some d' := hd'
      rw [Function.update_self] at hnone
      cases hnone
    · exact hplain (fun _ _ heq => by cases heq) (fun _ heq => hn (by cases heq; rfl))
        { Grounds.Less.refl v with data := fun _ => of_update_none }
  | _ =>
    exact hplain (fun _ _ heq => by cases heq) (fun _ heq => by cases heq)
      ⟨fun _ => id, fun _ => id, fun _ => id, fun _ _ => id, fun _ _ => id, fun _ => id⟩

theorem of_learn (hv : v.Of w σ) : (v.learn c (exec c o σ).1).Of w (exec c o σ).2 := by
  refine ⟨of_users hv, ?_, ?_, fun m hm hthread => of_room hm (hv.room m hm hthread)⟩
  · rw [learn_auth, exec_auth]
    exact hv.auth
  · have hsteady : (exec c o σ).2.steady = σ.steady := (exec_threads c o σ).clocks.2
    by_cases hc : c = .steadyNow
    · subst hc
      exact le_rfl
    · rw [learn_steady hc, hsteady]
      exact hv.steady

/-- The answers are as the machine has them. -/
theorem grounds_answers (hv : v.Of w σ) : v.Answers w c (exec c o σ).1 := by
  cases c with
  | getSession t => exact fun u hu hown => hv.users t u hu hown
  | steadyNow => exact hv.steady
  | query site q =>
    cases q with
    | lookupAuth token =>
      intro info hfound
      rw [hv.auth]
      simp only [exec, Query.run] at hfound
      split at hfound
      · cases hfound
      simp only [Query.apply] at hfound
      split at hfound
      · next p hp =>
        cases hfound
        exact hp
      · cases hfound
    | _ => trivial
  | _ => trivial

/-! ## The law -/

theorem card_apply {q : Query} {st : Storage} (hq : ∀ u, q ≠ .sAdd m u) :
    ((q.apply o st).2.redis.members m).card ≤ (st.redis.members m).card := by
  cases q with
  | sAdd n u =>
    have hn : m ≠ n := by
      rintro rfl
      exact hq u rfl
    simp only [Query.apply, Redis.setMembers, Function.update_of_ne hn, le_refl]
  | sRem n u =>
    simp only [Query.apply, Redis.setMembers, Function.update_apply]
    split
    · next hn => exact hn ▸ KeySet.card_remove_le _ _
    · exact le_rfl
  | delMembers n =>
    simp only [Query.apply, Redis.setMembers, Function.update_apply]
    split
    · exact Nat.zero_le _
    · exact le_rfl
  | activateMember n u =>
    simp only [Query.apply, Redis.activate]
    split <;> exact le_rfl
  | createMeeting title creator hash =>
    simp only [Query.apply]
    split <;> exact le_rfl
  | _ => exact le_rfl

/-- No call changes how many members a meeting may have. -/
theorem places_apply (q : Query) {st : Storage} {r : MeetingRow} (hr : st.mysql.meetings.byId m = some r) :
    ∃ r', (q.apply o st).2.mysql.meetings.byId m = some r' ∧ r'.maxParticipants = r.maxParticipants := by
  rcases row_cases (o := o) q hr with hsame | ⟨u, before, after, -, hmoved⟩
  · exact ⟨r, hsame, rfl⟩
  · refine ⟨_, hmoved, ?_⟩
    unfold MeetingTable.moved
    split <;> rfl

/-- Whoever enters has found a place. -/
theorem capacity_query (hσ : σ.Guarded) (hm : m ≠ 0) {q : Query}
    (henters : ∀ u, q = .sAdd m u → Enters w m u v ∧ v.Room m σ.storage (σ.rooms m).data) {u : Uid}
    (hu : u ∈ (q.run o σ.storage).2.redis.members m) : ∃ r, (q.run o σ.storage).2.mysql.meetings.byId m = some r ∧
      ((q.run o σ.storage).2.redis.members m).card ≤ r.maxParticipants := by
  unfold Query.run at hu ⊢
  split at hu
  · next hfail =>
    rw [if_pos hfail]
    exact hσ.capacity m hm u hu
  next hfail =>
  rw [if_neg hfail]
  by_cases hq : ∃ x, q = .sAdd m x
  · obtain ⟨x, rfl⟩ := hq
    obtain ⟨⟨l, info, hl, hinfo, -, -, hplace⟩, hroom⟩ := henters x rfl
    obtain ⟨r, hr, rfl⟩ := hroom.info info hinfo
    have helems := hroom.members l hl
    have hset : ((Query.apply o (.sAdd m x) σ.storage).2.redis.members m) = (σ.storage.redis.members m).add x :=
      Function.update_self _ _ _
    rw [hset]
    by_cases hx : x ∈ σ.storage.redis.members m
    · obtain ⟨r', hr', hcard⟩ := hσ.capacity m hm x hx
      rw [KeySet.add_of_mem hx]
      exact ⟨r', hr', hcard⟩
    · have hlt : l.length < r.maxParticipants := (hplace.resolve_left fun h => hx (KeySet.mem_def.mpr (helems.symm ▸ h))).2
      refine ⟨r, hr, ?_⟩
      rw [KeySet.card_add_of_notMem hx, KeySet.card, helems]
      exact hlt
  · have hnot (x : Uid) : q ≠ .sAdd m x := fun heq => hq ⟨x, heq⟩
    have hold : u ∈ σ.storage.redis.members m := by
      have hrun : (q.run o σ.storage) = q.apply o σ.storage := if_neg hfail
      exact (run_member (hrun ▸ hu)).resolve_right (hnot u)
    obtain ⟨r, hr, hcard⟩ := hσ.capacity m hm u hold
    obtain ⟨r', hr', hmax⟩ := places_apply (o := o) q hr
    exact ⟨r', hr', (card_apply hnot).trans (hmax ▸ hcard)⟩

theorem grounds_call (hw : Wired False none σ) (hσ : σ.Guarded) (hruns : σ.Runs w (.call c k)) (hv : v.Of w σ)
    (hpre : groundsPre w c v) : (exec c o σ).2.Guarded := by
  refine ⟨fun t ht => ?_, fun m hm u hu => ?_⟩
  · rw [exec_auth]
    by_cases hset : ∃ u token, c = .setUser t u token
    · obtain ⟨u, token, rfl⟩ := hset
      obtain ⟨-, -, howns⟩ := hpre
      simp only [exec, Server.setSession_self]
      exact hv.auth ▸ howns
    · obtain ⟨huser, htoken⟩ := (exec_session c o σ t).user fun u token hc => hset ⟨u, token, hc⟩
      rw [huser] at ht
      rw [huser, htoken]
      exact hσ.tokens t ht
  · by_cases hq : ∃ site q, c = .query site q
    · obtain ⟨site, q, rfl⟩ := hq
      refine capacity_query (w := w) (v := v) hσ hm (fun x hx => ?_) hu
      subst hx
      exact ⟨hpre, hv.room m hm (hruns.own hw hm (rfl : m = m))⟩
    · have hstorage := exec_storage (o := o) (σ := σ) fun site q hc => hq ⟨site, q, hc⟩
      rw [hstorage] at hu ⊢
      exact hσ.capacity m hm u hu

/-- A call of another work leaves what an operation has read. -/
theorem of_beside (hw : Wired False none σ) (hruns : σ.Runs w (.call c k)) (hv : v.Of w σ) (hpre : groundsPre w c v)
    (hne : w'.thread ≠ w.thread) {op : Op Unit} (hruns' : σ.Runs w' op) {x : Grounds} (hx : x.Of w' σ) :
    x.Of w' (exec c o σ).2 := by
  refine ⟨fun t u ht hu => ?_, hx.auth.trans exec_auth.symm, ?_, fun m hm hthread => ?_⟩
  · have hold := hx.users t u ht hu
    rw [userId_kept hv hpre ?_]
    · exact hold
    · rcases hu with hs | hu
      · refine .inr fun hs' => hne ?_
        exact hw.placed.worker_unique (hruns'.worker.trans hs) (hruns.worker.trans hs')
      · exact .inl (hold ▸ hu)
  · rw [(exec_threads c o σ).clocks.2]
    exact hx.steady
  · have hnot : ¬ c.Writes m := fun hwrites => hne (hthread.trans (hruns.own hw hm hwrites).symm)
    have hdata : ((exec c o σ).2.rooms m).data = (σ.rooms m).data := by
      refine exec_data m ?_
      rintro d rfl
      exact hnot rfl
    rw [hdata]
    by_cases hq : ∃ site q, c = .query site q
    · obtain ⟨site, q, rfl⟩ := hq
      have hshared : (q.run o σ.storage).2.redis.shared m (σ.rooms m).data =
          σ.storage.redis.shared m (σ.rooms m).data := run_shared hnot
      exact (hx.room m hm hthread).frame (congrArg Shared.members hshared) (congrArg Shared.member hshared)
        fun r hr => run_status hnot hr
    · rw [exec_storage fun site q hc => hq ⟨site, q, hc⟩]
      exact hx.room m hm hthread

theorem grounds_sound (ok : Server → Event → Prop) : grounds.Sound ok where
  initial σ h := by
    refine ⟨fun s hs => ?_, fun m _ u hu => ?_⟩
    · rw [h.sessions] at hs
      exact absurd rfl hs
    · rw [h.members] at hu
      exact absurd hu List.not_mem_nil
  begins σ w op _ _ _ _ hbegins := by
    refine ⟨{ auth := σ.storage.redis.auth }, ⟨fun t u ht => ?_, rfl, Nat.zero_le _, fun m _ _ => ?_⟩,
      wp_groundsBegins hbegins⟩
    · cases ht
    · constructor
      all_goals
        intros
        next h => cases h
  call σ w c k o v hw hσ _ hruns hv hpre :=
    ⟨grounds_call hw hσ hruns hv hpre, _, ⟨grounds_answers hv, rfl⟩, of_learn hv⟩
  beside σ w c k o v w' op' v' hw _ hruns hv hpre hne hruns' hv' := of_beside hw hruns hv hpre hne hruns' hv'
  drifts σ σ' h := by
    refine ⟨fun hσ => ⟨fun s hs => ?_, fun m hm u hu => ?_⟩, fun w v hv => ⟨fun t u ht hu => ?_, ?_, ?_, fun m hm hthread => ?_⟩⟩
    · obtain ⟨huser, htoken, -⟩ := h.session s
      rw [huser] at hs
      rw [h.storage, huser, htoken]
      exact hσ.tokens s hs
    · rw [h.storage] at hu ⊢
      exact hσ.capacity m hm u hu
    · rw [(h.session t).1]
      exact hv.users t u ht hu
    · rw [h.storage]
      exact hv.auth
    · exact hv.steady.trans h.steady
    · rw [h.storage, h.data]
      exact hv.room m hm hthread

/-! ## Doors -/

namespace Server

/-- The room of the meeting serves a request of the user. -/
def Serves (σ : Server) (m : MeetingId) (id : RequestID) (u : Uid) : Prop :=
  ∃ s r op, (σ.rooms m).active = some (.dispatch s (.request r), op) ∧ r.id = id ∧ (σ.sessions s).userId = u ∧ u ≠ 0

/-- The user joins a meeting that has a place and may be entered. -/
def Admits (σ : Server) (m : MeetingId) (u : Uid) : Prop :=
  σ.Serves m .joinMeetingRequest u ∧ ∃ r, σ.storage.mysql.meetings.byId m = some r ∧ r.status ≠ .kCancelled ∧
    r.status ≠ .kEnded ∧ (σ.storage.redis.members m).card < r.maxParticipants

/-- Why a user may be taken off the members. -/
inductive Dismisses (σ : Server) (m : MeetingId) (u : Uid) : Prop where
  | leaves (h : σ.Serves m .leaveMeetingRequest u)
  /-- Their JOIN has failed. -/
  | failed (h : σ.Serves m .joinMeetingRequest u)
  /-- The creator has ended the meeting. -/
  | ended (creator : Uid) (r : MeetingRow) (h : σ.Serves m .endMeetingRequest creator)
      (hr : σ.storage.mysql.meetings.byId m = some r) (hcreator : r.creatorUserId = creator) (hended : r.status = .kEnded)
  /-- They have not come back: Redis has them waiting with a deadline, and the room's own deadline has passed. -/
  | overdue (op : Op Unit) (d : Nat) (htask : (σ.rooms m).active = some (.expire u, op))
      (hstate : (σ.storage.redis.member m u).roomState = some .reconnecting)
      (hdeadline : (σ.storage.redis.member m u).reconnectDeadlineAt = some d ∧ d ≠ 0)
      (hgrace : ∀ member, (σ.rooms m).data.members u = some member → ∀ d, member.deadline = some d → d ≤ σ.steady)

end Server

theorem run_gone {q : Query} {st : Storage} {u : Uid} (hu : u ∈ st.redis.members m)
    (hgone : u ∉ (q.run o st).2.redis.members m) : q = .sRem m u ∨ q = .delMembers m := by
  unfold Query.run at hgone
  split at hgone
  · exact absurd hu hgone
  cases q with
  | sAdd n x =>
    simp only [Query.apply, Redis.setMembers, Function.update_apply] at hgone
    split at hgone
    · next hn => exact absurd (KeySet.mem_add.mpr (.inr (hn ▸ hu))) hgone
    · exact absurd hu hgone
  | sRem n x =>
    simp only [Query.apply, Redis.setMembers, Function.update_apply] at hgone
    split at hgone
    · next hn =>
      subst hn
      have hx : u = x := by
        by_contra hne
        exact hgone (KeySet.mem_remove.mpr ⟨hu, hne⟩)
      exact .inl (congrArg _ hx.symm)
    · exact absurd hu hgone
  | delMembers n =>
    simp only [Query.apply, Redis.setMembers, Function.update_apply] at hgone
    split at hgone
    · next hn => exact .inr (congrArg _ hn.symm)
    · exact absurd hu hgone
  | activateMember n x =>
    simp only [Query.apply, Redis.activate] at hgone
    split at hgone <;> exact absurd hu hgone
  | createMeeting title creator hash =>
    simp only [Query.apply] at hgone
    split at hgone <;> exact absurd hu hgone
  | _ => exact absurd hu hgone

/-- Whose request an operation of a room serves. -/
theorem ByUser.serves {task : Task} {id : RequestID} {u : Uid} (h : ByUser (.room m task) id u v)
    (hv : v.Of (.room m task) σ) {op : Op Unit} (hactive : (σ.rooms m).active = some (task, op)) : σ.Serves m id u := by
  obtain ⟨s, r, hr, hid, hu, hs⟩ := h
  cases task with
  | dispatch t command =>
    cases command with
    | request r' =>
      cases hr
      exact ⟨s, r, op, hactive, hid, hv.users s u hs (.inr hu), hu⟩
    | disconnected => cases hr
  | expire uid => cases hr
  | mediaReply epoch id registered message => cases hr

/-- What an operation of a room calls has its grounds in the state. -/
theorem room_grounds {ok : Server → Event → Prop} (h : Reachable ok σ) (hm : m ≠ 0) (hruns : σ.Runs w (.call c k))
    (hwrites : c.Writes m) : ∃ task v, w = .room m task ∧ v.Of w σ ∧ groundsPre w c v ∧
      (σ.rooms m).active = some (task, .call c k) ∧ v.Room m σ.storage (σ.rooms m).data := by
  have hw : Wired False none σ := wired_reachable (fun hf => hf.elim) h
  obtain ⟨v, hv, hpre, -⟩ := ((grounds_sound ok).reachable h).2 w _ hruns
  have hthread := hruns.own hw hm hwrites
  cases w with
  | room n task =>
    cases hthread
    exact ⟨task, v, rfl, hv, hpre, hruns, hv.room m hm rfl⟩
  | conn s command => cases hthread
  | timer => cases hthread
  | control => cases hthread

/-- A user comes into a meeting by their own JOIN, while it may be entered and has a place, and goes by their own LEAVE,
by the failure of their own JOIN, because the creator has ended the meeting, or because their time is over: whatever the
requests, the stores and the order of steps. -/
theorem doors {ok : Server → Event → Prop} (h : Reachable ok σ) (hm : m ≠ 0) {e : Event} (hstep : σ.step e = some σ')
    (u : Uid) :
    (u ∉ σ.storage.redis.members m → u ∈ σ'.storage.redis.members m → σ.Admits m u) ∧
      (u ∈ σ.storage.redis.members m → u ∉ σ'.storage.redis.members m → σ.Dismisses m u) := by
  have hsame (hstorage : σ'.storage = σ.storage) :
      (u ∉ σ.storage.redis.members m → u ∈ σ'.storage.redis.members m → σ.Admits m u) ∧
        (u ∈ σ.storage.redis.members m → u ∉ σ'.storage.redis.members m → σ.Dismisses m u) := by
    rw [hstorage]
    exact ⟨fun hnot hin => absurd hin hnot, fun hin hnot => absurd hin hnot⟩
  cases step_runs (step_cases hstep) with
  | start w op he hwaits hbegins hdata hrest => exact hsame hdata.storage
  | outside he hdrifts hrest => exact hsame hdrifts.storage
  | call w c k o he hruns hdata hrest =>
    by_cases hq : ∃ site q, c = .query site q
    · obtain ⟨site, q, rfl⟩ := hq
      have hstorage : σ'.storage = (q.run o σ.storage).2 := hdata.storage
      rw [hstorage]
      refine ⟨fun hnot hin => ?_, fun hin hnot => ?_⟩
      · obtain rfl := (run_member hin).resolve_left hnot
        obtain ⟨task, v, rfl, hv, hpre, hactive, hroom⟩ := room_grounds h hm hruns rfl
        obtain ⟨l, info, hl, hinfo, hcancelled, hended, hplace⟩ := hpre
        have helems := hroom.members l hl
        obtain ⟨r, hr, rfl⟩ := hroom.info info hinfo
        obtain ⟨hby, hlt⟩ := hplace.resolve_left fun hin => hnot (KeySet.mem_def.mpr (helems.symm ▸ hin))
        refine ⟨hby.serves hv hactive, r, hr, hcancelled, hended, ?_⟩
        rw [KeySet.card, helems]
        exact hlt
      · rcases run_gone hin hnot with rfl | rfl
        · obtain ⟨task, v, rfl, hv, hpre, hactive, hroom⟩ := room_grounds h hm hruns rfl
          rcases hpre with hleaves | hfailed | hover
          · exact .leaves (hleaves.serves hv hactive)
          · exact .failed (hfailed.serves hv hactive)
          · obtain ⟨d, hd, hne⟩ := hover.deadline
            obtain ⟨data, hdata', hgrace⟩ := hover.grace
            have htask := hover.task
            cases htask
            refine .overdue _ d hactive (hroom.state u _ hover.state) ⟨hroom.deadline u d hd, hne⟩ fun member hmember d' hd' => ?_
            exact (hgrace member (hroom.data data hdata' ▸ hmember) d' hd').trans hv.steady
        · obtain ⟨task, v, rfl, hv, ⟨creator, hby, hended⟩, hactive, hroom⟩ := room_grounds h hm hruns rfl
          obtain ⟨r, hr, hcreator, hstatus⟩ := hroom.ended creator hended
          exact .ended creator r (hby.serves hv hactive) hr hcreator hstatus
    · exact hsame (hdata.storage.trans (exec_storage fun site q hc => hq ⟨site, q, hc⟩))

open Scenario in
/-- User 1 enters the meeting, by the ninth call of their JOIN. -/
theorem doors_join : ∃ (σ σ' : Server) (e : Event), σ.step e = some σ' ∧ 1 ∉ σ.storage.redis.members 7 ∧
    1 ∈ σ'.storage.redis.members 7 ∧ σ.Admits 7 1 := by
  let e : Event := .step (.room 7) { text := "k" }
  have hplay : ((play Server.step (fun _ _ => true) (connect 0 ++ asks 0 join ++ lets (.room 7) 8 { text := "k" })
      server).any fun σ => decide (1 ∉ σ.storage.redis.members 7) &&
        (σ.step e).any fun σ' => decide (1 ∈ σ'.storage.redis.members 7)) = true := by decide +kernel
  obtain ⟨σ, hplay, hstate⟩ := (Option.any_eq_true _ _).mp hplay
  rw [Bool.and_eq_true, decide_eq_true_eq] at hstate
  obtain ⟨σ', hstep, hin⟩ := (Option.any_eq_true _ _).mp hstate.2
  have hin := of_decide_eq_true hin
  have hreach : Reachable (fun _ _ => True) σ := ⟨server, server_initial, reach_play (fun _ _ _ => trivial) hplay⟩
  exact ⟨σ, σ', e, hstep, hstate.1, hin, (doors hreach (by decide) hstep 1).1 hstate.1 hin⟩

/-- A meeting's row stays, and nothing of it changes but its status: from scheduled to in progress by a START of its
creator, and from in progress to ended by an END of its creator. -/
theorem status_by_creator {ok : Server → Event → Prop} (h : Reachable ok σ) {e : Event} (hstep : σ.step e = some σ')
    {r : MeetingRow} (hr : σ.storage.mysql.meetings.byId m = some r) :
    ∃ r', σ'.storage.mysql.meetings.byId m = some r' ∧ (r' = r ∨
      (σ.Serves m .startMeetingRequest r.creatorUserId ∧ r.status = .kScheduled ∧ r' = { r with status := .kInProgress }) ∨
      (σ.Serves m .endMeetingRequest r.creatorUserId ∧ r.status = .kInProgress ∧ r' = { r with status := .kEnded })) := by
  have hm : m ≠ 0 := (MeetingTable.byId_some hr).2 ▸ r.idPos
  cases step_runs (step_cases hstep) with
  | start w op he hwaits hbegins hdata hrest => exact ⟨r, hdata.storage ▸ hr, .inl rfl⟩
  | outside he hdrifts hrest => exact ⟨r, hdrifts.storage ▸ hr, .inl rfl⟩
  | call w c k o he hruns hdata hrest =>
    by_cases hq : ∃ site q, c = .query site q
    · obtain ⟨site, q, rfl⟩ := hq
      have hstorage : σ'.storage = (q.run o σ.storage).2 := hdata.storage
      rw [hstorage]
      unfold Query.run
      split
      · exact ⟨r, hr, .inl rfl⟩
      rcases row_cases (o := o) q hr with hsame | ⟨u, before, after, hwhich, hmoved⟩
      · exact ⟨r, hsame, .inl rfl⟩
      · refine ⟨_, hmoved, ?_⟩
        unfold MeetingTable.moved
        split
        · next hhit =>
          obtain ⟨-, rfl, hbefore⟩ := hhit
          rcases hwhich with ⟨rfl, rfl, rfl⟩ | ⟨rfl, rfl, rfl⟩
          · obtain ⟨task, v, rfl, hv, hpre, hactive, hroom⟩ := room_grounds h hm hruns rfl
            exact .inr (.inl ⟨ByUser.serves hpre hv hactive, hbefore, rfl⟩)
          · obtain ⟨task, v, rfl, hv, hpre, hactive, hroom⟩ := room_grounds h hm hruns rfl
            exact .inr (.inr ⟨ByUser.serves hpre hv hactive, hbefore, rfl⟩)
        · exact .inl rfl
    · rw [hdata.storage.trans (exec_storage fun site q hc => hq ⟨site, q, hc⟩)]
      exact ⟨r, hr, .inl rfl⟩

namespace Scenario

def ends : Request := ⟨.endMeetingRequest, .value (.obj [("meeting_id", .str "7")])⟩

/-- A check that meeting 7 has the status. -/
def hasStatus (status : MeetingStatus) (σ : Server) : Bool :=
  (σ.storage.mysql.meetings.byId 7).any fun r => decide (r.status = status)

theorem hasStatus_spec {status : MeetingStatus} (h : hasStatus status σ = true) :
    ∃ r, σ.storage.mysql.meetings.byId 7 = some r ∧ r.status = status := by
  obtain ⟨r, hr, hstatus⟩ := (Option.any_eq_true _ _).mp h
  exact ⟨r, hr, of_decide_eq_true hstatus⟩

end Scenario

open Scenario in
/-- User 1 joins the meeting they have created, and ends it. -/
theorem status_by_creator_end : ∃ (σ σ' : Server) (e : Event) (r : MeetingRow), σ.step e = some σ' ∧
    σ.storage.mysql.meetings.byId 7 = some r ∧ r.status = .kInProgress ∧
      σ.Serves 7 .endMeetingRequest r.creatorUserId ∧
        σ'.storage.mysql.meetings.byId 7 = some { r with status := .kEnded } := by
  let e : Event := .step (.room 7) {}
  have hplay : ((play Server.step (fun _ _ => true) (connect 0 ++ asks 0 join ++ work ++ asks 0 ends ++
      lets (.room 7) 7 {}) server).any fun σ =>
        hasStatus .kInProgress σ && (σ.step e).any (hasStatus .kEnded)) = true := by decide +kernel
  obtain ⟨σ, hplay, hstate⟩ := (Option.any_eq_true _ _).mp hplay
  rw [Bool.and_eq_true] at hstate
  obtain ⟨σ', hstep, hended⟩ := (Option.any_eq_true _ _).mp hstate.2
  obtain ⟨r, hr, hstatus⟩ := hasStatus_spec hstate.1
  obtain ⟨r₂, hr₂, hstatus₂⟩ := hasStatus_spec hended
  have hreach : Reachable (fun _ _ => True) σ := ⟨server, server_initial, reach_play (fun _ _ _ => trivial) hplay⟩
  obtain ⟨r', hr', hkept | ⟨-, hbefore, -⟩ | ⟨hserves, -, hafter⟩⟩ := status_by_creator hreach hstep hr
  · cases hr₂.symm.trans hr'
    rw [hkept, hstatus] at hstatus₂
    cases hstatus₂
  · rw [hstatus] at hbefore
    cases hbefore
  · exact ⟨σ, σ', e, r, hstep, hr, hstatus, hserves, hafter ▸ hr'⟩

end

namespace Process

open Scenario

variable [PoolSizes] {π : Process}

/-- The coroutine of a queue takes some steps and waits; a thread of the storage pool carries out its query, and the
handler resumes it. -/
def round (i n : Nat) : List Event :=
  List.replicate n (.inner (.step i { text := "k" } 0)) ++ List.replicate 5 (.inner (.thread .storage 0 {})) ++
    [.inner (.handler i false)]

/-- A connection is accepted and logs in as user 1. -/
def connects : List Event :=
  .accept :: .frame 0 (login 1 "1") 40 :: .inner (.thread .storage 0 {}) :: .inner (.handler 2 false) ::
    [6, 2, 1].flatMap (round 2) ++ List.replicate 7 (.inner (.step 2 {} 0))

/-- Its user joins meeting 7. -/
def joins : List Event :=
  .inner (.handler 2 false) :: .frame 0 join 40 :: .inner (.handler 3 false) :: round 3 6 ++
    List.replicate 2 (.inner (.step 3 {} 0)) ++ .inner (.handler 4 false) :: [7, 1, 2].flatMap (round 4)

/-- However the threads take turns, no meeting has more members than its row allows. -/
theorem seats (h : π.Reachable) {m : MeetingId} (hm : m ≠ 0) {u : Uid} (hu : u ∈ π.logic.server.storage.redis.members m) :
    ∃ r, π.logic.server.storage.mysql.meetings.byId m = some r ∧
      (π.logic.server.storage.redis.members m).card ≤ r.maxParticipants := by
  refine holds_of_serial (P := fun σ => ∀ m, m ≠ 0 → ∀ u ∈ σ.storage.redis.members m,
    ∃ r, σ.storage.mysql.meetings.byId m = some r ∧ (σ.storage.redis.members m).card ≤ r.maxParticipants)
    (fun S hS => ?_) h m hm u hu
  exact ((grounds_sound _).reachable hS).1.capacity

omit [PoolSizes] in
/-- User 1 has joined. -/
theorem seats_join : ∃ π : Process, ∃ r, π.logic.server.storage.mysql.meetings.byId 7 = some r ∧
    1 ∈ π.logic.server.storage.redis.members 7 ∧
      (π.logic.server.storage.redis.members 7).card ≤ r.maxParticipants := by
  let _ : PoolSizes := .source
  have hplay : ((play step (fun _ _ => true) (connects ++ joins) (start Scenario.server false)).any fun π =>
      decide (1 ∈ π.logic.server.storage.redis.members 7)) = true := by decide +kernel
  obtain ⟨π, hplay, hin⟩ := (Option.any_eq_true _ _).mp hplay
  have hin := of_decide_eq_true hin
  have hreach : π.Reachable := ⟨Scenario.server, false, Scenario.server_initial, reach_play (fun _ _ _ => trivial) hplay⟩
  obtain ⟨r, hr, hcard⟩ := seats hreach (by decide) hin
  exact ⟨π, r, hr, hin, hcard⟩

end Process

end SyncRtc
