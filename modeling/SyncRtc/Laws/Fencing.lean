import SyncRtc.Laws.Confinement

/-!
# A session that was replaced

When another session is bound to a member, the one that was bound before is **retired**. The fence around
it has several parts: it is closed and out of the room before the binding moves, `dispatch` drops the
commands of a closed session, and its disconnect finds it in no meeting. Together they leave a retired
session nothing to change: every operation of the room that works for it ends at its first checks.

A session whose object was gone when the binding moved is not closed by anyone; it has no command left
(`Server.Gone`).
-/

set_option autoImplicit false

namespace SyncRtc

open Prog

/-! ## Retirement, in a history -/

/-- A member's binding has moved from the session to another one. -/
def Retired (h : List RoomEvent) (p : SessionId) : Prop :=
  ∃ newer older e u s old, h = newer ++ e :: older ∧ RoomEvent.binds e = some (u, s) ∧
    replay older u = some old ∧ old.session = p ∧ s ≠ p

theorem Retired.cons {h : List RoomEvent} {p : SessionId} (hp : Retired h p) (e : RoomEvent) :
    Retired (e :: h) p := by
  obtain ⟨newer, older, e', u, s, old, rfl, hrest⟩ := hp
  exact ⟨e :: newer, older, e', u, s, old, rfl, hrest⟩

/-- A session is retired by the latest event or was before. -/
theorem Retired.cases {h : List RoomEvent} {e : RoomEvent} {p : SessionId} (hp : Retired (e :: h) p) :
    Retired h p ∨
      ∃ u s old, e.binds = some (u, s) ∧ replay h u = some old ∧ old.session = p ∧ s ≠ p := by
  obtain ⟨newer, older, e', u, s, old, heq, hbinds, hold, hsession, hne⟩ := hp
  cases newer with
  | nil =>
    cases heq
    exact .inr ⟨u, s, old, hbinds, hold, hsession, hne⟩
  | cons x newer =>
    cases heq
    exact .inl ⟨newer, older, e', u, s, old, rfl, hbinds, hold, hsession, hne⟩

section

variable {distinct : Prop} {σ σ' : Server} {e : Event}

/-- A step keeps a session closed, and its meeting unless it sets it. -/
theorem step_session (h : Stepped σ e σ') (s : SessionId) :
    ((σ.sessions s).closed = true → (σ'.sessions s).closed = true) ∧
    ((∀ t o n, e = .step t o → σ.nextCall? t ≠ some (.setMeetingId s n)) →
      (σ'.sessions s).meetingId = (σ.sessions s).meetingId) := by
  have setSession : ∀ {t : SessionId} {v : Session}, (v.closed = false → (σ.sessions t).closed = false) →
      v.meetingId = (σ.sessions t).meetingId →
      ((σ.sessions s).closed = true → ((σ.setSession t v).sessions s).closed = true) ∧
      ((σ.setSession t v).sessions s).meetingId = (σ.sessions s).meetingId := by
    intro t v hclosed hmeeting
    by_cases hs : s = t
    · subst hs
      rw [Server.setSession_self]
      refine ⟨fun hc => ?_, hmeeting⟩
      cases hv : v.closed with
      | true => rfl
      | false => rw [hclosed hv] at hc; cases hc
    · rw [Server.setSession_of_ne hs]
      exact ⟨id, rfl⟩
  have call : ∀ {t : Thread} {c : Call} {o : Oracle}, e = .step t o → σ.nextCall? t = some c →
      ((σ.sessions s).closed = true → ((exec c o σ).2.sessions s).closed = true) ∧
      ((∀ t o n, e = .step t o → σ.nextCall? t ≠ some (.setMeetingId s n)) →
        ((exec c o σ).2.sessions s).meetingId = (σ.sessions s).meetingId) := by
    intro t c o he hnext
    have hkept := exec_session c o σ s
    refine ⟨hkept.closed, fun hno => hkept.meeting ?_⟩
    rintro n rfl
    exact hno t o n he hnext
  cases h with
  | overflow t r ho =>
    obtain ⟨hc, hm⟩ := setSession (t := t) (v := { σ.sessions t with closed := true }) nofun rfl
    exact ⟨hc, fun _ => hm⟩
  | close t ho =>
    obtain ⟨hc, hm⟩ := setSession (t := t) (v := { σ.sessions t with closed := true }) nofun rfl
    exact ⟨hc, fun _ => hm⟩
  | release t hc hs =>
    obtain ⟨hc, hm⟩ := setSession (t := t) (v := { σ.sessions t with alive := false }) id rfl
    exact ⟨hc, fun _ => hm⟩
  | startConn t command rest hs hq =>
    rw [resumeConn_eq]
    exact ⟨id, fun _ => rfl⟩
  | startRoom m task rest ha hq =>
    rw [resumeRoom_eq]
    exact ⟨id, fun _ => rfl⟩
  | conn t command c k o hs =>
    rw [resumeConn_eq]
    exact call rfl (by simp only [Server.nextCall?, hs, Prog.next?])
  | room m task c k o ha =>
    rw [resumeRoom_eq]
    exact call rfl (by simp only [Server.nextCall?, ha, Option.bind_some, Prog.next?])
  | timer c k o ht => exact call rfl (by simp only [Server.nextCall?, ht, Option.bind_some, Prog.next?])
  | control c k o hc => exact call rfl (by simp only [Server.nextCall?, hc, Option.bind_some, Prog.next?])
  | _ => exact ⟨id, fun _ => rfl⟩

/-- The connection of a command in a room's hands has that command to finish. -/
theorem Wired.busy (h : Wired distinct none σ) {m : MeetingId} {s : SessionId} {command : Command}
    (ht : Task.dispatch s command ∈ σ.tasks m) : ∃ rest, (σ.conns s).commands = command :: rest := by
  have hw := h.placed.waits m s command ht
  simp only [Server.awaited] at hw
  unfold ConnState.awaits at hw
  split at hw
  · next hstate =>
    cases hw
    refine ⟨(σ.conns s).queue, ?_⟩
    simp only [Conn.commands, hstate, ConnState.command, Option.toList_some, List.singleton_append]
  · cases hw

/-- A connection that is gone stays gone. -/
theorem Server.Gone.step {s : SessionId} (hg : σ.Gone s) (hw : Wired distinct none σ) (h : Stepped σ e σ') :
    σ'.Gone s := by
  obtain ⟨hlt, hclosed, hnone⟩ := hg
  have keep : ∀ {σ₁ : Server}, σ₁.conns s = σ.conns s → σ₁.nextSession = σ.nextSession → σ₁.Gone s := by
    intro σ₁ hc hn
    simp only [Server.Gone, hc, hn]
    exact ⟨hlt, hclosed, hnone⟩
  have hresume : ∀ {m : MeetingId} {task : Task} {op : Op Unit}, task ∈ σ.tasks m →
      task.resume σ.conns op s = σ.conns s := by
    intro m task op ht
    cases op with
    | call c k => rfl
    | pure u =>
      cases task with
      | dispatch t command =>
        obtain ⟨rest, hc⟩ := hw.busy ht
        refine Function.update_of_ne ?_ _ _
        rintro rfl
        rw [hnone] at hc
        cases hc
      | expire uid => rfl
      | mediaReply epoch signal registered message => rfl
  cases h with
  | accept =>
    have hs : s ≠ σ.nextSession := Nat.ne_of_lt hlt
    simp only [Server.Gone, Server.setConn_of_ne hs]
    exact ⟨Nat.lt_succ_of_lt hlt, hclosed, hnone⟩
  | frame t r ho =>
    have hs : s ≠ t := by
      rintro rfl
      rw [hclosed] at ho
      cases ho
    exact keep (Server.setConn_of_ne hs _) rfl
  | close t ho =>
    have hs : s ≠ t := by
      rintro rfl
      rw [hclosed] at ho
      cases ho
    exact keep (Server.setConn_of_ne hs _) rfl
  | startConn t command rest hs hq =>
    have hne : s ≠ t := by
      rintro rfl
      rw [commands_idle hs, hq] at hnone
      cases hnone
    rw [resumeConn_eq]
    refine keep ?_ rfl
    rw [Server.setConn_of_ne hne, Server.setConn_of_ne hne]
  | startRoom m task rest ha hq =>
    have ht : task ∈ σ.tasks m := by
      simp only [Server.tasks, Room.tasks, hq]
      exact List.mem_append_right _ List.mem_cons_self
    rw [resumeRoom_eq]
    exact keep (hresume ht) rfl
  | conn t command c k o hs =>
    have hne : s ≠ t := by
      rintro rfl
      rw [commands_running hs] at hnone
      cases hnone
    have hthreads := exec_threads c o σ
    rw [resumeConn_eq]
    refine keep ?_ hthreads.nextSession
    rw [Server.setConn_of_ne hne, hthreads.conns]
  | room m task c k o ha =>
    have hthreads := exec_threads c o σ
    rw [resumeRoom_eq]
    refine keep ?_ hthreads.nextSession
    simp only [hthreads.conns]
    exact hresume (active_mem_tasks ha)
  | timer c k o ht =>
    have hthreads := exec_threads c o σ
    exact keep (congrFun hthreads.conns s) hthreads.nextSession
  | control c k o hc =>
    have hthreads := exec_threads c o σ
    exact keep (congrFun hthreads.conns s) hthreads.nextSession
  | _ => exact keep rfl rfl

/-- A session that is not in a room comes into it by the room's own operation for it alone. -/
theorem step_outside {m : MeetingId} {p : SessionId} (hm : m ≠ 0) (hout : (σ.sessions p).meetingId ≠ m)
    (hw : Wired distinct none σ) (h : Stepped σ e σ')
    (hown : ∀ o, e = .step (.room m) o → σ.worker (.room m) = some p →
      ∀ n, σ.nextCall? (.room m) ≠ some (.setMeetingId p n)) : (σ'.sessions p).meetingId ≠ m := by
  by_cases hset : ∃ t o n, e = .step t o ∧ σ.nextCall? t = some (.setMeetingId p n)
  · obtain ⟨t, o, n, rfl, hnext⟩ := hset
    have disciplined : Disciplined distinct σ t (.setMeetingId p n) → n ≠ m := by
      intro hd
      rcases hd.meeting p n rfl with rfl | ⟨rfl, hworker⟩
      · exact Ne.symm hm
      · rintro rfl
        exact hown o rfl hworker n hnext
    cases h with
    | conn s command c k o hs =>
      simp only [Server.nextCall?, hs, Prog.next?, Option.some.injEq] at hnext
      subst hnext
      obtain ⟨v, -, hpre, -⟩ := hw.conn s command _ hs (Option.some_ne_none _).symm
      exact hpre.2.elim
    | room m' task c k o ha =>
      simp only [Server.nextCall?, ha, Option.bind_some, Prog.next?, Option.some.injEq] at hnext
      subst hnext
      obtain ⟨v, hv, hwp⟩ := hw.room m' task _ ha (Option.some_ne_none _).symm
      have hn := disciplined (disciplined_room ha hv (hwp σ.live fun _ hs => hs).1)
      rw [resumeRoom_eq]
      simp only [exec]
      show ((σ.setSession p _).sessions p).meetingId ≠ m
      rw [Server.setSession_self]
      exact hn
    | timer c k o ht =>
      simp only [Server.nextCall?, ht, Option.bind_some, Prog.next?, Option.some.injEq] at hnext
      subst hnext
      exact (hw.timer _ ht (Option.some_ne_none _).symm).1.elim
    | control c k o hc =>
      simp only [Server.nextCall?, hc, Option.bind_some, Prog.next?, Option.some.injEq] at hnext
      subst hnext
      exact (hw.control _ hc (Option.some_ne_none _).symm).1.elim
    | link l q he => exact absurd rfl (he t o)
  · rw [(step_session h p).2 fun t o n he hnext => hset ⟨t, o, n, he, hnext⟩]
    exact hout

/-- A session stays shut out of a room unless the room's operation for it gives it the room back. -/
theorem Server.Shut.step {m : MeetingId} {p : SessionId} (hm : m ≠ 0) (hs : σ.Shut m p)
    (hw : Wired distinct none σ) (h : Stepped σ e σ')
    (hown : ∀ o, e = .step (.room m) o → σ.worker (.room m) = some p →
      ∀ n, σ.nextCall? (.room m) ≠ some (.setMeetingId p n)) : σ'.Shut m p := by
  rcases hs with ⟨hclosed, hmeeting⟩ | hgone
  · exact .inl ⟨(step_session h p).1 hclosed, step_outside hm hmeeting hw h hown⟩
  · exact .inr (hgone.step hw h)

/-- The session an operation of a room works for keeps its login and its object while others make their
steps. -/
theorem step_own {m : MeetingId} {s : SessionId} (hw : Wired distinct none σ) (h : Stepped σ e σ')
    (hworker : σ.worker (.room m) = some s) (he : ∀ o, e ≠ .step (.room m) o) :
    (σ'.sessions s).userId = (σ.sessions s).userId ∧ (σ'.sessions s).authToken = (σ.sessions s).authToken ∧
      (σ.live s → σ'.live s) := by
  have hne : ∀ {t : SessionId} {v : Session}, (s = t → v.userId = (σ.sessions s).userId ∧
      v.authToken = (σ.sessions s).authToken ∧ ((σ.sessions s).alive = true → v.alive = true)) →
      ((σ.setSession t v).sessions s).userId = (σ.sessions s).userId ∧
      ((σ.setSession t v).sessions s).authToken = (σ.sessions s).authToken ∧
      ((σ.sessions s).alive = true → ((σ.setSession t v).sessions s).alive = true) := by
    intro t v hv
    by_cases hs : s = t
    · subst hs
      rw [Server.setSession_self]
      exact hv rfl
    · rw [Server.setSession_of_ne hs]
      exact ⟨rfl, rfl, id⟩
  have call : ∀ {t : Thread} {c : Call} {o : Oracle}, Disciplined distinct σ t c → t ≠ .room m →
      ((exec c o σ).2.sessions s).userId = (σ.sessions s).userId ∧
      ((exec c o σ).2.sessions s).authToken = (σ.sessions s).authToken ∧
      ((σ.sessions s).alive = true → ((exec c o σ).2.sessions s).alive = true) := by
    intro t c o hd ht
    obtain ⟨huser, htoken⟩ := hd.login (o := o) fun hworker' => ht (hw.placed.worker_unique hworker' hworker)
    exact ⟨huser, htoken, fun ha => (exec_session c o σ s).alive.trans ha⟩
  cases h with
  | overflow t r ho =>
    refine hne fun heq => ?_
    subst heq
    exact ⟨rfl, rfl, id⟩
  | close t ho =>
    refine hne (t := t) (v := { σ.sessions t with closed := true }) fun heq => ?_
    subst heq
    exact ⟨rfl, rfl, id⟩
  | release t hc ht =>
    refine hne fun heq => ?_
    subst heq
    obtain ⟨command, hwait⟩ := hw.placed.worker hworker
    simp only [Server.awaited, hc, ConnState.awaits] at hwait
    cases hwait
  | startConn t command rest hs hq =>
    rw [resumeConn_eq]
    exact ⟨rfl, rfl, id⟩
  | startRoom n task rest ha hq =>
    rw [resumeRoom_eq]
    exact ⟨rfl, rfl, id⟩
  | conn t command c k o hs =>
    obtain ⟨v, -, hpre, -⟩ := hw.conn t command _ hs (Option.some_ne_none _).symm
    rw [resumeConn_eq]
    exact call (disciplined_conn hs hpre) (by simp)
  | room n task c k o ha =>
    obtain ⟨v, hv, hwp⟩ := hw.room n task _ ha (Option.some_ne_none _).symm
    rw [resumeRoom_eq]
    refine call (disciplined_room ha hv (hwp σ.live fun _ hs => hs).1) ?_
    rintro ⟨⟩
    exact he o rfl
  | timer c k o ht => exact call (t := .timer) (disciplined_timer (hw.timer _ ht (Option.some_ne_none _).symm).1) (by simp)
  | control c k o hc => exact call (t := .control) (disciplined_control (hw.control _ hc (Option.some_ne_none _).symm).1) (by simp)
  | _ => exact ⟨rfl, rfl, id⟩

/-- The containers of a room change by its own operation's `setRoom` alone. -/
theorem step_data (h : Stepped σ e σ') (hw : Wired distinct none σ) (m : MeetingId) :
    (σ'.rooms m).data = (σ.rooms m).data ∨
      ∃ task d o, e = .step (.room m) o ∧ (σ'.rooms m).data = d ∧
        (∃ k, (σ.rooms m).active = some (task, .call (.setRoom m d) k)) ∧
        ∃ v : Ledger, v.Of σ m task ∧ Change distinct σ.live task v d := by
  have hroom : ∀ {σ₁ : Server} {n : MeetingId} {r : Room}, r.data = (σ₁.rooms n).data →
      ((σ₁.setRoom n r).rooms m).data = (σ₁.rooms m).data := by
    intro σ₁ n r hr
    by_cases hn : m = n
    · subst hn
      rw [Server.setRoom_self, hr]
    · rw [Server.setRoom_of_ne hn]
  cases h with
  | startConn t command rest hs hq =>
    rw [resumeConn_eq]
    exact .inl rfl
  | startRoom n task rest ha hq =>
    rw [resumeRoom_eq]
    refine .inl ?_
    simp only [Server.setRoom, Function.update_self, Function.update_idem]
    exact hroom (r := ⟨(σ.rooms n).data, rest, task.after (task.op n)⟩) rfl
  | conn t command c k o hs =>
    obtain ⟨v, -, hpre, -⟩ := hw.conn t command _ hs (Option.some_ne_none _).symm
    rw [resumeConn_eq]
    refine .inl (exec_data m ?_)
    rintro d rfl
    exact hpre.2.elim
  | room n task c k o ha =>
    obtain ⟨v, hv, hwp⟩ := hw.room n task _ ha (Option.some_ne_none _).symm
    have hpre : ledgerPre distinct σ.live n task c v := (hwp σ.live fun _ hs => hs).1
    rw [resumeRoom_eq]
    have hsame := @hroom (exec c o σ).2 n
      { (exec c o σ).2.rooms n with active := task.after (k (exec c o σ).1) } rfl
    by_cases hc : ∃ d, c = .setRoom m d
    · obtain ⟨d, rfl⟩ := hc
      obtain ⟨rfl, hchange⟩ := hpre
      have hm : m ≠ 0 := hw.placed.ne_zero (active_mem_tasks ha)
      refine .inr ⟨task, d, o, rfl, hsame.trans ?_, ⟨k, ha⟩, v, hv, hchange⟩
      simp only [exec, if_neg hm, Server.setRoom_self]
    · exact .inl (hsame.trans (exec_data m fun d hd => hc ⟨d, hd⟩))
  | timer c k o ht =>
    obtain ⟨hcall, -⟩ := hw.timer _ ht (Option.some_ne_none _).symm
    refine .inl (exec_data m ?_)
    rintro d rfl
    exact hcall
  | control c k o hc =>
    obtain ⟨hcall, -⟩ := hw.control _ hc (Option.some_ne_none _).symm
    refine .inl (exec_data m ?_)
    rintro d rfl
    exact hcall
  | _ => exact .inl rfl

/-- A session whose object is left after a step had it before. -/
theorem step_live (h : Stepped σ e σ') {s : SessionId} (hs : σ'.live s) : σ.live s := by
  have call : ∀ {c : Call} {o : Oracle}, ((exec c o σ).2.sessions s).alive = true → σ.live s := fun {c o} ha =>
    (exec_session c o σ s).alive.symm.trans ha
  have hset : ∀ {t : SessionId} {v : Session}, (v.alive = true → (σ.sessions t).alive = true) →
      ((σ.setSession t v).sessions s).alive = true → σ.live s := by
    intro t v hv ha
    by_cases hst : s = t
    · subst hst
      rw [Server.setSession_self] at ha
      exact hv ha
    · rwa [Server.setSession_of_ne hst] at ha
  cases h with
  | overflow t r ho => exact hset (t := t) (v := { σ.sessions t with closed := true }) id hs
  | close t ho => exact hset (t := t) (v := { σ.sessions t with closed := true }) id hs
  | release t hc ht => exact hset (t := t) (v := { σ.sessions t with alive := false }) nofun hs
  | startConn t command rest hidle hq =>
    rw [resumeConn_eq] at hs
    exact hs
  | startRoom n task rest ha hq =>
    rw [resumeRoom_eq] at hs
    exact hs
  | conn t command c k o hstate =>
    rw [resumeConn_eq] at hs
    exact call hs
  | room n task c k o ha =>
    rw [resumeRoom_eq] at hs
    exact call hs
  | timer c k o ht => exact call hs
  | control c k o hc => exact call hs
  | _ => exact hs

/-- The session of a task a room has still to finish is left. -/
theorem Wired.queued_live (hw : Wired distinct none σ) {m : MeetingId} {s : SessionId} {command : Command}
    (ht : Task.dispatch s command ∈ σ.tasks m) : σ.live s := by
  obtain ⟨rest, hbusy⟩ := hw.busy ht
  cases hal : (σ.sessions s).alive with
  | true => exact hal
  | false =>
    rw [(hw.dead s hal).2.2] at hbusy
    cases hbusy

/-- Drawn tickets stay drawn, and the steady clock does not go back. -/
theorem step_past (h : Stepped σ e σ') : (∀ t ∈ σ.issued, t ∈ σ'.issued) ∧ σ.steady ≤ σ'.steady := by
  have call : ∀ (c : Call) (o : Oracle),
      (∀ t ∈ σ.issued, t ∈ (exec c o σ).2.issued) ∧ σ.steady ≤ (exec c o σ).2.steady :=
    fun c o => ⟨fun t ht => exec_issued ht, (exec_threads c o σ).clocks.2.ge⟩
  cases h with
  | clocks wall elapsed => exact ⟨fun t ht => ht, Nat.le_add_right _ _⟩
  | startConn t command rest hs hq =>
    rw [resumeConn_eq]
    exact ⟨fun t ht => ht, le_refl _⟩
  | startRoom n task rest ha hq =>
    rw [resumeRoom_eq]
    exact ⟨fun t ht => ht, le_refl _⟩
  | conn t command c k o hs =>
    rw [resumeConn_eq]
    exact call c o
  | room n task c k o ha =>
    rw [resumeRoom_eq]
    exact call c o
  | timer c k o ht => exact call c o
  | control c k o hc => exact call c o
  | _ => exact ⟨fun t ht => ht, le_refl _⟩

/-- What an operation of a room knows stays so while others make their steps. -/
theorem step_ledger {m : MeetingId} {task : Task} {op : Op Unit} {v : Ledger} (hw : Wired distinct none σ)
    (h : Stepped σ e σ') (ha : (σ.rooms m).active = some (task, op)) (hv : v.Of σ m task)
    (he : ∀ o, e ≠ .step (.room m) o) : v.Of σ' m task := by
  have hm : m ≠ 0 := hw.placed.ne_zero (active_mem_tasks ha)
  have hout : ∀ x, (σ.sessions x).meetingId ≠ m → (σ'.sessions x).meetingId ≠ m := fun x hx =>
    step_outside hm hx hw h fun o heq => absurd heq (he o)
  obtain ⟨hissued, hsteady⟩ := step_past h
  constructor
  · rcases step_data h hw m with hsame | ⟨task', d, o, heq, -⟩
    · rw [hsame]
      exact hv.data
    · exact absurd heq (he o)
  · intro s hs
    obtain ⟨huser, htoken, halive⟩ := hv.own s hs
    have hworker : σ.worker (.room m) = some s := by
      simp only [Server.worker, ha, Option.bind_some, hs]
    obtain ⟨huser', htoken', halive'⟩ := step_own hw h hworker he
    exact ⟨huser'.trans huser, htoken'.trans htoken, halive' halive⟩
  · exact fun t ht => hissued t (hv.issued t ht)
  · exact hv.clock.trans hsteady
  · exact fun x hx => hout x (hv.out x hx)
  · intro x hx
    exact (hv.shut x hx).step hm hw h fun o heq => absurd heq (he o)

/-! ## The fence -/

/-- An operation that works for a retired session is still at its first checks. -/
def AtStart (m : MeetingId) (p : SessionId) (command : Command) (op : Op Unit) : Prop :=
  op = dispatch m p command ∨ (command = .disconnected ∧ op = sessionDisconnectedHandler m p)

/-- The next call of an operation at its first checks only looks, and what it sees ends the operation. -/
theorem AtStart.ends {m : MeetingId} {p : SessionId} {command : Command} {c : Call} {k : c.Res → Op Unit}
    (h : AtStart m p command (.call c k)) (hw : Wired distinct none σ)
    (ha : (σ.rooms m).active = some (.dispatch p command, .call c k)) (hs : σ.Shut m p) (o : Oracle) :
    (exec c o σ).2 = σ ∧ (k (exec c o σ).1 = .pure () ∨ AtStart m p command (k (exec c o σ).1)) ∧
      ∀ n, c ≠ .setMeetingId p n := by
  have htask := active_mem_tasks ha
  obtain ⟨rest, hbusy⟩ := hw.busy htask
  obtain ⟨hclosed, hmeeting⟩ : (σ.sessions p).closed = true ∧ (σ.sessions p).meetingId = 0 := by
    rcases hs with ⟨hclosed, hmeeting⟩ | ⟨-, -, hnone⟩
    · exact ⟨hclosed, (hw.inside p command m (hw.placed.waits m p command htask)).resolve_right hmeeting⟩
    · rw [hnone] at hbusy
      cases hbusy
  rcases h with hop | ⟨rfl, hop⟩
  · cases command with
    | request r =>
      have hop' : Prog.call c k = dispatchRequest m p r := hop
      unfold dispatchRequest at hop'
      split at hop'
      · cases hop'
        refine ⟨rfl, .inl ?_, by simp⟩
        simp only [exec, Prog.bind_pure_left, hclosed, if_true]
        rfl
      · cases hop'
    | disconnected =>
      cases hop
      exact ⟨rfl, .inr (.inr ⟨rfl, rfl⟩), by simp⟩
  · cases hop
    refine ⟨rfl, .inl ?_, by simp⟩
    simp only [exec, Prog.bind_pure_left, hmeeting, if_true]

/-- Who is bound by an event is the session its operation works for. -/
theorem Author.binds {task : Task} {v : Ledger} {ev : RoomEvent} (h : Author task v ev) {u : Uid}
    {s : SessionId} (hb : ev.binds = some (u, s)) : ∃ r, task = .dispatch s (.request r) ∧ u = v.uid := by
  cases ev with
  | joined u' s' token ticket =>
    cases hb
    obtain ⟨⟨r, htask, -⟩, hu, -⟩ := h
    exact ⟨r, htask, hu⟩
  | resumed u' s' token ticket request known checkedAt =>
    cases hb
    obtain ⟨⟨r, root, htask, -⟩, hu, -⟩ := h
    exact ⟨r, htask, hu⟩
  | _ => cases hb

/-- The frames of a step go to one session, and nothing to MediaServer. -/
structure Server.OnlyTo (s : SessionId) (σ σ' : Server) : Prop where
  forwarded : σ'.forwarded = σ.forwarded
  sent : ∃ frames, σ'.sent = σ.sent ++ frames ∧ ∀ f ∈ frames, Frame.session f = s

theorem Server.OnlyTo.of_eq {s : SessionId} (hf : σ'.forwarded = σ.forwarded) (hs : σ'.sent = σ.sent) :
    σ.OnlyTo s σ' := ⟨hf, [], by rw [hs, List.append_nil], nofun⟩

end

end SyncRtc
