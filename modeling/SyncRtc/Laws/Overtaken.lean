import SyncRtc.Laws.Fencing

/-!
# A RESUME that was overtaken

A client that gets no answer repeats its RESUME over a new connection, with the same ticket, request and
generation. The credential check cannot tell the repetitions apart, so one that is processed late, after a
later connection's was accepted, is accepted too and takes the member back to a connection the client has
given up. What protects the member is the closed check of `dispatch`: the server drops the late RESUME if
it has noticed by then that its connection is closed.

`NoticedFirst` is that condition, on the start of a room's operation; in the runs that keep it no
overtaken RESUME changes a member, the meeting of another session, or whether one is closed.
-/

set_option autoImplicit false

namespace SyncRtc

open Prog

/-- The credentials a RESUME carries. -/
def Request.credentials (r : Request) : Option Credentials :=
  if r.id = .resumeMeetingRequest then
    match r.body.root with
    | .ok root => resumeCredentials root
    | .error _ => none
  else none

/-- The acceptance of a RESUME of the user with the same credentials over a later connection. -/
def RoomEvent.Repeats (u : Uid) (s : SessionId) (c : Credentials) : RoomEvent → Prop
  | .resumed v later _ ticket request known _ =>
    v = u ∧ s < later ∧ ticket = c.ticket ∧ request = c.request ∧ known = c.known
  | _ => False

instance (u : Uid) (s : SessionId) (c : Credentials) : (ev : RoomEvent) → Decidable (ev.Repeats u s c)
  | .resumed v later _ ticket request known _ =>
    inferInstanceAs (Decidable (v = u ∧ s < later ∧ ticket = c.ticket ∧ request = c.request ∧ known = c.known))
  | .joined _ _ _ _ | .disconnected _ _ _ | .expired _ _ | .left _ | .ended => inferInstanceAs (Decidable False)

/-- A later connection's RESUME of the user with these credentials has been accepted. -/
def Overtaken (σ : Server) (m : MeetingId) (s : SessionId) (c : Credentials) : Prop :=
  ∃ ev ∈ (σ.rooms m).data.history, ev.Repeats (σ.sessions s).userId s c

instance (σ : Server) (m : MeetingId) (s : SessionId) (c : Credentials) : Decidable (Overtaken σ m s c) :=
  inferInstanceAs (Decidable (∃ ev ∈ (σ.rooms m).data.history, ev.Repeats (σ.sessions s).userId s c))

/-- The member would refuse the credentials of the session. -/
def Refuses (members : Members) (session : Session) (c : Credentials) : Prop :=
  ∀ member, members session.userId = some member → member.admits c session.authToken = false

/-- A room starts no overtaken RESUME of a connection that still counts as open and that the member would
admit. -/
def NoticedFirst (σ : Server) (e : Event) : Prop :=
  ∀ m s r c rest, e = .start (.room m) → (σ.rooms m).queue = .dispatch s (.request r) :: rest →
    r.credentials = some c → Overtaken σ m s c →
      (σ.sessions s).closed = true ∨ Refuses (σ.rooms m).data.members (σ.sessions s) c

/-- A step leaves the members of the room, and of every session but `s` the meeting and whether it is
closed. -/
structure Spares (m : MeetingId) (s : SessionId) (σ σ' : Server) : Prop where
  members : (σ'.rooms m).data.members = (σ.rooms m).data.members
  others : ∀ x, x ≠ s → (σ'.sessions x).meetingId = (σ.sessions x).meetingId ∧
    (σ'.sessions x).closed = (σ.sessions x).closed

/-! ## Operations that change nobody else -/

/-- The calls that bind nobody and close no session but `s`. -/
def Harmless (s : SessionId) : Call → Prop
  | .setRoom _ _ | .setMeetingId _ _ | .setUser _ _ _ => False
  | .requestClose t => t = s
  | .send t _ _ => t = s
  | .steadyNow | .newResumeTicket | .submitRoom _ _ => False
  | _ => True

section

variable {distinct : Prop} {live : SessionId → Prop} {m : MeetingId} {task : Task} {v : Ledger}
  {s : SessionId} {α : Type}

/-- The machine of an operation that may make harmless calls only. -/
def harmless (distinct : Prop) (live : SessionId → Prop) (m : MeetingId) (task : Task) (s : SessionId) :
    Machine calls Ledger :=
  ⟨fun c v => Harmless s c ∧ ledgerPre distinct live m task c v, ledgerRel distinct live m task⟩

/-- The rule for a harmless call whose answer does not matter. -/
theorem wp_harmlessCall {c : Call} {k : c.Res → Op α} {Q : α → Ledger → Prop} (hc : Harmless s c)
    (hn : Neutral m c) (hk : ∀ r, (k r).wp (harmless distinct live m task s) Q v) :
    ((call c).bind k).wp (harmless distinct live m task s) Q v := by
  obtain ⟨hpre, hrel⟩ : ((call c).bind fun _ => (.pure () : Op Unit)).wp (ledger distinct live m task)
      (fun _ w => w = v) v := wp_skip hn fun _ => rfl
  refine ⟨⟨hc, hpre⟩, fun r w hr => ?_⟩
  rw [show w = v from hrel r w hr]
  exact hk r

theorem wp_harmless {p : Op α} (hp : p.Makes Silent) :
    p.wp (harmless distinct live m task s) (fun _ w => w = v) v := by
  induction p with
  | pure a => rfl
  | call c k ih =>
    have hn : Neutral m c := (neutral_of_silent (m := m) hp).1
    refine wp_harmlessCall ?_ hn fun r => ih r (hp.2 r)
    have hc := hp.1
    cases c <;> first | exact trivial | exact hc.elim

theorem wp_harmlessPass {β : Type} {p : Op β} {k : β → Op α} {Q : α → Ledger → Prop} (hp : p.Makes Silent)
    (hk : ∀ b, (k b).wp (harmless distinct live m task s) Q v) :
    (p.bind k).wp (harmless distinct live m task s) Q v :=
  wp_seq (wp_harmless hp) fun b _ hv => hv ▸ hk b

theorem wp_harmlessRoom {k : RoomData → Op α} {Q : α → Ledger → Prop}
    (hk : (k v.data).wp (harmless distinct live m task s) Q v) :
    ((getRoom m).bind k).wp (harmless distinct live m task s) Q v := by
  refine ⟨⟨trivial, trivial⟩, fun data v' hr => ?_⟩
  obtain ⟨rfl, hdata⟩ := hr
  cases hdata rfl
  exact hk

theorem wp_harmlessOwn (hs : task.session? = some s) {k : Session → Op α} {Q : α → Ledger → Prop}
    (hk : ∀ session : Session, session.userId = v.uid → session.authToken = v.token →
      (k session).wp (harmless distinct live m task s) Q v) :
    ((getSession s).bind k).wp (harmless distinct live m task s) Q v := by
  refine ⟨⟨trivial, trivial⟩, fun session v' hr => ?_⟩
  obtain ⟨rfl, hown, -⟩ := hr
  exact hk session (hown hs).1 (hown hs).2

theorem wp_harmlessReply (id : RequestID) (code : ErrorCode) :
    (replyError s id code).wp (harmless distinct live m task s) anyEnd v := by
  unfold replyError
  split
  · trivial
  · next response hresponse =>
    exact wp_harmlessCall (c := .send s _ _) rfl (responseId_ne_push hresponse) fun _ => trivial

/-- The checks of a RESUME whose credentials the member refuses end it. -/
theorem wp_refusedChecks (hs : task.session? = some s) {root : Json} {c : Credentials}
    (hc : resumeCredentials root = some c)
    (hrefused : ∀ member, v.data.members v.uid = some member → member.admits c v.token = false) (code : String) :
    (joinChecks m s v.uid true root code).wp (harmless distinct live m task s)
      (fun r w => w = v ∧ ∃ reply, r = .error reply) v := by
  refine wp_harmlessPass (silent_joinInfo m true code) fun found => ?_
  split
  · exact ⟨rfl, _, rfl⟩
  simp only [if_true, hc]
  refine wp_seq (P := fun r w => w = v ∧ ∃ reply, r = .error reply) ?_ ?_
  · refine wp_harmlessRoom ?_
    split
    · exact ⟨rfl, _, rfl⟩
    · next member hmember =>
      refine wp_harmlessOwn hs fun session _ htoken => ?_
      rw [htoken, hrefused member hmember]
      exact ⟨rfl, _, rfl⟩
  · rintro r w ⟨rfl, reply, rfl⟩
    exact ⟨rfl, reply, rfl⟩

/-- A RESUME whose credentials the member refuses changes nobody. -/
theorem wp_refused {r : Request} {c : Credentials} (htask : task = .dispatch s (.request r))
    (hc : r.credentials = some c)
    (hrefused : ∀ member, v.data.members v.uid = some member → member.admits c v.token = false) :
    (dispatch m s (.request r)).wp (harmless distinct live m task s) anyEnd v := by
  have hs : task.session? = some s := htask ▸ rfl
  unfold Request.credentials at hc
  split at hc
  swap
  · cases hc
  next hid =>
  have hjoin : (joinMeetingHandler m s true r.body).wp (harmless distinct live m task s) anyEnd v := by
    refine wp_seq (P := fun _ w => w = v) ?_ fun value w hw => ?_
    · unfold joinBody
      split
      · rfl
      next root code hroot =>
      rw [joinRoot_root hroot] at hc
      refine wp_harmlessOwn hs fun session huser _ => ?_
      dsimp only
      rw [huser]
      split
      · rfl
      refine wp_seq (wp_refusedChecks hs hc hrefused code) ?_
      rintro checked w' ⟨rfl, reply, rfl⟩
      rfl
    · refine wp_harmlessCall (c := .send s _ _) rfl RequestID.noConfusion fun queued => ?_
      split
      · exact ⟨⟨rfl, trivial⟩, fun _ _ _ => trivial⟩
      · trivial
  show (dispatchRequest m s r).wp _ _ _
  unfold dispatchRequest
  split
  swap
  · trivial
  refine wp_harmlessCall (c := .getSession s) trivial trivial fun session => ?_
  split
  · trivial
  refine wp_harmlessPass (silent_mayAct m s r) fun may => ?_
  split
  swap
  · exact wp_harmlessReply _ _
  refine wp_harmlessPass (silent_reserveFor r) fun placed => ?_
  split
  swap
  · exact wp_harmlessReply _ _
  split
  · trivial
  · exact wp_harmlessReply _ _
  unfold handleReserved
  rw [hid]
  refine wp_harmlessCall (c := .getSession s) trivial trivial fun session' => ?_
  refine wp_harmlessCall (c := .reserveUser _ _) trivial rfl fun reserved => ?_
  split
  · unfold handle
    rw [hid]
    refine wp_seq hjoin fun _ w _ => ?_
    refine wp_harmlessCall (c := .getSession s) trivial trivial fun session'' => ?_
    exact ⟨⟨trivial, rfl⟩, fun _ _ _ => trivial⟩
  · rw [← hid]
    exact wp_harmlessReply _ _

end

/-! ## Runs -/

section

variable {σ σ' : Server} {e : Event} {m : MeetingId} {s : SessionId} {r : Request}

/-- The rest of an operation that works for `s` changes nobody else: it is dropped at its first check, or
makes harmless calls only. -/
def Sparing (σ : Server) (m : MeetingId) (s : SessionId) (r : Request) (op : Op Unit) : Prop :=
  (op = dispatch m s (.request r) ∧ (σ.sessions s).closed = true) ∨
  ∃ v : Ledger, v.Of σ m (.dispatch s (.request r)) ∧ ∀ live, (∀ x, live x → σ.live x) →
    op.wp (harmless False live m (.dispatch s (.request r)) s) anyEnd v

theorem exec_spares {c : Call} {o : Oracle} (h : Harmless s c) : Spares m s σ (exec c o σ).2 := by
  constructor
  · rw [exec_data m ?_]
    rintro d rfl
    exact h
  · intro x hx
    have hmeeting : ∀ n, c ≠ .setMeetingId x n := by
      rintro n rfl
      exact h
    refine ⟨(exec_session c o σ x).meeting hmeeting, exec_closed ?_ fun id payload => ?_⟩
    · rintro rfl
      exact hx h
    · rintro rfl
      exact hx h

theorem Spares.resume {σ₁ : Server} (h : Spares m s σ σ₁) (task : Task) (op : Op Unit) :
    Spares m s σ (σ₁.resumeRoom m task op) := by
  rw [resumeRoom_eq]
  refine ⟨?_, h.others⟩
  rw [← h.members]
  simp only [Server.setRoom_self]

/-- One call of a sparing operation. -/
theorem Sparing.call {c : Call} {k : c.Res → Op Unit} {o : Oracle} (h : Sparing σ m s r (.call c k))
    (hw : Wired False none σ) (ha : (σ.rooms m).active = some (.dispatch s (.request r), .call c k)) :
    Spares m s σ (exec c o σ).2 ∧
      (k (exec c o σ).1 = .pure () ∨ Sparing (exec c o σ).2 m s r (k (exec c o σ).1)) := by
  have htask := active_mem_tasks ha
  rcases h with ⟨hop, hclosed⟩ | ⟨v, hv, hwp⟩
  · have hop' : Prog.call c k = dispatchRequest m s r := hop
    unfold dispatchRequest at hop'
    split at hop'
    · cases hop'
      refine ⟨exec_spares trivial, .inl ?_⟩
      simp only [exec, Prog.bind_pure_left, hclosed, if_true]
      rfl
    · cases hop'
  · obtain ⟨⟨hharmless, hpre⟩, -⟩ := hwp σ.live fun _ hx => hx
    refine ⟨exec_spares hharmless, .inr (.inr ?_)⟩
    have hhere : ∀ x, (Task.dispatch s (.request r)).session? = some x →
        (σ.sessions x).meetingId = 0 ∨ (σ.sessions x).meetingId = m := by
      rintro x ⟨⟩
      exact hw.inside s _ m (hw.placed.waits m s _ htask)
    obtain ⟨v', hrel, hv'⟩ := room_simulates (o := o) False (hw.placed.ne_zero htask) hv (hw.kept m) hpre hhere (by simp)
    refine ⟨v', hv', fun live hlive => ?_⟩
    have hlive' : ∀ x, live x → σ.live x := fun x hx =>
      (exec_session c o σ x).alive.symm.trans (hlive x hx)
    exact (hwp live hlive').2 _ _ (hrel live hlive')

/-- The control part of the server is nothing to a sparing operation. -/
theorem Sparing.same {op : Op Unit} (h : Sparing σ m s r op) (hdata : (σ'.rooms m).data = (σ.rooms m).data)
    (hsessions : σ'.sessions = σ.sessions) (hissued : σ'.issued = σ.issued) (hsteady : σ'.steady = σ.steady)
    (hgone : ∀ x, σ.Gone x → σ'.Gone x) : Sparing σ' m s r op := by
  refine h.imp (fun hc => ⟨hc.1, by rw [hsessions]; exact hc.2⟩) ?_
  rintro ⟨v, hv, hwp⟩
  refine ⟨v, ⟨hv.data.trans hdata.symm, ?_, ?_, ?_, ?_, ?_⟩, fun live hl => hwp live ?_⟩
  · rw [hsessions]
    exact hv.own
  · rw [hissued]
    exact hv.issued
  · rw [hsteady]
    exact hv.clock
  · rw [hsessions]
    exact hv.out
  · intro x hx
    refine (hv.shut x hx).imp (fun hc => ?_) (hgone x)
    rwa [hsessions]
  · intro x hx
    have hx' := hl x hx
    rwa [Server.live, hsessions] at hx'

/-- The operation of every overtaken RESUME is sparing. -/
def Guarded (σ : Server) : Prop :=
  ∀ m s r c op, (σ.rooms m).active = some (.dispatch s (.request r), op) → r.credentials = some c →
    Overtaken σ m s c → Sparing σ m s r op

/-- A RESUME that is overtaken after a step of its room was overtaken before. -/
theorem overtaken_step {c : Credentials} {op : Op Unit} (hw : Wired False none σ) (h : Stepped σ e σ')
    (ha : (σ.rooms m).active = some (.dispatch s (.request r), op)) (hc : r.credentials = some c)
    (ho : Overtaken σ' m s c) : Overtaken σ m s c := by
  have hworker : σ.worker (.room m) = some s := by
    simp only [Server.worker, ha, Option.bind_some, Task.session?]
  -- the session keeps its user: a RESUME is no login
  have huser : (σ'.sessions s).userId = (σ.sessions s).userId := by
    by_cases hown : ∃ o, e = .step (.room m) o
    · obtain ⟨o, rfl⟩ := hown
      cases h with
      | room _ task c' k _ ha' =>
        rw [ha] at ha'
        cases ha'
        obtain ⟨v, -, hwp⟩ := hw.room m _ _ ha (Option.some_ne_none _).symm
        have hpre : ledgerPre False σ.live m (.dispatch s (.request r)) c' v := (hwp σ.live fun _ hx => hx).1
        rw [resumeRoom_eq]
        refine ((exec_session c' o σ s).user ?_).1
        rintro u token rfl
        obtain ⟨⟨r', htask, hid⟩, -⟩ := hpre
        cases htask
        rw [Request.credentials, if_neg (by rw [hid]; decide)] at hc
        cases hc
      | link l q he => exact absurd rfl (he _ o)
    · exact (step_own hw h hworker fun o heq => hown ⟨o, heq⟩).1
  obtain ⟨ev, hev, hrepeats⟩ := ho
  rw [huser] at hrepeats
  rcases step_data h hw m with hsame | ⟨task, d, o, -, hd, ⟨k, ha'⟩, v, hv, hchange⟩
  · exact ⟨ev, hsame ▸ hev, hrepeats⟩
  · rw [ha] at ha'
    cases ha'
    cases hchange with
    | sessions hm hh =>
      rw [hd, hh, hv.data] at hev
      exact ⟨ev, hev, hrepeats⟩
    | event ev' hm hh allowed author fresh moved =>
      rw [hd, hh, hv.data] at hev
      rcases List.mem_cons.mp hev with rfl | hold
      · -- the operation binds its own session, which no later one has overtaken by that
        cases ev with
        | resumed v' later token ticket request known checkedAt =>
          obtain ⟨-, hlt, -⟩ := hrepeats
          obtain ⟨⟨r', root, htask, -⟩, -⟩ := author
          cases htask
          exact absurd hlt (Nat.lt_irrefl _)
        | _ => exact hrepeats.elim
      · exact ⟨ev, hold, hrepeats⟩

theorem guarded_initial (h : σ.Initial) : Guarded σ := by
  intro m s r c op ha
  rw [h.rooms] at ha
  cases ha

/-- Every step that keeps `NoticedFirst`. -/
theorem guarded_step (hg : Guarded σ) (hw : Wired False none σ) (hok : NoticedFirst σ e) (h : Stepped σ e σ') :
    Guarded σ' := by
  intro m s r c op ha hc ho
  -- while others make their steps
  have hother : (σ.rooms m).active = some (.dispatch s (.request r), op) → (∀ o, e ≠ .step (.room m) o) →
      Sparing σ' m s r op := by
    intro ha' he
    refine (hg m s r c op ha' hc (overtaken_step hw h ha' hc ho)).imp ?_ ?_
    · exact fun hs => ⟨hs.1, (step_session h s).1 hs.2⟩
    · rintro ⟨v, hv, hwp⟩
      refine ⟨v, step_ledger hw h ha' hv he, fun live hl => hwp live fun x hx => ?_⟩
      exact step_live h (hl x hx)
  cases h with
  | startConn t command rest hs hq =>
    rw [resumeConn_eq] at ha
    exact hother ha (by simp)
  | startRoom n task rest hidle hq =>
    by_cases hn : m = n
    · subst hn
      rw [resumeRoom_eq] at ha ho ⊢
      simp only [Server.setRoom, Function.update_self, Function.update_idem] at ha
      rcases task.after_cases (task.op m) with ⟨c', k, -, hafter, -⟩ | ⟨-, hafter⟩
      · rw [hafter] at ha
        cases ha
        have ho' : Overtaken σ m s c := by
          obtain ⟨ev, hev, hrepeats⟩ := ho
          refine ⟨ev, ?_, hrepeats⟩
          simpa only [Server.setRoom_self] using hev
        rcases hok m s r c rest rfl hq hc ho' with hclosed | hrefuses
        · exact .inl ⟨rfl, hclosed⟩
        · have hqueued : Task.dispatch s (.request r) ∈ σ.tasks m := by
            simp only [Server.tasks, Room.tasks, hq]
            exact List.mem_append_right _ List.mem_cons_self
          have hal : σ.live s := hw.queued_live hqueued
          refine .inr ⟨⟨(σ.rooms m).data, (σ.sessions s).userId, (σ.sessions s).authToken, [], 0,
            fun _ => False, fun _ => False⟩, ⟨?_, ?_, by simp, Nat.zero_le _, by simp, by simp⟩, fun live _ => ?_⟩
          · simp only [Server.setRoom_self]
          · rintro x ⟨⟩
            exact ⟨rfl, rfl, hal⟩
          · exact wp_refused rfl hc hrefuses
      · rw [hafter] at ha
        cases ha
    · have ha' : (σ.rooms m).active = some (.dispatch s (.request r), op) := by
        rw [resumeRoom_eq] at ha
        simpa only [Server.setRoom, Function.update_idem, Function.update_of_ne hn] using ha
      exact hother ha' (by simp)
  | conn t command c' k o hs =>
    rw [resumeConn_eq] at ha
    exact hother ((exec_threads c' o σ).active m ▸ ha) (by simp)
  | room n task c' k o hactive =>
    by_cases hn : m = n
    · subst hn
      have ha' := ha
      rw [resumeRoom_eq] at ha'
      simp only [Server.setRoom_self] at ha'
      rcases task.after_cases (k (exec c' o σ).1) with ⟨c₁, k₁, hcall, hafter, -⟩ | ⟨-, hafter⟩
      · rw [hafter] at ha'
        cases ha'
        have ho' := overtaken_step hw (.room m _ c' k o hactive) hactive hc ho
        rcases ((hg m s r c _ hactive hc ho').call (o := o) hw hactive).2 with hpure | hs
        · rw [hpure] at hcall
          cases hcall
        · have hthreads := exec_threads c' o σ
          rw [resumeRoom_eq]
          refine hs.same ?_ rfl rfl rfl fun x hx => ?_
          · simp only [Server.setRoom_self]
          · rw [hcall] at *
            exact hx
      · rw [hafter] at ha'
        cases ha'
    · have ha' : (σ.rooms m).active = some (.dispatch s (.request r), op) := by
        rw [resumeRoom_eq] at ha
        simp only [Server.setRoom_of_ne hn] at ha
        exact (exec_threads c' o σ).active m ▸ ha
      refine hother ha' ?_
      rintro o' ⟨⟩
      exact hn rfl
  | timer c' k o ht => exact hother ((exec_threads c' o σ).active m ▸ ha) (by simp)
  | control c' k o hcon => exact hother ((exec_threads c' o σ).active m ▸ ha) (by simp)
  | link l q he => exact hother ha fun o => he _ o
  | _ => exact hother ha (by simp)

/-- In runs in which the server has noticed the end of a connection before a room starts an overtaken
RESUME of it, no step of such a RESUME changes a member, or the meeting or the end of another session. -/
theorem overtaken_spared {c : Credentials} {op : Op Unit} {o : Oracle} (h : Reachable NoticedFirst σ)
    (ha : (σ.rooms m).active = some (.dispatch s (.request r), op)) (hc : r.credentials = some c)
    (ho : Overtaken σ m s c) (hstep : σ.step (.step (.room m) o) = some σ') : Spares m s σ σ' := by
  obtain ⟨σ₀, h₀, hreach⟩ := h
  have hw : ∀ σ, Reach Server.step NoticedFirst σ₀ σ → Wired False none σ := fun σ hr =>
    wired_reachable (fun hf => hf.elim) (⟨σ₀, h₀, hr⟩ : Reachable NoticedFirst σ)
  have hg : Guarded σ := Reach.invariant_of hw (guarded_initial h₀)
    (fun _ _ _ hw hg hok hs => guarded_step hg hw hok (step_cases hs)) hreach
  cases step_cases hstep with
  | room _ task c' k _ hactive =>
    rw [ha] at hactive
    cases hactive
    exact ((hg m s r c _ ha hc ho).call (hw σ hreach) ha).1.resume _ _
  | link l q he => exact absurd rfl (he _ o)

end

/-! ### Both orders of one recovery -/

namespace Scenario

/-- User 1 joins on connection 0 and loses it; the RESUMEs of connections 2 and 1 are handed to the room
in that order, and the room carries out the first. -/
def recovery : List Event :=
  connect 0 ++ asks 0 join ++ work ++ connect 1 ++ connect 2 ++ (.close 0 :: lets (.conn 0) 4 {}) ++ work ++
    asks 2 (resume "r" 1) ++ asks 1 (resume "r" 1) ++ work

/-- Whether the room is in the middle of an overtaken RESUME of connection 1, with the member bound to
connection 2. -/
def midway (σ : Server) : Bool :=
  match (σ.rooms 7).active with
  | some (.dispatch s (.request r), _) =>
    match r.credentials with
    | some c => decide (s = 1) && decide (Overtaken σ 7 s c) &&
        decide (((σ.rooms 7).data.members 1).map Membership.session = some 2)
    | none => false
  | _ => false

theorem midway_spec {σ : Server} (h : midway σ = true) : ∃ r c op,
    (σ.rooms 7).active = some (.dispatch 1 (.request r), op) ∧ Request.credentials r = some c ∧
      Overtaken σ 7 1 c ∧ ((σ.rooms 7).data.members 1).map Membership.session = some 2 := by
  unfold midway at h
  split at h
  · next s r op ha =>
    split at h
    · next c hc =>
      simp only [Bool.and_eq_true, decide_eq_true_eq] at h
      obtain ⟨⟨rfl, ho⟩, hsession⟩ := h
      exact ⟨r, c, op, ha, hc, ho, hsession⟩
    · cases h
  · cases h

/-- A check of `NoticedFirst` by computation. -/
def notices (σ : Server) : Event → Bool
  | .start (.room m) =>
    match (σ.rooms m).queue with
    | .dispatch s (.request r) :: _ => r.credentials.all fun c => (σ.sessions s).closed || !decide (Overtaken σ m s c)
    | _ => true
  | _ => true

theorem notices_spec (σ : Server) (e : Event) (h : notices σ e = true) : NoticedFirst σ e := by
  rintro m s r c rest rfl hq hc ho
  simp only [notices, hq, hc, Option.all_some, Bool.or_eq_true, Bool.not_eq_true', decide_eq_false_iff_not] at h
  exact .inl (h.resolve_right fun hn => hn ho)

end Scenario

open Scenario in
/-- If the room starts the RESUME of connection 1 while the server still takes it for open, the member is
taken back to it. -/
theorem overtaken_rebinds : ¬ ∀ (σ σ' : Server) (m : MeetingId) (s : SessionId) (r : Request) (c : Credentials)
    (op : Op Unit) (o : Oracle), Reachable (fun _ _ => True) σ →
    (σ.rooms m).active = some (.dispatch s (.request r), op) → r.credentials = some c → Overtaken σ m s c →
    σ.step (.step (.room m) o) = some σ' → Spares m s σ σ' := by
  intro hall
  have hrun : ((play Server.step (fun _ _ => true) (recovery ++ lets (.room 7) 22 {}) server).any fun σ =>
      midway σ && (σ.step (.step (.room 7) {})).any fun σ' =>
        decide (((σ'.rooms 7).data.members 1).map Membership.session = some 1)) = true := by
    decide +kernel
  obtain ⟨σ, hplay, hσ⟩ := (Option.any_eq_true _ _).mp hrun
  obtain ⟨hmidway, hstep⟩ := Bool.and_eq_true_iff.mp hσ
  obtain ⟨r, c, op, ha, hc, ho, hsession⟩ := midway_spec hmidway
  obtain ⟨σ', hσ', hsession'⟩ := (Option.any_eq_true _ _).mp hstep
  have hreach : Reachable (fun _ _ => True) σ :=
    ⟨server, server_initial, reach_play (fun _ _ _ => trivial) hplay⟩
  have hsame := (hall σ σ' 7 1 r c op {} hreach ha hc ho hσ').members
  rw [hsame, hsession] at hsession'
  cases of_decide_eq_true hsession'

open Scenario in
/-- If the server has noticed the end of connection 1 by then, the RESUME of connection 1 is dropped. -/
theorem overtaken_spared_noticed : ∃ σ σ' : Server, (σ.rooms 7).active.isSome = true ∧
    σ.step (.step (.room 7) {}) = some σ' ∧ Spares 7 1 σ σ' := by
  have hrun : ((play Server.step notices (recovery ++ (.close 1 :: lets (.room 7) 0 {})) server).any fun σ =>
      midway σ && (σ.step (.step (.room 7) {})).isSome) = true := by
    decide +kernel
  obtain ⟨σ, hplay, hσ⟩ := (Option.any_eq_true _ _).mp hrun
  obtain ⟨hmidway, hstep⟩ := Bool.and_eq_true_iff.mp hσ
  obtain ⟨r, c, op, ha, hc, ho, -⟩ := midway_spec hmidway
  obtain ⟨σ', hσ'⟩ := Option.isSome_iff_exists.mp hstep
  have hreach : Reachable NoticedFirst σ := ⟨server, server_initial, reach_play notices_spec hplay⟩
  exact ⟨σ, σ', by rw [ha]; rfl, hσ', overtaken_spared hreach ha hc ho hσ'⟩

end SyncRtc
