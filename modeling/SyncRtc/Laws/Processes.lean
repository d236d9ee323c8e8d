import SyncRtc.Laws.Refinement
import SyncRtc.Laws.Shutdown
import SyncRtc.Realtime.Process

/-!
# The process refines the serial server

What the I/O thread does to a socket or to the link and what it then posts is one step of the serial server, taken when
it does the first; until it has posted, its command is owed (`Process.owed`). So every state of the process shows one
of the serial server (`process_refines`): a safety property of the data that is proved of the one, over all its
interleavings, holds of the other.
-/

set_option autoImplicit false

namespace SyncRtc

open SerialCommandQueue

/-! ## What the outside does to the business layer -/

namespace LogicSystem

variable [PoolSizes] {σ σ' : LogicSystem} {S S' : Server} {owed owed' : Thread → List Job}

/-- The data changes, and nothing else. -/
theorem shows_outside (h : Paired σ owed S) (hstill : Server.Still S S') {server : Server} (hkept : Kept { σ with server })
    (hdata : S'.bare = server) (hline : ∀ t ≠ .timer, S'.line t = (σ.before t).map Entry.job ++ owed' t) :
    Shows { σ with server } owed' S' :=
  h.shows.still h.kept hkept h.registry hstill (fun _ _ => rfl) (fun _ => .inl rfl) (fun _ hx _ _ => .inl hx) hdata hline
    h.shows.filed

/-- A command comes in that nobody waits for. -/
theorem shows_accepted (h : Paired σ owed S) (hkept : σ'.Kept) {e : Entry} (haccepts : Accepts σ σ' e)
    (hfiled : e.Filed σ.owners) (hdone : e.done = none) (hstill : Server.Still S S') (hdata : S'.bare = σ.server)
    (hline : ∀ t ≠ .timer, S'.line t = (σ'.before t).map Entry.job ++ owed' t) : σ'.Shows owed' S' := by
  refine h.shows.still h.kept hkept h.registry hstill haccepts.owners (fun j => .inl (haccepts.current j))
    (fun x hx i hi => .inl ?_) (hdata.trans haccepts.server.symm) hline fun j e' he' => ?_
  · have hitems : σ'.items = e.items false + σ.items := congrArg Books.items haccepts.books
    rw [hitems] at hx
    rcases Multiset.mem_add.mp hx with hnew | hold
    · rw [Entry.items, Entry.promise, hdone] at hnew
      obtain rfl := Multiset.mem_singleton.mp hnew
      cases hi
    · exact hold
  · rcases haccepts.unended j e' he' with rfl | hold
    · refine hfiled.congr fun c hc => ?_
      cases hdone.symm.trans hc
    · exact (h.shows.filed j e' hold).congr fun c hc => haccepts.owners _ (done_lt h.kept.sound h.registry hold hc)

omit [PoolSizes] in
/-- What is filed of a command that comes from outside. -/
theorem filed_outside {job : Job} {bytes : Nat} (hjob : job.session? = none) (hbytes : job.terminal = true → bytes = 0)
    (owners : Nat → Thread) : Entry.Filed ⟨job, none, job.terminal, bytes⟩ owners := by
  refine ⟨rfl, hbytes, fun c hc => ?_, fun s hs => ?_⟩
  · cases hc
  · cases hjob.symm.trans hs

omit [PoolSizes] in
theorem submit_terminal {i : Nat} {job : Job} {done : Option Completion} (hterminal : job.terminal = true) :
    σ.submit i job done 0 ≠ none := by
  simp [submit, hterminal, admits, BusinessScheduler.reserve]

/-- A frame or the end of a connection is accepted, or closes the session. -/
theorem submitConnection_cases (hr : σ.Registry) (s : SessionId) (command : Command) (bytes : Nat) :
    Accepts σ (σ.submitConnection s command bytes)
        ⟨.connection s command, none, (Job.connection s command).terminal, bytes⟩ ∨
      (command = .disconnected → bytes ≠ 0) ∧ ∃ connections, σ.submitConnection s command bytes =
        { σ with server := σ.server.setSession s { σ.server.sessions s with closed := true }, connections } := by
  have hr' := hr.submitConnection s command bytes
  have hend {τ : LogicSystem} {i : Nat} (hrefused : τ.submit i (.connection s command) none bytes = none) :
      command = .disconnected → bytes ≠ 0 := by
    rintro rfl rfl
    exact submit_terminal rfl hrefused
  unfold submitConnection at hr' ⊢
  cases hconn : σ.connections s with
  | some i =>
    obtain ⟨hi, howner⟩ := hr.named.connections s i hconn
    simp only [hconn] at hr' ⊢
    cases hsubmit : σ.submit i (.connection s command) none bytes with
    | some τ =>
      simp only [hsubmit] at hr' ⊢
      exact .inl (accepts_submit hi hr' hsubmit howner.symm)
    | none =>
      refine .inr ⟨hend hsubmit, ?_⟩
      dsimp only
      split
      · exact ⟨_, rfl⟩
      · exact ⟨_, rfl⟩
  | none =>
    simp only [hconn] at hr' ⊢
    cases hsubmit : ({ σ.create (.conn s) with connections := Function.update σ.connections s (some σ.nextQueue) } :
        LogicSystem).submit σ.nextQueue (.connection s command) none bytes with
    | some τ =>
      simp only [hsubmit] at hr' ⊢
      exact .inl (accepts_created hr hr' hsubmit rfl)
    | none => exact .inr ⟨hend hsubmit, _, rfl⟩

/-- No thread of the business layer calls `Shutdown`. -/
theorem running_inner (hrunning : σ.halt = (false, none)) {e : Event} (he : e.isInner = true)
    (hstep : σ.step e = some σ') : σ'.halt = (false, none) := by
  have hshutdown : σ.shutdown = none := congrArg Prod.snd hrunning
  cases e with
  | handler i vacant =>
    simp only [step] at hstep
    split at hstep
    · exact (halt_runHandler hstep).trans hrunning
    · cases hstep
  | step i o chosen =>
    simp only [step] at hstep
    split at hstep
    · exact (halt_stepOp hstep).trans hrunning
    · cases hstep
  | release i =>
    simp only [step] at hstep
    split at hstep
    swap
    · cases hstep
    unfold release at hstep
    split at hstep
    · cases hstep
    · next bytes hreleasing =>
      cases hstep
      have hstopping : σ.stopping = false := congrArg Prod.fst hrunning
      have hasleep : (if (σ.scheduler.release bytes).pending = 0 then wakeIdle σ.shutdown else σ.shutdown) = none := by
        rw [hshutdown]
        split <;> rfl
      exact Prod.ext hstopping hasleep
  | thread p n o =>
    simp only [step] at hstep
    split at hstep
    · exact (halt_runThread hstep).trans hrunning
    · cases hstep
  | join =>
    simp only [step, join, hshutdown] at hstep
    cases hstep
  | _ => cases he

end LogicSystem

/-! ## The process -/

def Errand.job : Errand → Job
  | .disconnected s => .connection s .disconnected
  | .media event epoch => .control event epoch .malformed

namespace Process

open LogicSystem

variable [PoolSizes] {π π' : Process} {S : Server}

/-- The command that the I/O thread has not posted yet. -/
def owed (π : Process) (t : Thread) : List Job :=
  match π.errand with
  | some errand => if errand.job.thread = t then [errand.job] else []
  | none => []

/-- What is true of the process alone. -/
structure Regular (π : Process) : Prop where
  logic : π.logic.Reachable
  running : π.logic.halt = (false, none)
  errand : ∀ errand, π.errand = some errand → errand.job.terminal = true

theorem Regular.inner (h : π.Regular) {e : LogicSystem.Event} {logic : LogicSystem} (hstep : π.logic.step e = some logic)
    (hrunning : logic.halt = (false, none)) {errand : Option Errand}
    (herrand : ∀ x, errand = some x → x.job.terminal = true) : Regular { logic, errand } := by
  obtain ⟨server, aiStub, hreach⟩ := h.logic
  exact ⟨⟨server, aiStub, .next hreach trivial hstep⟩, hrunning, herrand⟩

theorem Regular.outside (h : π.Regular) (server : Server) : (π.outside server).Regular :=
  h.inner (e := .outside server) rfl h.running h.errand

omit [PoolSizes] in
theorem halt_postMsgToQue (σ : LogicSystem) (s : SessionId) (command : Command) (bytes : Nat) :
    (σ.postMsgToQue s command bytes).halt = σ.halt := by
  unfold postMsgToQue
  split
  · rfl
  · exact halt_submitConnection s command bytes

omit [PoolSizes] in
theorem halt_postMediaEvent (σ : LogicSystem) (event : MediaEvent) (epoch : Nat) (message : Payload) (bytes : Nat) :
    (σ.postMediaEvent event epoch message bytes).halt = σ.halt := by
  unfold postMediaEvent
  split
  · rfl
  · split
    · next σ' hsubmit =>
      have hhalt : σ'.halt = σ.halt := halt_submit hsubmit
      exact hhalt
    · rfl

omit [PoolSizes] in
theorem halt_postReconnectTimeoutCheck (σ : LogicSystem) : σ.postReconnectTimeoutCheck.halt = σ.halt := by
  unfold postReconnectTimeoutCheck
  split
  · rfl
  · cases hsubmit : σ.submit 1 .timer none 0 with
    | none => rfl
    | some σ' =>
      have hhalt : σ'.halt = σ.halt := halt_submit hsubmit
      exact hhalt

theorem Regular.post (h : π.Regular) (hstep : π.post = some π') : π'.Regular := by
  unfold Process.post at hstep
  cases herrand : π.errand with
  | none =>
    rw [herrand] at hstep
    cases hstep
  | some errand =>
    rw [herrand] at hstep
    have hnone : ∀ x, (none : Option Errand) = some x → x.job.terminal = true := by
      intro x hx
      cases hx
    cases errand with
    | disconnected s =>
      cases hstep
      exact h.inner (e := .disconnected s) rfl ((halt_postMsgToQue _ _ _ _).trans h.running) hnone
    | media event epoch =>
      cases hstep
      exact h.inner (e := .media event epoch .malformed 0) rfl ((halt_postMediaEvent _ _ _ _ _).trans h.running) hnone

theorem Regular.turn (h : π.Regular) {e : Event} (hstep : π.turn e = some π') : π'.Regular := by
  cases e with
  | accept =>
    cases hstep
    exact h.outside _
  | frame s r bytes =>
    simp only [Process.turn] at hstep
    split at hstep <;> cases hstep
    exact h.inner (e := .frame s r bytes) rfl ((halt_postMsgToQue _ _ _ _).trans h.running) h.errand
  | close s =>
    simp only [Process.turn] at hstep
    split at hstep <;> cases hstep
    refine ⟨(h.outside _).logic, h.running, fun x hx => ?_⟩
    cases hx
    rfl
  | tick =>
    cases hstep
    exact h.inner (e := .timer) rfl ((halt_postReconnectTimeoutCheck _).trans h.running) h.errand
  | linkUp =>
    simp only [Process.turn] at hstep
    split at hstep <;> cases hstep
    refine ⟨(h.outside _).logic, h.running, fun x hx => ?_⟩
    cases hx
    rfl
  | linkDown =>
    simp only [Process.turn] at hstep
    split at hstep <;> cases hstep
    refine ⟨(h.outside _).logic, h.running, fun x hx => ?_⟩
    cases hx
    rfl
  | linkMessage message bytes =>
    simp only [Process.turn] at hstep
    split at hstep <;> cases hstep
    exact h.inner (e := .media .message π.logic.server.link.active message bytes) rfl
      ((halt_postMediaEvent _ _ _ _ _).trans h.running) h.errand
  | _ => cases hstep

theorem Regular.step (h : π.Regular) {e : Event} (hstep : π.step e = some π') : π'.Regular := by
  have hturn (hstep : (if π.errand.isNone then π.turn e else none) = some π') : π'.Regular := by
    split at hstep
    · exact h.turn hstep
    · cases hstep
  cases e with
  | post => exact h.post hstep
  | release s =>
    simp only [Process.step] at hstep
    split at hstep <;> cases hstep
    exact h.outside _
  | clocks wall elapsed =>
    cases hstep
    exact h.outside _
  | inner e =>
    simp only [Process.step] at hstep
    split at hstep
    · next he =>
      obtain ⟨logic, hlogic, rfl⟩ := Option.map_eq_some_iff.mp hstep
      exact h.inner hlogic (running_inner h.running he hlogic) h.errand
    · cases hstep
  | _ => exact hturn hstep

/-! ## The I/O thread -/

omit [PoolSizes] in
theorem owed_none (h : π.errand = none) (t : Thread) : π.owed t = [] := by
  rw [owed, h]

omit [PoolSizes] in
/-- What was owed stands in line. -/
theorem line_posted {σ' : LogicSystem} {e : Entry} {errand : Errand} (herrand : π.errand = some errand)
    (hjob : e.job = errand.job)
    (hbefore : ∀ t, σ'.before t = π.logic.before t ++ if t = e.job.thread then [e] else []) {t : Thread}
    (hline : S.line t = (π.logic.before t).map Entry.job ++ π.owed t) : S.line t = (σ'.before t).map Entry.job ++ [] := by
  rw [hline, hbefore, owed, herrand, List.append_nil, List.map_append]
  dsimp only
  by_cases ht : t = errand.job.thread
  · rw [if_pos ht.symm, hjob, if_pos ht, List.map_singleton, hjob]
  · rw [if_neg (Ne.symm ht), hjob, if_neg ht, List.map_nil]

theorem registry_fixed {σ σ' : LogicSystem} (hr : σ.Registry) {i : Nat} (hi : i < 2) {job : Job} {bytes : Nat}
    (hsubmit : σ.submit i job none bytes = some σ') (hthread : job.thread = σ.owners i) :
    Accepts σ σ' ⟨job, none, job.terminal, bytes⟩ := by
  have hlt := hi.trans_le hr.named.fixed.1
  exact accepts_submit hlt (hr.submit hlt (serving_fixed hr.named hi) hsubmit) hsubmit hthread

omit [PoolSizes] in
/-- What stands in line is owed. -/
theorem line_owed {errand : Errand} {S' : Server} {l : List Entry} (herrand : π.errand = some errand)
    (hlines : S'.line = S.lineUp errand.job) {t : Thread} (hline : S.line t = l.map Entry.job ++ []) :
    S'.line t = l.map Entry.job ++ π.owed t := by
  rw [List.append_nil] at hline
  rw [hlines, owed, herrand]
  dsimp only
  by_cases ht : t = errand.job.thread
  · subst ht
    rw [if_pos rfl, Server.lineUp, Function.update_self, hline]
  · rw [if_neg (Ne.symm ht), Server.lineUp, Function.update_of_ne ht, hline, List.append_nil]

/-- The thread posts what it owes. -/
theorem follows_post (hregular : π.Regular) (h : Paired π.logic π.owed S) (hstep : π.post = some π')
    (hkept : π'.logic.Kept) : Follows S π'.owed π'.logic := by
  have hstopping : π.logic.stopping = false := congrArg Prod.fst hregular.running
  unfold Process.post at hstep
  cases herrand : π.errand with
  | none =>
    rw [herrand] at hstep
    cases hstep
  | some errand =>
    have hterminal := hregular.errand errand herrand
    rw [herrand] at hstep
    cases errand with
    | disconnected s =>
      cases hstep
      simp only [postMsgToQue, hstopping, Bool.false_eq_true, if_false] at hkept ⊢
      rcases submitConnection_cases h.registry s .disconnected 0 with haccepts | ⟨hrefused, -⟩
      · refine follows_still (shows_accepted h hkept haccepts (filed_outside rfl (fun _ => rfl) _) rfl ⟨rfl, rfl⟩
          h.shows.data fun t ht => ?_)
        exact line_posted herrand rfl haccepts.before (h.shows.line t ht)
      · exact absurd rfl (hrefused rfl)
    | media event epoch =>
      cases hstep
      cases hsubmit : π.logic.submit 0 (.control event epoch .malformed) none 0 with
      | none => exact absurd hsubmit (submit_terminal hterminal)
      | some σ' =>
        simp only [postMediaEvent, hstopping, Bool.false_eq_true, if_false, hsubmit] at hkept ⊢
        have haccepts := registry_fixed h.registry (by omega) hsubmit h.registry.named.fixed.2.1.symm
        refine follows_still (shows_accepted h hkept haccepts (filed_outside rfl (fun _ => rfl) _) rfl ⟨rfl, rfl⟩
          h.shows.data fun t ht => ?_)
        exact line_posted herrand rfl haccepts.before (h.shows.line t ht)

/-- The data of the two is the same. -/
theorem conn_isOpen (h : Paired π.logic π.owed S) (s : SessionId) :
    (S.conns s).isOpen = (π.logic.server.conns s).isOpen := by
  rw [← h.shows.data]
  rfl

/-- What the thread does next, when it owes nothing. -/
theorem follows_turn (hregular : π.Regular) (h : Paired π.logic π.owed S) (hnone : π.errand = none) {e : Event}
    (hstep : π.turn e = some π') (hkept : π'.logic.Kept) : Follows S π'.owed π'.logic := by
  have hstopping : π.logic.stopping = false := congrArg Prod.fst hregular.running
  have howed := owed_none hnone
  have hdata := h.shows.data
  have hline (t : Thread) (ht : t ≠ .timer) : S.line t = (π.logic.before t).map Entry.job ++ [] := by
    rw [h.shows.line t ht, howed]
  have hsession (s : SessionId) : π.logic.server.sessions s = S.sessions s := by
    rw [← hdata]
    rfl
  have hlink : π.logic.server.link = S.link := by
    rw [← hdata]
    rfl
  cases e with
  | accept =>
    cases hstep
    have hnext : π.logic.server.nextSession = S.nextSession := by
      rw [← hdata]
      rfl
    have hfresh : (S.conns S.nextSession).commands = [] := by
      have hunknown : decide (S.nextSession < S.nextSession) = false := decide_eq_false (lt_irrefl _)
      exact ((h.wired.line S.nextSession).fresh hunknown).2
    obtain ⟨hstate, hqueue⟩ := List.append_eq_nil_iff.mp hfresh
    have hidle : (S.conns S.nextSession).state = .idle := by
      cases hs : (S.conns S.nextSession).state with
      | idle => rfl
      | running command op =>
        rw [hs] at hstate
        cases hstate
      | waiting command m =>
        rw [hs] at hstate
        cases hstate
    obtain ⟨S', hstep, hbare, hlines, hstill⟩ := Server.takes_accept hidle hqueue
    refine follows_step hstep (shows_outside h hstill hkept ?_ fun t ht => ?_)
    · rw [hbare, hnext, hdata]
    · rw [hlines]
      exact h.shows.line t ht
  | frame s r bytes =>
    simp only [turn] at hstep
    split at hstep
    swap
    · cases hstep
    next hopen =>
    cases hstep
    have hS : (S.conns s).isOpen = true := (conn_isOpen h s).trans hopen
    simp only [postMsgToQue, hstopping, Bool.false_eq_true, if_false] at hkept ⊢
    rcases submitConnection_cases h.registry s (.request r) bytes with haccepts | ⟨-, connections, hrefused⟩
    · obtain ⟨S', hstep, hbare, hlines, hstill⟩ := Server.takes_frame hS r
      refine follows_step hstep (shows_accepted h hkept haccepts (filed_outside rfl Bool.noConfusion _) rfl hstill
        (hbare.trans hdata) fun t ht => ?_)
      exact line_accepted haccepts.before hlines (howed _) (h.shows.line t ht)
    · obtain ⟨S', hstep, hbare, hlines, hstill⟩ := Server.takes_overflow hS r
      rw [hrefused] at hkept ⊢
      have hserver : S'.bare = π.logic.server.setSession s { π.logic.server.sessions s with closed := true } := by
        rw [hbare, hdata, hsession]
      refine follows_step hstep (h.shows.still h.kept hkept h.registry hstill (fun _ _ => rfl) (fun _ => .inl rfl)
        (fun _ hx _ _ => .inl hx) hserver (fun t ht => ?_) h.shows.filed)
      rw [hlines]
      exact h.shows.line t ht
  | close s =>
    simp only [turn] at hstep
    split at hstep
    swap
    · cases hstep
    next hopen =>
    cases hstep
    obtain ⟨S', hstep, hbare, hlines, hstill⟩ := Server.takes_close ((conn_isOpen h s).trans hopen)
    refine follows_step hstep (shows_outside h hstill hkept ?_ fun t ht => ?_)
    · rw [hbare, hdata, hsession]
    · exact line_owed (π := _) rfl hlines (hline t ht)
  | tick =>
    cases hstep
    simp only [postReconnectTimeoutCheck, hstopping, Bool.false_eq_true, false_or] at hkept ⊢
    by_cases hpending : (π.logic.queues 1).pending = 0
    · rw [if_neg (not_not.mpr hpending)] at hkept ⊢
      cases hsubmit : π.logic.submit 1 .timer none 0 with
      | none => exact follows_still h.shows
      | some σ' =>
        rw [hsubmit] at hkept
        have haccepts := registry_fixed h.registry (by omega) hsubmit h.registry.named.fixed.2.2.symm
        refine follows_still (shows_accepted h hkept haccepts (filed_outside rfl (fun _ => rfl) _) rfl ⟨rfl, rfl⟩ hdata
          fun t ht => ?_)
        have hbefore : σ'.before t = π.logic.before t := by
          rw [haccepts.before]
          exact (congrArg _ (if_neg ht)).trans (List.append_nil _)
        rw [Option.getD_some, hbefore]
        exact h.shows.line t ht
    · rw [if_pos hpending]
      exact follows_still h.shows
  | linkUp =>
    simp only [turn] at hstep
    split at hstep
    swap
    · cases hstep
    next hdown =>
    cases hstep
    rw [hlink] at hdown
    obtain ⟨S', hstep, hbare, hlines, hstill⟩ := Server.takes_linkUp hdown
    refine follows_step hstep (shows_outside h hstill hkept ?_ fun t ht => ?_)
    · rw [hbare, hdata, hlink]
    · refine line_owed (π := _) rfl ?_ (hline t ht)
      rw [hlines, Errand.job, hlink]
  | linkDown =>
    simp only [turn] at hstep
    split at hstep
    · cases hstep
    next hup =>
    cases hstep
    rw [hlink] at hup
    obtain ⟨S', hstep, hbare, hlines, hstill⟩ := Server.takes_linkDown hup
    refine follows_step hstep (shows_outside h hstill hkept ?_ fun t ht => ?_)
    · rw [hbare, hdata, hlink]
    · refine line_owed (π := _) rfl ?_ (hline t ht)
      rw [hlines, Errand.job, hlink]
  | linkMessage message bytes =>
    simp only [turn] at hstep
    split at hstep
    · cases hstep
    next hup =>
    cases hstep
    rw [hlink] at hup
    have hlive : ¬ π.logic.stopping = true := by simp [hstopping]
    cases hsubmit : π.logic.submit 0 (.control .message π.logic.server.link.active message) none bytes with
    | some σ' =>
      rw [postMediaEvent, if_neg hlive, hsubmit] at hkept ⊢
      have haccepts := registry_fixed h.registry (by omega) hsubmit h.registry.named.fixed.2.1.symm
      obtain ⟨S', hstep, hbare, hlines, hstill⟩ := Server.takes_message hup message
      refine follows_step hstep (shows_accepted h hkept haccepts (filed_outside rfl Bool.noConfusion _) rfl hstill
        (hbare.trans hdata) fun t ht => ?_)
      refine line_accepted haccepts.before ?_ (howed _) (h.shows.line t ht)
      rw [hlines, hlink]
    | none =>
      rw [postMediaEvent, if_neg hlive, hsubmit] at hkept ⊢
      obtain ⟨S', hstep, hbare, hlines, hstill⟩ := Server.takes_surplus hup message
      refine follows_step hstep (shows_outside h hstill hkept ?_ fun t ht => ?_)
      · rw [hbare, hdata, hlink]
      · rw [hlines]
        exact h.shows.line t ht
  | _ => cases hstep

/-- The process goes on: the serial server takes no step, or one. -/
theorem follows_process (hregular : π.Regular) (h : Paired π.logic π.owed S) {e : Event} (hstep : π.step e = some π')
    (hkept : π'.logic.Kept) (hr' : π'.logic.Registry) : Follows S π'.owed π'.logic := by
  have hdata := h.shows.data
  have hturn (hstep : (if π.errand.isNone then π.turn e else none) = some π') : Follows S π'.owed π'.logic := by
    split at hstep
    · next hnone => exact follows_turn hregular h (Option.isNone_iff_eq_none.mp hnone) hstep hkept
    · cases hstep
  cases e with
  | post => exact follows_post hregular h hstep hkept
  | release s =>
    simp only [step] at hstep
    split at hstep
    swap
    · cases hstep
    next hgone =>
    cases hstep
    obtain ⟨hclosed, herrand, hforgotten, hknown⟩ := hgone
    have hempty (i : Nat) (hi : π.logic.owners i = .conn s) : (π.logic.queues i).load = [] := by
      by_contra hload
      have hlt := lt_of_load h.registry hload
      have hzero := List.all_eq_true.mp hforgotten i (List.mem_range.mpr hlt)
      have hpending := of_decide_eq_true hzero hi
      rw [(h.registry.tallied i).pending, List.length_eq_zero_iff] at hpending
      exact hload hpending
    have hidle : S.doing (.conn s) = some (.pure ()) := by
      refine h.shows.idle _ fun i hi => List.eq_nil_iff_forall_not_mem.mpr fun e he => ?_
      exact load_of_unended (List.mem_append_left _ he) (hempty i hi)
    have hqueue : S.line (.conn s) = [] := by
      have hbefore : π.logic.before (.conn s) = [] := by
        refine List.flatMap_eq_nil_iff.mpr fun i hi => ?_
        rw [List.mem_filter, decide_eq_true_eq] at hi
        exact (List.append_eq_nil_iff.mp (hempty i hi.2)).2
      have howed : π.owed (.conn s) = [] := by
        unfold owed
        cases hx : π.errand with
        | none => rfl
        | some errand =>
          refine if_neg fun hthread => ?_
          cases errand with
          | disconnected s' =>
            cases hthread
            exact herrand hx
          | media event epoch => cases hthread
      rw [h.shows.line _ Thread.noConfusion, hbefore, howed]
      rfl
    have hS : S.nextSession = π.logic.server.nextSession := by
      rw [← hdata]
      rfl
    have hsession : π.logic.server.sessions s = S.sessions s := by
      rw [← hdata]
      rfl
    obtain ⟨S', hstep, hbare, hlines, hstill⟩ := Server.takes_release ((conn_isOpen h s).trans hclosed)
      (h.prompt.idleConn hidle) (List.map_eq_nil_iff.mp hqueue) (hS ▸ hknown)
    refine follows_step hstep (shows_outside h hstill hkept ?_ fun t ht => ?_)
    · rw [hbare, hdata, hsession]
    · rw [hlines]
      exact h.shows.line t ht
  | clocks wall elapsed =>
    cases hstep
    have hS : S.steady = π.logic.server.steady := by
      rw [← hdata]
      rfl
    obtain ⟨S', hstep, hbare, hlines, hstill⟩ := Server.takes_clocks (σ := S) wall elapsed
    refine follows_step hstep (shows_outside h hstill hkept ?_ fun t ht => ?_)
    · rw [hbare, hdata, hS]
    · rw [hlines]
      exact h.shows.line t ht
  | inner e =>
    simp only [step] at hstep
    split at hstep
    · next he =>
      obtain ⟨logic, hlogic, rfl⟩ := Option.map_eq_some_iff.mp hstep
      exact follows_inner h (congrArg Prod.snd hregular.running) he hlogic hkept hr'
    · cases hstep
  | _ => exact hturn hstep

/-! ## Every run -/

omit [PoolSizes] in
theorem owed_room (π : Process) (m : MeetingId) : π.owed (.room m) = [] := by
  unfold owed
  split
  · next errand _ => exact if_neg (by cases errand <;> exact Thread.noConfusion)
  · rfl

theorem regular_start (server : Server) (aiStub : Bool) : (start server aiStub).Regular := by
  refine ⟨⟨server, aiStub, .start⟩, rfl, fun x hx => ?_⟩
  cases hx

theorem regular_of_reachable (h : π.Reachable) : π.Regular := by
  obtain ⟨server, aiStub, -, hreach⟩ := h
  exact hreach.invariant (regular_start server aiStub) fun _ _ _ hregular _ hstep => hregular.step hstep

omit [PoolSizes] in
theorem bare_initial {server : Server} (h : server.Initial) : server.bare = server := by
  have hconns : (fun s => { isOpen := (server.conns s).isOpen }) = server.conns := by
    funext s
    rw [h.conns s]
  have hrooms : (fun m => { data := (server.rooms m).data }) = server.rooms := by
    funext m
    rw [h.rooms m]
  have hbare : server.bare = { server with timer := none, control := [], controlOp := none } := by
    rw [Server.bare, hconns, hrooms]
  have htimer := h.timer
  have hcontrol := h.control
  rw [hbare]
  cases server
  dsimp only at htimer hcontrol
  rw [htimer, hcontrol.1, hcontrol.2]

theorem shows_start {server : Server} (h : server.Initial) (aiStub : Bool) :
    (start server aiStub).logic.Shows (start server aiStub).owed server := by
  have hkept := kept_of_reachable (regular_start server aiStub).logic
  have hbefore (t : Thread) : (start server aiStub).logic.before t = [] := List.flatMap_eq_nil_iff.mpr fun _ _ => rfl
  refine ⟨bare_initial h, fun t ht => ?_, fun t _ => ?_, fun i => at_idle hkept.sound rfl, fun i e he => ?_⟩
  · rw [hbefore, owed_none rfl]
    cases t with
    | conn s => simp only [Server.line, h.conns, List.map_nil, List.append_nil]
    | room m => simp only [Server.line, h.rooms, List.map_nil, List.append_nil]
    | timer => exact absurd rfl ht
    | control => simp only [Server.line, h.control.1, List.map_nil, List.append_nil]
  · cases t with
    | conn s => simp only [Server.doing, h.conns]
    | room m => simp only [Server.doing, h.rooms, Option.elim_none]
    | timer => simp only [Server.doing, h.timer, Option.getD_none]
    | control => simp only [Server.doing, h.control.2, Option.getD_none]
  · cases he

/-- Where the two have come from the same stores and the serial server is shown, it can follow any run of the process. -/
theorem follows_run {server : Server} (hinitial : server.Initial) {aiStub : Bool}
    (hπ : Reach step (fun _ _ => True) (start server aiStub) π) (hS : Reach Server.step (fun _ _ => True) server S)
    (hshows : π.logic.Shows π.owed S) (hrun : Reach step (fun _ _ => True) π π') : Follows S π'.owed π'.logic := by
  let R (π : Process) (S : Server) : Prop := π.logic.Shows π.owed S
  refine hrun.simulated (R := R) hshows fun ρ ρ' T e hρ hT hshows _ hstep => ?_
  have hreached : SyncRtc.Reachable (fun _ _ => True) T := ⟨server, hinitial, hS.trans hT⟩
  have hreach := hπ.trans hρ
  have hregular : ρ.Regular := regular_of_reachable ⟨server, aiStub, hinitial, hreach⟩
  have hlogic : ρ'.logic.Reachable := (hregular.step hstep).logic
  have hwired : Wired False none T := wired_reachable (fun h => h.elim) hreached
  exact follows_process hregular
    ⟨kept_of_reachable hregular.logic, registry_of_reachable hregular.logic, prompt_of_reachable hreached, hwired, hshows,
      owed_room ρ⟩
    hstep (kept_of_reachable hlogic) (registry_of_reachable hlogic)

/-- A property of the data that the serial server never loses is one the process never loses. -/
theorem holds_of_serial {P : Server → Prop} (hserial : ∀ S : Server, SyncRtc.Reachable (fun _ _ => True) S → P S.bare)
    (h : π.Reachable) : P π.logic.server := by
  obtain ⟨server, aiStub, hinitial, hreach⟩ := h
  obtain ⟨S, hS, hshows⟩ := follows_run hinitial .start .start (shows_start hinitial aiStub) hreach
  exact hshows.data ▸ hserial S ⟨server, hinitial, hS⟩

/-- Every state of the process shows one that the serial server reaches over the same stores: the same data, with
what has been sent and stored so far, the same commands in the same lines, and every coroutine at the same call. From
there on the serial server can follow the process wherever it goes. -/
theorem process_refines {server : Server} (hinitial : server.Initial) {aiStub : Bool}
    (hreach : Reach step (fun _ _ => True) (start server aiStub) π) :
    ∃ S, Reach Server.step (fun _ _ => True) server S ∧ π.logic.Shows π.owed S ∧
      ∀ π', Reach step (fun _ _ => True) π π' →
        ∃ S', Reach Server.step (fun _ _ => True) S S' ∧ π'.logic.Shows π'.owed S' := by
  obtain ⟨S, hS, hshows⟩ := follows_run hinitial .start .start (shows_start hinitial aiStub) hreach
  exact ⟨S, hS, hshows, fun _ hrun => follows_run hinitial hreach hS hshows hrun⟩

omit [PoolSizes] in
/-- The connection is lost while its login waits for a query; the end of it is not posted yet. -/
theorem process_refines_login : ∃ π : Process, (π.logic.pools .storage).pending = 1 ∧ π.errand.isSome = true ∧
    ∃ S, Reach Server.step (fun _ _ => True) Scenario.server S ∧ @LogicSystem.Shows .source π.logic π.owed S ∧
      ∀ π', Reach (@step .source) (fun _ _ => True) π π' →
        ∃ S', Reach Server.step (fun _ _ => True) S S' ∧ @LogicSystem.Shows .source π'.logic π'.owed S' := by
  let _ : PoolSizes := .source
  let events : List Event := .accept :: .frame 0 (Scenario.login 1 "1") 40 :: .inner (.handler 2 false) ::
    (List.replicate 6 (.inner (.step 2 {} 0)) ++ [.close 0])
  have hplay : ((play step (fun _ _ => true) events (start Scenario.server false)).any fun π =>
      decide ((π.logic.pools .storage).pending = 1) && π.errand.isSome) = true := by decide +kernel
  obtain ⟨π, hplay, hstate⟩ := (Option.any_eq_true _ _).mp hplay
  rw [Bool.and_eq_true, decide_eq_true_eq] at hstate
  have hreach : Reach step (fun _ _ => True) (start Scenario.server false) π := reach_play (fun _ _ _ => trivial) hplay
  exact ⟨π, hstate.1, hstate.2, process_refines Scenario.server_initial hreach⟩

end Process

end SyncRtc
