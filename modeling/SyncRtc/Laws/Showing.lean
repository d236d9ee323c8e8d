import SyncRtc.Laws.Places
import SyncRtc.Laws.Registry
import SyncRtc.Laws.Threads

/-!
# The business layer beside the serial server

A state of the business layer and one of the serial server of `System.lean` show the same when they hold the same data,
each owner's queue has the same commands before it, and each operation has the same left to do, wherever that stands
just now: with the coroutine, with a slow step, or with the closure that resumes it (`Shows`).

A step of the business layer concerns one queue. What the others show stays: their operations run on other threads of
the serial server (`Registry.unique`), and the one thread that moves along, the connection a room lets go on, is
suspended until the room calls `done` (`beside_moved`).
-/

set_option autoImplicit false

namespace SyncRtc

open SerialCommandQueue

/-! ## What an item says -/

/-- What an operation has left to do that is not suspended. -/
def SerialCommandQueue.Operation.body? (op : Operation) : Option (Op Unit) :=
  match op.stage with
  | .running body | .retrying _ body => some body
  | _ => none

namespace Item

/-- Whose operation the item is, or will wake. -/
def queue? : Item → Option Nat
  | .operation i _ => some i
  | .slow t _ => some t.wait.queue
  | .ready c _ | .promised c => some c.wait.queue
  | _ => none

/-- The thread of the serial server has left to do what the item says. -/
def Shown (S : Server) (owners : Nat → Thread) : Item → Prop
  | .operation i op => ∀ body, op.body? = some body → S.doing (owners i) = some body
  | .slow t _ => S.doing (owners t.wait.queue) = some (.call t.work t.next) ∧ NoHandOver t.work
  | .ready c _ => S.doing (owners c.wait.queue) = some c.next
  | _ => True

variable {S S' : Server} {owners owners' : Nat → Thread} {x : Item} {i : Nat}

theorem queue?_of_wake {w : Suspension} (h : w ∈ x.wakes) : x.queue? = some w.queue := by
  cases x with
  | promised c | ready c left | slow t taken =>
    obtain rfl := Multiset.mem_singleton.mp h
    rfl
  | _ => exact absurd h (Multiset.notMem_zero w)

/-- The item is an operation, or wakes one. -/
theorem cases_queue? (h : x.queue? = some i) : (∃ op, x = .operation i op) ∨ ∃ w ∈ x.wakes, w.queue = i := by
  cases x with
  | operation j op =>
    cases h
    exact .inl ⟨op, rfl⟩
  | promised c | ready c left | slow t taken =>
    cases h
    exact .inr ⟨_, Multiset.mem_singleton_self _, rfl⟩
  | _ => cases h

theorem Shown.congr (h : x.Shown S owners) (hdoing : ∀ i, x.queue? = some i → S'.doing (owners' i) = S.doing (owners i)) :
    x.Shown S' owners' := by
  cases x with
  | operation j op =>
    intro body hbody
    exact (hdoing j rfl).trans (h body hbody)
  | slow t taken => exact ⟨(hdoing t.wait.queue rfl).trans h.1, h.2⟩
  | ready c left => exact (hdoing c.wait.queue rfl).trans h
  | _ => trivial

end Item

/-- A command is filed with what its sender waits for. -/
structure SerialCommandQueue.Entry.Filed (e : Entry) (owners : Nat → Thread) : Prop where
  terminal : e.terminal = e.job.terminal
  /-- The end of something is always accepted. -/
  bytes : e.terminal = true → e.bytes = 0
  done : ∀ c, e.done = some c → ∃ s, e.job.session? = some s ∧ owners c.wait.queue = .conn s ∧ c.next = .pure ()
  promised : ∀ s, e.job.session? = some s → ∃ c, e.done = some c

theorem SerialCommandQueue.Entry.Filed.congr {e : Entry} {owners owners' : Nat → Thread} (h : e.Filed owners)
    (howners : ∀ c, e.done = some c → owners' c.wait.queue = owners c.wait.queue) : e.Filed owners' := by
  refine ⟨h.terminal, h.bytes, fun c hc => ?_, h.promised⟩
  rw [howners c hc]
  exact h.done c hc

namespace SerialCommandQueue

variable {queue : SerialCommandQueue} {e : Entry} {op : Operation}

/-- What has been accepted and has not ended. -/
def unended (queue : SerialCommandQueue) : List Entry := queue.current ++ queue.waiting

theorem mem_current : e ∈ queue.current ↔ ∃ op, queue.active = some op ∧ op.isOver = false ∧ op.entry = e := by
  unfold current
  cases queue.active with
  | none => simp
  | some op =>
    simp only [Option.elim_some, Operation.current, Option.some.injEq, exists_eq_left']
    cases op.isOver <;> simp [eq_comm]

theorem current_of_active (hop : queue.active = some op) (hover : op.isOver = false) : queue.current = [op.entry] := by
  simp only [current, hop, Option.elim_some, Operation.current, hover, Bool.false_eq_true, if_false]

theorem current_subset_load (h : e ∈ queue.unended) : e ∈ queue.load := by
  rcases List.mem_append.mp h with h | h
  · obtain ⟨op, hop, hover, rfl⟩ := mem_current.mp h
    have hlive : op.stage ≠ .leaving := by
      intro hstage
      rw [Operation.isOver, hstage] at hover
      cases hover
    rw [load_live hop hlive]
    exact List.mem_cons_self
  · exact List.mem_append_right _ h

end SerialCommandQueue

namespace LogicSystem

variable {σ σ' : LogicSystem} {S S' : Server} {i j : Nat} {e : Entry} {owed : Thread → List Job}

/-- What waits in the queues of an owner. -/
def before (σ : LogicSystem) (t : Thread) : List Entry :=
  ((List.range σ.nextQueue).filter fun i => decide (σ.owners i = t)).flatMap fun i => (σ.queues i).waiting

section

variable [PoolSizes]

/-- What queue `i` shows. -/
structure At (σ : LogicSystem) (S : Server) (i : Nat) : Prop where
  item : ∀ x ∈ σ.items, x.queue? = some i → x.Shown S σ.owners
  /-- The serial server lets the connection go on when the room's last call is answered, the business layer when it
  calls `done`. -/
  released : ∀ e ∈ (σ.queues i).current, ∀ c, e.done = some c → S.doing (σ.owners i) = some (.pure ()) →
    S.doing (σ.owners c.wait.queue) = some (.pure ())
  carries : ∀ e ∈ (σ.queues i).current, ∀ job, S.carries (σ.owners i) = some job → job = e.job

/-- What the business layer and the serial server have in common, where the I/O thread still owes some commands. -/
structure Shows (σ : LogicSystem) (owed : Thread → List Job) (S : Server) : Prop where
  data : S.bare = σ.server
  line : ∀ t ≠ .timer, S.line t = (σ.before t).map Entry.job ++ owed t
  idle : ∀ t, (∀ i, σ.owners i = t → (σ.queues i).current = []) → S.doing t = some (.pure ())
  busy : ∀ i, σ.At S i
  filed : ∀ i, ∀ e ∈ (σ.queues i).unended, e.Filed σ.owners

end

/-! ## Queues that have something to do -/

theorem lt_of_load (h : σ.Registry) (hload : (σ.queues i).load ≠ []) : i < σ.nextQueue := by
  have hserving : σ.Serving i := by
    refine h.serving i fun hzero => hload ?_
    rwa [(h.tallied i).pending, List.length_eq_zero_iff] at hzero
  unfold Serving at hserving
  cases hown : σ.owners i with
  | room m =>
    rw [hown] at hserving
    exact (h.named.rooms m i hserving).1
  | conn s =>
    rw [hown] at hserving
    exact (h.named.connections s i hserving).1
  | control =>
    rw [hown] at hserving
    have hfixed := h.named.fixed.1
    omega
  | timer =>
    rw [hown] at hserving
    have hfixed := h.named.fixed.1
    omega

theorem load_of_unended (he : e ∈ (σ.queues i).unended) : (σ.queues i).load ≠ [] :=
  List.ne_nil_of_mem (current_subset_load he)

theorem load_of_active {op : Operation} (hop : (σ.queues i).active = some op) (hover : op.isOver = false) :
    (σ.queues i).load ≠ [] := by
  refine load_of_unended (e := op.entry) (List.mem_append_left _ ?_)
  exact mem_current.mpr ⟨op, hop, hover, rfl⟩

section

variable [PoolSizes]

/-- A wake-up under way means an operation, with something left to do. -/
theorem load_of_wake (hσ : σ.books.Sound) {x : Item} (hx : x ∈ σ.items) {w : Suspension} (hw : w ∈ x.wakes) :
    (σ.queues w.queue).load ≠ [] := by
  obtain ⟨-, op, hop, hstage, -⟩ := suspended_of_wake hσ hx hw
  refine load_of_active hop ?_
  rw [Operation.isOver, hstage]

theorem queue_lt (hσ : σ.books.Sound) {x : Item} (hx : x ∈ σ.items) (hi : x.queue? = some i) : i < σ.nextQueue := by
  rcases Item.cases_queue? hi with ⟨op, rfl⟩ | ⟨w, hw, rfl⟩
  · exact (mem_operation.mp hx).1
  · exact (suspended_of_wake hσ hx hw).1

theorem promise_mem (hi : i < σ.nextQueue) (he : e ∈ (σ.queues i).unended) {c : Completion} (hc : e.done = some c) :
    .promised c ∈ σ.items := by
  have hpromise : .promised c ∈ e.promise := by
    simp only [Entry.promise, hc, Multiset.mem_singleton]
  refine mem_items.mpr (.inl ⟨i, hi, mem_queue.mpr ?_⟩)
  rcases List.mem_append.mp he with he | he
  · obtain ⟨op, hop, -, rfl⟩ := mem_current.mp he
    exact .inr (.inr (.inl ⟨op, hop, Multiset.mem_cons_of_mem hpromise⟩))
  · rcases List.mem_append.mp he with he | he
    · exact .inr (.inl ⟨e, he, Multiset.mem_cons_of_mem hpromise⟩)
    · obtain ⟨x, hx, haccepted⟩ := List.mem_filterMap.mp he
      cases x with
      | command e' =>
        cases haccepted
        exact .inl ⟨_, hx, Multiset.mem_cons_of_mem hpromise⟩
      | _ => cases haccepted

theorem done_lt (hσ : σ.books.Sound) (hr : σ.Registry) (he : e ∈ (σ.queues i).unended) {c : Completion}
    (hc : e.done = some c) : c.wait.queue < σ.nextQueue :=
  queue_lt hσ (promise_mem (lt_of_load hr (load_of_unended he)) he hc) rfl

/-- An operation has one wake-up at most. -/
theorem wake_unique (hσ : σ.books.Sound) {x y : Item} (hx : x ∈ σ.items) (hy : y ∈ σ.items) {w w' : Suspension}
    (hw : w ∈ x.wakes) (hw' : w' ∈ y.wakes) (hqueue : w.queue = w'.queue) : x = y := by
  by_contra hne
  have hi := (suspended_of_wake hσ hx hw).1
  obtain ⟨s, hs⟩ := Multiset.exists_cons_of_mem hx
  have hy' : y ∈ s := by
    rw [hs] at hy
    exact (Multiset.mem_cons.mp hy).resolve_left (Ne.symm hne)
  obtain ⟨s', rfl⟩ := Multiset.exists_cons_of_mem hy'
  have hone := waits_of_queue hi
  rw [show σ.items.bind Item.waits = σ.items.bind Item.wakes from hσ.waits, hs, Multiset.cons_bind, Multiset.cons_bind,
    Multiset.filter_add, Multiset.filter_add, Multiset.card_add, Multiset.card_add] at hone
  have hfirst : 0 < (x.wakes.filter fun v => v.queue = w.queue).card :=
    Multiset.card_pos_iff_exists_mem.mpr ⟨w, Multiset.mem_filter.mpr ⟨hw, rfl⟩⟩
  have hsecond : 0 < (y.wakes.filter fun v => v.queue = w.queue).card :=
    Multiset.card_pos_iff_exists_mem.mpr ⟨w', Multiset.mem_filter.mpr ⟨hw', hqueue.symm⟩⟩
  omega

/-! ## What a queue shows, by where its operation is -/

/-- A queue whose operation is over, or that has none. -/
theorem at_idle (hσ : σ.books.Sound) (hcurrent : (σ.queues i).current = []) : σ.At S i := by
  have hnone (op : Operation) (hop : (σ.queues i).active = some op) : op.isOver = true := by
    cases hover : op.isOver with
    | true => rfl
    | false =>
      rw [current_of_active hop hover] at hcurrent
      cases hcurrent
  refine ⟨fun x hx hi => ?_, fun e he => ?_, fun e he => ?_⟩
  · rcases Item.cases_queue? hi with ⟨op, rfl⟩ | ⟨w, hw, rfl⟩
    · intro body hbody
      have hover := hnone op (mem_operation.mp hx).2
      unfold Operation.body? at hbody
      unfold Operation.isOver at hover
      cases hstage : op.stage <;> simp [hstage] at hbody hover
    · obtain ⟨-, op, hop, hstage, -⟩ := suspended_of_wake hσ hx hw
      have hover := hnone op hop
      rw [Operation.isOver, hstage] at hover
      cases hover
  · rw [hcurrent] at he
    cases he
  · rw [hcurrent] at he
    cases he

/-- A queue whose operation is not suspended. -/
theorem item_awake (hσ : σ.books.Sound) {op : Operation} (hop : (σ.queues i).active = some op)
    (hawake : op.isSuspended = false) {x : Item} (hx : x ∈ σ.items) (hi : x.queue? = some i) : x = .operation i op := by
  rcases Item.cases_queue? hi with ⟨op', rfl⟩ | ⟨w, hw, rfl⟩
  · cases hop.symm.trans (mem_operation.mp hx).2
    rfl
  · obtain ⟨-, op', hop', hstage, -⟩ := suspended_of_wake hσ hx hw
    cases hop.symm.trans hop'
    rw [Operation.isSuspended, hstage] at hawake
    cases hawake

/-- A queue whose operation is suspended, and what wakes it. -/
theorem item_asleep (hσ : σ.books.Sound) {op : Operation} (hop : (σ.queues i).active = some op) {y : Item}
    (hy : y ∈ σ.items) {w : Suspension} (hw : w ∈ y.wakes) (hwi : w.queue = i) {x : Item} (hx : x ∈ σ.items)
    (hi : x.queue? = some i) : x = .operation i op ∨ x = y := by
  rcases Item.cases_queue? hi with ⟨op', rfl⟩ | ⟨w', hw', hwi'⟩
  · cases hop.symm.trans (mem_operation.mp hx).2
    exact .inl rfl
  · exact .inr (wake_unique hσ hx hy hw' hw (hwi'.trans hwi.symm))

/-! ## A step of the business layer that moves no thread -/

theorem At.congr (hσ : σ.books.Sound) (hr : σ.Registry) (h : σ.At S i) (hdoing : S'.doing = S.doing)
    (hcarries : S'.carries = S.carries) (howners : ∀ j < σ.nextQueue, σ'.owners j = σ.owners j)
    (hcurrent : (σ'.queues i).current = (σ.queues i).current)
    (hitem : ∀ x ∈ σ'.items, x.queue? = some i → x ∈ σ.items ∨ x.Shown S' σ'.owners) : σ'.At S' i := by
  have howner (he : (σ.queues i).load ≠ []) : σ'.owners i = σ.owners i := howners i (lt_of_load hr he)
  refine ⟨fun x hx hi => ?_, fun e he c hc => ?_, fun e he => ?_⟩
  · refine (hitem x hx hi).elim (fun hold => ?_) id
    refine (h.item x hold hi).congr fun j hj => ?_
    rw [hdoing, howners j (queue_lt hσ hold hj)]
  · rw [hcurrent] at he
    have hopen : e ∈ (σ.queues i).unended := List.mem_append_left _ he
    rw [hdoing, howner (load_of_unended hopen), howners _ (done_lt hσ hr hopen hc)]
    exact h.released e he c hc
  · rw [hcurrent] at he
    rw [hcarries, howner (load_of_unended (List.mem_append_left _ he))]
    exact h.carries e he

/-- Where no thread of the serial server moves, an operation comes to its end or stays where it is. -/
theorem Shows.still (hσ : σ.Kept) (hσ' : σ'.Kept) (hr : σ.Registry) (h : σ.Shows owed S) (hstill : Server.Still S S')
    (howners : ∀ j < σ.nextQueue, σ'.owners j = σ.owners j)
    (hcurrent : ∀ i, (σ'.queues i).current = (σ.queues i).current ∨
      (σ'.queues i).current = [] ∧ S.doing (σ.owners i) = some (.pure ()))
    (hitem : ∀ x ∈ σ'.items, ∀ i, x.queue? = some i → x ∈ σ.items ∨ x.Shown S' σ'.owners)
    {owed' : Thread → List Job} (hdata : S'.bare = σ'.server)
    (hline : ∀ t ≠ .timer, S'.line t = (σ'.before t).map Entry.job ++ owed' t)
    (hfiled : ∀ i, ∀ e ∈ (σ'.queues i).unended, e.Filed σ'.owners) : σ'.Shows owed' S' := by
  obtain ⟨hdoing, hcarries⟩ := hstill
  refine ⟨hdata, hline, fun t ht => ?_, fun i => ?_, hfiled⟩
  · rw [hdoing]
    by_cases hbusy : ∃ i, σ.owners i = t ∧ (σ.queues i).current ≠ []
    · obtain ⟨i, rfl, hi⟩ := hbusy
      obtain ⟨e, he⟩ := List.exists_mem_of_ne_nil _ hi
      have hlt := lt_of_load hr (load_of_unended (List.mem_append_left (σ.queues i).waiting he))
      rcases hcurrent i with hsame | ⟨-, hpure⟩
      · rw [ht i (howners i hlt)] at hsame
        exact absurd hsame.symm hi
      · exact hpure
    · simp only [not_exists, not_and, not_not] at hbusy
      exact h.idle t hbusy
  · rcases hcurrent i with hsame | ⟨hnone, -⟩
    · exact (h.busy i).congr hσ.sound hr hdoing hcarries howners hsame fun x hx => hitem x hx i
    · exact at_idle hσ'.sound hnone

/-! ## A step that moves the thread of one queue -/

/-- What the other queues show, after the thread of queue `i` has moved. -/
structure Beside (σ : LogicSystem) (S' : Server) (i : Nat) : Prop where
  idle : ∀ t ≠ σ.owners i, (∀ j, σ.owners j = t → (σ.queues j).current = []) → S'.doing t = some (.pure ())
  busy : ∀ j ≠ i, σ.At S' j

/-- The thread of a queue moves, and with it the connection that it lets go on; the other queues show what they did. -/
theorem beside_moved (hσ : σ.Kept) (hr : σ.Registry) (h : σ.Shows owed S) (he : e ∈ (σ.queues i).unended)
    (hfree : ∀ c, .promised c ∈ σ.items → c.wait.queue ≠ i) {body : Option (Op Unit)}
    (hmoved : Moved S S' (σ.owners i) e.job body) : σ.Beside S' i := by
  have hload := load_of_unended he
  have hsound := hσ.sound
  refine ⟨fun t ht hcurrent => ?_, fun j hne => ?_⟩
  · rcases hmoved.others t ht with hsame | ⟨hpure, -⟩
    · exact hsame.trans (h.idle t hcurrent)
    · exact hpure
  by_cases hj : (σ.queues j).load = []
  · refine at_idle hsound (List.eq_nil_iff_forall_not_mem.mpr fun e' he' => ?_)
    exact load_of_unended (List.mem_append_left _ he') hj
  have howner : σ.owners j ≠ σ.owners i := fun heq => hne (hr.unique heq hj hload)
  have hcarries : ∀ e' ∈ (σ.queues j).current, ∀ job, S'.carries (σ.owners j) = some job → job = e'.job :=
    fun e' he' job hjob => (h.busy j).carries e' he' job (hmoved.carries _ howner job hjob)
  rcases hmoved.others (σ.owners j) howner with hsame | ⟨hpure, -, s, hs, howns⟩
  · refine ⟨fun x hx hxj => ?_, fun e' he' c hc hdone => ?_, hcarries⟩
    · refine ((h.busy j).item x hx hxj).congr fun k hk => ?_
      obtain rfl : j = k := Option.some.inj (hxj.symm.trans hk)
      exact hsame
    · rw [hsame] at hdone
      have hpromise := promise_mem (lt_of_load hr hj) (List.mem_append_left _ he') hc
      have hwaits : (σ.queues c.wait.queue).load ≠ [] := load_of_wake hsound hpromise (Multiset.mem_singleton_self _)
      have hwait : σ.owners c.wait.queue ≠ σ.owners i := fun heq => hfree c hpromise (hr.unique heq hwaits hload)
      rcases hmoved.others _ hwait with hrest | ⟨hrest, -⟩
      · exact hrest.trans ((h.busy j).released e' he' c hc hdone)
      · exact hrest
  · -- Queue `j` is that of the connection, which waits for this promise alone.
    have hfiled := h.filed i e he
    obtain ⟨c, hc⟩ := hfiled.promised s hs
    obtain ⟨s', hs', hconn, -⟩ := hfiled.done c hc
    obtain rfl : s = s' := Option.some.inj (hs.symm.trans hs')
    have hpromise := promise_mem (lt_of_load hr hload) he hc
    have hwaits : (σ.queues c.wait.queue).load ≠ [] := load_of_wake hsound hpromise (Multiset.mem_singleton_self _)
    have hqueue : c.wait.queue = j := hr.unique (hconn.trans howns.symm) hwaits hj
    obtain ⟨-, op, hop, hstage, -⟩ := suspended_of_wake hsound hpromise (Multiset.mem_singleton_self _)
    rw [hqueue] at hop
    refine ⟨fun x hx hxj => ?_, fun e' he' c' hc' => ?_, hcarries⟩
    · rcases item_asleep hsound hop hpromise (Multiset.mem_singleton_self _) hqueue hx hxj with rfl | rfl
      · intro body hbody
        rw [Operation.body?, hstage] at hbody
        cases hbody
      · trivial
    · obtain ⟨op', hop', -, rfl⟩ := mem_current.mp he'
      have hthread := ((hσ.orderly.queues j).active op' hop').trans howns
      obtain ⟨s', hs', -⟩ := (h.filed j _ (List.mem_append_left _ he')).done c' hc'
      unfold Job.session? at hs'
      split at hs'
      · next m task heq =>
        rw [heq] at hthread
        cases hthread
      · cases hs'

/-- What has left to do with the thread that moves. -/
theorem Shows.move (hσ : σ.Kept) (hr : σ.Registry) (h : σ.Shows owed S)
    (he : e ∈ (σ.queues i).unended) (hfree : ∀ c, .promised c ∈ σ.items → c.wait.queue ≠ i) {body : Option (Op Unit)}
    (hmoved : Moved S S' (σ.owners i) e.job body) (howners : ∀ j < σ.nextQueue, σ'.owners j = σ.owners j)
    (hcurrent : ∀ j ≠ i, (σ'.queues j).current = (σ.queues j).current) (hself : (σ'.queues i).current = [e])
    (hitem : ∀ x ∈ σ'.items, ∀ j ≠ i, x.queue? = some j → x ∈ σ.items)
    (hshown : ∀ x ∈ σ'.items, x.queue? = some i → x.Shown S' σ'.owners) (hdata : S'.bare = σ'.server)
    (hline : ∀ t ≠ .timer, S'.line t = (σ'.before t).map Entry.job ++ owed t)
    (hfiled : ∀ j, ∀ e ∈ (σ'.queues j).unended, e.Filed σ'.owners) : σ'.Shows owed S' := by
  have hload := load_of_unended he
  have hi := lt_of_load hr hload
  have hbeside := beside_moved hσ hr h he hfree hmoved
  refine ⟨hdata, hline, fun t ht => ?_, fun j => ?_, hfiled⟩
  · have hne : t ≠ σ.owners i := by
      rintro rfl
      rw [ht i (howners i hi)] at hself
      cases hself
    refine hbeside.idle t hne fun j hj => ?_
    by_contra hbusy
    obtain ⟨e', he'⟩ := List.exists_mem_of_ne_nil _ hbusy
    have hlt := lt_of_load hr (load_of_unended (List.mem_append_left (σ.queues j).waiting he'))
    have hji : j ≠ i := fun heq => hne (heq ▸ hj.symm)
    rw [← hcurrent j hji, ht j ((howners j hlt).trans hj)] at he'
    cases he'
  · rcases eq_or_ne j i with rfl | hne
    · refine ⟨hshown, fun e' he' c hc hpure => ?_, fun e' he' job hjob => ?_⟩
      · obtain rfl : e' = e := by rwa [hself, List.mem_singleton] at he'
        rw [howners j hi, hmoved.self] at hpure
        obtain ⟨s, hs, hconn, -⟩ := (h.filed j e' he).done c hc
        rw [howners _ (done_lt hσ.sound hr he hc), hconn]
        exact hmoved.released hpure s hs
      · obtain rfl : e' = e := by rwa [hself, List.mem_singleton] at he'
        rw [howners j hi] at hjob
        exact hmoved.own job hjob
    · exact (hbeside.busy j hne).congr hσ.sound hr rfl rfl howners (hcurrent j hne)
        fun x hx hxj => .inl (hitem x hx j hne hxj)

end

/-! ## What waits for an owner -/

theorem flatMap_only {α : Type} {f : Nat → List α} {l : List Nat} (hl : l.Nodup) (hi : i ∈ l)
    (h : ∀ j ∈ l, j ≠ i → f j = []) : l.flatMap f = f i := by
  induction l with
  | nil => cases hi
  | cons k l ih =>
    obtain ⟨hk, hl⟩ := List.nodup_cons.mp hl
    rw [List.flatMap_cons]
    rcases List.mem_cons.mp hi with rfl | hi
    · have hrest : l.flatMap f = [] :=
        List.flatMap_eq_nil_iff.mpr fun j hj => h j (List.mem_cons_of_mem i hj) fun heq => hk (heq ▸ hj)
      rw [hrest, List.append_nil]
    · rw [h k List.mem_cons_self fun heq => hk (heq ▸ hi), List.nil_append]
      exact ih hl hi fun j hj => h j (List.mem_cons_of_mem k hj)

/-- Where one queue of an owner holds all that waits for it. -/
theorem before_only (hi : i < σ.nextQueue)
    (h : ∀ j < σ.nextQueue, j ≠ i → σ.owners j = σ.owners i → (σ.queues j).waiting = []) :
    σ.before (σ.owners i) = (σ.queues i).waiting := by
  refine flatMap_only (List.nodup_range.filter _) ?_ fun j hj hne => ?_
  · rw [List.mem_filter, List.mem_range, decide_eq_true_eq]
    exact ⟨hi, rfl⟩
  · rw [List.mem_filter, List.mem_range, decide_eq_true_eq] at hj
    exact h j hj.1 hne hj.2

theorem before_busy (h : σ.Registry) (hload : (σ.queues i).load ≠ []) :
    σ.before (σ.owners i) = (σ.queues i).waiting := by
  refine before_only (lt_of_load h hload) fun j _ hne howner => ?_
  by_contra hwaiting
  exact hne (h.unique howner (fun hj => hwaiting (List.append_eq_nil_iff.mp hj).2) hload)

theorem before_congr (hnext : σ'.nextQueue = σ.nextQueue) (howners : σ'.owners = σ.owners) {t : Thread}
    (hwaiting : ∀ j, σ.owners j = t → (σ'.queues j).waiting = (σ.queues j).waiting) : σ'.before t = σ.before t := by
  unfold before
  rw [hnext, howners]
  refine List.flatMap_congr fun j hj => hwaiting j ?_
  rw [List.mem_filter, decide_eq_true_eq] at hj
  exact hj.2

theorem before_create (owner t : Thread) : (σ.create owner).before t = σ.before t := by
  have hsame : ∀ j ∈ List.range σ.nextQueue,
      decide ((σ.create owner).owners j = t) = decide (σ.owners j = t) ∧
        ((σ.create owner).queues j).waiting = (σ.queues j).waiting := by
    intro j hj
    have hne : j ≠ σ.nextQueue := (List.mem_range.mp hj).ne
    simp only [create, Function.update_of_ne hne, and_self]
  unfold before
  rw [show (σ.create owner).nextQueue = σ.nextQueue + 1 from rfl, List.range_succ, List.filter_append, List.flatMap_append,
    List.filter_congr fun j hj => (hsame j hj).1]
  have hnew : ((σ.create owner).queues σ.nextQueue).waiting = [] := by
    simp only [create, Function.update_self]
    rfl
  have hlast : ([σ.nextQueue].filter fun j => decide ((σ.create owner).owners j = t)).flatMap
      (fun j => ((σ.create owner).queues j).waiting) = [] := by
    refine List.flatMap_eq_nil_iff.mpr fun j hj => ?_
    rw [List.mem_singleton.mp (List.mem_filter.mp hj).1, hnew]
  rw [hlast, List.append_nil]
  exact List.flatMap_congr fun j hj => (hsame j (List.mem_filter.mp hj).1).2

/-! ## A command is accepted -/

section

variable [PoolSizes]

/-- What an accepted `Submit` adds. -/
structure Accepts (σ σ' : LogicSystem) (e : Entry) : Prop extends Submitted σ σ' e where
  server : σ'.server = σ.server
  owners : ∀ j < σ.nextQueue, σ'.owners j = σ.owners j
  current : ∀ j, (σ'.queues j).current = (σ.queues j).current
  before : ∀ t, σ'.before t = σ.before t ++ if t = e.job.thread then [e] else []
  unended : ∀ j, ∀ e' ∈ (σ'.queues j).unended, e' = e ∨ e' ∈ (σ.queues j).unended

omit [PoolSizes] in
theorem before_submit {τ : LogicSystem} (hi : i < τ.nextQueue) (hr' : σ'.Registry) {job : Job} {done : Option Completion}
    {bytes : Nat} (h : τ.submit i job done bytes = some σ') (hthread : job.thread = τ.owners i) (t : Thread) :
    σ'.before t = τ.before t ++ if t = job.thread then [⟨job, done, job.terminal, bytes⟩] else [] := by
  obtain ⟨-, scheduler, -, rfl⟩ := submit_some h
  let e : Entry := ⟨job, done, job.terminal, bytes⟩
  let τ' := τ.setQueue i ((τ.queues i).push e)
  show τ'.before t = _
  have hself : τ'.queues i = (τ.queues i).push e := Function.update_self i _ τ.queues
  have hother (j : Nat) (hj : j ≠ i) : τ'.queues j = τ.queues j := Function.update_of_ne hj _ τ.queues
  split
  · next ht =>
    have hload : (τ'.queues i).load ≠ [] := by
      rw [hself, load_push]
      simp
    have hothers (j : Nat) (hj : j ≠ i) (howner : τ.owners j = τ.owners i) : (τ.queues j).waiting = [] := by
      by_contra hwaiting
      rw [← hother j hj] at hwaiting
      exact hj (hr'.unique howner (fun hnone => hwaiting (List.append_eq_nil_iff.mp hnone).2) hload)
    rw [ht, hthread, before_only hi fun j _ hj howner => hothers j hj howner, ← Lane.waiting_push, ← hself]
    refine before_only (σ := τ') hi fun j _ hj howner => ?_
    rw [hother j hj]
    exact hothers j hj howner
  · next ht =>
    rw [List.append_nil]
    have hsame (j : Nat) (hj : τ.owners j = t) : (τ'.queues j).waiting = (τ.queues j).waiting := by
      rw [hother j fun heq => ht (hj.symm.trans ((congrArg τ.owners heq).trans hthread.symm))]
    have hnext : τ'.nextQueue = τ.nextQueue := rfl
    have howners : τ'.owners = τ.owners := rfl
    exact before_congr hnext howners hsame

theorem accepts_submit (hi : i < σ.nextQueue) (hr' : σ'.Registry) {job : Job} {done : Option Completion}
    {bytes : Nat} (h : σ.submit i job done bytes = some σ') (hthread : job.thread = σ.owners i) :
    Accepts σ σ' ⟨job, done, job.terminal, bytes⟩ := by
  have hspec := submit_spec hi h
  have hbefore := before_submit hi hr' h hthread
  obtain ⟨-, scheduler, -, rfl⟩ := submit_some h
  have hpush := fun e => Lane.waiting_push (σ.queues i) e
  refine ⟨hspec, rfl, fun _ _ => rfl, fun j => ?_, hbefore, fun j e' he' => ?_⟩
  · dsimp only
    rw [queues_setQueue]
    split
    · next heq => rw [heq]; rfl
    · rfl
  · dsimp only at he'
    rw [queues_setQueue] at he'
    split at he'
    · next heq =>
      subst heq
      have hopen : ((σ.queues j).push ⟨job, done, job.terminal, bytes⟩).unended =
          (σ.queues j).unended ++ [⟨job, done, job.terminal, bytes⟩] := by
        rw [SerialCommandQueue.unended, hpush, ← List.append_assoc]
        rfl
      rw [hopen, List.mem_append, List.mem_singleton] at he'
      exact he'.symm
    · exact .inr he'

/-- A queue that has just been created accepts. -/
theorem accepts_created (hr : σ.Registry) (hr' : σ'.Registry) {owner : Thread} {rooms : MeetingId → Option Nat}
    {connections : SessionId → Option Nat} {job : Job} {done : Option Completion} {bytes : Nat}
    (h : ({ σ.create owner with rooms, connections } : LogicSystem).submit σ.nextQueue job done bytes = some σ')
    (hthread : job.thread = owner) : Accepts σ σ' ⟨job, done, job.terminal, bytes⟩ := by
  let τ : LogicSystem := { σ.create owner with rooms, connections }
  have hnew : τ.owners σ.nextQueue = owner := Function.update_self _ _ _
  have haccepts : Accepts τ σ' _ := accepts_submit (Nat.lt_succ_self _) hr' h (hthread.trans hnew.symm)
  have hold (j : Nat) (hj : j ≠ σ.nextQueue) : τ.queues j = σ.queues j := Function.update_of_ne hj _ _
  have hempty : τ.queues σ.nextQueue = {} := Function.update_self _ _ _
  have hunused : (σ.queues σ.nextQueue).current = [] := by
    refine List.eq_nil_iff_forall_not_mem.mpr fun e he => ?_
    exact lt_irrefl _ (lt_of_load hr (load_of_unended (List.mem_append_left _ he)))
  refine ⟨submit_created h, haccepts.server, fun j hj => ?_, fun j => ?_, fun t => ?_, fun j e' he' => ?_⟩
  · rw [haccepts.owners j (Nat.lt_succ_of_lt hj)]
    exact Function.update_of_ne hj.ne _ _
  · rw [haccepts.current j]
    by_cases hj : j = σ.nextQueue
    · rw [hj, hempty, hunused]
      rfl
    · rw [hold j hj]
  · rw [haccepts.before t]
    exact congrArg (· ++ _) (before_create owner t)
  · refine (haccepts.unended j e' he').imp_right fun hmem => ?_
    by_cases hj : j = σ.nextQueue
    · rw [hj, hempty] at hmem
      cases hmem
    · rwa [hold j hj] at hmem

theorem accepts_submitRoom (hr : σ.Registry) {m : MeetingId} {task : Task} {done : Option Completion} {bytes : Nat}
    (h : σ.submitRoom m task done bytes = some σ') :
    Accepts σ σ' ⟨.room m task, done, (Job.room m task).terminal, bytes⟩ := by
  have hr' := hr.submitRoom h
  unfold submitRoom at h
  split at h
  · next i hi =>
    obtain ⟨hlt, howner⟩ := hr.named.rooms m i hi
    exact accepts_submit hlt hr' h howner.symm
  · exact accepts_created hr hr' h rfl

end

end LogicSystem

end SyncRtc
