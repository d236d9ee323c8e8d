import SyncRtc.Laws.Commands
import SyncRtc.Laws.Strands

/-!
# One queue for each owner

`m_rooms` and `m_connections` name the queue that accepts an owner's commands. A queue leaves them when nothing is
pending in it, and is gone when its last handler has run; meanwhile a new one may have been created for the same owner.
What keeps the two from working at the same time is the count each queue keeps of its commands.

Every step of the business layer is a few changes to queues and to the registry (`edits_of_step`); an invariant of the
queues is proved over these.
-/

set_option autoImplicit false

namespace SyncRtc

open SerialCommandQueue

/-! ## What a queue has accepted and not settled -/

namespace SerialCommandQueue

/-- What the queue's counters still count of an operation. -/
def Operation.loads (op : Operation) : List Entry :=
  match op.stage with
  | .leaving => []
  | _ => [op.entry]

/-- The commands that the queue's counters count, in the order they came. -/
def load (queue : SerialCommandQueue) : List Entry := queue.active.elim [] Operation.loads ++ queue.waiting

/-- What a handler weighs for the scheduler, where a command of so many bytes weighs `w`. -/
def Posted.held (w : Nat → Nat) : Posted → Nat
  | .command e => w e.bytes
  | .resume _ => 0
  | .closing bytes => w bytes

/-- What the scheduler still counts of the queue: its commands, or their bytes. -/
def held (queue : SerialCommandQueue) (w : Nat → Nat) : Nat :=
  (queue.strand.map (Posted.held w)).sum + (queue.commands.map fun e => w e.bytes).sum +
    queue.active.elim 0 (fun op => w op.entry.bytes) + queue.releasing.elim 0 w

/-- The queue's counters count its commands, and the limits of admission hold. -/
structure Tallied (queue : SerialCommandQueue) (capacity : Nat) : Prop where
  pending : queue.pending = queue.load.length
  bytes : queue.bytes = (queue.load.map Entry.bytes).sum
  fits : queue.bytes ≤ 4 * 1024 * 1024
  ordinary : (queue.load.filter fun e => !e.terminal).length ≤ capacity

/-- The operation that leaves the queue, or the handler it leaves behind, has yet to ask whether it can be dropped. -/
def Retiring (queue : SerialCommandQueue) : Prop :=
  (∃ op, queue.active = some op ∧ op.stage = .leaving) ∨ ∃ bytes, .closing bytes ∈ queue.strand

variable {queue : SerialCommandQueue} {capacity : Nat} {op op' : Operation} {e : Entry}

theorem loads_live (h : op.stage ≠ .leaving) : op.loads = [op.entry] := by
  unfold Operation.loads
  split
  · next hstage => exact absurd hstage h
  · rfl

theorem load_active (hop : queue.active = some op) : queue.load = op.loads ++ queue.waiting := by
  rw [load, hop]
  rfl

/-- An operation that has not been settled comes before what waits. -/
theorem load_live (hop : queue.active = some op) (hlive : op.stage ≠ .leaving) :
    queue.load = op.entry :: queue.waiting := by
  rw [load_active hop, loads_live hlive]
  rfl

theorem load_idle (h : queue.active = none) : queue.load = queue.waiting := by
  rw [load, h]
  rfl

theorem waiting_post (x : Posted) : (queue.post x).waiting = queue.waiting ++ x.accepted?.toList := by
  cases x <;> simp [waiting, post]

theorem load_post (x : Posted) : (queue.post x).load = queue.load ++ x.accepted?.toList := by
  rw [load, load, waiting_post, List.append_assoc]
  rfl

theorem load_push (e : Entry) : (queue.push e).load = queue.load ++ [e] := load_post (.command e)

theorem held_post (x : Posted) (w : Nat → Nat) : (queue.post x).held w = queue.held w + x.held w := by
  simp only [held, post, List.map_append, List.sum_append, List.map_cons, List.map_nil, List.sum_cons, List.sum_nil]
  omega

theorem held_push (e : Entry) (w : Nat → Nat) : (queue.push e).held w = queue.held w + w e.bytes :=
  held_post (.command e) w

/-- `Pump` starts the first command that waits. -/
theorem pump_load (queue : SerialCommandQueue) :
    queue.pump.load = queue.load ∧ (∀ w, queue.pump.held w = queue.held w) ∧ queue.pump.pending = queue.pending ∧
      queue.pump.bytes = queue.bytes ∧ queue.pump.strand = queue.strand := by
  unfold pump
  split
  · next e rest hactive hcommands =>
    refine ⟨?_, fun w => ?_, rfl, rfl, rfl⟩
    · simp only [load, waiting, hactive, hcommands, Option.elim_none, Option.elim_some, List.nil_append]
      rfl
    · simp only [held, hactive, hcommands, Option.elim_none, Option.elim_some, List.map_cons, List.sum_cons,
        Operation.start]
      omega
  · exact ⟨rfl, fun _ => rfl, rfl, rfl, rfl⟩

theorem Tallied.of_load {queue' : SerialCommandQueue} (h : queue.Tallied capacity) (hload : queue'.load = queue.load)
    (hpending : queue'.pending = queue.pending) (hbytes : queue'.bytes = queue.bytes) : queue'.Tallied capacity where
  pending := by rw [hpending, hload, h.pending]
  bytes := by rw [hbytes, hload, h.bytes]
  fits := by rw [hbytes]; exact h.fits
  ordinary := by rw [hload]; exact h.ordinary

/-- An operation that goes on, or ends without having been settled. -/
theorem Tallied.setActive (h : queue.Tallied capacity) (hop : queue.active = some op) (hlive : op.stage ≠ .leaving)
    (hlive' : op'.stage ≠ .leaving) (hbytes : op'.entry.bytes = op.entry.bytes)
    (hterminal : op'.entry.terminal = op.entry.terminal) : (queue.setActive op').Tallied capacity := by
  have hbefore : queue.load = op.entry :: queue.waiting := load_live hop hlive
  have hafter : (queue.setActive op').load = op'.entry :: queue.waiting := load_live rfl hlive'
  obtain ⟨hpending, hsum, hfits, hordinary⟩ := h
  rw [hbefore] at hpending hsum hordinary
  refine ⟨?_, ?_, hfits, ?_⟩
  · rw [hafter]
    exact hpending
  · rw [hafter, List.map_cons, List.sum_cons, hbytes]
    exact hsum
  · rw [hafter, List.filter_cons, hterminal]
    rw [List.filter_cons] at hordinary
    split
    · next hterm =>
      rw [if_pos hterm] at hordinary
      exact hordinary
    · next hterm =>
      rw [if_neg hterm] at hordinary
      exact hordinary

/-- A command that the checks of `Submit` admit. -/
theorem Tallied.push (h : queue.Tallied capacity) (hadmits : queue.admits capacity e.terminal e.bytes = true) :
    (queue.push e).Tallied capacity := by
  obtain ⟨hpending, hsum, hfits, hordinary⟩ := h
  simp only [admits, Bool.not_eq_true', Bool.or_eq_false_iff, Bool.and_eq_false_iff, Bool.not_eq_false',
    decide_eq_false_iff_not] at hadmits
  obtain ⟨hcapacity, hroom⟩ := hadmits
  refine ⟨?_, ?_, ?_, ?_⟩
  · rw [load_push, List.length_append, ← hpending]
    rfl
  · rw [load_push, List.map_append, List.sum_append, ← hsum, List.map_singleton, List.sum_singleton]
    rfl
  · have hnew : (queue.push e).bytes = queue.bytes + e.bytes := rfl
    omega
  · rw [load_push, List.filter_append, List.length_append]
    have hle := List.length_filter_le (fun e => !e.terminal) queue.load
    rcases hcapacity with hterm | hcapacity
    · rw [List.filter_cons_of_neg (by simp [hterm])]
      exact hordinary
    · have hone := List.length_filter_le (fun e : Entry => !e.terminal) [e]
      rw [List.length_singleton] at hone
      omega

/-- The end of an operation. -/
theorem Tallied.settle (h : queue.Tallied capacity) (hop : queue.active = some op) (hlive : op.stage ≠ .leaving) :
    (queue.settle op).Tallied capacity := by
  have hbefore : queue.load = op.entry :: queue.waiting := load_live hop hlive
  have hafter : (queue.settle op).load = queue.waiting := rfl
  obtain ⟨hpending, hsum, hfits, hordinary⟩ := h
  rw [hbefore] at hpending hsum hordinary
  rw [List.length_cons] at hpending
  rw [List.map_cons, List.sum_cons] at hsum
  have hpending' : (queue.settle op).pending = queue.pending - 1 := rfl
  have hbytes' : (queue.settle op).bytes = queue.bytes - op.entry.bytes := rfl
  refine ⟨?_, ?_, by omega, ?_⟩
  · rw [hafter]
    omega
  · rw [hafter]
    omega
  · rw [hafter]
    refine le_trans ?_ hordinary
    exact (List.sublist_cons_self op.entry queue.waiting).filter _ |>.length_le

/-- The operation leaves the queue, and a handler behind. -/
theorem load_leave (hop : queue.active = some op) (hstage : op.stage = .leaving) : (queue.leave op).load = queue.load := by
  have hnone : op.loads = [] := by
    unfold Operation.loads
    rw [hstage]
  have hidle : (queue.leave op).load = (queue.leave op).waiting := load_idle rfl
  have hwaiting : (queue.post (.closing op.entry.bytes)).waiting = queue.waiting ++ [] := waiting_post _
  rw [load_active hop, hnone, hidle]
  exact hwaiting.trans (List.append_nil _)

theorem held_leave (hop : queue.active = some op) (w : Nat → Nat) : (queue.leave op).held w = queue.held w := by
  simp only [held, leave, post, hop, List.map_append, List.sum_append, List.map_cons, List.map_nil, List.sum_cons,
    List.sum_nil, Option.elim_some, Option.elim_none, Posted.held]
  omega

end SerialCommandQueue

namespace LogicSystem

/-! ## What a step does to the queues -/

/-- The queues, the registry and the counter of all commands are the same. -/
structure SameQueues (σ σ' : LogicSystem) : Prop where
  queues : σ'.queues = σ.queues
  owners : σ'.owners = σ.owners
  nextQueue : σ'.nextQueue = σ.nextQueue
  rooms : σ'.rooms = σ.rooms
  connections : σ'.connections = σ.connections
  scheduler : σ'.scheduler = σ.scheduler

/-- One change. -/
inductive Edit : LogicSystem → LogicSystem → Prop where
  | elsewhere {σ σ' : LogicSystem} (h : SameQueues σ σ') : Edit σ σ'
  /-- The operation of a queue goes on, or comes to its end. -/
  | setOp {σ : LogicSystem} (i : Nat) (op op' : Operation) (hi : i < σ.nextQueue) (hop : (σ.queues i).active = some op)
      (hlive : op.stage ≠ .leaving) (hlive' : op'.stage ≠ .leaving) (hbytes : op'.entry.bytes = op.entry.bytes)
      (hterminal : op'.entry.terminal = op.entry.terminal) : Edit σ (σ.setOp i op')
  | complete {σ : LogicSystem} (c : Completion) : Edit σ (σ.complete c)
  /-- One of the two queues that are always there accepts a command. -/
  | submit {σ σ' : LogicSystem} (i : Nat) (hi : i < 2) (job : Job) (bytes : Nat) (h : σ.submit i job none bytes = some σ') : Edit σ σ'
  | submitRoom {σ σ' : LogicSystem} (m : MeetingId) (task : Task) (done : Option Completion) (bytes : Nat)
      (h : σ.submitRoom m task done bytes = some σ') : Edit σ σ'
  | submitConnection {σ : LogicSystem} (s : SessionId) (command : Command) (bytes : Nat) : Edit σ (σ.submitConnection s command bytes)
  | settle {σ : LogicSystem} (i : Nat) (op : Operation) (hi : i < σ.nextQueue) (hop : (σ.queues i).active = some op)
      (hstage : op.stage = .finishing) : Edit σ (σ.settle i op)
  | leave {σ : LogicSystem} (i : Nat) (op : Operation) (hi : i < σ.nextQueue) (hop : (σ.queues i).active = some op)
      (hstage : op.stage = .leaving) : Edit σ (σ.leave i op)
  | handler {σ σ' : LogicSystem} (i : Nat) (vacant : Bool) (hi : i < σ.nextQueue) (h : σ.runHandler i vacant = some σ') : Edit σ σ'
  | release {σ σ' : LogicSystem} (i : Nat) (hi : i < σ.nextQueue) (h : σ.release i = some σ') : Edit σ σ'

abbrev Edits : LogicSystem → LogicSystem → Prop := Relation.ReflTransGen Edit

variable {σ σ' : LogicSystem} {i : Nat}

theorem SameQueues.refl (σ : LogicSystem) : SameQueues σ σ := ⟨rfl, rfl, rfl, rfl, rfl, rfl⟩

theorem sameQueues_setPool (p : PoolName) (pool : SlowPool) : SameQueues σ (σ.setPool p pool) :=
  ⟨rfl, rfl, rfl, rfl, rfl, rfl⟩

theorem sameQueues_server (server : Server) : SameQueues σ { σ with server } := ⟨rfl, rfl, rfl, rfl, rfl, rfl⟩

section Coroutine

variable {op op' : Operation} {p : PoolName} {c : Call} {k : c.Res → Op Unit} {body : Op Unit}

/-- A running operation goes on, with the same entry but for its `done`. -/
theorem edit_op (hi : i < σ.nextQueue) (hop : (σ.queues i).active = some op) (hstage : op.stage ≠ .leaving)
    (op' : Operation) (hstage' : op'.stage ≠ .leaving) (hentry : op'.entry = op.entry) : Edit σ (σ.setOp i op') :=
  .setOp i op op' hi hop hstage hstage' (by rw [hentry]) (by rw [hentry])

theorem edits_setPool (hi : i < σ.nextQueue) (hop : (σ.queues i).active = some op) (hstage : op.stage ≠ .leaving)
    (p : PoolName) (pool : SlowPool) (op' : Operation) (hstage' : op'.stage ≠ .leaving) (hentry : op'.entry = op.entry) :
    Edits σ ((σ.setPool p pool).setOp i op') := by
  have hpool : Edit σ (σ.setPool p pool) := .elsewhere (sameQueues_setPool p pool)
  exact .tail (.single hpool) (edit_op (σ := σ.setPool p pool) hi hop hstage op' hstage' hentry)

theorem edits_server (hi : i < σ.nextQueue) (hop : (σ.queues i).active = some op) (hstage : op.stage ≠ .leaving)
    (op' : Operation) (hstage' : op'.stage ≠ .leaving) (hentry : op'.entry = op.entry) (server : Server) :
    Edits σ { σ.setOp i op' with server } :=
  .tail (.single (edit_op hi hop hstage op' hstage' hentry)) (.elsewhere (sameQueues_server server))

theorem edits_refuse (hi : i < σ.nextQueue) (hop : (σ.queues i).active = some op) (hstage : op.stage ≠ .leaving)
    (handed : Bool) (completion : Completion) : Edits σ ((σ.setOp i (op.suspend handed)).complete completion) := by
  have hset : Edit σ (σ.setOp i (op.suspend handed)) := edit_op hi hop hstage _ nofun rfl
  exact .tail (.single hset) (.complete completion)

theorem edits_finish (hi : i < σ.nextQueue) (hop : (σ.queues i).active = some op) (hstage : op.stage ≠ .leaving) :
    Edits σ (σ.finish i op) := by
  have hended : Edits σ ((σ.record op.entry.job).setOp i op.ended) := by
    have hrecord : Edit σ (σ.record op.entry.job) := .elsewhere ⟨rfl, rfl, rfl, rfl, rfl, rfl⟩
    exact .tail (.single hrecord) (.setOp i op op.ended hi hop hstage nofun rfl rfl)
  unfold finish
  split
  · exact edits_setPool hi hop hstage _ _ _ hstage rfl
  · split
    · next completion _ => exact .tail hended (.complete completion)
    · exact hended

variable [PoolSizes]

theorem edits_reserve (hi : i < σ.nextQueue) (hop : (σ.queues i).active = some op) (hstage : op.stage ≠ .leaving) :
    Edits σ (σ.reserve i op p c k) := by
  unfold reserve
  split
  · exact edits_setPool hi hop hstage p _ _ hstage rfl
  · split
    · exact .single (edit_op hi hop hstage _ nofun rfl)
    · exact .single (edit_op hi hop hstage _ nofun rfl)

theorem edits_enter (hi : i < σ.nextQueue) (hop : (σ.queues i).active = some op) (hstage : op.stage ≠ .leaving)
    (chosen : Nat) : Edits σ (σ.enter i op p chosen c k) := by
  unfold enter
  split
  · exact .single (edit_op hi hop hstage _ nofun rfl)
  · unfold await
    split
    · exact edits_setPool hi hop hstage p _ _ nofun rfl
    · exact edits_refuse hi hop hstage false _

theorem edits_callSubmitRoom (ha : σ.Addressed) (hi : i < σ.nextQueue) (hop : (σ.queues i).active = some op)
    (hstage : op.stage ≠ .leaving) (m : MeetingId) (task : Task) (k : Bool → Op Unit) :
    Edits σ (σ.callSubmitRoom i op m task k) := by
  have haccepted {σ' : LogicSystem} {done : Option Completion} {bytes : Nat} {op' : Operation}
      (hsubmit : σ.submitRoom m task done bytes = some σ') (hstage' : op'.stage ≠ .leaving)
      (hentry : op'.entry = op.entry) : Edits σ (σ'.setOp i op') := by
    have hspec := submitRoom_spec (ha.rooms m) hsubmit
    refine .tail (.single (.submitRoom m task done bytes hsubmit)) ?_
    exact edit_op (hi.trans_le hspec.nextQueue) ((hspec.active i hi).trans hop) hstage op' hstage' hentry
  unfold callSubmitRoom
  split
  · split
    · exact edits_setPool hi hop hstage _ _ _ hstage rfl
    · unfold handOver
      split
      · next σ' hsubmit => exact haccepted hsubmit nofun rfl
      · exact edits_refuse hi hop hstage true _
  · split
    · next σ' hsubmit => exact haccepted hsubmit nofun rfl
    · exact .single (edit_op hi hop hstage _ nofun rfl)

theorem edits_run (ha : σ.Addressed) (hi : i < σ.nextQueue) (hop : (σ.queues i).active = some op)
    (hstage : op.stage ≠ .leaving) (o : Oracle) (chosen : Nat) (body : Op Unit) : Edits σ (σ.run i op o chosen body) := by
  unfold run
  split
  · exact edits_finish hi hop hstage
  · split
    · split
      · exact edits_enter hi hop hstage chosen
      · exact edits_reserve hi hop hstage
    · unfold proceed
      split
      · exact edits_callSubmitRoom ha hi hop hstage _ _ _
      · exact edits_server hi hop hstage (op.run _) nofun rfl _

theorem edits_stepOp (ha : σ.Addressed) (hi : i < σ.nextQueue) {o : Oracle} {chosen : Nat}
    (h : σ.stepOp i o chosen = some σ') : Edits σ σ' := by
  unfold stepOp at h
  split at h
  · cases h
  next op hop =>
  split at h
  · next body hstage =>
    cases h
    exact edits_run ha hi hop (by rw [hstage]; exact nofun) o chosen body
  · next p body hstage =>
    split at h
    · unfold retry at h
      split at h
      · cases h
        exact edits_setPool hi hop (by rw [hstage]; exact nofun) p _ _ nofun rfl
      · cases h
    · cases h
  · cases h
  · next hstage =>
    cases h
    exact .single (.settle i op hi hop hstage)
  · next hstage =>
    cases h
    exact .single (.leave i op hi hop hstage)

end Coroutine

section

theorem edits_runThread {p : PoolName} {n : Nat} {o : Oracle} (h : σ.runThread p n o = some σ') : Edits σ σ' := by
  unfold runThread at h
  dsimp only at h
  split at h
  · cases h
    exact .single (.elsewhere (sameQueues_setPool p _))
  · cases h
  · cases h
    exact .tail (.single (.elsewhere (sameQueues_setPool p _))) (.elsewhere (sameQueues_server _))
  · cases h
    exact .single (.elsewhere (sameQueues_setPool p _))
  · next c _ =>
    cases h
    exact .tail (.single (.elsewhere (sameQueues_setPool p _))) (.complete c)
  · cases h

variable [PoolSizes]

theorem edits_join (h : σ.join = some σ') : Edits σ σ' := by
  refine .single (.elsewhere ?_)
  unfold join at h
  split at h
  · split at h <;> cases h <;> exact ⟨rfl, rfl, rfl, rfl, rfl, rfl⟩
  · split at h <;> cases h
    exact ⟨rfl, rfl, rfl, rfl, rfl, rfl⟩
  · split at h <;> cases h
    exact ⟨rfl, rfl, rfl, rfl, rfl, rfl⟩
  · cases h

theorem edits_outer {e : Event} (he : e.isInner = false) (h : σ.step e = some σ') : Edits σ σ' := by
  have hpost (s : SessionId) (command : Command) (bytes : Nat) : Edits σ (σ.postMsgToQue s command bytes) := by
    unfold postMsgToQue
    split
    · exact .refl
    · exact .single (.submitConnection s command bytes)
  cases e with
  | frame s r bytes =>
    cases h
    exact hpost s _ bytes
  | disconnected s =>
    cases h
    exact hpost s _ 0
  | timer =>
    cases h
    unfold postReconnectTimeoutCheck
    split
    · exact .refl
    · cases hsubmit : σ.submit 1 .timer none 0 with
      | none => exact .refl
      | some σ' => exact .single (.submit 1 (by omega) .timer 0 hsubmit)
  | media event epoch message bytes =>
    cases h
    unfold postMediaEvent
    split
    · exact .refl
    · split
      · next σ' hsubmit => exact .single (.submit 0 (by omega) _ bytes hsubmit)
      · exact .single (.elsewhere (sameQueues_server _))
  | outside server =>
    cases h
    exact .single (.elsewhere (sameQueues_server server))
  | shutdown =>
    have hshutdown : σ.callShutdown = some σ' := h
    refine .single (.elsewhere ?_)
    unfold callShutdown at hshutdown
    split at hshutdown <;> cases hshutdown <;> exact ⟨rfl, rfl, rfl, rfl, rfl, rfl⟩
  | _ => cases he

/-- Every step is a few changes. -/
theorem edits_of_step (ha : σ.Addressed) {e : Event} (h : σ.step e = some σ') : Edits σ σ' := by
  cases he : e.isInner with
  | false => exact edits_outer he h
  | true =>
    cases e with
    | handler i vacant =>
      simp only [step] at h
      split at h
      · next hi => exact .single (.handler i vacant hi h)
      · cases h
    | step i o chosen =>
      simp only [step] at h
      split at h
      · next hi => exact edits_stepOp ha hi h
      · cases h
    | release i =>
      simp only [step] at h
      split at h
      · next hi => exact .single (.release i hi h)
      · cases h
    | thread p n o =>
      simp only [step] at h
      split at h
      · exact edits_runThread h
      · cases h
    | join => exact edits_join h
    | _ => cases he

end

/-! ## The registry -/

/-- The owner of the queue is served by it. -/
def Serving (σ : LogicSystem) (i : Nat) : Prop :=
  match σ.owners i with
  | .room m => σ.rooms m = some i
  | .conn s => σ.connections s = some i
  | .control => i = 0
  | .timer => i = 1

/-- A queue with a command is the one that serves its owner, and the counters of admission count. -/
structure Counted (σ : LogicSystem) : Prop where
  named : Registered σ.rooms σ.connections σ.owners σ.nextQueue
  tallied : ∀ i, (σ.queues i).Tallied (σ.owners i).capacity
  serving : ∀ i, (σ.queues i).pending ≠ 0 → σ.Serving i
  pending : σ.scheduler.pending = ∑ i ∈ Finset.range σ.nextQueue, (σ.queues i).held fun _ => 1
  bytes : σ.scheduler.bytes = ∑ i ∈ Finset.range σ.nextQueue, (σ.queues i).held id
  fits : σ.scheduler.bytes ≤ 64 * 1024 * 1024

/-- Besides, a connection's queue without a command is about to be dropped. -/
structure Registry (σ : LogicSystem) : Prop extends σ.Counted where
  retiring : ∀ s i, σ.connections s = some i → (σ.queues i).pending = 0 → (σ.queues i).Retiring

theorem serving_room (h : Registered σ.rooms σ.connections σ.owners σ.nextQueue) {m : MeetingId} (hi : σ.rooms m = some i) :
    σ.Serving i := by
  unfold Serving
  rw [(h.rooms m i hi).2]
  exact hi

theorem serving_connection (h : Registered σ.rooms σ.connections σ.owners σ.nextQueue) {s : SessionId}
    (hi : σ.connections s = some i) : σ.Serving i := by
  unfold Serving
  rw [(h.connections s i hi).2]
  exact hi

theorem serving_fixed (h : Registered σ.rooms σ.connections σ.owners σ.nextQueue) (hi : i < 2) : σ.Serving i := by
  unfold Serving
  rcases (show i = 0 ∨ i = 1 by omega) with rfl | rfl
  · rw [h.fixed.2.1]
  · rw [h.fixed.2.2]

theorem Serving.same {σ' : LogicSystem} (h : σ.Serving i) (howners : σ'.owners = σ.owners) (hrooms : σ'.rooms = σ.rooms)
    (hconnections : σ'.connections = σ.connections) : σ'.Serving i := by
  unfold Serving
  rwa [howners, hrooms, hconnections]

/-- The queues of two owners that are served are different, and two queues that serve one owner are the same. -/
theorem Serving.unique {j : Nat} (hi : σ.Serving i) (hj : σ.Serving j) (h : σ.owners i = σ.owners j) : i = j := by
  unfold Serving at hi hj
  rw [h] at hi
  cases hown : σ.owners j with
  | room m =>
    rw [hown] at hi hj
    exact Option.some.inj (hi.symm.trans hj)
  | conn s =>
    rw [hown] at hi hj
    exact Option.some.inj (hi.symm.trans hj)
  | control =>
    rw [hown] at hi hj
    exact hi.trans hj.symm
  | timer =>
    rw [hown] at hi hj
    exact hi.trans hj.symm

theorem tallied_new {capacity : Nat} : SerialCommandQueue.Tallied {} capacity :=
  ⟨rfl, rfl, Nat.zero_le _, Nat.zero_le _⟩

theorem Registry.of_sameQueues (h : σ.Registry) (hsame : SameQueues σ σ') : σ'.Registry := by
  obtain ⟨hqueues, howners, hnext, hrooms, hconnections, hscheduler⟩ := hsame
  refine ⟨⟨?_, ?_, ?_, ?_, ?_, ?_⟩, ?_⟩
  · rw [hrooms, hconnections, howners, hnext]
    exact h.named
  · rw [hqueues, howners]
    exact h.tallied
  · rw [hqueues]
    exact fun i hi => (h.serving i hi).same howners hrooms hconnections
  · rw [hqueues, hnext, hscheduler]
    exact h.pending
  · rw [hqueues, hnext, hscheduler]
    exact h.bytes
  · rw [hscheduler]
    exact h.fits
  · rw [hqueues, hconnections]
    exact h.retiring

theorem queues_setQueue (i j : Nat) (queue : SerialCommandQueue) :
    (σ.setQueue i queue).queues j = if j = i then queue else σ.queues j := by
  simp only [LogicSystem.setQueue, Function.update_apply]

/-- What is held, after a queue has changed. -/
theorem held_setQueue (hi : i < σ.nextQueue) (queue : SerialCommandQueue) (w : Nat → Nat) {n m : Nat}
    (hheld : queue.held w + n = (σ.queues i).held w + m) :
    ∑ j ∈ Finset.range σ.nextQueue, ((σ.setQueue i queue).queues j).held w + n =
      ∑ j ∈ Finset.range σ.nextQueue, (σ.queues j).held w + m := by
  obtain ⟨rest, hbefore, hafter⟩ := sum_exchange (f := σ.queues) (fun _ q => q.held w) (Finset.mem_range.mpr hi)
  have hset : ∑ j ∈ Finset.range σ.nextQueue, ((σ.setQueue i queue).queues j).held w = queue.held w + rest := hafter queue
  omega

theorem held_same {queue : SerialCommandQueue} (hheld : ∀ w, queue.held w = (σ.queues i).held w) (w : Nat → Nat) :
    ∑ j ∈ Finset.range σ.nextQueue, ((σ.setQueue i queue).queues j).held w =
      ∑ j ∈ Finset.range σ.nextQueue, (σ.queues j).held w := by
  refine Finset.sum_congr rfl fun j _ => ?_
  rw [queues_setQueue]
  split
  · next heq => rw [hheld, heq]
  · rfl

/-- A queue changes and holds as much as before. -/
theorem Registry.setQueue (h : σ.Registry) {queue : SerialCommandQueue} (htallied : queue.Tallied (σ.owners i).capacity)
    (hpending : queue.pending ≠ 0 → (σ.queues i).pending ≠ 0)
    (hretiring : ∀ s, σ.connections s = some i → ((σ.queues i).pending = 0 → (σ.queues i).Retiring) →
      queue.pending = 0 → queue.Retiring)
    (hheld : ∀ w, queue.held w = (σ.queues i).held w) : (σ.setQueue i queue).Registry := by
  refine ⟨⟨h.named, fun j => ?_, fun j hj => ?_, h.pending.trans (held_same hheld _).symm,
    h.bytes.trans (held_same hheld _).symm, h.fits⟩, fun s j hj hzero => ?_⟩
  · rw [queues_setQueue]
    split
    · next heq => exact heq ▸ htallied
    · exact h.tallied j
  · rw [queues_setQueue] at hj
    refine (h.serving j ?_).same rfl rfl rfl
    split at hj
    · next heq => exact heq ▸ hpending hj
    · exact hj
  · rw [queues_setQueue] at hzero ⊢
    split at hzero
    · next heq =>
      subst heq
      rw [if_pos rfl]
      exact hretiring s hj (h.retiring s j hj) hzero
    · next hne =>
      rw [if_neg hne]
      exact h.retiring s j hj hzero

/-- A live operation is counted. -/
theorem pending_of_live (h : σ.Counted) {op : Operation} (hop : (σ.queues i).active = some op)
    (hlive : op.stage ≠ .leaving) : (σ.queues i).pending ≠ 0 := by
  rw [(h.tallied i).pending, load_live hop hlive]
  exact Nat.succ_ne_zero _

theorem Registry.setOp (h : σ.Registry) {op op' : Operation} (hop : (σ.queues i).active = some op)
    (hlive : op.stage ≠ .leaving) (hlive' : op'.stage ≠ .leaving) (hbytes : op'.entry.bytes = op.entry.bytes)
    (hterminal : op'.entry.terminal = op.entry.terminal) : (σ.setOp i op').Registry := by
  have hpending := pending_of_live h.toCounted hop hlive
  refine h.setQueue ((h.tallied i).setActive hop hlive hlive' hbytes hterminal) id ?_ ?_
  · exact fun _ _ _ hzero => absurd hzero hpending
  · intro w
    simp only [held, SerialCommandQueue.setActive, hop, Option.elim_some, hbytes]

theorem Registry.complete (h : σ.Registry) (c : Completion) : (σ.complete c).Registry := by
  refine h.setQueue ((h.tallied _).of_load ?_ rfl rfl) id ?_ ?_
  · rw [load_post]
    exact List.append_nil _
  · rintro s - hold hzero
    rcases hold hzero with hleaving | ⟨bytes, hbytes⟩
    · exact .inl hleaving
    · exact .inr ⟨bytes, List.mem_append_left _ hbytes⟩
  · exact held_post (.resume c)

theorem Registry.settle (h : σ.Registry) {op : Operation} (hop : (σ.queues i).active = some op)
    (hstage : op.stage = .finishing) : (σ.settle i op).Registry := by
  have hlive : op.stage ≠ .leaving := by rw [hstage]; exact nofun
  have hpending := pending_of_live h.toCounted hop hlive
  refine h.setQueue ((h.tallied i).settle hop hlive) (fun _ => hpending) ?_ ?_
  · exact fun _ _ _ _ => .inl ⟨_, rfl, rfl⟩
  · intro w
    simp only [held, SerialCommandQueue.settle, hop, Option.elim_some]

theorem Registry.leave (h : σ.Registry) {op : Operation} (hop : (σ.queues i).active = some op)
    (hstage : op.stage = .leaving) : (σ.leave i op).Registry := by
  refine h.setQueue ((h.tallied i).of_load (load_leave hop hstage) rfl rfl) id ?_ (held_leave hop)
  exact fun _ _ _ _ => .inr ⟨op.entry.bytes, List.mem_append_right _ (List.mem_singleton_self _)⟩

/-! ## A command is accepted -/

theorem reserve_some {scheduler scheduler' : BusinessScheduler} {terminal : Bool} {bytes : Nat}
    (h : scheduler.reserve terminal bytes = some scheduler') :
    scheduler'.pending = scheduler.pending + 1 ∧ scheduler'.bytes = scheduler.bytes + bytes ∧
      bytes ≤ 64 * 1024 * 1024 - scheduler.bytes := by
  unfold BusinessScheduler.reserve at h
  split at h
  · cases h
  · next hroom =>
    cases h
    simp only [Bool.or_eq_true, decide_eq_true_eq, not_or, not_lt] at hroom
    exact ⟨rfl, rfl, hroom.2⟩

theorem submit_some {job : Job} {done : Option Completion} {bytes : Nat} (h : σ.submit i job done bytes = some σ') :
    (σ.queues i).admits (σ.owners i).capacity job.terminal bytes = true ∧ ∃ scheduler,
      σ.scheduler.reserve job.terminal bytes = some scheduler ∧
        σ' = { σ.setQueue i ((σ.queues i).push ⟨job, done, job.terminal, bytes⟩) with
          scheduler
          accepted := σ.accepted ++ [job] } := by
  unfold LogicSystem.submit at h
  split at h
  · next hadmits =>
    split at h
    · cases h
    · next scheduler hscheduler =>
      cases h
      exact ⟨hadmits, scheduler, hscheduler, rfl⟩
  · cases h

theorem Counted.submit (h : σ.Counted) (hi : i < σ.nextQueue) (hserving : σ.Serving i) {job : Job}
    {done : Option Completion} {bytes : Nat} (hsubmit : σ.submit i job done bytes = some σ') : σ'.Counted := by
  obtain ⟨hadmits, scheduler, hscheduler, rfl⟩ := submit_some hsubmit
  let e : Entry := ⟨job, done, job.terminal, bytes⟩
  have hsum (w : Nat → Nat) := held_setQueue hi ((σ.queues i).push e) w (n := 0) (held_push e w)
  obtain ⟨hpending, hbytes, hroom⟩ := reserve_some hscheduler
  have hfits := h.fits
  refine ⟨h.named, fun j => ?_, fun j hj => ?_, ?_, ?_, ?_⟩
  · dsimp only
    rw [queues_setQueue]
    split
    · next heq => exact heq ▸ (h.tallied i).push hadmits
    · exact h.tallied j
  · dsimp only at hj
    rw [queues_setQueue] at hj
    split at hj
    · next heq => exact heq ▸ hserving
    · exact h.serving j hj
  · dsimp only
    rw [hpending, h.pending]
    exact (hsum _).symm
  · dsimp only
    rw [hbytes, h.bytes]
    exact (hsum _).symm
  · dsimp only
    omega

/-- A queue that has accepted something is not empty. -/
theorem Registry.of_submit {τ : LogicSystem} (h : τ.Counted) (hi : i < τ.nextQueue) (hserving : τ.Serving i)
    (hretiring : ∀ s j, τ.connections s = some j → j ≠ i → (τ.queues j).pending = 0 → (τ.queues j).Retiring) {job : Job}
    {done : Option Completion} {bytes : Nat} (hsubmit : τ.submit i job done bytes = some σ') : σ'.Registry := by
  refine ⟨h.submit hi hserving hsubmit, fun s j hj hzero => ?_⟩
  obtain ⟨-, scheduler, -, rfl⟩ := submit_some hsubmit
  dsimp only at hzero ⊢
  rw [queues_setQueue] at hzero ⊢
  split at hzero
  · cases hzero
  · next hne =>
    rw [if_neg hne]
    exact hretiring s j hj hne hzero

theorem Registry.submit (h : σ.Registry) (hi : i < σ.nextQueue) (hserving : σ.Serving i) {job : Job}
    {done : Option Completion} {bytes : Nat} (hsubmit : σ.submit i job done bytes = some σ') : σ'.Registry :=
  .of_submit h.toCounted hi hserving (fun s j hj _ => h.retiring s j hj) hsubmit

theorem queues_create (owner : Thread) {j : Nat} (hj : j ≠ σ.nextQueue) : (σ.create owner).queues j = σ.queues j :=
  Function.update_of_ne hj _ _

/-- A queue is created for an owner that none serves, and named in the registry. -/
theorem Counted.create (h : σ.Counted) {owner : Thread} (rooms : MeetingId → Option Nat)
    (connections : SessionId → Option Nat)
    (hrooms : ∀ m, rooms m = if owner = .room m then some σ.nextQueue else σ.rooms m)
    (hconnections : ∀ s, connections s = if owner = .conn s then some σ.nextQueue else σ.connections s)
    (howner : (∃ m, owner = .room m ∧ σ.rooms m = none) ∨ ∃ s, owner = .conn s ∧ σ.connections s = none) :
    ({ σ.create owner with rooms, connections } : LogicSystem).Counted ∧
      ({ σ.create owner with rooms, connections } : LogicSystem).Serving σ.nextQueue := by
  have hold {j : Nat} (hj : j ≠ σ.nextQueue) : Function.update σ.owners σ.nextQueue owner j = σ.owners j :=
    Function.update_of_ne hj _ _
  have hnew : Function.update σ.owners σ.nextQueue owner σ.nextQueue = owner := Function.update_self _ _ _
  have hqueue {j : Nat} (hj : j ≠ σ.nextQueue) : Function.update σ.queues σ.nextQueue {} j = σ.queues j :=
    Function.update_of_ne hj _ _
  have hnewQueue : Function.update σ.queues σ.nextQueue {} σ.nextQueue = {} := Function.update_self _ _ _
  have hserves : ({ σ.create owner with rooms, connections } : LogicSystem).Serving σ.nextQueue := by
    unfold Serving
    simp only [LogicSystem.create, hnew]
    rcases howner with ⟨m, rfl, -⟩ | ⟨s, rfl, -⟩
    · exact (hrooms m).trans (if_pos rfl)
    · exact (hconnections s).trans (if_pos rfl)
  have hsum (w : Nat → Nat) : ∑ j ∈ Finset.range σ.nextQueue, (σ.queues j).held w =
      ∑ j ∈ Finset.range (σ.nextQueue + 1), ((σ.create owner).queues j).held w := by
    rw [Finset.sum_range_succ, show (σ.create owner).queues σ.nextQueue = {} from hnewQueue]
    refine (Finset.sum_congr rfl fun j hj => ?_).trans (add_zero _).symm
    rw [queues_create owner (Finset.mem_range.mp hj).ne]
  refine ⟨⟨⟨fun m j hj => ?_, fun s j hj => ?_, ?_⟩, fun j => ?_, fun j hj => ?_, h.pending.trans (hsum _),
    h.bytes.trans (hsum _), h.fits⟩, hserves⟩
  · have hj' : rooms m = some j := hj
    rw [hrooms] at hj'
    split at hj'
    · next hm =>
      cases hj'
      exact ⟨Nat.lt_succ_self _, hnew.trans hm⟩
    · obtain ⟨hlt, hown⟩ := h.named.rooms m j hj'
      exact ⟨Nat.lt_succ_of_lt hlt, (hold hlt.ne).trans hown⟩
  · have hj' : connections s = some j := hj
    rw [hconnections] at hj'
    split at hj'
    · next hs =>
      cases hj'
      exact ⟨Nat.lt_succ_self _, hnew.trans hs⟩
    · obtain ⟨hlt, hown⟩ := h.named.connections s j hj'
      exact ⟨Nat.lt_succ_of_lt hlt, (hold hlt.ne).trans hown⟩
  · obtain ⟨hlt, hcontrol, htimer⟩ := h.named.fixed
    exact ⟨Nat.lt_succ_of_lt hlt, (hold (by omega)).trans hcontrol, (hold hlt.ne).trans htimer⟩
  · simp only [LogicSystem.create]
    rcases eq_or_ne j σ.nextQueue with rfl | hne
    · rw [hnewQueue]
      exact tallied_new
    · rw [hqueue hne, hold hne]
      exact h.tallied j
  · simp only [LogicSystem.create] at hj
    rcases eq_or_ne j σ.nextQueue with rfl | hne
    · exact hserves
    · rw [hqueue hne] at hj
      have hserving := h.serving j hj
      unfold Serving at hserving ⊢
      simp only [LogicSystem.create, hold hne]
      split at hserving
      · next m _ =>
        rw [hrooms, if_neg ?_]
        · exact hserving
        · rintro rfl
          rcases howner with ⟨m', hm, hnone⟩ | ⟨s, hs, -⟩
          · cases hm
            rw [hnone] at hserving
            cases hserving
          · cases hs
      · next s _ =>
        rw [hconnections, if_neg ?_]
        · exact hserving
        · rintro rfl
          rcases howner with ⟨m, hm, -⟩ | ⟨s', hs, hnone⟩
          · cases hm
          · cases hs
            rw [hnone] at hserving
            cases hserving
      · exact hserving
      · exact hserving

theorem Registry.submitRoom (h : σ.Registry) {m : MeetingId} {task : Task} {done : Option Completion} {bytes : Nat}
    (hsubmit : σ.submitRoom m task done bytes = some σ') : σ'.Registry := by
  unfold LogicSystem.submitRoom at hsubmit
  split at hsubmit
  · next i hi => exact h.submit (h.named.rooms m i hi).1 (serving_room h.named hi) hsubmit
  · next hnone =>
    have hrooms (n : MeetingId) : Function.update σ.rooms m (some σ.nextQueue) n =
        if Thread.room m = .room n then some σ.nextQueue else σ.rooms n := by
      rw [Function.update_apply]
      simp only [Thread.room.injEq, eq_comm]
    have hconnections (s : SessionId) : σ.connections s =
        if Thread.room m = .conn s then some σ.nextQueue else σ.connections s := (if_neg nofun).symm
    obtain ⟨hcounted, hserving⟩ := h.toCounted.create _ _ hrooms hconnections (.inl ⟨m, rfl, hnone⟩)
    refine .of_submit hcounted (Nat.lt_succ_self _) hserving (fun s j hj hne hzero => ?_) hsubmit
    have hqueue : (σ.create (.room m)).queues j = σ.queues j := queues_create _ hne
    exact hqueue ▸ h.retiring s j hj (hqueue ▸ hzero)

/-- A queue in which nothing is pending is dropped from the registry. -/
theorem Registry.dropConnection (h : σ.Registry) {s : SessionId} (hi : σ.connections s = some i)
    (hzero : (σ.queues i).pending = 0) :
    ({ σ with connections := Function.update σ.connections s none } : LogicSystem).Registry := by
  refine ⟨⟨h.named.dropConnection s, h.tallied, fun j hj => ?_, h.pending, h.bytes, h.fits⟩, fun t j hj => ?_⟩
  · have hserving := h.serving j hj
    unfold Serving at hserving ⊢
    dsimp only
    cases hown : σ.owners j with
    | conn t =>
      rw [hown] at hserving
      have hne : t ≠ s := by
        rintro rfl
        cases hserving.symm.trans hi
        exact hj hzero
      exact (Function.update_of_ne hne _ _).trans hserving
    | _ =>
      rw [hown] at hserving
      exact hserving
  · have hj' : Function.update σ.connections s none t = some j := hj
    rw [Function.update_apply] at hj'
    split at hj'
    · cases hj'
    · exact h.retiring t j hj'

theorem Registry.dropRoom (h : σ.Registry) {m : MeetingId} (hi : σ.rooms m = some i)
    (hzero : (σ.queues i).pending = 0) :
    ({ σ with rooms := Function.update σ.rooms m none } : LogicSystem).Registry := by
  refine ⟨⟨h.named.dropRoom m, h.tallied, fun j hj => ?_, h.pending, h.bytes, h.fits⟩, h.retiring⟩
  have hserving := h.serving j hj
  unfold Serving at hserving ⊢
  dsimp only
  cases hown : σ.owners j with
  | room n =>
    rw [hown] at hserving
    have hne : n ≠ m := by
      rintro rfl
      cases hserving.symm.trans hi
      exact hj hzero
    exact (Function.update_of_ne hne _ _).trans hserving
  | _ =>
    rw [hown] at hserving
    exact hserving

theorem Registry.submitConnection (h : σ.Registry) (s : SessionId) (command : Command) (bytes : Nat) :
    (σ.submitConnection s command bytes).Registry := by
  have hserver (server : Server) : ({ σ with server } : LogicSystem).Registry := h.of_sameQueues (sameQueues_server server)
  unfold LogicSystem.submitConnection
  dsimp only
  split
  · next i hi =>
    split
    · next σ' hsubmit => exact h.submit (h.named.connections s i hi).1 (serving_connection h.named hi) hsubmit
    · split
      · next hzero => exact (hserver _).dropConnection hi hzero
      · exact hserver _
  · next hnone =>
    split
    · next σ' hsubmit =>
      have hrooms (m : MeetingId) : σ.rooms m = if Thread.conn s = .room m then some σ.nextQueue else σ.rooms m :=
        (if_neg nofun).symm
      have hconnections (t : SessionId) : Function.update σ.connections s (some σ.nextQueue) t =
          if Thread.conn s = .conn t then some σ.nextQueue else σ.connections t := by
        rw [Function.update_apply]
        simp only [Thread.conn.injEq, eq_comm]
      obtain ⟨hcounted, hserving⟩ := h.toCounted.create _ _ hrooms hconnections (.inr ⟨s, rfl, hnone⟩)
      refine .of_submit hcounted (Nat.lt_succ_self _) hserving (fun t j hj hne hzero => ?_) hsubmit
      have hqueue : (σ.create (.conn s)).queues j = σ.queues j := queues_create _ hne
      have hj' : Function.update σ.connections s (some σ.nextQueue) t = some j := hj
      rw [Function.update_apply] at hj'
      split at hj'
      · exact absurd (Option.some.inj hj').symm hne
      · exact hqueue ▸ h.retiring t j hj' (hqueue ▸ hzero)
    · exact hserver _

/-! ## A strand -/

/-- A handler has run: what the queue has accepted is as it was. -/
theorem Registry.handler (h : σ.Registry) {queue : SerialCommandQueue} (hload : queue.load = (σ.queues i).load)
    (hpending : queue.pending = (σ.queues i).pending) (hbytes : queue.bytes = (σ.queues i).bytes)
    (hheld : ∀ w, queue.held w = (σ.queues i).held w)
    (hretiring : ∀ s, σ.connections s = some i → (σ.queues i).pending = 0 → (σ.queues i).Retiring → queue.Retiring) :
    (σ.setQueue i queue).Registry := by
  refine h.setQueue ((h.tallied i).of_load hload hpending hbytes) (fun hq => hpending ▸ hq) ?_ hheld
  intro s hs hold hzero
  rw [hpending] at hzero
  exact hretiring s hs hzero (hold hzero)

theorem isAway_live {op : Operation} (h : op.isAway = true) : op.stage ≠ .leaving := by
  intro hstage
  unfold Operation.isAway at h
  rw [hstage] at h
  cases h

theorem registry_command (h : σ.Registry) {e : Entry} {rest : List Posted} (hstrand : (σ.queues i).strand = .command e :: rest) :
    (σ.setQueue i { σ.queues i with strand := rest, commands := (σ.queues i).commands ++ [e] }.pump).Registry := by
  let queue : SerialCommandQueue := { σ.queues i with strand := rest, commands := (σ.queues i).commands ++ [e] }
  have hload : queue.load = (σ.queues i).load := by
    rw [load, (same_command hstrand).waiting]
    rfl
  have hheld (w : Nat → Nat) : queue.held w = (σ.queues i).held w := by
    simp only [held, hstrand, List.map_append, List.map_cons, List.map_nil, List.sum_append, List.sum_cons, List.sum_nil,
      Posted.held, queue]
    omega
  obtain ⟨hpump, hpumpHeld, hpending, hbytes, -⟩ := pump_load queue
  refine h.handler (hpump.trans hload) hpending hbytes (fun w => (hpumpHeld w).trans (hheld w)) fun s _ hzero _ => ?_
  have hmem : e ∈ (σ.queues i).load := by
    simp [load, waiting, hstrand]
  rw [(h.tallied i).pending, List.length_eq_zero_iff] at hzero
  rw [hzero] at hmem
  exact absurd hmem List.not_mem_nil

theorem registry_resume (h : σ.Registry) {c : Completion} {rest : List Posted}
    (hstrand : (σ.queues i).strand = .resume c :: rest) (haway : ∀ op, (σ.queues i).active = some op → op.isAway = true) :
    (σ.setQueue i (({ σ.queues i with strand := rest } : SerialCommandQueue).resume c)).Registry := by
  let queue : SerialCommandQueue := { σ.queues i with strand := rest }
  have hwaiting : queue.waiting = (σ.queues i).waiting := (same_resumed hstrand).waiting
  have hload : queue.load = (σ.queues i).load := by
    rw [load, hwaiting]
    rfl
  have hheld (w : Nat → Nat) : queue.held w = (σ.queues i).held w := by
    simp only [held, hstrand, List.map_cons, List.sum_cons, Posted.held, Nat.zero_add, queue]
  have hretiring (hnone : (σ.queues i).active = none) (hr : (σ.queues i).Retiring) : queue.Retiring := by
    rcases hr with ⟨op, hop, -⟩ | ⟨bytes, hbytes⟩
    · rw [hnone] at hop
      cases hop
    · rw [hstrand] at hbytes
      rcases List.mem_cons.mp hbytes with hhead | hrest
      · cases hhead
      · exact .inr ⟨bytes, hrest⟩
  unfold SerialCommandQueue.resume
  split
  · next op hop =>
    have hop' : (σ.queues i).active = some op := hop
    have hlive := isAway_live (haway op hop')
    have hbusy (hzero : (σ.queues i).pending = 0) : False := pending_of_live h.toCounted hop' hlive hzero
    split
    · refine h.handler ?_ rfl rfl ?_ fun s _ hzero _ => (hbusy hzero).elim
      · have hrun : (op.run c.next).stage ≠ .leaving := nofun
        rw [load_live rfl hrun, load_live hop' hlive]
        exact congrArg _ hwaiting
      · refine fun w => Eq.trans ?_ (hheld w)
        simp only [held, SerialCommandQueue.setActive, Option.elim_some, Operation.run]
        rw [hop']
        rfl
    · exact h.handler hload rfl rfl hheld fun s _ hzero _ => (hbusy hzero).elim
  · next hnone => exact h.handler hload rfl rfl hheld fun s _ _ hr => hretiring hnone hr

theorem onIdle_queues (i : Nat) (vacant : Bool) : (σ.onIdle i vacant).queues = σ.queues := by
  unfold onIdle
  repeat' split
  all_goals rfl

theorem registry_onIdle (h : σ.Registry) (vacant : Bool) : (σ.onIdle i vacant).Registry := by
  unfold onIdle
  split
  · exact h
  next hpending =>
  have hzero : (σ.queues i).pending = 0 := not_not.mp hpending
  split
  · split
    · next hs => exact h.dropConnection hs hzero
    · exact h
  · split
    · next hm => exact h.dropRoom hm.2 hzero
    · exact h
  · exact h

/-- `on_idle` drops a connection's queue in which nothing is pending. -/
theorem connections_onIdle (h : σ.Counted) (hzero : (σ.queues i).pending = 0) (vacant : Bool) (s : SessionId) :
    (σ.onIdle i vacant).connections s ≠ some i := by
  intro hs
  unfold onIdle at hs
  rw [if_neg (not_not.mpr hzero)] at hs
  cases hown : σ.owners i with
  | conn t =>
    simp only [hown] at hs
    split at hs
    · next ht =>
      have hs' : Function.update σ.connections t none s = some i := hs
      rw [Function.update_apply] at hs'
      split at hs'
      · cases hs'
      · next hne =>
        have hown' := (h.named.connections s i hs').2
        rw [hown] at hown'
        exact hne (Thread.conn.inj hown').symm
    · next ht =>
      have hown' := (h.named.connections s i hs).2
      rw [hown] at hown'
      cases hown'
      exact ht hs
  | room m =>
    simp only [hown] at hs
    have hs' : σ.connections s = some i := by
      split at hs
      · exact hs
      · exact hs
    rw [(h.named.connections s i hs').2] at hown
    cases hown
  | _ =>
    simp only [hown] at hs
    rw [(h.named.connections s i hs).2] at hown
    cases hown

theorem registry_closing (h : σ.Registry) {bytes : Nat} {rest : List Posted} {vacant : Bool}
    (hstrand : (σ.queues i).strand = .closing bytes :: rest) (hreleasing : (σ.queues i).releasing = none) :
    ((σ.onIdle i vacant).setQueue i { σ.queues i with strand := rest, releasing := some bytes }.pump).Registry := by
  let queue : SerialCommandQueue := { σ.queues i with strand := rest, releasing := some bytes }
  have hsame : (σ.onIdle i vacant).queues i = σ.queues i := congrFun (onIdle_queues i vacant) i
  have hload : queue.load = (σ.queues i).load := by
    rw [load, (same_closing hstrand hreleasing).waiting]
    rfl
  have hheld (w : Nat → Nat) : queue.held w = (σ.queues i).held w := by
    simp only [held, hstrand, hreleasing, List.map_cons, List.sum_cons, Posted.held, Option.elim_some, Option.elim_none,
      queue]
    omega
  obtain ⟨hpump, hpumpHeld, hpending, hbytes, -⟩ := pump_load queue
  refine (registry_onIdle h vacant).handler ?_ ?_ ?_ ?_ fun s hs hzero _ => ?_
  · rw [hsame]
    exact hpump.trans hload
  · rw [hsame]
    exact hpending
  · rw [hsame]
    exact hbytes
  · rw [hsame]
    exact fun w => (hpumpHeld w).trans (hheld w)
  · rw [hsame] at hzero
    exact absurd hs (connections_onIdle h.toCounted hzero vacant s)

theorem registry_runHandler (h : σ.Registry) {vacant : Bool} (hstep : σ.runHandler i vacant = some σ') : σ'.Registry := by
  unfold runHandler at hstep
  dsimp only at hstep
  split at hstep
  swap
  · cases hstep
  next hfree =>
  obtain ⟨hreleasing, haway⟩ := Bool.and_eq_true_iff.mp hfree
  split at hstep
  · cases hstep
  · next e rest hstrand =>
    cases hstep
    exact registry_command h hstrand
  · next c rest hstrand =>
    cases hstep
    refine registry_resume h hstrand fun op hop => ?_
    rw [hop] at haway
    exact haway
  · next bytes rest hstrand =>
    cases hstep
    exact registry_closing h hstrand (Option.isNone_iff_eq_none.mp hreleasing)

theorem registry_release (h : σ.Registry) (hi : i < σ.nextQueue) (hstep : σ.release i = some σ') : σ'.Registry := by
  unfold release at hstep
  split at hstep
  · cases hstep
  next bytes hreleasing =>
  cases hstep
  let queue : SerialCommandQueue := { σ.queues i with releasing := none }
  have hsum (w : Nat → Nat) : ∑ j ∈ Finset.range σ.nextQueue, ((σ.setQueue i queue).queues j).held w + w bytes =
      ∑ j ∈ Finset.range σ.nextQueue, (σ.queues j).held w := by
    refine held_setQueue hi queue w (m := 0) ?_
    simp only [held, hreleasing, Option.elim_some, Option.elim_none, queue]
    omega
  have hfits := h.fits
  refine ⟨⟨h.named, fun j => ?_, fun j hj => ?_, ?_, ?_, ?_⟩, fun s j hj hzero => ?_⟩
  · dsimp only
    rw [queues_setQueue]
    split
    · next heq =>
      subst heq
      exact (h.tallied j).of_load rfl rfl rfl
    · exact h.tallied j
  · dsimp only at hj
    rw [queues_setQueue] at hj
    refine (h.serving j ?_).same rfl rfl rfl
    split at hj
    · next heq => exact heq ▸ hj
    · exact hj
  · simp only [BusinessScheduler.release]
    rw [h.pending]
    exact (Nat.eq_sub_of_add_eq (hsum fun _ => 1)).symm
  · simp only [BusinessScheduler.release]
    rw [h.bytes]
    exact (Nat.eq_sub_of_add_eq (hsum id)).symm
  · simp only [BusinessScheduler.release]
    omega
  · dsimp only at hzero ⊢
    rw [queues_setQueue] at hzero ⊢
    split at hzero
    · next heq =>
      subst heq
      rw [if_pos rfl]
      exact h.retiring s j hj hzero
    · next hne =>
      rw [if_neg hne]
      exact h.retiring s j hj hzero

/-! ## Every reachable state -/

theorem Registry.edit (h : σ.Registry) (hedit : Edit σ σ') : σ'.Registry := by
  cases hedit with
  | elsewhere hsame => exact h.of_sameQueues hsame
  | setOp i op op' hi hop hlive hlive' hbytes hterminal => exact h.setOp hop hlive hlive' hbytes hterminal
  | complete c => exact h.complete c
  | submit i hi job bytes hsubmit =>
    exact h.submit (hi.trans_le h.named.fixed.1) (serving_fixed h.named hi) hsubmit
  | submitRoom m task done bytes hsubmit => exact h.submitRoom hsubmit
  | submitConnection s command bytes => exact h.submitConnection s command bytes
  | settle i op hi hop hstage => exact h.settle hop hstage
  | leave i op hi hop hstage => exact h.leave hop hstage
  | handler i vacant hi hstep => exact registry_runHandler h hstep
  | release i hi hstep => exact registry_release h hi hstep

theorem Registry.edits (h : σ.Registry) (hedits : Edits σ σ') : σ'.Registry := by
  induction hedits with
  | refl => exact h
  | tail _ hedit ih => exact ih.edit hedit

theorem registry_start (server : Server) (aiStub : Bool) : (start server aiStub).Registry := by
  refine ⟨⟨⟨?_, ?_, ?_⟩, fun i => tallied_new, ?_, ?_, ?_, ?_⟩, ?_⟩ <;> simp [start, held]

/-- Two queues of one owner do not have commands at the same time. -/
theorem Registry.unique (h : σ.Registry) {j : Nat} (howner : σ.owners i = σ.owners j) (hi : (σ.queues i).load ≠ [])
    (hj : (σ.queues j).load ≠ []) : i = j := by
  have hserving (k : Nat) (hload : (σ.queues k).load ≠ []) : σ.Serving k := by
    refine h.serving k fun hzero => hload ?_
    rwa [(h.tallied k).pending, List.length_eq_zero_iff] at hzero
  exact (hserving i hi).unique (hserving j hj) howner

variable [PoolSizes]

theorem registry_of_reachable (h : σ.Reachable) : σ.Registry := by
  obtain ⟨server, aiStub, hreach⟩ := h
  refine hreach.invariant_of (J := Kept) (fun s hs => kept_of_reachable ⟨server, aiStub, hs⟩)
    (registry_start server aiStub) ?_
  intro s e s' hkept hs _ hstep
  exact hs.edits (edits_of_step hkept.orderly.addressed hstep)

/-- **One queue works for each owner**, and the counters of admission are exact. -/
theorem one_queue_each (h : σ.Reachable) : σ.Registry ∧ ∀ i j, σ.owners i = σ.owners j →
    (σ.queues i).load ≠ [] → (σ.queues j).load ≠ [] → i = j := by
  have hregistry := registry_of_reachable h
  exact ⟨hregistry, fun i j => hregistry.unique⟩

omit [PoolSizes] in
/-- The first frame of connection 0 has created queue 2. -/
theorem one_queue_each_frame : ∃ σ : LogicSystem, (σ.queues 2).load.length = 1 ∧ σ.connections 0 = some 2 ∧ σ.Registry ∧
    ∀ i j, σ.owners i = σ.owners j → (σ.queues i).load ≠ [] → (σ.queues j).load ≠ [] → i = j := by
  let _ : PoolSizes := .source
  let σ := (start Scenario.server false).postMsgToQue 0 (.request (Scenario.login 1 "1")) 40
  have hreach : σ.Reachable := ⟨Scenario.server, false, .next .start trivial (e := .frame 0 (Scenario.login 1 "1") 40) rfl⟩
  exact ⟨σ, rfl, rfl, one_queue_each hreach⟩

end LogicSystem

end SyncRtc
