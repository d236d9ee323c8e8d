import SyncRtc.Laws.Strands

/-!
# The business layer does not lock itself up

A connection waits for a room, a room for a place in a pool, a pool for the operations that hold its places. There
the chain ends: who waits for a room has given up its places, and who waits for a place holds none. So as long as
something is pending, somebody can go on.
-/

set_option autoImplicit false

namespace SyncRtc.LogicSystem

open SerialCommandQueue

variable [PoolSizes] {σ σ' : LogicSystem} {i : Nat} {p : PoolName}

/-! ## Who waits for whom -/

/-- The queue has accepted the entry and not called its `done`. -/
inductive Held (queue : SerialCommandQueue) (e : Entry) : Prop where
  | posted (h : .command e ∈ queue.strand)
  | queued (h : e ∈ queue.commands)
  | active (op : Operation) (h : queue.active = some op) (hentry : op.entry = e)

/-- A queue, or a pool. -/
inductive Place where
  | queue (i : Nat)
  | pool (p : PoolName)

inductive WaitsFor (σ : LogicSystem) : Place → Place → Prop where
  /-- `Route` waits for `done` of the command it has handed to a room. -/
  | room (i j : Nat) (op : Operation) (e : Entry) (c : Completion) (hi : i < σ.nextQueue) (hj : j < σ.nextQueue)
      (hop : (σ.queues i).active = some op) (he : Held (σ.queues j) e) (hdone : e.done = some c)
      (hwait : c.wait.queue = i ∧ c.wait.op = op.id ∧ c.wait.phase = op.phase) : WaitsFor σ (.queue i) (.queue j)
  /-- `Reserve` waits for a place. -/
  | place (i : Nat) (op : Operation) (p : PoolName) (body : Op Unit) (hi : i < σ.nextQueue)
      (hop : (σ.queues i).active = some op) (hstage : op.stage = .retrying p body) : WaitsFor σ (.queue i) (.pool p)
  /-- A pool waits for those who hold its places. -/
  | holder (p : PoolName) (j : Nat) (op : Operation) (hj : j < σ.nextQueue) (hop : (σ.queues j).active = some op)
      (hmem : p ∈ op.reserved) : WaitsFor σ (.pool p) (.queue j)

theorem good_of_active (h : σ.Kept) (hi : i < σ.nextQueue) {op : Operation} (hop : (σ.queues i).active = some op) :
    op.entry.Good ∧ op.StageGood := h.sound.good _ (mem_operation.mpr ⟨hi, hop⟩)

omit [PoolSizes] in
theorem thread_of_waits {job : Job} (h : job.waits = true) : ∃ s, job.thread = .conn s := by
  cases job with
  | connection s command => exact ⟨s, rfl⟩
  | _ => cases h

/-- Who waits for a room is a connection and holds no place. -/
theorem conn_of_handed (h : σ.Kept) (hi : i < σ.nextQueue) {op : Operation} (hop : (σ.queues i).active = some op)
    (hstage : op.stage = .suspended true) : op.reserved = [] ∧ ∃ s, σ.owners i = .conn s := by
  have hgood := (good_of_active h hi hop).2
  simp only [Operation.StageGood, hstage, forall_const] at hgood
  obtain ⟨s, hs⟩ := thread_of_waits hgood.2
  exact ⟨hgood.1, s, ((h.orderly.queues i).active op hop).symm.trans hs⟩

/-- Who waits for a place waits for one in the storage pool, and holds none there. -/
theorem storage_of_retrying (h : σ.Kept) (hi : i < σ.nextQueue) {op : Operation} (hop : (σ.queues i).active = some op)
    {body : Op Unit} (hstage : op.stage = .retrying p body) : p = .storage ∧ .storage ∉ op.reserved := by
  have hgood := (good_of_active h hi hop).2
  simp only [Operation.StageGood, hstage] at hgood
  obtain ⟨-, hnot, hmakes, hpool⟩ := hgood
  cases body with
  | pure a => cases hpool
  | call c k =>
    have hstorage : p = .storage := by
      have hcall : c.pool = some p := hpool
      unfold Call.pool at hcall
      split at hcall
      · exact (Option.some.inj hcall).symm
      · exact (Option.some.inj hcall).symm
      · exact (hmakes.1 _ rfl).elim
      · cases hcall
    exact ⟨hstorage, hstorage ▸ hnot⟩

/-- Who is waited for is a room, and the one who waits is suspended there. -/
theorem room_of_done (h : σ.Kept) (hi : i < σ.nextQueue) {e : Entry} (he : Held (σ.queues i) e) {c : Completion}
    (hdone : e.done = some c) : (∃ m, σ.owners i = .room m) ∧ .promised c ∈ σ.items := by
  have hpromise : .promised c ∈ e.promise := by simp only [Entry.promise, hdone, Multiset.mem_singleton]
  have hqueue := h.orderly.queues i
  have hroom (hgood : e.Good) (hthread : e.job.thread = σ.owners i) : ∃ m, σ.owners i = .room m := by
    obtain ⟨m, task, hjob⟩ := hgood.done c hdone
    rw [hjob] at hthread
    exact ⟨m, hthread.symm⟩
  have hitem {x : Item} (hx : x ∈ (σ.queues i).items i) : x ∈ σ.items := mem_items.mpr (.inl ⟨i, hi, hx⟩)
  cases he with
  | posted hposted =>
    have hin {x : Item} (hx : x ∈ e.items false) : x ∈ σ.items := hitem (mem_queue.mpr (.inl ⟨_, hposted, hx⟩))
    refine ⟨hroom ?_ (hqueue.posted e hposted), hin (Multiset.mem_cons_of_mem hpromise)⟩
    exact h.sound.good _ (hin (Multiset.mem_cons_self _ _))
  | queued hqueued =>
    have hin {x : Item} (hx : x ∈ e.items true) : x ∈ σ.items := hitem (mem_queue.mpr (.inr (.inl ⟨e, hqueued, hx⟩)))
    refine ⟨hroom ?_ (hqueue.queued e hqueued), hin (Multiset.mem_cons_of_mem hpromise)⟩
    exact h.sound.good _ (hin (Multiset.mem_cons_self _ _))
  | active op hop hentry =>
    subst hentry
    refine ⟨hroom (good_of_active h hi hop).1 (hqueue.active op hop), ?_⟩
    refine hitem (mem_queue.mpr (.inr (.inr (.inl ⟨op, hop, ?_⟩))))
    exact Multiset.mem_cons_of_mem hpromise

/-! ## No cycle -/

/-- How far a place is from the end of its chain. -/
def height (σ : LogicSystem) : Place → Nat
  | .queue i =>
    match (σ.queues i).active.map Operation.stage with
    | some (.suspended true) => 4
    | some (.retrying _ _) => 2
    | _ => 0
  | .pool .ai => 3
  | .pool .storage => 1

/-- Only who waits for a room is at the top. -/
theorem height_queue (h : σ.Kept) (hi : i < σ.nextQueue) {op : Operation} (hop : (σ.queues i).active = some op) :
    op.stage = .suspended true ∧ σ.height (.queue i) = 4 ∨
      op.stage ≠ .suspended true ∧ σ.height (.queue i) ≤ 2 ∧
        (.storage ∈ op.reserved → σ.height (.queue i) = 0) := by
  unfold height
  simp only [hop, Option.map_some]
  cases hstage : op.stage with
  | suspended handed =>
    cases handed with
    | true => exact .inl ⟨rfl, rfl⟩
    | false => exact .inr ⟨by simp, Nat.zero_le _, fun _ => rfl⟩
  | retrying q body =>
    refine .inr ⟨by simp, le_refl _, fun hmem => ?_⟩
    exact absurd hmem (storage_of_retrying h hi hop hstage).2
  | _ => exact .inr ⟨by simp, Nat.zero_le _, fun _ => rfl⟩

theorem height_lt (h : σ.Kept) {a b : Place} (hwait : σ.WaitsFor a b) : σ.height b < σ.height a := by
  cases hwait with
  | room i j op e c hi hj hop he hdone hmatch =>
    obtain ⟨⟨m, howner⟩, hpromise⟩ := room_of_done h hj he hdone
    have hhanded : c.wait.handed = true := (h.sound.good _ hpromise).1
    obtain ⟨-, op', hop', hstage, -⟩ := suspended_of_wake h.sound hpromise (Multiset.mem_singleton_self _)
    rw [hmatch.1, hop] at hop'
    cases hop'
    rw [hhanded] at hstage
    have hhigh : σ.height (.queue i) = 4 := by simp only [height, hop, Option.map_some, hstage]
    have hlow : σ.height (.queue j) ≤ 2 := by
      cases hactive : (σ.queues j).active with
      | none => simp [height, hactive]
      | some op'' =>
        rcases height_queue h hj hactive with ⟨hstage', -⟩ | ⟨-, hle, -⟩
        · obtain ⟨-, s, hconn⟩ := conn_of_handed h hj hactive hstage'
          rw [howner] at hconn
          cases hconn
        · exact hle
    omega
  | place i op p body hi hop hstage =>
    obtain ⟨rfl, -⟩ := storage_of_retrying h hi hop hstage
    have hhigh : σ.height (.queue i) = 2 := by simp only [height, hop, Option.map_some, hstage]
    rw [hhigh]
    exact Nat.one_lt_two
  | holder p j op hj hop hmem =>
    rcases height_queue h hj hop with ⟨hstage, -⟩ | ⟨-, hle, hholds⟩
    · rw [(conn_of_handed h hj hop hstage).1] at hmem
      exact absurd hmem List.not_mem_nil
    · cases p with
      | storage =>
        rw [hholds hmem]
        exact Nat.zero_lt_one
      | ai => exact Nat.lt_succ_of_le hle

theorem height_trans (h : σ.Kept) {a b : Place} (hwait : Relation.TransGen σ.WaitsFor a b) :
    σ.height b < σ.height a := by
  induction hwait with
  | single hwait => exact height_lt h hwait
  | tail _ hwait ih => exact (height_lt h hwait).trans ih

/-! ## Nobody can go on -/

/-- A step that does something for a command. -/
def Moves (σ : LogicSystem) (e : Event) (σ' : LogicSystem) : Prop :=
  e.isInner = true ∧ σ.step e = some σ' ∧ Relation.TransGen Books.Step σ.books σ'.books

def Stuck (σ : LogicSystem) : Prop := ∀ e σ', ¬ σ.Moves e σ'

theorem moves_handler (h : σ.Kept) (hi : i < σ.nextQueue) {vacant : Bool} (hstep : σ.runHandler i vacant = some σ') :
    σ.Moves (.handler i vacant) σ' := by
  refine ⟨rfl, ?_, books_runHandler h.sound (h.orderly.queues i).addressed hi hstep⟩
  simp only [step, if_pos hi, hstep]

theorem moves_step (h : σ.Kept) (hi : i < σ.nextQueue) {o : Oracle} {chosen : Nat}
    (hstep : σ.stepOp i o chosen = some σ') : σ.Moves (.step i o chosen) σ' := by
  refine ⟨rfl, ?_, books_stepOp h.sound h.orderly.addressed.rooms hi hstep⟩
  simp only [step, if_pos hi, hstep]

theorem moves_release (hi : i < σ.nextQueue) (hstep : σ.release i = some σ') : σ.Moves (.release i) σ' := by
  refine ⟨rfl, ?_, .single (books_release hi hstep)⟩
  simp only [step, if_pos hi, hstep]

/-! ## What a stuck layer looks like -/

/-- A coroutine that is not in a `Wait` or a `Reserve` can go on. -/
theorem stepOp_isSome (h : ∃ op, (σ.queues i).active = some op ∧ op.isAway = false) (o : Oracle) (chosen : Nat) :
    ∃ σ', σ.stepOp i o chosen = some σ' := by
  obtain ⟨op, hop, haway⟩ := h
  unfold stepOp
  simp only [hop]
  unfold Operation.isAway at haway
  split at haway
  · cases haway
  · cases haway
  · next hsuspended hretrying =>
    cases hstage : op.stage with
    | running body => exact ⟨_, rfl⟩
    | retrying q body => exact absurd hstage (hretrying q body)
    | suspended handed => exact absurd hstage (hsuspended handed)
    | finishing => exact ⟨_, rfl⟩
    | leaving => exact ⟨_, rfl⟩

/-- The thread that is on a strand can go on. -/
theorem moves_of_taken (h : σ.Kept) (hi : i < σ.nextQueue) (htaken : (σ.queues i).isFree = false) (o : Oracle)
    (chosen : Nat) : (∃ σ', σ.Moves (.release i) σ') ∨ ∃ σ', σ.Moves (.step i o chosen) σ' := by
  unfold SerialCommandQueue.isFree at htaken
  rcases Bool.and_eq_false_iff.mp htaken with hreleasing | hactive
  · have hsome : (σ.queues i).releasing.isSome = true := by simpa using hreleasing
    obtain ⟨bytes, hbytes⟩ := Option.isSome_iff_exists.mp hsome
    have hstep : ∃ σ', σ.release i = some σ' := by
      simp only [release, hbytes]
      exact ⟨_, rfl⟩
    obtain ⟨σ', hstep⟩ := hstep
    exact .inl ⟨σ', moves_release hi hstep⟩
  · have haway : ∃ op, (σ.queues i).active = some op ∧ op.isAway = false := by
      cases hop : (σ.queues i).active with
      | none =>
        rw [hop] at hactive
        cases hactive
      | some op =>
        rw [hop] at hactive
        exact ⟨op, rfl, hactive⟩
    obtain ⟨σ', hstep⟩ := stepOp_isSome haway o chosen
    exact .inr ⟨σ', moves_step h hi hstep⟩

theorem Stuck.free (hstuck : σ.Stuck) (h : σ.Kept) (hi : i < σ.nextQueue) : (σ.queues i).isFree = true := by
  by_contra htaken
  rcases moves_of_taken h hi (by simpa using htaken) {} 0 with ⟨σ', hmove⟩ | ⟨σ', hmove⟩ <;> exact hstuck _ _ hmove

theorem Stuck.strand (hstuck : σ.Stuck) (h : σ.Kept) (hi : i < σ.nextQueue) : (σ.queues i).strand = [] := by
  cases hstrand : (σ.queues i).strand with
  | nil => rfl
  | cons x rest =>
    have hsome : ∃ σ', σ.runHandler i false = some σ' := by
      unfold runHandler
      simp only [hstuck.free h hi, if_true, hstrand]
      cases x <;> exact ⟨_, rfl⟩
    obtain ⟨σ', hstep⟩ := hsome
    exact (hstuck _ _ (moves_handler h hi hstep)).elim

/-- No step stands in the line of a pool, and its threads wait or look around in vain. -/
theorem Stuck.pool (hstuck : σ.Stuck) (h : σ.Kept) (hopen : (σ.pools p).stopping = false) : (σ.pools p).items p = 0 := by
  have hthread (n : Nat) (hn : n < p.threads) :
      (σ.pools p).threads n = .blocked ∨ (σ.pools p).threads n = .looking ∧ (σ.pools p).tasks = [] := by
    have hidle (σ' : LogicSystem) (hstep : σ.runThread p n {} = some σ') :
        (σ.pools p).threads n = .looking ∧ (σ.pools p).tasks = [] := by
      rcases books_runThread h.sound hn hstep with hmove | ⟨hlooking, htasks, -⟩
      · refine absurd ⟨rfl, ?_, hmove⟩ (hstuck (.thread p n {}) σ')
        simp only [step, if_pos hn, hstep]
      · exact ⟨hlooking, htasks⟩
    unfold runThread at hidle
    dsimp only at hidle
    cases hcase : (σ.pools p).threads n with
    | blocked => exact .inl rfl
    | returned => exact absurd (hopen.symm.trans ((h.orderly.pools p).returned n hcase)) (by simp)
    | looking =>
      simp only [hcase] at hidle
      exact .inr ⟨rfl, (hidle _ rfl).2⟩
    | working t =>
      simp only [hcase] at hidle
      exact absurd (hidle _ rfl).1 (by simp)
    | worked c =>
      simp only [hcase] at hidle
      exact absurd (hidle _ rfl).1 (by simp)
    | completing c =>
      simp only [hcase] at hidle
      exact absurd (hidle _ rfl).1 (by simp)
  have htasks : (σ.pools p).tasks = [] := by
    by_contra hsome
    have hblocked (n : Nat) (hn : n < p.threads) : (σ.pools p).threads n = .blocked :=
      (hthread n hn).resolve_right fun hlooking => hsome hlooking.2
    have hnone : (σ.pools p).looking p = 0 := by
      refine Finset.sum_eq_zero fun n hn => ?_
      rw [hblocked n (Finset.mem_range.mp hn)]
      rfl
    have hle := ((h.orderly.pools p).blocked 0 (PoolSizes.threads_pos p) (hblocked 0 (PoolSizes.threads_pos p))).2
    rw [hnone] at hle
    exact hsome (List.eq_nil_of_length_eq_zero (Nat.le_zero.mp hle))
  unfold SlowPool.items
  rw [htasks, List.map_nil, List.sum_nil, zero_add]
  refine Finset.sum_eq_zero fun n hn => ?_
  rcases hthread n (Finset.mem_range.mp hn) with hblocked | ⟨hlooking, -⟩
  · rw [hblocked]
    rfl
  · rw [hlooking]
    rfl

/-- Whatever is left stands in a queue behind an operation, or is that operation. -/
theorem Stuck.items (hstuck : σ.Stuck) (h : σ.Kept) (hopen : ∀ p, (σ.pools p).stopping = false) {x : Item}
    (hx : x ∈ σ.items) :
    ∃ i < σ.nextQueue, (∃ e ∈ (σ.queues i).commands, x ∈ e.items true) ∨
      ∃ op, (σ.queues i).active = some op ∧ x ∈ op.items i := by
  rcases mem_items.mp hx with ⟨i, hi, hqueue⟩ | ⟨p, hpool⟩
  · refine ⟨i, hi, ?_⟩
    rcases mem_queue.mp hqueue with ⟨y, hy, -⟩ | hcommand | hop | ⟨hreleasing, -⟩
    · rw [hstuck.strand h hi] at hy
      exact absurd hy List.not_mem_nil
    · exact .inl hcommand
    · exact .inr hop
    · obtain ⟨hnone, -⟩ := Bool.and_eq_true_iff.mp (hstuck.free h hi)
      simp [Option.isNone_iff_eq_none.mp hnone] at hreleasing
  · rw [hstuck.pool h (hopen p)] at hpool
    exact absurd hpool (Multiset.notMem_zero x)

/-- Nobody waits for a slow step. -/
theorem Stuck.handed (hstuck : σ.Stuck) (h : σ.Kept) (hopen : ∀ p, (σ.pools p).stopping = false) (hi : i < σ.nextQueue)
    {op : Operation} (hop : (σ.queues i).active = some op) {handed : Bool} (hstage : op.stage = .suspended handed) :
    handed = true ∧ ∃ j < σ.nextQueue, ∃ e, Held (σ.queues j) e ∧ e.done.isSome = true := by
  obtain ⟨x, hx, hwake⟩ := wake_of_suspended h.sound hi hop hstage
  have hpromise {e : Entry} (hentry : x ∈ e.promise) : handed = true ∧ e.done.isSome = true := by
    unfold Entry.promise at hentry
    split at hentry
    · next c hdone =>
      cases Multiset.mem_singleton.mp hentry
      have hgood : c.wait.handed = true := (h.sound.good _ hx).1
      rw [← Multiset.mem_singleton.mp hwake] at hgood
      exact ⟨hgood, by simp [hdone]⟩
    · exact absurd hentry (Multiset.notMem_zero x)
  obtain ⟨j, hj, ⟨e, he, hxe⟩ | ⟨op', hop', hxop⟩⟩ := hstuck.items h hopen hx
  · rcases Multiset.mem_cons.mp hxe with rfl | hentry
    · exact absurd hwake (Multiset.notMem_zero _)
    · exact ⟨(hpromise hentry).1, j, hj, e, .queued he, (hpromise hentry).2⟩
  · rcases Multiset.mem_cons.mp hxop with rfl | hentry
    · exact absurd hwake (Multiset.notMem_zero _)
    · exact ⟨(hpromise hentry).1, j, hj, op'.entry, .active op' hop' rfl, (hpromise hentry).2⟩

/-- A pool without a free place has somebody who holds one. -/
theorem holder_of_full (h : σ.Kept) (hfull : 0 < (σ.pools p).reserved) :
    ∃ j < σ.nextQueue, ∃ op, (σ.queues j).active = some op ∧ p ∈ op.reserved := by
  have hsum : (σ.pools p).reserved = (σ.items.map (Item.holds p)).sum := h.sound.reserved p
  have hsome : ∃ x ∈ σ.items, Item.holds p x ≠ 0 := by
    by_contra hnone
    push Not at hnone
    rw [hsum, Multiset.sum_eq_zero] at hfull
    · exact absurd hfull (lt_irrefl 0)
    · intro n hn
      obtain ⟨x, hx, rfl⟩ := Multiset.mem_map.mp hn
      exact hnone x hx
  obtain ⟨x, hx, hholds⟩ := hsome
  cases x with
  | operation j op =>
    obtain ⟨hj, hop⟩ := mem_operation.mp hx
    exact ⟨j, hj, op, hop, List.count_pos_iff.mp (Nat.pos_of_ne_zero hholds)⟩
  | _ => exact absurd rfl hholds

/-- Nobody waits for a place. -/
theorem Stuck.not_retrying (hstuck : σ.Stuck) (h : σ.Kept) (hopen : ∀ p, (σ.pools p).stopping = false)
    (hi : i < σ.nextQueue) {op : Operation} (hop : (σ.queues i).active = some op) {body : Op Unit}
    (hstage : op.stage = .retrying p body) : False := by
  have hfull : 0 < (σ.pools p).reserved := by
    by_contra hempty
    have hreserve : ∃ pool, (σ.pools p).reserve p = some pool := by
      refine ⟨_, if_neg ?_⟩
      have hpos := PoolSizes.capacity_pos p
      simp only [hopen p, Bool.false_eq_true, false_or, PoolName.capacity]
      omega
    obtain ⟨pool, hreserve⟩ := hreserve
    obtain ⟨hnone, -⟩ := Bool.and_eq_true_iff.mp (hstuck.free h hi)
    have hstep : ∃ σ', σ.stepOp i {} 0 = some σ' := by
      simp only [stepOp, hop, hstage, hnone, if_true, retry, hreserve]
      exact ⟨_, rfl⟩
    obtain ⟨σ', hstep⟩ := hstep
    exact hstuck _ _ (moves_step h hi hstep)
  obtain ⟨rfl, -⟩ := storage_of_retrying h hi hop hstage
  obtain ⟨j, hj, op', hop', hmem⟩ := holder_of_full h hfull
  obtain ⟨-, haway⟩ := Bool.and_eq_true_iff.mp (hstuck.free h hj)
  simp only [hop', Option.all_some, Operation.isAway] at haway
  split at haway
  · next handed hstage' =>
    obtain ⟨rfl, -⟩ := hstuck.handed h hopen hj hop' hstage'
    rw [(conn_of_handed h hj hop' hstage').1] at hmem
    exact List.not_mem_nil hmem
  · next q body' hstage' => exact (storage_of_retrying h hj hop' hstage').2 hmem
  · cases haway

theorem Stuck.conn (hstuck : σ.Stuck) (h : σ.Kept) (hopen : ∀ p, (σ.pools p).stopping = false) (hi : i < σ.nextQueue)
    {op : Operation} (hop : (σ.queues i).active = some op) : op.stage = .suspended true := by
  obtain ⟨-, haway⟩ := Bool.and_eq_true_iff.mp (hstuck.free h hi)
  simp only [hop, Option.all_some, Operation.isAway] at haway
  split at haway
  · next handed hstage =>
    obtain ⟨rfl, -⟩ := hstuck.handed h hopen hi hop hstage
    exact hstage
  · next q body hstage => exact (hstuck.not_retrying h hopen hi hop hstage).elim
  · cases haway

/-- A queue without an operation is empty. -/
theorem Stuck.commands (hstuck : σ.Stuck) (h : σ.Kept) (hi : i < σ.nextQueue) (hactive : (σ.queues i).active = none) :
    (σ.queues i).commands = [] := by
  by_contra hcommands
  obtain ⟨bytes, hbytes⟩ := (h.orderly.queues i).pumped hactive hcommands
  rw [hstuck.strand h hi] at hbytes
  exact List.not_mem_nil hbytes

theorem Stuck.idle (hstuck : σ.Stuck) (h : σ.Kept) (hopen : ∀ p, (σ.pools p).stopping = false) (hi : i < σ.nextQueue) :
    (σ.queues i).active = none := by
  by_contra hsome
  obtain ⟨op, hop⟩ := Option.ne_none_iff_exists'.mp hsome
  obtain ⟨-, j, hj, e, he, hdone⟩ := hstuck.handed h hopen hi hop (hstuck.conn h hopen hi hop)
  obtain ⟨c, hc⟩ := Option.isSome_iff_exists.mp hdone
  obtain ⟨⟨m, howner⟩, -⟩ := room_of_done h hj he hc
  have hactive : ∃ op', (σ.queues j).active = some op' := by
    cases hj' : (σ.queues j).active with
    | some op' => exact ⟨op', rfl⟩
    | none =>
      cases he with
      | posted hposted =>
        rw [hstuck.strand h hj] at hposted
        exact absurd hposted List.not_mem_nil
      | queued hqueued =>
        rw [hstuck.commands h hj hj'] at hqueued
        exact absurd hqueued List.not_mem_nil
      | active op' hop' _ => exact ⟨op', hj'.symm.trans hop'⟩
  obtain ⟨op', hop'⟩ := hactive
  obtain ⟨-, s, hconn⟩ := conn_of_handed h hj hop' (hstuck.conn h hopen hj hop')
  rw [howner] at hconn
  cases hconn

/-- A stuck layer has nothing to do. -/
theorem Stuck.pending (hstuck : σ.Stuck) (h : σ.Kept) : σ.scheduler.pending = 0 := by
  by_contra hpending
  have hopen (p : PoolName) : (σ.pools p).stopping = false := by
    by_contra hstopping
    exact hpending (h.orderly.halting.quiet p (by simpa using hstopping)).2
  have hnone : σ.items = 0 := by
    refine Multiset.eq_zero_of_forall_notMem fun x hx => ?_
    obtain ⟨i, hi, ⟨e, he, -⟩ | ⟨op, hop, -⟩⟩ := hstuck.items h hopen hx
    · rw [hstuck.commands h hi (hstuck.idle h hopen hi)] at he
      exact List.not_mem_nil he
    · exact absurd hop (by simp [hstuck.idle h hopen hi])
  have hsum : σ.scheduler.pending = (σ.items.map Item.counted).sum := h.sound.pending
  rw [hnone] at hsum
  exact hpending hsum

/-! ## Somebody can go on -/

theorem moves_of_pending (h : σ.Kept) (hpending : σ.scheduler.pending ≠ 0) : ∃ e σ', σ.Moves e σ' := by
  by_contra hnone
  push Not at hnone
  exact hpending (Stuck.pending hnone h)

/-- A command that has not ended is pending. -/
theorem pending_of_unfinished (h : σ.Kept) (hjobs : (σ.finished : Multiset Job) ≠ σ.accepted) :
    σ.scheduler.pending ≠ 0 := by
  have haccepted : (σ.accepted : Multiset Job) = σ.finished + σ.items.bind Item.live := h.sound.jobs
  have hsome : ∃ x ∈ σ.items, x.live ≠ 0 := by
    by_contra hnone
    push Not at hnone
    refine hjobs ?_
    rw [haccepted, Multiset.bind_congr hnone, Multiset.bind_zero, add_zero]
  obtain ⟨x, hx, hlive⟩ := hsome
  refine pending_of_item h.sound hx ?_
  cases x with
  | entry e queued => rfl
  | operation i op => rfl
  | _ => exact absurd rfl hlive

/-! ## With a number of business threads -/

/-- The strands that a business thread is on. -/
def taken (σ : LogicSystem) : Nat := ((Finset.range σ.nextQueue).filter fun i => (σ.queues i).isFree = false).card

/-- A handler needs a thread that is on no strand, and so does a coroutine that comes back from its timer. -/
def Permits (threads : Nat) (σ : LogicSystem) : Event → Prop
  | .handler _ _ => σ.taken < threads
  | .step i _ _ => (σ.queues i).isFree = true → σ.taken < threads
  | _ => True

/-- The layer is never stuck before its work is done, and nobody waits for himself. -/
structure Unlocked (threads : Nat) (σ : LogicSystem) : Prop where
  moves : (σ.finished : Multiset Job) ≠ σ.accepted → ∃ e σ', σ.Permits threads e ∧ σ.Moves e σ'
  acyclic : ∀ place, ¬ Relation.TransGen σ.WaitsFor place place

/-- As long as an accepted command has not ended somebody can go on, whatever the number of the business threads. -/
theorem unlocked {threads : Nat} (hthreads : 0 < threads) {server : Server} {aiStub : Bool}
    (hreach : Reach step (Permits threads) (start server aiStub) σ) : σ.Unlocked threads := by
  have h : σ.Kept := kept_of_reachable ⟨server, aiStub, hreach.mono fun _ _ _ => trivial⟩
  refine ⟨fun hjobs => ?_, fun place hcycle => lt_irrefl _ (height_trans h hcycle)⟩
  by_cases hfree : σ.taken < threads
  · obtain ⟨e, σ', hmove⟩ := moves_of_pending h (pending_of_unfinished h hjobs)
    refine ⟨e, σ', ?_, hmove⟩
    cases e with
    | handler i vacant => exact hfree
    | step i o chosen => exact fun _ => hfree
    | _ => exact trivial
  · have htaken : 0 < σ.taken := by omega
    obtain ⟨i, hi⟩ := Finset.card_pos.mp htaken
    obtain ⟨hi, hon⟩ := Finset.mem_filter.mp hi
    rcases moves_of_taken h (Finset.mem_range.mp hi) hon {} 0 with ⟨σ', hmove⟩ | ⟨σ', hmove⟩
    · exact ⟨.release i, σ', trivial, hmove⟩
    · exact ⟨.step i {} 0, σ', fun hoff => absurd (hon.symm.trans hoff) (by simp), hmove⟩

omit [PoolSizes] in
/-- After the timer's first scan has been accepted, one business thread is enough. -/
theorem unlocked_scanning :
    ∃ σ : LogicSystem, (σ.finished : Multiset Job) ≠ σ.accepted ∧ @Unlocked PoolSizes.source 1 σ := by
  let _ : PoolSizes := .source
  refine ⟨(start Scenario.server true).postReconnectTimeoutCheck, ?_, ?_⟩
  · exact fun h => absurd (congrArg Multiset.card h) (by decide)
  · exact unlocked Nat.zero_lt_one (Reach.start.next (show Permits 1 _ Event.timer from trivial) rfl)

end SyncRtc.LogicSystem
