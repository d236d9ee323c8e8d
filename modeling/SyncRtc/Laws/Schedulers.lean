import SyncRtc.Lib.Descent
import SyncRtc.Laws.Commands

/-!
# Serial queues

Every queue of a scheduler is kept by every step, and the scheduler counts what the queues have not released. What a
command does, how often it waits and who calls the closures is open; that what the strand holds is run, and that a
command that has begun ends, is assumed only where it is said that an accepted command runs in the end.
-/

set_option autoImplicit false

namespace SyncRtc

open SerialCommandQueue

namespace Scheduling

variable {σ σ' : Scheduling} {i : Nat}

def lane (σ : Scheduling) (i : Nat) : Lane := ⟨σ.queues i, σ.diaries i, σ.closures i⟩

theorem lane_setQueue_ne {j : Nat} (hne : j ≠ i) (queue : SerialCommandQueue) : (σ.setQueue i queue).lane j = σ.lane j := by
  simp only [lane, setQueue, Function.update_of_ne hne]

theorem lane_setQueue (queue : SerialCommandQueue) : (σ.setQueue i queue).lane i = { σ.lane i with queue } := by
  simp only [lane, setQueue, Function.update_self]

theorem lane_setDiary_ne {j : Nat} (hne : j ≠ i) (diary : Diary) : (σ.setDiary i diary).lane j = σ.lane j := by
  simp only [lane, setDiary, Function.update_of_ne hne]

theorem lane_setDiary (diary : Diary) : (σ.setDiary i diary).lane i = { σ.lane i with diary } := by
  simp only [lane, setDiary, Function.update_self]

theorem lane_setClosure_ne {j : Nat} (hne : j ≠ i) (id phase : Nat) (delivered : Bool) :
    (σ.setClosure i id phase delivered).lane j = σ.lane j := by
  simp only [lane, setClosure, hne, false_and, if_false]

theorem lane_setClosure (id phase : Nat) (delivered : Bool) :
    (σ.setClosure i id phase delivered).lane i =
      { σ.lane i with closures := Lane.setClosure (σ.closures i) id phase delivered } := by
  simp only [lane, setClosure, true_and]
  rfl

theorem lane_note_ne {j : Nat} (hne : j ≠ i) (mark : Mark) : (σ.note i mark).lane j = σ.lane j := lane_setDiary_ne hne _

theorem lane_note (mark : Mark) :
    (σ.note i mark).lane i = { σ.lane i with diary := { (σ.lane i).diary with marks := (σ.lane i).diary.marks ++ [mark] } } :=
  lane_setDiary _

theorem lane_pump_ne {j : Nat} (hne : j ≠ i) (queue : SerialCommandQueue) : (σ.pump i queue).lane j = σ.lane j := by
  unfold pump
  split
  · rw [lane_setQueue_ne hne, lane_note_ne hne]
  · rw [lane_setQueue_ne hne]

theorem lane_pump (queue : SerialCommandQueue) : (σ.pump i queue).lane i = ({ σ.lane i with queue } : Lane).pump := by
  unfold pump Lane.pump
  cases queue.active with
  | some op => simp only [lane_setQueue]
  | none =>
    cases queue.commands with
    | nil => simp only [lane_setQueue]
    | cons e rest => simp only [lane_setQueue, lane_note]

/-! ## One step, on its queue -/

theorem submit_cases {e : Entry} (hstep : σ.submit i e = some σ') :
    (σ.queues i).admits (σ.capacities i) e.terminal e.bytes = true ∧
      ∃ scheduler, σ.scheduler.reserve e.terminal e.bytes = some scheduler ∧
        σ' = { (σ.setDiary i { σ.diaries i with accepted := (σ.diaries i).accepted ++ [e] }).setQueue i
          ((σ.queues i).push e) with scheduler } := by
  unfold submit at hstep
  split at hstep
  · next hadmits =>
    split at hstep
    · cases hstep
    · next scheduler hreserve =>
      cases hstep
      exact ⟨hadmits, scheduler, hreserve, rfl⟩
  · cases hstep

theorem kept_submit (h : (σ.lane i).Kept) {e : Entry} (hstep : σ.submit i e = some σ') : (σ'.lane i).Kept := by
  obtain ⟨hadmits, scheduler, -, rfl⟩ := submit_cases hstep
  have hpush := h.push hadmits
  simp only [lane, setQueue, setDiary, Function.update_self]
  exact hpush

theorem kept_runHandler (h : (σ.lane i).Kept) (hstep : σ.runHandler i = some σ') : (σ'.lane i).Kept := by
  unfold runHandler at hstep
  dsimp only at hstep
  split at hstep
  swap
  · cases hstep
  next hfree =>
  split at hstep
  · cases hstep
  · next e rest hstrand =>
    cases hstep
    rw [lane_pump]
    exact (h.command hstrand).pump
  · next c rest hstrand =>
    cases hstep
    rw [lane_setQueue]
    exact h.resume hstrand
  · next bytes rest hstrand =>
    cases hstep
    have hreleasing := Option.isNone_iff_eq_none.mp (Bool.and_eq_true_iff.mp hfree).1
    rw [lane_pump]
    exact (h.closing hstrand hreleasing).pump

theorem kept_turn (h : (σ.lane i).Kept) {op : Operation} (hop : (σ.queues i).active = some op) {body : Op Unit}
    (hstage : op.stage = .running body) (next : Turn) : ((σ.turn i op next).lane i).Kept := by
  cases next with
  | wait =>
    unfold turn wait
    rw [lane_setClosure, lane_setQueue]
    exact h.wait hop hstage
  | sleep pool body' =>
    unfold turn
    rw [lane_setQueue]
    refine h.goOn hop ?_ ?_ ?_ ?_ ?_ ?_ ?_
    · rfl
    · rfl
    · rfl
    · simp [Operation.isOver, hstage]
    · rfl
    · simp [Operation.isSuspended, hstage]
    · rfl
  | finish =>
    have hfinish := h.finish hop hstage
    unfold turn finish
    dsimp only
    split
    · next hdone =>
      rw [lane_setQueue, lane_note, lane_note]
      simp only [hdone, if_true] at hfinish
      dsimp only
      rw [List.append_assoc]
      exact hfinish
    · next hdone =>
      rw [lane_setQueue, lane_note]
      simp only [hdone] at hfinish
      exact hfinish

theorem kept_stepOp (h : (σ.lane i).Kept) {next : Turn} (hstep : σ.stepOp i next = some σ') : (σ'.lane i).Kept := by
  unfold stepOp at hstep
  split at hstep
  · cases hstep
  next op hop =>
  split at hstep
  · next body hstage =>
    cases hstep
    exact kept_turn h hop hstage next
  · next pool body hstage =>
    split at hstep
    · cases hstep
      rw [lane_setQueue]
      refine h.goOn hop ?_ ?_ ?_ ?_ ?_ ?_ ?_
      · rfl
      · rfl
      · rfl
      · simp [Operation.isOver, hstage]
      · rfl
      · simp [Operation.isSuspended, hstage]
      · rfl
    · cases hstep
  · cases hstep
  · next hstage =>
    cases hstep
    unfold settle
    rw [lane_setQueue, lane_setDiary]
    exact h.settle hop hstage
  · next hstage =>
    cases hstep
    rw [lane_setQueue]
    exact h.leave hop hstage

theorem release_cases (hstep : σ.release i = some σ') :
    ∃ bytes, (σ.queues i).releasing = some bytes ∧
      σ' = { (σ.setDiary i { σ.diaries i with released := (σ.diaries i).released + 1 }).setQueue i
        { σ.queues i with releasing := none } with scheduler := σ.scheduler.release bytes } := by
  unfold release at hstep
  split at hstep
  · cases hstep
  · next bytes hreleasing =>
    cases hstep
    exact ⟨bytes, hreleasing, rfl⟩

theorem kept_release (h : (σ.lane i).Kept) (hstep : σ.release i = some σ') : (σ'.lane i).Kept := by
  obtain ⟨bytes, hreleasing, rfl⟩ := release_cases hstep
  have hrelease := h.release hreleasing
  simp only [lane, setQueue, setDiary, Function.update_self]
  exact hrelease

theorem kept_call (h : (σ.lane i).Kept) {id phase : Nat} {next : Op Unit} (hstep : σ.call i id phase next = some σ') :
    (σ'.lane i).Kept := by
  unfold call at hstep
  split at hstep
  · cases hstep
  · cases hstep
    exact h
  · next hopened =>
    cases hstep
    let c : Completion := ⟨{ queue := i, op := id, phase, handed := false, terminal := false }, next⟩
    have hcalled := h.call (c := c) hopened
    rw [lane_setClosure, lane_setQueue]
    exact hcalled

/-! ## What the scheduler counts -/

theorem unreleased_command {queue : SerialCommandQueue} {e : Entry} {rest : List Posted}
    (hstrand : queue.strand = .command e :: rest) :
    ({ queue with strand := rest, commands := queue.commands ++ [e] } : SerialCommandQueue).pump.unreleased =
      queue.unreleased := (unreleased_pump _).trans (same_command hstrand).unreleased

theorem unreleased_closing {queue : SerialCommandQueue} {bytes : Nat} {rest : List Posted}
    (hstrand : queue.strand = .closing bytes :: rest) (hreleasing : queue.releasing = none) :
    ({ queue with strand := rest, releasing := some bytes } : SerialCommandQueue).pump.unreleased =
      queue.unreleased := (unreleased_pump _).trans (same_closing hstrand hreleasing).unreleased

theorem unreleased_setActive {queue : SerialCommandQueue} {op op' : Operation} (hop : queue.active = some op)
    (hbytes : op'.entry.bytes = op.entry.bytes) : (queue.setActive op').unreleased = queue.unreleased := by
  simp only [unreleased, setActive, hop, Option.elim_some, hbytes]
  rfl

theorem unreleased_resume (queue : SerialCommandQueue) {c : Completion} {rest : List Posted}
    (hstrand : queue.strand = .resume c :: rest) :
    (({ queue with strand := rest } : SerialCommandQueue).resume c).unreleased = queue.unreleased := by
  refine Eq.trans ?_ (same_resumed hstrand).unreleased
  unfold SerialCommandQueue.resume
  split
  · next op hop =>
    split
    · refine unreleased_setActive hop ?_
      rfl
    · rfl
  · rfl

/-- The scheduler counts the commands of all queues. -/
structure Accounted (σ : Scheduling) : Prop where
  pending : σ.scheduler.pending = ∑ i ∈ Finset.range σ.nextQueue, (σ.queues i).unreleased.length
  bytes : σ.scheduler.bytes = ∑ i ∈ Finset.range σ.nextQueue, (σ.queues i).unreleased.sum
  limit : σ.scheduler.bytes ≤ 64 * 1024 * 1024

/-- One queue is exchanged for another. -/
theorem unreleased_exchange (hi : i < σ.nextQueue) :
    ∃ length sum,
      ∑ j ∈ Finset.range σ.nextQueue, (σ.queues j).unreleased.length = (σ.queues i).unreleased.length + length ∧
      ∑ j ∈ Finset.range σ.nextQueue, (σ.queues j).unreleased.sum = (σ.queues i).unreleased.sum + sum ∧
      ∀ queue : SerialCommandQueue,
        ∑ j ∈ Finset.range σ.nextQueue, (Function.update σ.queues i queue j).unreleased.length =
          queue.unreleased.length + length ∧
        ∑ j ∈ Finset.range σ.nextQueue, (Function.update σ.queues i queue j).unreleased.sum =
          queue.unreleased.sum + sum := by
  have hmem := Finset.mem_range.mpr hi
  obtain ⟨length, hlength, hsetLength⟩ := sum_exchange (f := σ.queues) (fun _ q => q.unreleased.length) hmem
  obtain ⟨sum, hsum, hsetSum⟩ := sum_exchange (f := σ.queues) (fun _ q => q.unreleased.sum) hmem
  exact ⟨length, sum, hlength, hsum, fun queue => ⟨hsetLength queue, hsetSum queue⟩⟩

theorem Accounted.exchange (h : σ.Accounted) (hi : i < σ.nextQueue) {queue : SerialCommandQueue} {scheduler : BusinessScheduler}
    (hpending : scheduler.pending + (σ.queues i).unreleased.length = σ.scheduler.pending + queue.unreleased.length)
    (hbytes : scheduler.bytes + (σ.queues i).unreleased.sum = σ.scheduler.bytes + queue.unreleased.sum)
    (hlimit : scheduler.bytes ≤ 64 * 1024 * 1024) : Accounted { σ.setQueue i queue with scheduler } := by
  obtain ⟨length, sum, hlength, hsum, hset⟩ := unreleased_exchange hi
  have hbefore := h.pending
  have hbefore' := h.bytes
  refine ⟨?_, ?_, hlimit⟩
  · refine Eq.trans ?_ (hset queue).1.symm
    dsimp only
    omega
  · refine Eq.trans ?_ (hset queue).2.symm
    dsimp only
    omega

theorem Accounted.setQueue (h : σ.Accounted) (hi : i < σ.nextQueue) {queue : SerialCommandQueue}
    (hload : queue.unreleased = (σ.queues i).unreleased) : (σ.setQueue i queue).Accounted :=
  h.exchange hi (by rw [hload]) (by rw [hload]) h.limit

theorem reserve_spec {scheduler scheduler' : BusinessScheduler} {terminal : Bool} {bytes : Nat}
    (h : scheduler.reserve terminal bytes = some scheduler') (hlimit : scheduler.bytes ≤ 64 * 1024 * 1024) :
    scheduler'.pending = scheduler.pending + 1 ∧ scheduler'.bytes = scheduler.bytes + bytes ∧
      scheduler'.bytes ≤ 64 * 1024 * 1024 ∧ (terminal = false → scheduler'.pending ≤ 2048) := by
  unfold BusinessScheduler.reserve at h
  split at h
  · cases h
  · next hadmits =>
    cases h
    simp only [Bool.not_eq_true, Bool.or_eq_false_iff, Bool.and_eq_false_iff, Bool.not_eq_false', decide_eq_false_iff_not,
      not_lt, not_le] at hadmits
    obtain ⟨hfull, hroom⟩ := hadmits
    refine ⟨rfl, rfl, ?_, fun hterminal => ?_⟩
    · dsimp only
      omega
    · rcases hfull with hterminal' | hpending
      · rw [hterminal] at hterminal'
        cases hterminal'
      · exact hpending

theorem accounted_submit (h : σ.Accounted) (hi : i < σ.nextQueue) {e : Entry} (hstep : σ.submit i e = some σ') :
    σ'.Accounted := by
  obtain ⟨-, scheduler, hreserve, rfl⟩ := submit_cases hstep
  obtain ⟨hpending, hbytes, hlimit, -⟩ := reserve_spec hreserve h.limit
  have hload := Lane.unreleased_push (σ.queues i) e
  have hexchange : Accounted { σ.setQueue i ((σ.queues i).push e) with scheduler } := by
    refine h.exchange hi ?_ ?_ hlimit
    · rw [hload, List.length_append, hpending, List.length_singleton]
      omega
    · rw [hload, List.sum_append, hbytes, List.sum_singleton]
      omega
  exact ⟨hexchange.pending, hexchange.bytes, hexchange.limit⟩

theorem Accounted.covers (h : σ.Accounted) (hi : i < σ.nextQueue) :
    (σ.queues i).unreleased.length ≤ σ.scheduler.pending ∧ (σ.queues i).unreleased.sum ≤ σ.scheduler.bytes := by
  obtain ⟨length, sum, hlength, hsum, -⟩ := unreleased_exchange hi
  have hbefore := h.pending
  have hbefore' := h.bytes
  omega

/-- Neither counter of the scheduler underflows. -/
theorem Accounted.releasing (h : σ.Accounted) (hi : i < σ.nextQueue) {bytes : Nat}
    (hreleasing : (σ.queues i).releasing = some bytes) : 1 ≤ σ.scheduler.pending ∧ bytes ≤ σ.scheduler.bytes := by
  have hcovers := h.covers hi
  rw [Lane.unreleased_of_releasing hreleasing, List.length_cons, List.sum_cons] at hcovers
  omega

theorem accounted_release (h : σ.Accounted) (hi : i < σ.nextQueue) (hstep : σ.release i = some σ') : σ'.Accounted := by
  obtain ⟨bytes, hreleasing, rfl⟩ := release_cases hstep
  have hload := Lane.unreleased_of_releasing hreleasing
  have hunder := h.releasing hi hreleasing
  have hexchange : Accounted
      { σ.setQueue i { σ.queues i with releasing := none } with scheduler := σ.scheduler.release bytes } := by
    refine h.exchange hi ?_ ?_ ((Nat.sub_le _ _).trans h.limit)
    · rw [hload, List.length_cons]
      simp only [BusinessScheduler.release]
      omega
    · rw [hload, List.sum_cons]
      simp only [BusinessScheduler.release]
      omega
  exact ⟨hexchange.pending, hexchange.bytes, hexchange.limit⟩

theorem accounted_create (h : σ.Accounted) (capacity : Nat) : (σ.create capacity).Accounted := by
  have hsum (f : SerialCommandQueue → Nat) (hempty : f {} = 0) :
      ∑ i ∈ Finset.range (σ.nextQueue + 1), f (Function.update σ.queues σ.nextQueue {} i) =
        ∑ i ∈ Finset.range σ.nextQueue, f (σ.queues i) := by
    rw [Finset.sum_range_succ, Function.update_self, hempty, add_zero]
    refine Finset.sum_congr rfl fun j hj => ?_
    rw [Function.update_of_ne (Finset.mem_range.mp hj).ne]
  refine ⟨?_, ?_, h.limit⟩
  · exact h.pending.trans (hsum (fun q => q.unreleased.length) rfl).symm
  · exact h.bytes.trans (hsum (fun q => q.unreleased.sum) rfl).symm

/-- What is seen of a command changes nothing else. -/
theorem Accounted.pump (h : σ.Accounted) (hi : i < σ.nextQueue) {queue : SerialCommandQueue}
    (hload : queue.pump.unreleased = (σ.queues i).unreleased) : (σ.pump i queue).Accounted := by
  have hset := h.setQueue hi hload
  unfold Scheduling.pump
  split
  · exact ⟨hset.pending, hset.bytes, hset.limit⟩
  · exact hset

theorem accounted_runHandler (h : σ.Accounted) (hi : i < σ.nextQueue) (hstep : σ.runHandler i = some σ') :
    σ'.Accounted := by
  unfold runHandler at hstep
  dsimp only at hstep
  split at hstep
  swap
  · cases hstep
  next hfree =>
  split at hstep
  · cases hstep
  · next e rest hstrand =>
    cases hstep
    exact h.pump hi (unreleased_command hstrand)
  · next c rest hstrand =>
    cases hstep
    exact h.setQueue hi (unreleased_resume _ hstrand)
  · next bytes rest hstrand =>
    cases hstep
    have hreleasing := Option.isNone_iff_eq_none.mp (Bool.and_eq_true_iff.mp hfree).1
    exact h.pump hi (unreleased_closing hstrand hreleasing)

theorem accounted_stepOp (h : σ.Accounted) (hi : i < σ.nextQueue) {next : Turn} (hstep : σ.stepOp i next = some σ') :
    σ'.Accounted := by
  unfold stepOp at hstep
  split at hstep
  · cases hstep
  next op hop =>
  have hset (op' : Operation) (hbytes : op'.entry.bytes = op.entry.bytes) :
      (σ.setQueue i ((σ.queues i).setActive op')).Accounted := h.setQueue hi (unreleased_setActive hop hbytes)
  split at hstep
  · cases hstep
    cases next with
    | wait =>
      have hwait := hset (op.suspend false) rfl
      exact ⟨hwait.pending, hwait.bytes, hwait.limit⟩
    | sleep pool body =>
      exact hset _ rfl
    | finish =>
      have hended := hset op.ended rfl
      simp only [turn, finish]
      split <;> exact ⟨hended.pending, hended.bytes, hended.limit⟩
  · split at hstep
    · cases hstep
      exact hset _ rfl
    · cases hstep
  · cases hstep
  · cases hstep
    have hsettled := h.setQueue hi (Lane.unreleased_settle hop)
    exact ⟨hsettled.pending, hsettled.bytes, hsettled.limit⟩
  · next hstage =>
    cases hstep
    exact h.setQueue hi (same_leave hop hstage).unreleased

theorem accounted_call (h : σ.Accounted) (hi : i < σ.nextQueue) {id phase : Nat} {next : Op Unit}
    (hstep : σ.call i id phase next = some σ') : σ'.Accounted := by
  unfold call at hstep
  split at hstep
  · cases hstep
  · cases hstep
    exact h
  · cases hstep
    let c : Completion := ⟨{ queue := i, op := id, phase, handed := false, terminal := false }, next⟩
    have hset := h.setQueue hi (same_post (σ.queues i) c).unreleased
    exact ⟨hset.pending, hset.bytes, hset.limit⟩

/-! ## Every step -/

/-- A step on queue `i` leaves the others alone. -/
structure On (i : Nat) (σ σ' : Scheduling) : Prop where
  others : ∀ j, j ≠ i → σ'.lane j = σ.lane j
  nextQueue : σ'.nextQueue = σ.nextQueue
  capacities : σ'.capacities = σ.capacities

theorem on_setQueue (queue : SerialCommandQueue) : On i σ (σ.setQueue i queue) :=
  ⟨fun _ hne => lane_setQueue_ne hne queue, rfl, rfl⟩

theorem on_pump (queue : SerialCommandQueue) : On i σ (σ.pump i queue) := by
  refine ⟨fun _ hne => lane_pump_ne hne queue, ?_, ?_⟩
  · unfold pump
    split <;> rfl
  · unfold pump
    split <;> rfl

theorem on_submit {e : Entry} (hstep : σ.submit i e = some σ') : On i σ σ' := by
  obtain ⟨-, scheduler, -, rfl⟩ := submit_cases hstep
  refine ⟨fun j hne => ?_, rfl, rfl⟩
  simp only [lane, setQueue, setDiary, Function.update_of_ne hne]

theorem on_runHandler (hstep : σ.runHandler i = some σ') : On i σ σ' := by
  unfold runHandler at hstep
  dsimp only at hstep
  split at hstep
  swap
  · cases hstep
  split at hstep <;> cases hstep
  · exact on_pump _
  · exact on_setQueue _
  · exact on_pump _

theorem on_turn (op : Operation) (next : Turn) : On i σ (σ.turn i op next) := by
  cases next with
  | wait =>
    refine ⟨fun j hne => ?_, rfl, rfl⟩
    simp only [turn, wait]
    rw [lane_setClosure_ne hne, lane_setQueue_ne hne]
  | sleep pool body => exact on_setQueue _
  | finish =>
    simp only [turn, finish]
    refine ⟨fun j hne => ?_, ?_, ?_⟩
    · rw [lane_setQueue_ne hne]
      split
      · rw [lane_note_ne hne, lane_note_ne hne]
      · rw [lane_note_ne hne]
    · split <;> rfl
    · split <;> rfl

theorem on_stepOp {next : Turn} (hstep : σ.stepOp i next = some σ') : On i σ σ' := by
  unfold stepOp at hstep
  split at hstep
  · cases hstep
  next op _ =>
  split at hstep
  · cases hstep
    exact on_turn op next
  · split at hstep <;> cases hstep
    exact on_setQueue _
  · cases hstep
  · cases hstep
    refine ⟨fun j hne => ?_, rfl, rfl⟩
    unfold settle
    rw [lane_setQueue_ne hne, lane_setDiary_ne hne]
  · cases hstep
    exact on_setQueue _

theorem on_release (hstep : σ.release i = some σ') : On i σ σ' := by
  obtain ⟨bytes, -, rfl⟩ := release_cases hstep
  refine ⟨fun j hne => ?_, rfl, rfl⟩
  simp only [lane, setQueue, setDiary, Function.update_of_ne hne]

theorem on_call {id phase : Nat} {next : Op Unit} (hstep : σ.call i id phase next = some σ') : On i σ σ' := by
  unfold call at hstep
  split at hstep
  · cases hstep
  · cases hstep
    exact ⟨fun _ _ => rfl, rfl, rfl⟩
  · cases hstep
    refine ⟨fun j hne => ?_, rfl, rfl⟩
    rw [lane_setClosure_ne hne, lane_setQueue_ne hne]

structure Sound (σ : Scheduling) : Prop where
  lanes : ∀ i, (σ.lane i).Kept
  unmade : ∀ i, σ.nextQueue ≤ i → σ.lane i = Lane.unmade
  accounted : σ.Accounted

theorem Sound.on (h : σ.Sound) (hi : i < σ.nextQueue) (hon : On i σ σ') (hlane : (σ'.lane i).Kept)
    (haccounted : σ'.Accounted) : σ'.Sound := by
  refine ⟨fun j => ?_, fun j hj => ?_, haccounted⟩
  · rcases eq_or_ne j i with rfl | hne
    · exact hlane
    · rw [hon.others j hne]
      exact h.lanes j
  · rw [hon.nextQueue] at hj
    rw [hon.others j (hi.trans_le hj).ne']
    exact h.unmade j hj

theorem lane_create (h : σ.Sound) (capacity j : Nat) : (σ.create capacity).lane j = σ.lane j := by
  rcases eq_or_ne j σ.nextQueue with rfl | hne
  · have hunmade := h.unmade _ le_rfl
    rw [hunmade]
    simp only [lane, Lane.unmade, Lane.mk.injEq] at hunmade ⊢
    exact ⟨Function.update_self _ _ _, hunmade.2⟩
  · simp only [lane, create, Function.update_of_ne hne]

theorem sound_create (h : σ.Sound) (capacity : Nat) : (σ.create capacity).Sound := by
  refine ⟨fun j => ?_, fun j hj => ?_, accounted_create h.accounted capacity⟩
  · rw [lane_create h]
    exact h.lanes j
  · rw [lane_create h]
    exact h.unmade j ((Nat.le_succ _).trans hj)

/-- A queue without a closure cannot be resumed; before it is made it has none. -/
theorem Sound.made_of_closure (h : σ.Sound) {id phase : Nat} (hsome : σ.closures i id phase ≠ none) : i < σ.nextQueue := by
  by_contra hout
  have hnone := congrArg Lane.closures (h.unmade i (not_lt.mp hout))
  exact hsome (congrFun (congrFun hnone id) phase)

theorem made_of_call (h : σ.Sound) {id phase : Nat} {next : Op Unit} (hstep : σ.call i id phase next = some σ') :
    i < σ.nextQueue := by
  have hclosure : σ.closures i id phase ≠ none := fun hnone => by simp [call, hnone] at hstep
  exact h.made_of_closure hclosure

theorem Sound.step (h : σ.Sound) {e : Event} (hstep : σ.step e = some σ') : σ'.Sound := by
  cases e with
  | create capacity =>
    cases hstep
    exact sound_create h capacity
  | submit i entry =>
    simp only [Scheduling.step] at hstep
    split at hstep
    · next hi => exact h.on hi (on_submit hstep) (kept_submit (h.lanes i) hstep) (accounted_submit h.accounted hi hstep)
    · cases hstep
  | handler i =>
    simp only [Scheduling.step] at hstep
    split at hstep
    · next hi =>
      exact h.on hi (on_runHandler hstep) (kept_runHandler (h.lanes i) hstep) (accounted_runHandler h.accounted hi hstep)
    · cases hstep
  | step i next =>
    simp only [Scheduling.step] at hstep
    split at hstep
    · next hi => exact h.on hi (on_stepOp hstep) (kept_stepOp (h.lanes i) hstep) (accounted_stepOp h.accounted hi hstep)
    · cases hstep
  | release i =>
    simp only [Scheduling.step] at hstep
    split at hstep
    · next hi => exact h.on hi (on_release hstep) (kept_release (h.lanes i) hstep) (accounted_release h.accounted hi hstep)
    · cases hstep
  | call i id phase next =>
    have hcall : σ.call i id phase next = some σ' := hstep
    have hi := made_of_call h hcall
    exact h.on hi (on_call hcall) (kept_call (h.lanes i) hcall) (accounted_call h.accounted hi hcall)

theorem sound_start : Sound {} := ⟨fun _ => Lane.kept_unmade, fun _ _ => rfl, rfl, rfl, Nat.zero_le _⟩

theorem sound_of_reachable (h : σ.Reachable) : σ.Sound := by
  refine h.invariant sound_start ?_
  intro σ e σ' hσ _ hstep
  exact hσ.step hstep

end Scheduling

end SyncRtc
