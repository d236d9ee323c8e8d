import SyncRtc.Laws.Schedulers

/-!
# In turn

The promise of `SerialCommandQueue`. Whatever the commands do and whoever calls their closures, they are carried out in
the order of their acceptance, each once, with its `done` before the next one; the counters never leave their ranges;
and where a queue stands still everything has been carried out, or some closure of a `Wait` has not been called.
-/

set_option autoImplicit false

namespace SyncRtc

open SerialCommandQueue

namespace Scheduling

variable {σ σ' : Scheduling} {i : Nat}

/-- The queue that an event is about. -/
def Event.at : Event → Option Nat
  | .create _ => none
  | .submit i _ | .handler i | .step i _ | .release i | .call i _ _ _ => some i

/-- The strand of queue `i` runs. -/
def Event.isOwn (i : Nat) : Event → Bool
  | .handler j | .step j _ | .release j => decide (j = i)
  | _ => false

theorem Event.at_of_isOwn {e : Event} (he : e.isOwn i = true) : e.at = some i := by
  cases e with
  | handler j | step j _ | release j => exact congrArg some (of_decide_eq_true he)
  | _ => cases he

theorem on_step {e : Event} (hstep : σ.step e = some σ') (hat : e.at = some i) : On i σ σ' := by
  cases e with
  | create capacity => cases hat
  | call j id phase next =>
    cases hat
    exact on_call hstep
  | _ =>
    cases hat
    simp only [Scheduling.step] at hstep
    split at hstep
    · first
      | exact on_submit hstep
      | exact on_runHandler hstep
      | exact on_stepOp hstep
      | exact on_release hstep
    · cases hstep

theorem lane_step_ne (h : σ.Sound) {e : Event} (hstep : σ.step e = some σ') (hne : e.at ≠ some i) :
    σ'.lane i = σ.lane i := by
  cases hat : e.at with
  | none =>
    cases e with
    | create capacity =>
      cases hstep
      exact lane_create h capacity i
    | _ => cases hat
  | some j => exact (on_step hstep hat).others i fun hij => hne (hij ▸ hat)

theorem active_pump {queue : SerialCommandQueue} {op : Operation} (hop : queue.active = some op) :
    queue.pump.active = some op := by
  unfold SerialCommandQueue.pump
  simp only [hop]

theorem queues_setQueue (queue : SerialCommandQueue) : (σ.setQueue i queue).queues i = queue := Function.update_self _ _ _

theorem queues_pump (queue : SerialCommandQueue) : (σ.pump i queue).queues i = queue.pump := by
  unfold Scheduling.pump
  split <;> exact queues_setQueue _

/-! ## Only its own closure resumes an operation -/

/-- A suspended operation stays suspended, unless the handler of its own closure is run. -/
theorem resumed (h : σ.Sound) {op : Operation} (hop : (σ.queues i).active = some op) (hsuspended : op.isSuspended = true)
    {e : Event} (hstep : σ.step e = some σ') :
    (σ'.queues i).active = some op ∨
      e = .handler i ∧ ∃ c rest, (σ.queues i).strand = .resume c :: rest ∧ c.wait.op = op.id ∧ c.wait.phase = op.phase := by
  obtain ⟨handed, hstage⟩ := Operation.isSuspended_iff.mp hsuspended
  by_cases hat : e.at = some i
  swap
  · have hlane := congrArg Lane.queue (lane_step_ne h hstep hat)
    exact .inl ((congrArg SerialCommandQueue.active hlane).trans hop)
  cases e with
  | create capacity => cases hat
  | submit j entry =>
    cases hat
    simp only [Scheduling.step] at hstep
    split at hstep
    · obtain ⟨-, scheduler, -, rfl⟩ := submit_cases hstep
      exact .inl ((congrArg SerialCommandQueue.active (queues_setQueue _)).trans hop)
    · cases hstep
  | handler j =>
    cases hat
    simp only [Scheduling.step] at hstep
    split at hstep
    swap
    · cases hstep
    unfold runHandler at hstep
    dsimp only at hstep
    split at hstep
    swap
    · cases hstep
    split at hstep
    · cases hstep
    · next entry rest hstrand =>
      cases hstep
      refine .inl ?_
      rw [queues_pump]
      exact active_pump hop
    · next c rest hstrand =>
      obtain ⟨op', hop', -, hid, hphase, -⟩ := (h.lanes i).wakes.head hstrand
      cases hop.symm.trans hop'
      exact .inr ⟨rfl, c, rest, hstrand, hid.symm, hphase.symm⟩
    · next bytes rest hstrand =>
      cases hstep
      refine .inl ?_
      rw [queues_pump]
      exact active_pump hop
  | step j next =>
    cases hat
    simp only [Scheduling.step, stepOp, hop, hstage] at hstep
    split at hstep <;> cases hstep
  | release j =>
    cases hat
    simp only [Scheduling.step] at hstep
    split at hstep
    · obtain ⟨bytes, -, rfl⟩ := release_cases hstep
      exact .inl ((congrArg SerialCommandQueue.active (queues_setQueue _)).trans hop)
    · cases hstep
  | call j id phase next =>
    cases hat
    simp only [Scheduling.step, call] at hstep
    split at hstep
    · cases hstep
    · cases hstep
      exact .inl hop
    · cases hstep
      exact .inl ((congrArg SerialCommandQueue.active (queues_setQueue _)).trans hop)

/-- A closure that was called before, or is of a `Wait` that is over, does nothing. -/
theorem late (h : σ.Sound) {id phase : Nat} {delivered : Bool} (hclosure : σ.closures i id phase = some delivered)
    (hlate : delivered = true ∨ ¬ (σ.queues i).Awaits id phase) (next : Op Unit) : σ.call i id phase next = some σ := by
  have hdelivered : delivered = true := by
    rcases hlate with hdelivered | hover
    · exact hdelivered
    · cases delivered with
      | true => rfl
      | false => exact absurd ((h.lanes i).wakes.opened id phase hclosure) hover
  simp only [call, hclosure, hdelivered]

/-! ## Nothing is left behind -/

/-- The strand of queue `i` can run. -/
def Moves (σ : Scheduling) (i : Nat) : Prop := ∃ e, e.isOwn i = true ∧ (σ.step e).isSome = true

/-- The operation of queue `i` waits for a closure that nobody has called. -/
def Hangs (σ : Scheduling) (i : Nat) : Prop :=
  ∃ op, (σ.queues i).active = some op ∧ op.isSuspended = true ∧ σ.closures i op.id op.phase = some false

theorem made_of_unreleased (h : σ.Sound) (hsome : (σ.queues i).unreleased ≠ []) : i < σ.nextQueue := by
  by_contra hout
  have hqueue := congrArg Lane.queue (h.unmade i (not_lt.mp hout))
  refine hsome ?_
  rw [show σ.queues i = {} from hqueue]
  rfl

theorem moves_handler (hi : i < σ.nextQueue) (hfree : (σ.queues i).isFree = true) (hstrand : (σ.queues i).strand ≠ []) :
    σ.Moves i := by
  refine ⟨.handler i, decide_eq_true rfl, ?_⟩
  simp only [Scheduling.step, if_pos hi, runHandler]
  rw [if_pos hfree]
  split
  · next hnil => exact absurd hnil hstrand
  · rfl
  · rfl
  · rfl

/-- A queue that holds a command goes on, or a closure has not been called. -/
theorem goesOn (h : σ.Sound) (hsome : (σ.queues i).unreleased ≠ []) : σ.Moves i ∨ σ.Hangs i := by
  have hi := made_of_unreleased h hsome
  have hkept := h.lanes i
  cases hreleasing : (σ.queues i).releasing with
  | some bytes =>
    refine .inl ⟨.release i, decide_eq_true rfl, ?_⟩
    simp only [Scheduling.step, if_pos hi, release, hreleasing, Option.isSome_some]
  | none =>
    cases hactive : (σ.queues i).active with
    | none =>
      have hfree : (σ.queues i).isFree = true := by simp [isFree, hreleasing, hactive]
      refine .inl (moves_handler hi hfree fun hnil => ?_)
      by_cases hcommands : (σ.queues i).commands = []
      · exact hsome (by simp [unreleased, waiting, hreleasing, hactive, hnil, hcommands])
      · obtain ⟨bytes, hbytes⟩ := hkept.pumped hactive hcommands
        exact List.not_mem_nil (hnil ▸ hbytes : Posted.closing bytes ∈ [])
    | some op =>
      have hmoves (hsome : (σ.stepOp i .finish).isSome = true) : σ.Moves i := by
        refine ⟨.step i .finish, decide_eq_true rfl, ?_⟩
        simp only [Scheduling.step, if_pos hi, hsome]
      cases hstage : op.stage with
      | suspended handed =>
        have hsuspended : op.isSuspended = true := by simp [Operation.isSuspended, hstage]
        obtain ⟨delivered, hclosure, hcount⟩ := hkept.wakes.awaited op hactive hsuspended
        cases delivered with
        | false => exact .inr ⟨op, hactive, hsuspended, hclosure⟩
        | true =>
          have hfree : (σ.queues i).isFree = true := by simp [isFree, hreleasing, hactive, Operation.isAway, hstage]
          refine .inl (moves_handler hi hfree fun hnil => ?_)
          have hzero : (σ.queues i).strand.countP Posted.isResume = 0 := by rw [hnil]; rfl
          exact absurd (hzero.symm.trans hcount) (by simp)
      | retrying pool body =>
        exact .inl (hmoves (by simp only [stepOp, hactive, hstage, hreleasing, Option.isNone_none, if_true, Option.isSome_some]))
      | running body | finishing | leaving =>
        exact .inl (hmoves (by simp only [stepOp, hactive, hstage, Option.isSome_some]))

theorem remains_nil {accepted : List Entry} {n : Nat} (h : Lane.Remains accepted n []) : n = accepted.length := by
  obtain ⟨gone, hgone, hn⟩ := h
  have hlength := congrArg List.length hgone
  simp only [List.length_map, List.append_nil] at hlength
  exact hn.symm.trans hlength.symm

/-- All that the queue has accepted has been carried out, and nobody counts any of it. -/
structure AtRest (σ : Scheduling) (i : Nat) : Prop where
  marks : (σ.diaries i).marks = (σ.diaries i).accepted.flatMap Entry.marks
  settled : (σ.diaries i).settled = (σ.diaries i).accepted.length
  released : (σ.diaries i).released = (σ.diaries i).accepted.length
  counted : (σ.queues i).pending = 0 ∧ (σ.queues i).bytes = 0

theorem atRest_of_unreleased (h : σ.Sound) (hnone : (σ.queues i).unreleased = []) : σ.AtRest i := by
  have hbooks := (h.lanes i).books
  simp only [unreleased, List.append_eq_nil_iff, List.map_eq_nil_iff] at hnone
  obtain ⟨⟨⟨hreleasing, hclosing⟩, hactive⟩, hwaiting⟩ := hnone
  have hidle : (σ.queues i).active = none := by
    cases hop : (σ.queues i).active with
    | none => rfl
    | some op =>
      rw [hop] at hactive
      cases hactive
  have hcurrent : (σ.queues i).current = [] := by simp [current, hidle]
  have hunsettled : (σ.queues i).unsettled = [] := by simp [unsettled, hidle, hwaiting]
  have hunreleased : (σ.queues i).unreleased = [] := by simp [unreleased, hidle, hwaiting, hreleasing, hclosing]
  obtain ⟨past, haccepted, hmarks⟩ := hbooks.order
  have hsettled := hbooks.settled
  have hreleased := hbooks.released
  have hpending := hbooks.pending
  have hbytes := hbooks.bytes
  have hqueue : (σ.lane i).queue = σ.queues i := rfl
  rw [hqueue, hunsettled] at hsettled hpending hbytes
  rw [hqueue, hunreleased] at hreleased
  rw [hqueue, hcurrent, hwaiting, List.append_nil, List.append_nil] at haccepted
  rw [hqueue, hcurrent, List.map_nil, List.append_nil, ← haccepted] at hmarks
  exact ⟨hmarks, remains_nil hsettled, remains_nil hreleased, hpending, hbytes⟩

/-! ## Everything is carried out in the end -/

def Mark.isBegan : Mark → Bool
  | .began _ => true
  | _ => false

def Mark.isEnded : Mark → Bool
  | .ended _ => true
  | _ => false

/-- A diary is only written to. -/
structure Grows (diary diary' : Diary) : Prop where
  accepted : diary.accepted <+: diary'.accepted
  marks : diary.marks <+: diary'.marks

theorem Grows.rfl {diary : Diary} : Grows diary diary := ⟨List.prefix_rfl, List.prefix_rfl⟩

theorem Grows.trans {diary diary' diary'' : Diary} (h : Grows diary diary') (h' : Grows diary' diary'') :
    Grows diary diary'' := ⟨h.accepted.trans h'.accepted, h.marks.trans h'.marks⟩

theorem diaries_setDiary (diary : Diary) : (σ.setDiary i diary).diaries i = diary := Function.update_self _ _ _

theorem grows_note (mark : Mark) : Grows (σ.diaries i) ((σ.note i mark).diaries i) := by
  rw [note, diaries_setDiary]
  exact ⟨List.prefix_rfl, List.prefix_append _ _⟩

theorem grows_pump (queue : SerialCommandQueue) : Grows (σ.diaries i) ((σ.pump i queue).diaries i) := by
  unfold Scheduling.pump
  split
  · exact grows_note _
  · exact .rfl

theorem grows_turn (op : Operation) (next : Turn) : Grows (σ.diaries i) ((σ.turn i op next).diaries i) := by
  cases next with
  | wait => exact .rfl
  | sleep pool body => exact .rfl
  | finish =>
    simp only [turn, finish]
    split
    · exact (grows_note _).trans (grows_note _)
    · exact grows_note _

theorem grows_runHandler (hstep : σ.runHandler i = some σ') : Grows (σ.diaries i) (σ'.diaries i) := by
  unfold runHandler at hstep
  dsimp only at hstep
  split at hstep
  swap
  · cases hstep
  split at hstep <;> cases hstep
  · exact grows_pump _
  · exact .rfl
  · exact grows_pump _

theorem grows_stepOp {next : Turn} (hstep : σ.stepOp i next = some σ') : Grows (σ.diaries i) (σ'.diaries i) := by
  unfold stepOp at hstep
  split at hstep
  · cases hstep
  next op _ =>
  split at hstep
  · cases hstep
    exact grows_turn op next
  · split at hstep <;> cases hstep
    exact .rfl
  · cases hstep
  · cases hstep
    simp only [settle, setQueue, diaries_setDiary]
    exact ⟨List.prefix_rfl, List.prefix_rfl⟩
  · cases hstep
    exact .rfl

theorem grows_step (h : σ.Sound) {e : Event} (hstep : σ.step e = some σ') : Grows (σ.diaries i) (σ'.diaries i) := by
  by_cases hat : e.at = some i
  swap
  · have hlane := congrArg Lane.diary (lane_step_ne h hstep hat)
    have hdiary : σ'.diaries i = σ.diaries i := hlane
    rw [hdiary]
    exact .rfl
  cases e with
  | create capacity => cases hat
  | call j id phase next =>
    cases hat
    simp only [Scheduling.step, call] at hstep
    split at hstep
    · cases hstep
    · cases hstep
      exact .rfl
    · cases hstep
      exact .rfl
  | submit j entry =>
    cases hat
    simp only [Scheduling.step] at hstep
    split at hstep
    · obtain ⟨-, scheduler, -, rfl⟩ := submit_cases hstep
      simp only [setQueue, diaries_setDiary]
      exact ⟨List.prefix_append _ _, List.prefix_rfl⟩
    · cases hstep
  | handler j =>
    cases hat
    simp only [Scheduling.step] at hstep
    split at hstep
    · exact grows_runHandler hstep
    · cases hstep
  | step j next =>
    cases hat
    simp only [Scheduling.step] at hstep
    split at hstep
    · exact grows_stepOp hstep
    · cases hstep
  | release j =>
    cases hat
    simp only [Scheduling.step] at hstep
    split at hstep
    · obtain ⟨bytes, -, rfl⟩ := release_cases hstep
      simp only [setQueue, diaries_setDiary]
      exact ⟨List.prefix_rfl, List.prefix_rfl⟩
    · cases hstep

theorem isEnded_marks (past : List Entry) : (past.flatMap Entry.marks).countP Mark.isEnded = past.length := by
  induction past with
  | nil => rfl
  | cons e past ih =>
    rw [List.flatMap_cons, List.countP_append, ih, List.length_cons, Nat.add_comm]
    congr 1
    unfold Entry.marks
    split <;> rfl

theorem isBegan_marks (past : List Entry) : (past.flatMap Entry.marks).countP Mark.isBegan = past.length := by
  induction past with
  | nil => rfl
  | cons e past ih =>
    rw [List.flatMap_cons, List.countP_append, ih, List.length_cons, Nat.add_comm]
    congr 1
    unfold Entry.marks
    split <;> rfl

/-- How many commands of queue `i` have ended. -/
def ended (σ : Scheduling) (i : Nat) : Nat := (σ.diaries i).marks.countP Mark.isEnded

theorem ended_spec (h : σ.Sound) : ∃ past, past.length = σ.ended i ∧
    (σ.diaries i).accepted = past ++ (σ.queues i).current ++ (σ.queues i).waiting ∧
    (σ.diaries i).marks = past.flatMap Entry.marks ++ (σ.queues i).current.map .began ∧
    (σ.diaries i).marks.countP Mark.isBegan = past.length + (σ.queues i).current.length := by
  obtain ⟨past, haccepted, hmarks⟩ := (h.lanes i).books.order
  have hmarks' : (σ.diaries i).marks = past.flatMap Entry.marks ++ (σ.queues i).current.map .began := hmarks
  refine ⟨past, ?_, haccepted, hmarks, ?_⟩
  · have hnone : ((σ.queues i).current.map Mark.began).countP Mark.isEnded = 0 := by
      simp [List.countP_eq_zero, Mark.isEnded]
    rw [ended, hmarks', List.countP_append, isEnded_marks, hnone, Nat.add_zero]
  · have hall : ((σ.queues i).current.map Mark.began).countP Mark.isBegan = (σ.queues i).current.length := by
      rw [List.countP_map]
      exact List.countP_eq_length.mpr fun _ _ => rfl
    rw [hmarks', List.countP_append, isBegan_marks, hall]

/-- Between two commands: none is carried out, and some wait. -/
def between (queue : SerialCommandQueue) : Bool := queue.current.isEmpty && !queue.waiting.isEmpty

theorem between_iff {queue : SerialCommandQueue} :
    between queue = true ↔ queue.current = [] ∧ queue.waiting ≠ [] := by
  simp [between]

/-- What the strand has to do before it begins the next command. -/
def ahead (queue : SerialCommandQueue) : Nat :=
  (match queue.active.map Operation.stage with
    | some .finishing => 4
    | some .leaving => 3
    | _ => 0) +
  2 * (queue.strand.filterMap Posted.closing?).length + queue.releasing.toList.length

/-- It is nearer with each step of the strand, until the next command has begun. -/
def distance (queue : SerialCommandQueue) : Nat := if between queue then ahead queue + 1 else 0

theorem isOver_of_current {queue : SerialCommandQueue} {op : Operation} (hop : queue.active = some op)
    (hcurrent : queue.current = []) : op.isOver = true := by
  cases hover : op.isOver with
  | true => rfl
  | false => simp [current, hop, Operation.current, hover] at hcurrent

theorem awake_of_current {queue : SerialCommandQueue} (hcurrent : queue.current = []) (op : Operation)
    (hop : queue.active = some op) : op.isSuspended = false := by
  have hover := isOver_of_current hop hcurrent
  unfold Operation.isOver at hover
  unfold Operation.isSuspended
  split
  · next hstage => simp [hstage] at hover
  · rfl

theorem distance_lt {queue queue' : SerialCommandQueue} (hbetween : between queue = true)
    (h : between queue' = true → ahead queue' < ahead queue) : distance queue' < distance queue := by
  unfold distance
  rw [if_pos hbetween]
  split
  · next hbetween' => exact Nat.succ_lt_succ (h hbetween')
  · exact Nat.succ_pos _

theorem ahead_pump {queue : SerialCommandQueue} (hbetween : between queue.pump = true) : ahead queue.pump = ahead queue := by
  unfold SerialCommandQueue.pump at hbetween ⊢
  split
  · next e rest hactive hcommands =>
    rw [hactive, hcommands] at hbetween
    cases (between_iff.mp hbetween).1
  · rfl

theorem not_between_pump {queue : SerialCommandQueue} (hactive : queue.active = none) (hcommands : queue.commands ≠ []) :
    between queue.pump = false := by
  obtain ⟨e, rest, hcons⟩ := List.exists_cons_of_ne_nil hcommands
  rw [pump_of_none hactive hcons]
  rfl

theorem distance_runHandler (h : σ.Sound) (hbetween : between (σ.queues i) = true) (hstep : σ.runHandler i = some σ') :
    distance (σ'.queues i) < distance (σ.queues i) := by
  have hcurrent := (between_iff.mp hbetween).1
  refine distance_lt hbetween fun hbetween' => ?_
  unfold runHandler at hstep
  dsimp only at hstep
  split at hstep
  swap
  · cases hstep
  next hfree =>
  have hactive : (σ.queues i).active = none := by
    cases hop : (σ.queues i).active with
    | none => rfl
    | some op =>
      have hover := isOver_of_current hop hcurrent
      simp only [isFree, hop, Option.all_some, Bool.and_eq_true] at hfree
      have haway := hfree.2
      unfold Operation.isOver at hover
      unfold Operation.isAway at haway
      split at hover <;> simp_all
  split at hstep
  · cases hstep
  · next e rest hstrand =>
    cases hstep
    let queue : SerialCommandQueue := { σ.queues i with strand := rest, commands := (σ.queues i).commands ++ [e] }
    have hbegins : between queue.pump = false := not_between_pump hactive (by simp [queue])
    rw [queues_pump, hbegins] at hbetween'
    cases hbetween'
  · next c rest hstrand =>
    obtain ⟨op, hop, -⟩ := (h.lanes i).wakes.head hstrand
    cases hactive.symm.trans hop
  · next bytes rest hstrand =>
    cases hstep
    have hreleasing := Option.isNone_iff_eq_none.mp (Bool.and_eq_true_iff.mp hfree).1
    rw [queues_pump] at hbetween' ⊢
    rw [ahead_pump hbetween']
    simp only [ahead, hactive, hstrand, hreleasing, List.filterMap_cons, Posted.closing?_closing, List.length_cons,
      Option.toList_some, Option.toList_none, List.length_nil]
    omega

theorem distance_stepOp (hbetween : between (σ.queues i) = true) {next : Turn} (hstep : σ.stepOp i next = some σ') :
    distance (σ'.queues i) < distance (σ.queues i) := by
  have hcurrent := (between_iff.mp hbetween).1
  refine distance_lt hbetween fun _ => ?_
  unfold stepOp at hstep
  split at hstep
  · cases hstep
  next op hop =>
  have hover := isOver_of_current hop hcurrent
  split at hstep
  · next hstage => simp [Operation.isOver, hstage] at hover
  · next hstage => simp [Operation.isOver, hstage] at hover
  · cases hstep
  · next hstage =>
    cases hstep
    unfold settle
    rw [queues_setQueue]
    simp only [ahead, SerialCommandQueue.settle, hop, Option.map_some, hstage]
    omega
  · next hstage =>
    cases hstep
    rw [queues_setQueue]
    simp [ahead, SerialCommandQueue.leave, post, hop, hstage]
    omega

theorem distance_release (hbetween : between (σ.queues i) = true) (hstep : σ.release i = some σ') :
    distance (σ'.queues i) < distance (σ.queues i) := by
  refine distance_lt hbetween fun _ => ?_
  obtain ⟨bytes, hreleasing, rfl⟩ := release_cases hstep
  simp only [setQueue, Function.update_self]
  simp [ahead, hreleasing]

/-- The strand comes nearer to the next command. -/
theorem distance_own (h : σ.Sound) (hbetween : between (σ.queues i) = true) {e : Event} (he : e.isOwn i = true)
    (hstep : σ.step e = some σ') : distance (σ'.queues i) < distance (σ.queues i) := by
  cases e with
  | handler j =>
    cases of_decide_eq_true he
    simp only [Scheduling.step] at hstep
    split at hstep
    · exact distance_runHandler h hbetween hstep
    · cases hstep
  | step j next =>
    cases of_decide_eq_true he
    simp only [Scheduling.step] at hstep
    split at hstep
    · exact distance_stepOp hbetween hstep
    · cases hstep
  | release j =>
    cases of_decide_eq_true he
    simp only [Scheduling.step] at hstep
    split at hstep
    · exact distance_release hbetween hstep
    · cases hstep
  | _ => cases he

/-- Nobody else drives it away. -/
theorem distance_other (h : σ.Sound) (hbetween : between (σ.queues i) = true) {e : Event} (he : e.isOwn i = false)
    (hstep : σ.step e = some σ') : distance (σ'.queues i) = distance (σ.queues i) := by
  by_cases hat : e.at = some i
  swap
  · exact congrArg distance (congrArg Lane.queue (lane_step_ne h hstep hat))
  cases e with
  | create capacity => cases hat
  | submit j entry =>
    cases hat
    simp only [Scheduling.step] at hstep
    split at hstep
    · obtain ⟨-, scheduler, -, rfl⟩ := submit_cases hstep
      simp only [setQueue, Function.update_self]
      have hcurrent : ((σ.queues i).push entry).current = (σ.queues i).current := rfl
      have hbetween' : between ((σ.queues i).push entry) = true := by
        refine between_iff.mpr ⟨hcurrent.trans (between_iff.mp hbetween).1, ?_⟩
        rw [Lane.waiting_push]
        simp
      unfold distance
      rw [if_pos hbetween, if_pos hbetween']
      simp [ahead, SerialCommandQueue.push]
    · cases hstep
  | call j id phase next =>
    cases hat
    have hopened := ((h.lanes i).wakes.calm (awake_of_current (between_iff.mp hbetween).1)).1 id phase
    simp only [Scheduling.step, call] at hstep
    split at hstep
    · cases hstep
    · cases hstep
      rfl
    · next hfalse => exact absurd hfalse hopened
  | handler j | step j _ | release j =>
    cases hat
    simp [Event.isOwn] at he

/-- A run of the scheduler, from any state it can be in. -/
structure Run where
  state : Nat → Scheduling
  event : Nat → Event
  first : (state 0).Reachable
  next : ∀ n, (state n).step (event n) = some (state (n + 1))

namespace Run

variable (run : Run)

/-- What is assumed of the pool of threads, and of the commands of the queue. -/
structure Fair (i : Nat) : Prop where
  /-- A strand that always can run does. -/
  runs : ∀ n, (∀ m, n ≤ m → (run.state m).Moves i) → ∃ m, n ≤ m ∧ (run.event m).isOwn i = true
  /-- A command that has begun ends. -/
  ends : ∀ n, ((run.state n).queues i).current ≠ [] → ∃ m, n ≤ m ∧ ((run.state m).queues i).current = []

theorem sound (n : Nat) : (run.state n).Sound := by
  induction n with
  | zero => exact sound_of_reachable run.first
  | succ n ih => exact ih.step (run.next n)

theorem grows {n m : Nat} (hle : n ≤ m) : Grows ((run.state n).diaries i) ((run.state m).diaries i) := by
  induction m, hle using Nat.le_induction with
  | base => exact .rfl
  | succ m _ ih => exact ih.trans (grows_step (run.sound m) (run.next m))

theorem ended_le {n m : Nat} (hle : n ≤ m) : (run.state n).ended i ≤ (run.state m).ended i :=
  (run.grows hle).marks.sublist.countP_le

/-- Between two commands the next one begins in the end. -/
theorem begins (hfair : run.Fair i) (n : Nat) : ∃ m, n ≤ m ∧ between ((run.state m).queues i) = false := by
  let works : Nat → Prop := fun k => (run.event (n + k)).isOwn i = true
  let done : Scheduling → Prop := fun σ => between (σ.queues i) = false
  have hbetween {σ : Scheduling} (hleft : ¬ done σ) : between (σ.queues i) = true := Bool.eq_true_of_not_eq_false hleft
  have hdone : ∃ k, done (run.state (n + k)) := by
    refine @done_of_descent _ _ (· < ·) (fun σ => distance (σ.queues i)) (fun k => run.state (n + k)) works done
      Nat.lt_wfRel.wf ?_ ?_ ?_
    · intro k hleft hworks
      exact distance_own (run.sound _) (hbetween hleft) hworks (run.next (n + k))
    · intro k hleft hidle
      exact distance_other (run.sound _) (hbetween hleft) (Bool.eq_false_of_not_eq_true hidle) (run.next (n + k))
    · intro k hleft
      by_contra hnone
      -- Nobody comes nearer, so the strand could always run.
      have hstays (m : Nat) (hm : n + k ≤ m) : between ((run.state m).queues i) = true := by
        induction m, hm using Nat.le_induction with
        | base => exact hbetween hleft
        | succ m hm ih =>
          have hm' : n + (m - n) = m := by omega
          have hother : (run.event m).isOwn i = false := by
            refine Bool.eq_false_of_not_eq_true fun hown => hnone ⟨m - n, by omega, ?_⟩
            simp only [works, hm', hown]
          have hsame := distance_other (run.sound m) ih hother (run.next m)
          cases hnow : between ((run.state (m + 1)).queues i) with
          | true => rfl
          | false => simp [distance, hnow, ih] at hsame
      obtain ⟨m, hm, hown⟩ := hfair.runs (n + k) fun m hm => by
        obtain ⟨hcurrent, hwaiting⟩ := between_iff.mp (hstays m hm)
        rcases goesOn (run.sound m) (i := i) (by simp [unreleased, hwaiting]) with hmoves | ⟨op, hop, hsuspended, -⟩
        · exact hmoves
        · rw [awake_of_current hcurrent op hop] at hsuspended
          cases hsuspended
      have hm' : n + (m - n) = m := by omega
      exact hnone ⟨m - n, by omega, by simp only [works, hm', hown]⟩
  obtain ⟨k, hk⟩ := hdone
  exact ⟨n + k, Nat.le_add_right n k, hk⟩

/-- One more command ends. -/
theorem advances (hfair : run.Fair i) {n : Nat}
    (hleft : (run.state n).ended i < ((run.state n).diaries i).accepted.length) :
    ∃ m, n ≤ m ∧ (run.state n).ended i < (run.state m).ended i := by
  obtain ⟨m, hm, hbetween⟩ := run.begins hfair n
  obtain ⟨past, hpast, haccepted, -, hbegan⟩ := ended_spec (run.sound m) (i := i)
  have hgrows := run.ended_le (i := i) hm
  by_cases hcurrent : ((run.state m).queues i).current = []
  · -- Nothing waits either: all of it has ended.
    have hwaiting : ((run.state m).queues i).waiting = [] := by
      by_contra hwaiting
      rw [between_iff.mpr ⟨hcurrent, hwaiting⟩] at hbetween
      cases hbetween
    rw [hcurrent, hwaiting, List.append_nil, List.append_nil] at haccepted
    have hlength := (run.grows (i := i) hm).accepted.length_le
    rw [haccepted, hpast] at hlength
    exact ⟨m, hm, hleft.trans_le hlength⟩
  · obtain ⟨m', hm', hcurrent'⟩ := hfair.ends m hcurrent
    obtain ⟨past', hpast', -, -, hbegan'⟩ := ended_spec (run.sound m') (i := i)
    have hle := (run.grows (i := i) hm').marks.sublist.countP_le (p := Mark.isBegan)
    have hpos := List.length_pos_of_ne_nil hcurrent
    rw [hbegan, hbegan', hcurrent', List.length_nil] at hle
    exact ⟨m', hm.trans hm', by omega⟩

/-- What has been accepted has ended in the end. -/
theorem carriedOut (hfair : run.Fair i) (n : Nat) :
    ∃ m, n ≤ m ∧ ((run.state n).diaries i).accepted.flatMap Entry.marks <+: ((run.state m).diaries i).marks := by
  have hreaches (k : Nat) (hk : k ≤ ((run.state n).diaries i).accepted.length) : ∃ m, n ≤ m ∧ k ≤ (run.state m).ended i := by
    induction k with
    | zero => exact ⟨n, le_rfl, Nat.zero_le _⟩
    | succ k ih =>
      obtain ⟨m, hm, hended⟩ := ih ((Nat.le_succ k).trans hk)
      rcases hended.lt_or_eq with hlt | heq
      · exact ⟨m, hm, hlt⟩
      · have hgrows := (run.grows (i := i) hm).accepted.length_le
        obtain ⟨m', hm', hmore⟩ := run.advances hfair (show (run.state m).ended i < _ by omega)
        exact ⟨m', hm.trans hm', by omega⟩
  obtain ⟨m, hm, hended⟩ := hreaches _ le_rfl
  obtain ⟨past, hpast, haccepted, hmarks, -⟩ := ended_spec (run.sound m) (i := i)
  have hprefix : ((run.state n).diaries i).accepted <+: past := by
    refine List.prefix_of_prefix_length_le (run.grows (i := i) hm).accepted ?_ (by omega)
    rw [haccepted, List.append_assoc]
    exact List.prefix_append _ _
  obtain ⟨more, rfl⟩ := hprefix
  refine ⟨m, hm, ?_⟩
  rw [hmarks, List.flatMap_append, List.append_assoc]
  exact List.prefix_append _ _

end Run

/-! ## The promise -/

/-- The scheduler's counters are those of the commands that it has not released. -/
structure Counts (σ : Scheduling) : Prop where
  pending : σ.scheduler.pending =
    ∑ i ∈ Finset.range σ.nextQueue, ((σ.diaries i).accepted.drop (σ.diaries i).released).length
  bytes : σ.scheduler.bytes =
    ∑ i ∈ Finset.range σ.nextQueue, (((σ.diaries i).accepted.drop (σ.diaries i).released).map Entry.bytes).sum
  limit : σ.scheduler.bytes ≤ 64 * 1024 * 1024

structure Serial (σ : Scheduling) (i : Nat) : Prop where
  /-- Seen is, in the order of acceptance, all of the commands that have ended, and that the next one has begun. -/
  order : Lane.Ordered (σ.diaries i) (σ.queues i).current (σ.queues i).waiting
  pending : (σ.queues i).pending = ((σ.diaries i).accepted.drop (σ.diaries i).settled).length
  bytes : (σ.queues i).bytes = (((σ.diaries i).accepted.drop (σ.diaries i).settled).map Entry.bytes).sum
  limit : (σ.queues i).bytes ≤ 4 * 1024 * 1024
  admitted : ∀ entry σ', σ.step (.submit i entry) = some σ' → entry.terminal = false →
    (σ'.queues i).pending ≤ σ'.capacities i ∧ σ'.scheduler.pending ≤ 2048
  /-- The counters of the queue do not underflow, -/
  settles : ∀ op, (σ.queues i).active = some op → op.stage = .finishing →
    1 ≤ (σ.queues i).pending ∧ op.entry.bytes ≤ (σ.queues i).bytes
  /-- nor do those of the scheduler. -/
  releases : ∀ bytes, (σ.queues i).releasing = some bytes → 1 ≤ σ.scheduler.pending ∧ bytes ≤ σ.scheduler.bytes
  /-- A suspended operation is resumed by nobody but the closure of this `Wait`. -/
  resumed : ∀ op, (σ.queues i).active = some op → op.isSuspended = true → ∀ e σ', σ.step e = some σ' →
    (σ'.queues i).active = some op ∨
      e = .handler i ∧ ∃ c rest, (σ.queues i).strand = .resume c :: rest ∧ c.wait.op = op.id ∧ c.wait.phase = op.phase
  /-- A closure that was called before, or is of another phase or operation, does nothing. -/
  late : ∀ id phase delivered, σ.closures i id phase = some delivered →
    delivered = true ∨ ¬ (σ.queues i).Awaits id phase → ∀ next, σ.step (.call i id phase next) = some σ
  /-- Where neither the strand goes on nor an operation waits for its closure, nothing is left. -/
  rest : ¬ σ.Moves i → ¬ σ.Hangs i → σ.AtRest i
  /-- And where strands run and commands end, whatever has been accepted is carried out. -/
  carriedOut : ∀ run : Run, run.state 0 = σ → run.Fair i →
    ∃ m, (σ.diaries i).accepted.flatMap Entry.marks <+: ((run.state m).diaries i).marks

theorem counts_of_sound (h : σ.Sound) : σ.Counts := by
  have hdrop (i : Nat) : ((σ.diaries i).accepted.drop (σ.diaries i).released).map Entry.bytes = (σ.queues i).unreleased :=
    (h.lanes i).books.released.drop
  refine ⟨?_, ?_, h.accounted.limit⟩
  · rw [h.accounted.pending]
    refine Finset.sum_congr rfl fun i _ => ?_
    rw [← hdrop, List.length_map]
  · rw [h.accounted.bytes]
    refine Finset.sum_congr rfl fun i _ => ?_
    rw [hdrop]

theorem admitted_of_submit (h : σ.Sound) {entry : Entry} (hstep : σ.submit i entry = some σ')
    (hterminal : entry.terminal = false) :
    (σ'.queues i).pending ≤ σ'.capacities i ∧ σ'.scheduler.pending ≤ 2048 := by
  obtain ⟨hadmits, scheduler, hreserve, rfl⟩ := submit_cases hstep
  obtain ⟨-, -, -, hscheduler⟩ := reserve_spec hreserve h.accounted.limit
  refine ⟨?_, hscheduler hterminal⟩
  simp only [setQueue, Function.update_self]
  simp only [admits, hterminal, Bool.not_false, Bool.true_and, Bool.not_eq_true', Bool.or_eq_false_iff,
    decide_eq_false_iff_not, not_le] at hadmits
  exact hadmits.1

theorem settles_of_finishing (h : σ.Sound) {op : Operation} (hop : (σ.queues i).active = some op)
    (hstage : op.stage = .finishing) : 1 ≤ (σ.queues i).pending ∧ op.entry.bytes ≤ (σ.queues i).bytes := by
  have hbooks := (h.lanes i).books
  have hpending : (σ.queues i).pending = (σ.queues i).unsettled.length := hbooks.pending
  have hbytes : (σ.queues i).bytes = (σ.queues i).unsettled.sum := hbooks.bytes
  rw [Lane.unsettled_of_finishing hop hstage] at hpending hbytes
  rw [List.length_cons] at hpending
  rw [List.sum_cons] at hbytes
  omega

/-- A queue of a scheduler that any run has led to. -/
theorem serial (h : σ.Reachable) : σ.Counts ∧ ∀ i, σ.Serial i := by
  have hsound := sound_of_reachable h
  refine ⟨counts_of_sound hsound, fun i => ?_⟩
  have hbooks := (hsound.lanes i).books
  have hsettled : ((σ.diaries i).accepted.drop (σ.diaries i).settled).map Entry.bytes = (σ.queues i).unsettled :=
    hbooks.settled.drop
  exact {
    order := hbooks.order
    pending := by
      have hlength := congrArg List.length hsettled
      rw [List.length_map] at hlength
      rw [hlength]
      exact hbooks.pending
    bytes := by
      rw [hsettled]
      exact hbooks.bytes
    limit := hbooks.limit
    admitted := fun entry σ' hstep hterminal => by
      simp only [Scheduling.step] at hstep
      split at hstep
      · exact admitted_of_submit hsound hstep hterminal
      · cases hstep
    settles := fun op hop hstage => settles_of_finishing hsound hop hstage
    releases := fun bytes hreleasing => by
      refine hsound.accounted.releasing (made_of_unreleased hsound ?_) hreleasing
      rw [Lane.unreleased_of_releasing hreleasing]
      exact List.cons_ne_nil _ _
    resumed := fun op hop hsuspended e σ' hstep => resumed hsound hop hsuspended hstep
    late := fun id phase delivered hclosure hlate next => late hsound hclosure hlate next
    rest := fun hmoves hhangs => by
      refine atRest_of_unreleased hsound ?_
      by_contra hsome
      exact (goesOn hsound hsome).elim hmoves hhangs
    carriedOut := fun run hstart hfair => by
      obtain ⟨m, -, hm⟩ := run.carriedOut hfair 0
      rw [hstart] at hm
      exact ⟨m, hm⟩ }

/-- A command that waits, with another one behind it. -/
theorem serial_waiting : ∃ σ : Scheduling, σ.Reachable ∧ σ.Hangs 0 ∧ (σ.queues 0).pending = 2 ∧
    σ.Counts ∧ ∀ i, σ.Serial i := by
  let entry (done : Option Completion) : Entry := { job := .timer, done, terminal := false, bytes := 8 }
  let events : List Event :=
    [.create 128, .submit 0 (entry none), .submit 0 (entry none), .handler 0, .step 0 .wait, .handler 0]
  have hplay : (play step (fun _ _ => true) events {}).isSome = true := rfl
  obtain ⟨σ, hσ⟩ := Option.isSome_iff_exists.mp hplay
  have hreach : σ.Reachable := reach_play (fun _ _ _ => trivial) hσ
  cases hσ
  exact ⟨_, hreach, ⟨_, rfl, rfl, rfl⟩, rfl, serial hreach⟩

end Scheduling

end SyncRtc
