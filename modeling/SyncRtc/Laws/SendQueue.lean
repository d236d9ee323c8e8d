import SyncRtc.Net.Session

/-!
# What a session hands to its socket

Until the close every accepted frame is in one of three places: written, taken over by the I/O thread, or
waiting to be taken over. `Flow` says so and ties the counters and the bytes on the wire to it; each step
moves frames along. The bytes on the wire are therefore a prefix of the accepted frames, the counters are exact,
and a frame refused at a limit is the last thing ever decided: nothing is accepted after it.
-/

set_option autoImplicit false

namespace SyncRtc.Net

/-- The frames that are not completely among the first `n` bytes of the stream they make. -/
def unwritten : List Bytes → Nat → List Bytes
  | [], _ => []
  | f :: fs, n => if f.length ≤ n then unwritten fs (n - f.length) else f :: fs

theorem unwritten_append {done fs : List Bytes} {n : Nat} :
    unwritten (done ++ fs) (done.flatten.length + n) = unwritten fs n := by
  induction done with
  | nil => simp only [List.nil_append, List.flatten_nil, List.length_nil, Nat.zero_add]
  | cons f done ih =>
    have hle : f.length ≤ (f :: done).flatten.length + n := by
      simp only [List.flatten_cons, List.length_append]
      omega
    have hrest : (f :: done).flatten.length + n - f.length = done.flatten.length + n := by
      simp only [List.flatten_cons, List.length_append]
      omega
    rw [List.cons_append, unwritten, if_pos hle, hrest, ih]

/-- A stream that stops inside its first frame has written none. -/
theorem unwritten_front {fs : List Bytes} {n : Nat} (h : ∀ f rest, fs = f :: rest → n < f.length) :
    unwritten fs n = fs := by
  cases fs with
  | nil => rfl
  | cons f rest => exact if_neg (Nat.not_le.mpr (h f rest rfl))

namespace Session

variable {s s' : Session}

/-- The frame that is written and not yet settled. -/
def beingSettled (s : Session) : List Bytes :=
  match s.writer with
  | .settling _ => s.sendQueue.take 1
  | _ => []

/-- The frames the counters stand for: those accepted and not completely written, the one whose accounting
is the next thing the I/O thread does, and the one that was queued although its wake-up was refused. -/
def outstanding (s : Session) : List Bytes :=
  s.beingSettled ++ unwritten s.accepted s.wire.length ++ s.unannounced

/-- Where the accepted frames of an open session are. -/
structure Flow (s : Session) (done waiting : List Bytes) : Prop where
  accepted : s.accepted = done ++ s.sendQueue ++ waiting
  pending : s.pending = waiting ++ s.unannounced
  wire : s.wire = done.flatten ++ (s.sendQueue.headD []).take s.sendOffset
  settling : ∀ w, s.writer = .settling w → ∃ f rest, s.sendQueue = f :: rest ∧ s.sendOffset = f.length
  placed : (∀ w, s.writer ≠ .settling w) →
    (∀ f rest, s.sendQueue = f :: rest → s.sendOffset < f.length) ∧ (s.sendQueue = [] → s.sendOffset = 0)
  refused : s.unannounced ≠ [] → s.closeRequested = true
  frames : s.pendingFrames = (s.sendQueue ++ s.pending).length
  bytes : s.pendingBytes = (s.sendQueue ++ s.pending).flatten.length
  framesLe : s.pendingFrames ≤ maxPendingFrames
  bytesLe : s.pendingBytes ≤ maxPendingBytes
  nonempty : ∀ f ∈ s.sendQueue ++ s.pending, 0 < f.length
  once : s.unannounced.length ≤ 1

/-- What holds of a session at any time. -/
structure Sound (s : Session) : Prop where
  flow : s.closed = false → ∃ done waiting, s.Flow done waiting
  sent : s.closed = true → s.wire <+: s.accepted.flatten
  resting : s.closed = true → s.Resting

theorem fresh_sound : Sound {} where
  flow _ := by
    refine ⟨[], [], rfl, rfl, rfl, nofun, fun _ => ⟨nofun, fun _ => rfl⟩, fun h => absurd rfl h, rfl, rfl, ?_, ?_,
      nofun, Nat.zero_le _⟩
    · exact Nat.zero_le _
    · exact Nat.zero_le _
  sent h := nomatch h
  resting h := nomatch h

section

variable {done waiting : List Bytes}

/-- Asking for a close moves no frame. -/
theorem Flow.requestClose (h : s.Flow done waiting) : s.requestClose.Flow done waiting :=
  { h with refused := fun _ => rfl }

theorem isClosed_eq_false (h : s.isClosed = false) : s.closed = false ∧ s.closeRequested = false :=
  Bool.or_eq_false_iff.mp h

/-- An open session has announced every frame. -/
theorem Flow.announced (h : s.Flow done waiting) (hc : s.closeRequested = false) : s.unannounced = [] := by
  by_contra hne
  exact absurd ((h.refused hne).symm.trans hc) (by decide)

/-- A frame within the limits can be counted. -/
theorem Flow.room (h : s.Flow done waiting) {message : Bytes} (hover : s.overLimit message = false) :
    s.pendingFrames + 1 ≤ maxPendingFrames ∧ s.pendingBytes + message.length ≤ maxPendingBytes := by
  have hbytes := h.bytesLe
  have hsub : sizeSub maxPendingBytes s.pendingBytes = maxPendingBytes - s.pendingBytes :=
    sizeSub_eq hbytes (by decide)
  simp only [overLimit, hsub, Bool.or_eq_false_iff, decide_eq_false_iff_not] at hover
  omega

/-- A frame that is queued. -/
theorem Flow.enqueue (h : s.Flow done waiting) (hc : s.closeRequested = false) {message : Bytes}
    (hover : s.overLimit message = false) (hpos : 0 < message.length) (notified : Bool) :
    Flow { s with
      pendingBytes := sizeAdd s.pendingBytes message.length
      pendingFrames := sizeAdd s.pendingFrames 1
      pending := s.pending ++ [message]
      accepted := if notified then s.accepted ++ [message] else s.accepted
      unannounced := if notified then s.unannounced else s.unannounced ++ [message]
      closeRequested := !notified } done (if notified then waiting ++ [message] else waiting) := by
  obtain ⟨hframes, hbytes⟩ := h.room hover
  have hannounced := h.announced hc
  have hlimit : maxPendingFrames < 2 ^ 64 ∧ maxPendingBytes < 2 ^ 64 := by decide
  have haddFrames : sizeAdd s.pendingFrames 1 = s.pendingFrames + 1 := sizeAdd_eq (by omega)
  have haddBytes : sizeAdd s.pendingBytes message.length = s.pendingBytes + message.length := sizeAdd_eq (by omega)
  have hpending := h.pending
  rw [hannounced, List.append_nil] at hpending
  refine { h with accepted := ?_, pending := ?_, refused := ?_, frames := ?_, bytes := ?_, framesLe := ?_,
                  bytesLe := ?_, nonempty := ?_, once := ?_ }
  · cases notified
    · exact h.accepted
    · simp only [if_true, h.accepted, List.append_assoc]
  · cases notified <;> simp [hpending, hannounced]
  · cases notified
    · exact fun _ => rfl
    · intro hne
      exact absurd hannounced hne
  · have hold := h.frames
    simp only [haddFrames, List.length_append, List.length_cons, List.length_nil] at hold ⊢
    omega
  · have hold := h.bytes
    simp only [haddBytes, List.flatten_append, List.length_append, List.flatten_cons, List.flatten_nil,
      List.length_nil] at hold ⊢
    omega
  · simp only [haddFrames]
    exact hframes
  · simp only [haddBytes]
    exact hbytes
  · intro f hf
    rw [← List.append_assoc, List.mem_append, List.mem_singleton] at hf
    rcases hf with hf | rfl
    · exact h.nonempty f hf
    · exact hpos
  · cases notified <;> simp [hannounced]

theorem Flow.send (h : s.Flow done waiting) (id : UInt16) (payload : Bytes)
    (notified : Bool) : ∃ waiting', (s.send id payload notified).2.Flow done waiting' := by
  unfold Session.send
  split
  · exact ⟨waiting, h⟩
  dsimp only
  split
  · exact ⟨waiting, h⟩
  next hclosed =>
  split
  · exact ⟨waiting, h.requestClose⟩
  next hover =>
  have hc := (isClosed_eq_false (Bool.not_eq_true _ ▸ hclosed)).2
  have hpos : 0 < (sessionFrame id payload).length := by
    rw [sessionFrame_length]
    exact Nat.lt_of_lt_of_le (by decide) (Nat.le_add_right _ _)
  have hnew := h.enqueue hc (Bool.not_eq_true _ ▸ hover) hpos notified
  cases notified
  · exact ⟨_, hnew⟩
  · simp only [if_true, Bool.not_true] at hnew ⊢
    rw [← hc] at hnew
    exact ⟨_, hnew⟩

/-- The I/O thread takes the submitted frames over. -/
theorem Flow.beginWrite (h : s.Flow done waiting) (hrest : s.Resting) :
    ∃ waiting', s.beginWrite.Flow done waiting' := by
  have hnot : ∀ w, s.writer ≠ .settling w := by
    intro w hw
    rcases hrest with hr | ⟨_, hr⟩ <;> rw [hw] at hr <;> cases hr
  have hplaced := h.placed hnot
  unfold Session.beginWrite
  split
  · exact ⟨waiting, { h with settling := nofun, placed := fun _ => hplaced }⟩
  next hclosed =>
  have hc := (isClosed_eq_false (Bool.not_eq_true _ ▸ hclosed)).2
  have hannounced := h.announced hc
  have hpending := h.pending
  rw [hannounced, List.append_nil] at hpending
  split
  · next hempty =>
    have hqueue : s.sendQueue = [] := List.isEmpty_iff.mp hempty
    have hoffset : s.sendOffset = 0 := hplaced.2 hqueue
    refine ⟨[], { h with accepted := ?_, pending := ?_, wire := ?_, settling := nofun, placed := ?_, frames := ?_,
                         bytes := ?_, nonempty := ?_ }⟩
    · simp only [h.accepted, hqueue, hpending, List.append_nil]
    · simp only [hqueue, hannounced, List.append_nil]
    · simp only [h.wire, hqueue, hoffset, List.take_zero]
    · intro _
      refine ⟨fun f rest hf => ?_, fun _ => hoffset⟩
      have hf : s.pending = f :: rest := hf
      have hmem : f ∈ s.sendQueue ++ s.pending := by
        rw [hf]
        exact List.mem_append_right _ List.mem_cons_self
      simp only [hoffset]
      exact h.nonempty f hmem
    · simp only [h.frames, List.length_append]
      omega
    · simp only [h.bytes, List.flatten_append, List.length_append]
      omega
    · intro f hf
      exact h.nonempty f (List.mem_append.mpr (List.mem_append.mp hf).symm)
  · exact ⟨waiting, { h with settling := nofun, placed := fun _ => hplaced }⟩

theorem Flow.writeSome (h : s.Flow done waiting) {sent : Sent} (hs : s.writeSome sent = some s') :
    s'.Flow done waiting := by
  unfold Session.writeSome at hs
  split at hs
  · next written message rest hwriter hqueue =>
    have hplaced := h.placed fun w hw => nomatch hwriter.symm.trans hw
    have hlt := hplaced.1 message rest hqueue
    split at hs
    · cases sent with
      | count n =>
        dsimp only at hs
        split at hs
        · next hn =>
          cases hs
          have hle : s.sendOffset + n ≤ message.length := by omega
          refine { h with wire := ?_, settling := ?_, placed := ?_ }
          · simp only [h.wire, hqueue, List.headD_cons, List.append_assoc, List.take_add]
          · intro w hw
            refine ⟨message, rest, hqueue, ?_⟩
            by_contra hne
            simp only [if_neg hne] at hw
            cases hw
          · intro hnot
            refine ⟨fun f fs hf => ?_, fun hnil => nomatch hqueue.symm.trans hnil⟩
            have hf : s.sendQueue = f :: fs := hf
            rw [hqueue] at hf
            cases hf
            refine Nat.lt_of_le_of_ne hle fun heq => ?_
            exact hnot (written + n) (if_pos heq)
        · cases hs
      | interrupted =>
        cases hs
        exact h
      | again =>
        cases hs
        exact { h with settling := nofun, placed := fun _ => hplaced }
      | failed =>
        cases hs
        exact { h with settling := nofun, placed := fun _ => hplaced }
    · cases hs
  · cases hs

theorem Flow.settle (h : s.Flow done waiting) (hs : s.settle = some s') :
    ∃ done', s'.Flow done' waiting := by
  unfold Session.settle at hs
  split at hs
  · next written message rest hwriter hqueue =>
    cases hs
    obtain ⟨f, fs, hf, hoffset⟩ := h.settling written hwriter
    rw [hqueue] at hf
    cases hf
    have hframes := h.frames
    have hbytes := h.bytes
    have hnonempty := h.nonempty
    have hframesLe := h.framesLe
    have hbytesLe := h.bytesLe
    simp only [hqueue, List.cons_append, List.length_cons, List.flatten_cons, List.length_append, List.flatten_append]
      at hframes hbytes
    rw [hqueue, List.cons_append] at hnonempty
    have hlimit : maxPendingFrames < 2 ^ 64 ∧ maxPendingBytes < 2 ^ 64 := by decide
    have hsubFrames : sizeSub s.pendingFrames 1 = s.pendingFrames - 1 := sizeSub_eq (by omega) (by omega)
    have hsubBytes : sizeSub s.pendingBytes message.length = s.pendingBytes - message.length :=
      sizeSub_eq (by omega) (by omega)
    refine ⟨done ++ [message], { h with accepted := ?_, wire := ?_, settling := nofun, placed := ?_, frames := ?_,
                                        bytes := ?_, framesLe := ?_, bytesLe := ?_, nonempty := ?_ }⟩
    · simp only [h.accepted, hqueue, List.append_assoc, List.cons_append, List.nil_append]
    · simp only [h.wire, hqueue, List.headD_cons, hoffset, List.take_length, List.take_zero, List.flatten_append,
        List.flatten_cons, List.flatten_nil, List.append_nil]
    · intro _
      refine ⟨fun g gs hg => ?_, fun _ => rfl⟩
      have hg : rest = g :: gs := hg
      refine hnonempty g (List.mem_cons_of_mem _ ?_)
      rw [hg]
      exact List.mem_append_left _ List.mem_cons_self
    · simp only [hsubFrames, List.length_append]
      omega
    · simp only [hsubBytes, List.flatten_append, List.length_append]
      omega
    · simp only [hsubFrames]
      omega
    · simp only [hsubBytes]
      omega
    · exact fun g hg => hnonempty g (List.mem_cons_of_mem _ hg)
  · cases hs

theorem Flow.endWrite (h : s.Flow done waiting) (hs : s.endWrite = some s') : s'.Flow done waiting := by
  unfold Session.endWrite at hs
  split at hs
  · next written hwriter =>
    have hplaced := h.placed fun w hw => nomatch hwriter.symm.trans hw
    split at hs
    · cases hs
      exact { h with settling := nofun, placed := fun _ => hplaced }
    · cases hs
  · cases hs

/-- The bytes on the wire are the first of the accepted frames. -/
theorem Flow.sent (h : s.Flow done waiting) : s.wire <+: s.accepted.flatten := by
  rw [h.wire, h.accepted]
  cases hqueue : s.sendQueue with
  | nil =>
    simp only [List.headD_nil, List.take_nil, List.append_nil, List.flatten_append]
    exact List.prefix_append _ _
  | cons message rest =>
    simp only [List.headD_cons, List.flatten_append, List.flatten_cons, List.append_assoc]
    refine (List.prefix_append_right_inj _).mpr ?_
    exact (List.take_prefix _ _).trans (List.prefix_append _ _)

/-- What the counters stand for is what the two queues hold. -/
theorem Flow.outstanding (h : s.Flow done waiting) : s.outstanding = s.sendQueue ++ s.pending := by
  have hwaiting : ∀ f rest, waiting = f :: rest → 0 < f.length := by
    intro f rest hf
    refine h.nonempty f (List.mem_append_right _ ?_)
    rw [h.pending, hf]
    exact List.mem_append_left _ List.mem_cons_self
  have hlength : s.wire.length = done.flatten.length + ((s.sendQueue.headD []).take s.sendOffset).length := by
    rw [h.wire, List.length_append]
  unfold Session.outstanding
  rw [hlength, h.accepted, List.append_assoc done, unwritten_append, h.pending, ← List.append_assoc s.sendQueue]
  congr 1
  by_cases hsettling : ∃ w, s.writer = .settling w
  · obtain ⟨w, hw⟩ := hsettling
    obtain ⟨f, rest, hqueue, hoffset⟩ := h.settling w hw
    have hrest : ∀ g gs, rest ++ waiting = g :: gs → 0 < g.length := by
      intro g gs hg
      cases rest with
      | nil => exact hwaiting g gs hg
      | cons g' rest =>
        cases hg
        refine h.nonempty g (List.mem_append_left _ ?_)
        rw [hqueue]
        exact List.mem_cons_of_mem _ List.mem_cons_self
    have hfront : unwritten (f :: (rest ++ waiting)) f.length = rest ++ waiting := by
      rw [unwritten, if_pos le_rfl, Nat.sub_self]
      exact unwritten_front hrest
    simp only [beingSettled, hw, hqueue, hoffset, List.headD_cons, List.take_length, List.cons_append, hfront,
      List.take_succ_cons, List.take_zero, List.nil_append]
  · have hnot : ∀ w, s.writer ≠ .settling w := fun w hw => hsettling ⟨w, hw⟩
    have hbeing : s.beingSettled = [] := by
      unfold beingSettled
      split
      · next w hw => exact absurd hw (hnot w)
      · rfl
    rw [hbeing, List.nil_append]
    refine unwritten_front fun f rest hf => ?_
    cases hqueue : s.sendQueue with
    | nil =>
      rw [hqueue] at hf
      simp only [List.headD_nil, List.take_nil, List.length_nil]
      exact hwaiting f rest hf
    | cons message others =>
      rw [hqueue] at hf
      cases hf
      have hlt := (h.placed hnot).1 f others hqueue
      simp only [List.headD_cons, List.length_take]
      omega

end

/-! ## Every step -/

theorem closed_send (hc : s.closed = true) (id : UInt16) (payload : Bytes) (notified : Bool) :
    (s.send id payload notified).2 = s := by
  have hclosed : s.isClosed = true := by simp only [isClosed, hc, Bool.true_or]
  unfold Session.send
  dsimp only
  rw [if_pos hclosed]
  split <;> rfl

theorem not_resting_of_writing {w : Nat} (h : s.writer = .writing w ∨ s.writer = .settling w) : ¬ s.Resting := by
  intro hr
  rcases h with h | h <;> rcases hr with hr | ⟨_, hr⟩ <;> rw [h] at hr <;> cases hr

theorem Sound.step {e : Event} (h : s.Sound) (hs : s.step e = some s') : s'.Sound := by
  by_cases hclosed : s.closed = true
  · have hresting := h.resting hclosed
    have hsent := h.sent hclosed
    cases e with
    | send id payload notified =>
      cases hs
      rw [closed_send hclosed]
      exact h
    | requestClose =>
      cases hs
      exact ⟨fun hc => absurd (hclosed.symm.trans hc) (by decide), fun _ => hsent, fun _ => hresting⟩
    | beginWrite =>
      have hs : (if s.Resting then some s.beginWrite else none) = some s' := hs
      have hisClosed : s.isClosed = true := by simp only [isClosed, hclosed, Bool.true_or]
      simp only [if_pos hresting, Session.beginWrite, hisClosed, if_true, Option.some.injEq] at hs
      subst hs
      exact ⟨fun hc => absurd (hclosed.symm.trans hc) (by decide), fun _ => hsent, fun _ => .inr ⟨_, rfl⟩⟩
    | writeSome sent =>
      simp only [Session.step, Session.writeSome] at hs
      split at hs
      · next w _ _ hw _ => exact absurd hresting (not_resting_of_writing (.inl hw))
      · cases hs
    | settle =>
      simp only [Session.step, Session.settle] at hs
      split at hs
      · next w _ _ hw _ => exact absurd hresting (not_resting_of_writing (.inr hw))
      · cases hs
    | endWrite =>
      simp only [Session.step, Session.endWrite] at hs
      split at hs
      · next w hw => exact absurd hresting (not_resting_of_writing (.inl hw))
      · cases hs
    | close =>
      have hs : (if s.Resting then some s.close else none) = some s' := hs
      rw [if_pos hresting] at hs
      cases hs
      exact ⟨nofun, fun _ => hsent, fun _ => hresting⟩
  · have hopen : s.closed = false := Bool.not_eq_true _ ▸ hclosed
    obtain ⟨done, waiting, hflow⟩ := h.flow hopen
    have kept : ∀ {s' : Session} {done waiting : List Bytes}, s'.closed = s.closed → s'.Flow done waiting → s'.Sound :=
      fun hc hf => ⟨fun _ => ⟨_, _, hf⟩, fun hcl => absurd ((hc.trans hopen).symm.trans hcl) (by decide),
        fun hcl => absurd ((hc.trans hopen).symm.trans hcl) (by decide)⟩
    cases e with
    | send id payload notified =>
      cases hs
      obtain ⟨waiting', hf⟩ := hflow.send id payload notified
      refine kept ?_ hf
      unfold Session.send
      repeat' first | rfl | split | dsimp only
    | requestClose =>
      cases hs
      exact kept rfl hflow.requestClose
    | beginWrite =>
      have hs : (if s.Resting then some s.beginWrite else none) = some s' := hs
      split at hs
      · next hresting =>
        cases hs
        obtain ⟨waiting', hf⟩ := hflow.beginWrite hresting
        refine kept ?_ hf
        unfold Session.beginWrite
        repeat' first | rfl | split
      · cases hs
    | writeSome sent =>
      refine kept ?_ (hflow.writeSome hs)
      simp only [Session.step, Session.writeSome] at hs
      repeat' first | (cases hs; done) | (cases hs; rfl) | split at hs
    | settle =>
      obtain ⟨done', hf⟩ := hflow.settle hs
      refine kept ?_ hf
      simp only [Session.step, Session.settle] at hs
      repeat' first | (cases hs; done) | (cases hs; rfl) | split at hs
    | endWrite =>
      refine kept ?_ (hflow.endWrite hs)
      simp only [Session.step, Session.endWrite] at hs
      repeat' first | (cases hs; done) | (cases hs; rfl) | split at hs
    | close =>
      have hs : (if s.Resting then some s.close else none) = some s' := hs
      split at hs
      · next hresting =>
        cases hs
        exact ⟨nofun, fun _ => hflow.sent, fun _ => hresting⟩
      · cases hs

theorem sound_of_reachable (h : s.Reachable) : s.Sound :=
  Reach.invariant fresh_sound (fun _ _ _ hi _ hs => hi.step hs) h

/-- Until the close the frame counter is the number of outstanding frames. -/
theorem exact_frames (h : s.Reachable) (hc : s.closed = false) : s.pendingFrames = s.outstanding.length := by
  obtain ⟨done, waiting, hflow⟩ := (sound_of_reachable h).flow hc
  rw [hflow.outstanding]
  exact hflow.frames

/-- Once a close is asked for, nothing more is accepted. -/
theorem final_step {e : Event} (hc : s.closeRequested = true) (hs : s.step e = some s') :
    s'.closeRequested = true ∧ s'.accepted = s.accepted := by
  have hisClosed : s.isClosed = true := by simp only [isClosed, hc, Bool.or_true]
  cases e with
  | send id payload notified =>
    cases hs
    unfold Session.send
    dsimp only
    rw [if_pos hisClosed]
    split <;> exact ⟨hc, rfl⟩
  | requestClose =>
    cases hs
    exact ⟨rfl, rfl⟩
  | beginWrite =>
    have hs : (if s.Resting then some s.beginWrite else none) = some s' := hs
    simp only [Session.beginWrite, hisClosed, if_true] at hs
    split at hs
    · cases hs
      exact ⟨hc, rfl⟩
    · cases hs
  | writeSome sent =>
    simp only [Session.step, Session.writeSome] at hs
    repeat' first | (cases hs; done) | (cases hs; exact ⟨hc, rfl⟩) | split at hs
  | settle =>
    simp only [Session.step, Session.settle] at hs
    repeat' first | (cases hs; done) | (cases hs; exact ⟨hc, rfl⟩) | split at hs
  | endWrite =>
    simp only [Session.step, Session.endWrite] at hs
    repeat' first | (cases hs; done) | (cases hs; exact ⟨hc, rfl⟩) | split at hs
  | close =>
    have hs : (if s.Resting then some s.close else none) = some s' := hs
    split at hs
    · cases hs
      exact ⟨hc, rfl⟩
    · cases hs

theorem final_of_reach (hc : s.closeRequested = true) (h : Reach Session.step (fun _ _ => True) s s') :
    s'.closeRequested = true ∧ s'.accepted = s.accepted :=
  Reach.invariant (I := fun t => t.closeRequested = true ∧ t.accepted = s.accepted) ⟨hc, rfl⟩
    (fun _ _ _ hi _ hs => ⟨(final_step hi.1 hs).1, (final_step hi.1 hs).2.trans hi.2⟩) h

/-- What the send side of a session promises. -/
structure Exact (s : Session) : Prop where
  /-- The socket has got the accepted frames in their order, without a gap. -/
  sent : s.wire <+: s.accepted.flatten
  frames : s.closed = false → s.pendingFrames = s.outstanding.length
  bytes : s.closed = false → s.pendingBytes = s.outstanding.flatten.length
  limits : s.closed = false → s.pendingFrames ≤ maxPendingFrames ∧ s.pendingBytes ≤ maxPendingBytes
  /-- The accounting of a written frame subtracts what was added. -/
  nowrap : ∀ w message rest, s.writer = .settling w → s.sendQueue = message :: rest →
    1 ≤ s.pendingFrames ∧ message.length ≤ s.pendingBytes
  /-- At most one frame is queued by a call that returns false, and the session is closing then. -/
  unannounced : s.closed = false → s.unannounced.length ≤ 1 ∧ (s.unannounced ≠ [] → s.closeRequested = true)
  /-- A frame refused at a limit is the last one decided on. -/
  last : ∀ id payload notified, payload.length ≤ 65535 → s.isClosed = false →
    s.overLimit (sessionFrame id payload) = true → (s.send id payload notified).1 = false ∧
      ∀ s', Reach Session.step (fun _ _ => True) (s.send id payload notified).2 s' →
        s'.closeRequested = true ∧ s'.accepted = s.accepted

/-- Whatever the threads do and the socket answers, the send side is exact. -/
theorem exact_of_reachable (h : s.Reachable) : s.Exact := by
  have hsound := sound_of_reachable h
  have hsettled : ∀ w, s.writer = .settling w → s.closed = false := by
    intro w hw
    by_contra hc
    exact not_resting_of_writing (.inr hw) (hsound.resting (Bool.not_eq_false _ ▸ hc))
  refine ⟨?_, fun hc => ?_, fun hc => ?_, fun hc => ?_, fun w message rest hw hqueue => ?_, fun hc => ?_, ?_⟩
  · by_cases hc : s.closed = true
    · exact hsound.sent hc
    · obtain ⟨done, waiting, hflow⟩ := hsound.flow (Bool.not_eq_true _ ▸ hc)
      exact hflow.sent
  · exact exact_frames h hc
  · obtain ⟨done, waiting, hflow⟩ := hsound.flow hc
    rw [hflow.outstanding]
    exact hflow.bytes
  · obtain ⟨done, waiting, hflow⟩ := hsound.flow hc
    exact ⟨hflow.framesLe, hflow.bytesLe⟩
  · obtain ⟨done, waiting, hflow⟩ := hsound.flow (hsettled w hw)
    have hframes := hflow.frames
    have hbytes := hflow.bytes
    simp only [hqueue, List.cons_append, List.length_cons, List.flatten_cons, List.length_append] at hframes hbytes
    omega
  · obtain ⟨done, waiting, hflow⟩ := hsound.flow hc
    exact ⟨hflow.once, hflow.refused⟩
  · intro id payload notified hsize hopen hover
    have hsend : s.send id payload notified = (false, s.requestClose) := by
      unfold Session.send
      rw [if_neg (Nat.not_lt.mpr hsize)]
      simp only [hopen, hover, if_true, Bool.false_eq_true, if_false]
    rw [hsend]
    exact ⟨rfl, fun s' hr => final_of_reach (s := s.requestClose) rfl hr⟩

/-- While the I/O loop is stopping the wake-up is refused: the frame is queued and counted, and `Send` returns
false. -/
theorem refused_frame_counted : ¬ ∀ s : Session, s.Reachable → s.closed = false →
    s.pendingFrames = (unwritten s.accepted s.wire.length).length := by
  intro hall
  have hrun : play Session.step (fun _ _ => true) [.send 1002 [111, 107] false] {} =
      some (Session.send {} 1002 [111, 107] false).2 := rfl
  have hs := hall _ (reach_play (fun _ _ _ => trivial) hrun) (by decide)
  exact absurd hs (by decide)

/-- A frame of two bytes, written one byte short. -/
theorem exact_of_short_write : ∃ s : Session, s.accepted.length = 1 ∧ s.wire.length = 5 ∧ s.Exact := by
  have hrun : ((play Session.step (fun _ _ => true)
      [.send 1002 [111, 107] true, .beginWrite, .writeSome (.count 3), .writeSome .interrupted, .writeSome (.count 2),
        .writeSome .again] {}).any fun s => decide (s.accepted.length = 1 ∧ s.wire.length = 5)) = true := by decide
  obtain ⟨s, hplay, hs⟩ := (Option.any_eq_true _ _).mp hrun
  obtain ⟨haccepted, hwire⟩ := of_decide_eq_true hs
  exact ⟨s, haccepted, hwire, exact_of_reachable (reach_play (fun _ _ _ => trivial) hplay)⟩

end Session

end SyncRtc.Net
