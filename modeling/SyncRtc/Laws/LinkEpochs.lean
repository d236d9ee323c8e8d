import Mathlib.Data.List.Pairwise
import SyncRtc.Net.MediaSignalClient

/-!
# The epochs of the link to MediaServer

A socket that becomes a connection gets an epoch no other has, and while it is the current one, every frame accepted
under its epoch is written to it, in flight, or queued. `Linked` says so of the current connection; what a
connection has left behind when it ends never changes again (`Histories`). A disconnect drops the queue and the
counters together, so that the next connection starts from nothing (`Idle`).
-/

set_option autoImplicit false

namespace SyncRtc.Net

/-! ## The messages of a stream -/

def splitLink : Bytes → Option (Bytes × Bytes)
  | h₀ :: h₁ :: h₂ :: h₃ :: rest =>
    let size := (linkSize h₀ h₁ h₂ h₃).toNat
    if size > linkLimit then none
    else if rest.length < size then none
    else some (rest.take size, rest.drop size)
  | _ => none

theorem splitLink_some {xs m ys : Bytes} (h : splitLink xs = some (m, ys)) :
    ∃ h₀ h₁ h₂ h₃ rest, xs = h₀ :: h₁ :: h₂ :: h₃ :: rest ∧ ¬ (linkSize h₀ h₁ h₂ h₃).toNat > linkLimit ∧
      ¬ rest.length < (linkSize h₀ h₁ h₂ h₃).toNat ∧ m = rest.take (linkSize h₀ h₁ h₂ h₃).toNat ∧
      ys = rest.drop (linkSize h₀ h₁ h₂ h₃).toNat := by
  unfold splitLink at h
  split at h
  · next h₀ h₁ h₂ h₃ rest =>
    dsimp only at h
    split at h
    · cases h
    next hlimit =>
    split at h
    · cases h
    next hsize =>
    cases h
    exact ⟨h₀, h₁, h₂, h₃, rest, rfl, hlimit, hsize, rfl, rfl⟩
  · cases h

/-- The splitter of the link. A length field over the limit is never split off. -/
def linkSplitter : Splitter UInt8 Bytes where
  split := splitLink
  shorter := by
    intro xs m ys h
    obtain ⟨h₀, h₁, h₂, h₃, rest, rfl, _, _, _, rfl⟩ := splitLink_some h
    simp only [List.length_drop, List.length_cons]
    omega
  stable := by
    intro xs m ys zs h
    obtain ⟨h₀, h₁, h₂, h₃, rest, rfl, hlimit, hsize, rfl, rfl⟩ := splitLink_some h
    have hle := Nat.not_lt.mp hsize
    have hmore : ¬ (rest ++ zs).length < (linkSize h₀ h₁ h₂ h₃).toNat := by
      rw [List.length_append]
      omega
    simp only [splitLink, List.cons_append, if_neg hlimit, if_neg hmore, List.take_append_of_le_length hle,
      List.drop_append_of_le_length hle]

/-- The complete messages of a stream, and what is left of it. -/
def linkMessages : Bytes → List Bytes × Bytes := linkSplitter.decode

theorem linkMessages_append (xs ys : Bytes) : linkMessages (xs ++ ys) =
    ((linkMessages xs).1 ++ (linkMessages ((linkMessages xs).2 ++ ys)).1,
      (linkMessages ((linkMessages xs).2 ++ ys)).2) :=
  Splitter.decode_append (S := linkSplitter) xs ys

/-- The loop over the received bytes decodes them. -/
theorem receiveLoop_eq (xs : Bytes) (ms : List Bytes) :
    (receiveLoop ms xs).1 = ms ++ (linkMessages xs).1 ∧ (receiveLoop ms xs).2.1 = (linkMessages xs).2 := by
  induction xs using linkSplitter.induction_on generalizing ms with
  | none xs hs =>
    have hdecode : linkMessages xs = ([], xs) := Splitter.decode_of_none (S := linkSplitter) hs
    have hs : splitLink xs = none := hs
    rw [hdecode, List.append_nil]
    unfold receiveLoop
    split
    · next h₀ h₁ h₂ h₃ rest hs =>
      simp only [splitLink] at hs
      dsimp only
      split
      · exact ⟨rfl, rfl⟩
      next hlimit =>
      rw [if_neg hlimit] at hs
      split at hs
      · next hsize =>
        rw [if_pos hsize]
        exact ⟨rfl, rfl⟩
      · cases hs
    · exact ⟨rfl, rfl⟩
  | some xs m ys hs ih =>
    have hdecode : linkMessages xs = (m :: (linkMessages ys).1, (linkMessages ys).2) :=
      Splitter.decode_of_some (S := linkSplitter) hs
    obtain ⟨h₀, h₁, h₂, h₃, rest, rfl, hlimit, hsize, rfl, rfl⟩ := splitLink_some hs
    rw [hdecode]
    unfold receiveLoop
    simp only [if_neg hlimit, if_neg hsize]
    obtain ⟨hmessages, hrest⟩ := ih (ms ++ [rest.take (linkSize h₀ h₁ h₂ h₃).toNat])
    refine ⟨?_, hrest⟩
    rw [hmessages, List.append_assoc, List.singleton_append]

theorem linkFrame_length (message : Bytes) : (linkFrame message).length = message.length + 4 := by
  simp only [linkFrame, linkHeader, List.length_append, List.length_cons, List.length_nil]
  omega

namespace MediaSignalClient

variable {c c' : MediaSignalClient}

/-! ## What holds of the link -/

/-- The frames the counters stand for: the one in flight, and those queued. -/
def outstanding (c : MediaSignalClient) : List Bytes := (if c.sending.isEmpty then [] else [c.sending]) ++ c.frames

/-- What a connection has sent was accepted under its epoch, and the events of that epoch are what it has
received. -/
structure Carried (wire incoming : Bytes) (accepted messages : List Bytes) : Prop where
  sent : wire <+: accepted.flatten
  received : messages = (linkMessages incoming).1

/-- What every connection has left, the current one included. -/
structure Histories (c : MediaSignalClient) : Prop where
  order : c.connections.Pairwise fun p q => q.1 < p.1 ∧ q.2 < p.2
  bound : ∀ token epoch, (token, epoch) ∈ c.connections → token ≤ c.socketToken ∧ epoch ≤ c.epoch
  carried : ∀ token epoch, (token, epoch) ∈ c.connections →
    Carried (c.wire token) (c.incoming token) (c.accepted epoch) (c.messages epoch)
  unconnected : ∀ token, (∀ epoch, (token, epoch) ∉ c.connections) → c.wire token = [] ∧ c.incoming token = []
  unused : ∀ epoch, (∀ token, (token, epoch) ∉ c.connections) → c.accepted epoch = [] ∧ c.messages epoch = []

structure Queue (c : MediaSignalClient) : Prop where
  frames : c.pendingFrames = c.outstanding.length
  bytes : c.pendingBytes = c.outstanding.flatten.length
  framesLe : c.pendingFrames ≤ maxPendingFrames
  bytesLe : c.pendingBytes ≤ maxPendingBytes
  nonempty : ∀ f ∈ c.frames, f ≠ []
  writing : c.stage = .writing → c.sending ≠ []
  settling : c.stage = .settling → c.sending ≠ [] ∧ c.sent = c.sending.length

/-- There is no connection. -/
structure Idle (c : MediaSignalClient) : Prop where
  inactive : c.activeEpoch = 0
  connected : c.connected = false
  frames : c.frames = []
  sending : c.sending = []
  received : c.received = []
  stage : c.stage = .loop ∨ c.stage = .disconnecting
  newest : c.isOpen = true → ∀ token epoch, (token, epoch) ∈ c.connections → token < c.socketToken

/-- There is a connection, with these frames written. -/
structure Linked (c : MediaSignalClient) (done : List Bytes) : Prop where
  active : c.activeEpoch = c.epoch
  positive : 0 < c.epoch
  isOpen : c.isOpen = true
  connecting : c.connecting = false
  current : (c.socketToken, c.epoch) ∈ c.connections
  accepted : c.accepted c.epoch = done ++ c.outstanding
  wire : c.wire c.socketToken = done.flatten ++ c.sending.take c.sent
  decoded : linkMessages (c.incoming c.socketToken) = (c.messages c.epoch, c.received)

structure Sound (c : MediaSignalClient) : Prop where
  histories : c.Histories
  queue : c.Queue
  phase : c.Idle ∨ ∃ done, c.Linked done
  /-- An open socket without a connection waits for it, or is about to be closed. -/
  waiting : c.isOpen = true → c.connecting = false → c.stage ≠ .disconnecting → c.activeEpoch ≠ 0

theorem fresh_sound : Sound {} where
  histories := ⟨List.Pairwise.nil, nofun, nofun, fun _ _ => ⟨rfl, rfl⟩, fun _ _ => ⟨rfl, rfl⟩⟩
  queue := ⟨rfl, rfl, Nat.zero_le _, Nat.zero_le _, nofun, nofun, nofun⟩
  phase := .inl ⟨rfl, rfl, rfl, rfl, rfl, .inl rfl, nofun⟩
  waiting := nofun

/-! ## Lemmas -/

/-- Neither two sockets nor two epochs of one connection. -/
theorem Histories.distinct (h : c.Histories) {token token' epoch epoch' : Nat} (hp : (token, epoch) ∈ c.connections)
    (hq : (token', epoch') ∈ c.connections) : token = token' ↔ epoch = epoch' := by
  by_cases heq : (token, epoch) = (token', epoch')
  · cases heq
    exact ⟨fun _ => rfl, fun _ => rfl⟩
  · have hsym : Std.Symm fun p q : Nat × Nat => p.1 ≠ q.1 ∧ p.2 ≠ q.2 := ⟨fun _ _ hpq => ⟨hpq.1.symm, hpq.2.symm⟩⟩
    have hpairs : c.connections.Pairwise fun p q => p.1 ≠ q.1 ∧ p.2 ≠ q.2 :=
      h.order.imp fun hlt => ⟨Nat.ne_of_gt hlt.1, Nat.ne_of_gt hlt.2⟩
    have hne := hpairs.forall hp hq heq
    exact ⟨fun ht => absurd ht hne.1, fun he => absurd he hne.2⟩

/-- A step that keeps the connections, and what the connections other than the current one have left. -/
theorem Histories.frame (h : c.Histories) (hconnections : c'.connections = c.connections)
    (htoken : c.socketToken ≤ c'.socketToken) (hepoch : c'.epoch = c.epoch) {token : Nat}
    (hcurrent : (token, c.epoch) ∈ c.connections)
    (hsockets : ∀ t, t ≠ token → c'.wire t = c.wire t ∧ c'.incoming t = c.incoming t)
    (hepochs : ∀ e, e ≠ c.epoch → c'.accepted e = c.accepted e ∧ c'.messages e = c.messages e)
    (hcarried : Carried (c'.wire token) (c'.incoming token) (c'.accepted c.epoch) (c'.messages c.epoch)) : c'.Histories := by
  have hother : ∀ t e, (t, e) ∈ c.connections →
      Carried (c'.wire t) (c'.incoming t) (c'.accepted e) (c'.messages e) := by
    intro t e hp
    have hdistinct := h.distinct hp hcurrent
    by_cases ht : t = token
    · rw [ht, hdistinct.mp ht]
      exact hcarried
    · obtain ⟨hwire, hincoming⟩ := hsockets t ht
      obtain ⟨haccepted, hmessages⟩ := hepochs e (mt hdistinct.mpr ht)
      rw [hwire, hincoming, haccepted, hmessages]
      exact h.carried t e hp
  refine ⟨?_, ?_, ?_, ?_, ?_⟩
  · rw [hconnections]
    exact h.order
  · intro t e hp
    rw [hconnections] at hp
    have hold := h.bound t e hp
    omega
  · intro t e hp
    rw [hconnections] at hp
    exact hother t e hp
  · intro t ht
    simp only [hconnections] at ht
    have hne : t ≠ token := fun heq => ht c.epoch (heq ▸ hcurrent)
    rw [(hsockets t hne).1, (hsockets t hne).2]
    exact h.unconnected t ht
  · intro e he
    simp only [hconnections] at he
    have hne : e ≠ c.epoch := fun heq => he token (heq ▸ hcurrent)
    rw [(hepochs e hne).1, (hepochs e hne).2]
    exact h.unused e he

theorem outstanding_of_idle (h : c.Idle) : c.outstanding = [] := by
  simp only [outstanding, h.frames, h.sending, List.isEmpty_nil, if_true, List.append_nil]

theorem Linked.carried {done : List Bytes} (h : c.Linked done) : 
    Carried (c.wire c.socketToken) (c.incoming c.socketToken) (c.accepted c.epoch) (c.messages c.epoch) where
  sent := by
    rw [h.wire, h.accepted, List.flatten_append, List.prefix_append_right_inj]
    unfold outstanding
    split
    · next hempty =>
      rw [List.isEmpty_iff.mp hempty, List.take_nil]
      exact List.nil_prefix
    · rw [List.singleton_append, List.flatten_cons]
      exact (List.take_prefix _ _).trans (List.prefix_append _ _)
  received := by rw [h.decoded]

/-- Without a connection, only the stage, `m_started` and the socket change, and nothing has been carried. -/
theorem Queue.of_idle (h : c.Idle) (hcounters : c.pendingFrames = 0 ∧ c.pendingBytes = 0) : c.Queue where
  frames := by rw [outstanding_of_idle h, hcounters.1, List.length_nil]
  bytes := by rw [outstanding_of_idle h, hcounters.2, List.flatten_nil, List.length_nil]
  framesLe := by rw [hcounters.1]; exact Nat.zero_le _
  bytesLe := by rw [hcounters.2]; exact Nat.zero_le _
  nonempty := by rw [h.frames]; nofun
  writing hs := by rcases h.stage with hstage | hstage <;> rw [hs] at hstage <;> cases hstage
  settling hs := by rcases h.stage with hstage | hstage <;> rw [hs] at hstage <;> cases hstage

/-- Apart from the loop and a disconnect there is a connection. -/
theorem Sound.linked (h : c.Sound) (hloop : c.stage ≠ .loop) (hdisconnecting : c.stage ≠ .disconnecting) :
    ∃ done, c.Linked done := by
  rcases h.phase with hidle | hlinked
  · rcases hidle.stage with hs | hs
    · exact absurd hs hloop
    · exact absurd hs hdisconnecting
  · exact hlinked

theorem Linked.ne_zero {done : List Bytes} (h : c.Linked done) : c.activeEpoch ≠ 0 := by
  have hpositive := h.positive
  rw [h.active]
  omega

/-- The I/O thread goes on to a stage of a connection, or to the disconnect. -/
theorem Sound.atStage (h : c.Sound) {stage : LinkStage} (hwriting : stage = .writing → c.sending ≠ [])
    (hsettling : stage = .settling → c.sending ≠ [] ∧ c.sent = c.sending.length)
    (hstage : c.activeEpoch ≠ 0 ∨ stage = .disconnecting) : Sound { c with stage := stage } where
  histories := { h.histories with }
  queue := { h.queue with writing := hwriting, settling := hsettling }
  phase := by
    rcases h.phase with hidle | ⟨done, hlinked⟩
    · rcases hstage with hactive | hstage
      · exact absurd hidle.inactive hactive
      · exact .inl { hidle with stage := .inr hstage }
    · exact .inr ⟨done, { hlinked with }⟩
  waiting _ _ hne := hstage.resolve_right hne

/-- A step of a connection that keeps it. -/
theorem Sound.keep (h : c.Sound) {done : List Bytes} (done' : List Bytes) (hl : c.Linked done) (hl' : c'.Linked done')
    (hq : c'.Queue) (hconnections : c'.connections = c.connections) (htoken : c'.socketToken = c.socketToken)
    (hepoch : c'.epoch = c.epoch)
    (hsockets : ∀ t, t ≠ c.socketToken → c'.wire t = c.wire t ∧ c'.incoming t = c.incoming t)
    (hepochs : ∀ e, e ≠ c.epoch → c'.accepted e = c.accepted e ∧ c'.messages e = c.messages e) : c'.Sound where
  histories := by
    refine h.histories.frame hconnections (Nat.le_of_eq htoken.symm) hepoch hl.current hsockets hepochs ?_
    have hcarried := hl'.carried
    rw [htoken, hepoch] at hcarried
    exact hcarried
  queue := hq
  phase := .inr ⟨done', hl'⟩
  waiting _ _ _ := hl'.ne_zero

/-! ## Steps of the other threads -/

/-- A connection is given up. -/
theorem Sound.cut (h : c.Sound) : Sound { c with connected := false } where
  histories := { h.histories with }
  queue := { h.queue with }
  phase := by
    rcases h.phase with hidle | ⟨done, hlinked⟩
    · exact .inl { hidle with connected := rfl }
    · exact .inr ⟨done, { hlinked with }⟩
  waiting := h.waiting

theorem Sound.invalidate (h : c.Sound) (epoch : Nat) : (c.invalidate epoch).Sound := by
  unfold MediaSignalClient.invalidate
  split
  · exact h
  · exact h.cut

/-- A frame within the limits can be counted. -/
theorem Queue.room (h : c.Queue) {message : Bytes} (hover : c.overLimit message = false) :
    c.pendingFrames + 1 ≤ maxPendingFrames ∧ c.pendingBytes + (linkFrame message).length ≤ maxPendingBytes := by
  have hbytes := h.bytesLe
  have hsub : sizeSub maxPendingBytes c.pendingBytes = maxPendingBytes - c.pendingBytes :=
    sizeSub_eq hbytes (by decide)
  simp only [overLimit, hsub, Bool.or_eq_false_iff, decide_eq_false_iff_not, Nat.not_lt] at hover
  obtain ⟨⟨hlimit, hroom⟩, hframes⟩ := hover
  have hmax : linkLimit < 2 ^ 32 := by decide
  have hadd : sizeAdd message.length 4 = message.length + 4 := sizeAdd_eq (by omega)
  rw [linkFrame_length]
  omega

/-- A frame that is queued. -/
theorem Queue.enqueue (h : c.Queue) {message : Bytes} (hover : c.overLimit message = false)
    (accepted : Nat → List Bytes) : Queue { c with
      pendingBytes := sizeAdd c.pendingBytes (linkFrame message).length
      pendingFrames := sizeAdd c.pendingFrames 1
      frames := c.frames ++ [linkFrame message]
      accepted := accepted } := by
  obtain ⟨hframes, hbytes⟩ := h.room hover
  have hlimit : maxPendingFrames < 2 ^ 64 ∧ maxPendingBytes < 2 ^ 64 := by decide
  have haddFrames : sizeAdd c.pendingFrames 1 = c.pendingFrames + 1 := sizeAdd_eq (by omega)
  have haddBytes : sizeAdd c.pendingBytes (linkFrame message).length = c.pendingBytes + (linkFrame message).length :=
    sizeAdd_eq (by omega)
  have holdFrames := h.frames
  have holdBytes := h.bytes
  refine ⟨?_, ?_, ?_, ?_, ?_, h.writing, h.settling⟩
  · simp only [haddFrames, outstanding, List.length_append, List.length_singleton] at holdFrames ⊢
    omega
  · simp only [haddBytes, outstanding, List.flatten_append, List.length_append, List.flatten_singleton]
      at holdBytes ⊢
    omega
  · rw [haddFrames]
    exact hframes
  · rw [haddBytes]
    exact hbytes
  · intro f hf
    rcases List.mem_append.mp hf with hf | hf
    · exact h.nonempty f hf
    · rw [List.mem_singleton.mp hf]
      exact nofun

theorem Sound.send (h : c.Sound) (epoch : Nat) (message : Bytes) : (c.send epoch message true).2.Sound := by
  unfold MediaSignalClient.send
  split
  · exact h
  next hcurrent =>
  split
  · exact h.cut
  next hover =>
  simp only [Bool.or_eq_true, Bool.not_eq_true', decide_eq_true_eq, not_or, Bool.not_eq_false, not_not] at hcurrent
  obtain ⟨⟨_, hconnected⟩, rfl⟩ := hcurrent
  simp only [if_true]
  rcases h.phase with hidle | ⟨done, hl⟩
  · exact absurd (hidle.connected.symm.trans hconnected) nofun
  · refine h.keep done hl ?_ (h.queue.enqueue (Bool.not_eq_true _ ▸ hover) _) rfl rfl rfl
      (fun _ _ => ⟨rfl, rfl⟩) fun e he => ⟨Function.update_of_ne he _ _, rfl⟩
    refine { hl with accepted := ?_ }
    simp only [outstanding, Function.update_self, hl.accepted, List.append_assoc]

/-! ## Steps of the I/O thread -/

theorem Sound.disconnect (h : c.Sound) : c.disconnect.Sound := by
  have hidle : c.disconnect.Idle := ⟨rfl, rfl, rfl, rfl, rfl, .inl rfl, nofun⟩
  exact ⟨{ h.histories with }, Queue.of_idle hidle ⟨rfl, rfl⟩, .inl hidle, nofun⟩

/-- A socket becomes a connection. -/
theorem setConnected_sound (hh : c.Histories) (hq : c.Queue) (hi : c.Idle) (ho : c.isOpen = true) :
    c.setConnected.Sound := by
  have hsocket : ∀ epoch, (c.socketToken, epoch) ∉ c.connections := by
    intro epoch hp
    exact Nat.lt_irrefl _ (hi.newest ho _ _ hp)
  have hepoch : ∀ token, (token, c.epoch + 1) ∉ c.connections := by
    intro token hp
    have hle := (hh.bound _ _ hp).2
    omega
  obtain ⟨hwire, hincoming⟩ := hh.unconnected c.socketToken hsocket
  obtain ⟨haccepted, hmessages⟩ := hh.unused (c.epoch + 1) hepoch
  have hnothing : linkMessages [] = ([], []) := Splitter.decode_of_none (S := linkSplitter) rfl
  have hl : c.setConnected.Linked [] := by
    refine ⟨rfl, Nat.succ_pos _, ho, rfl, List.mem_cons_self, ?_, ?_, ?_⟩
    · have hout : c.setConnected.outstanding = c.outstanding := rfl
      rw [hout, outstanding_of_idle hi]
      exact haccepted
    · have hsending : c.setConnected.sending = [] := hi.sending
      rw [hsending, List.take_nil]
      exact hwire
    · have hreceived : c.setConnected.received = [] := hi.received
      have hin : c.setConnected.incoming c.setConnected.socketToken = [] := hincoming
      have hout : c.setConnected.messages c.setConnected.epoch = [] := hmessages
      rw [hreceived, hin, hout, hnothing]
  refine ⟨⟨?_, ?_, ?_, ?_, ?_⟩, { hq with }, .inr ⟨[], hl⟩, fun _ _ _ => hl.ne_zero⟩
  · refine List.Pairwise.cons (fun p hp => ⟨hi.newest ho _ _ hp, ?_⟩) hh.order
    have hle := (hh.bound _ _ hp).2
    omega
  · intro token epoch hp
    rcases List.mem_cons.mp hp with hp | hp
    · cases hp
      exact ⟨Nat.le_refl _, Nat.le_refl _⟩
    · have hle := hh.bound _ _ hp
      exact ⟨hle.1, Nat.le_succ_of_le hle.2⟩
  · intro token epoch hp
    rcases List.mem_cons.mp hp with hp | hp
    · cases hp
      exact hl.carried
    · exact hh.carried token epoch hp
  · intro token ht
    exact hh.unconnected token fun epoch hp => ht epoch (List.mem_cons_of_mem _ hp)
  · intro epoch he
    exact hh.unused epoch fun token hp => he token (List.mem_cons_of_mem _ hp)

theorem Sound.connect (h : c.Sound) (ho : c.isOpen = false) (result : ConnectResult) :
    (c.connect result).Sound := by
  have hidle : c.Idle := by
    rcases h.phase with hidle | ⟨done, hlinked⟩
    · exact hidle
    · exact absurd (ho.symm.trans hlinked.isOpen) nofun
  have hnewest : ∀ token epoch, (token, epoch) ∈ c.connections → token < c.socketToken + 1 :=
    fun token epoch hp => Nat.lt_succ_of_le (h.histories.bound _ _ hp).1
  have hbound : ∀ token epoch, (token, epoch) ∈ c.connections → token ≤ c.socketToken + 1 ∧ epoch ≤ c.epoch :=
    fun token epoch hp => ⟨Nat.le_of_lt (hnewest _ _ hp), (h.histories.bound _ _ hp).2⟩
  cases result with
  | noSocket => exact h.atStage nofun nofun (.inr rfl)
  | failed =>
    refine ⟨{ h.histories with bound := hbound }, { h.queue with writing := nofun, settling := nofun }, .inl ?_,
      fun _ _ hne => absurd rfl hne⟩
    exact { hidle with stage := .inr rfl, newest := fun _ => hnewest }
  | inProgress =>
    refine ⟨{ h.histories with bound := hbound }, { h.queue with }, .inl ?_, nofun⟩
    exact { hidle with newest := fun _ => hnewest }
  | done =>
    exact setConnected_sound { h.histories with bound := hbound } { h.queue with }
      { hidle with newest := fun _ => hnewest } rfl

theorem Sound.receive (h : c.Sound) {done : List Bytes} (hl : c.Linked done) (output : Bool) (bytes : Bytes) :
    (c.receive output bytes).Sound := by
  obtain ⟨hmessages, hrest⟩ := receiveLoop_eq (c.received ++ bytes) (c.messages c.epoch)
  have hdecode := linkMessages_append (c.incoming c.socketToken) bytes
  rw [hl.decoded] at hdecode
  refine h.keep done hl { hl with decoded := ?_ } { h.queue with writing := ?_, settling := ?_ } rfl rfl
    rfl ?_ ?_
  · simp only [MediaSignalClient.receive, hl.active, Function.update_self, hdecode, hmessages, hrest]
  · intro hs
    simp only [MediaSignalClient.receive] at hs
    split at hs
    · cases hs
    · split at hs <;> cases hs
  · intro hs
    simp only [MediaSignalClient.receive] at hs
    split at hs
    · cases hs
    · split at hs <;> cases hs
  · intro t ht
    exact ⟨rfl, Function.update_of_ne ht _ _⟩
  · intro e he
    simp only [MediaSignalClient.receive, hl.active, Function.update_of_ne he, and_self]

theorem Sound.takeFrame (h : c.Sound) {done : List Bytes} (hl : c.Linked done) : c.takeFrame.Sound := by
  unfold MediaSignalClient.takeFrame
  split
  · exact h.atStage nofun nofun (.inl hl.ne_zero)
  · next frame frames hsending hframes =>
    have hne : frame ≠ [] := by
      refine h.queue.nonempty frame ?_
      rw [hframes]
      exact List.mem_cons_self
    have hempty : frame.isEmpty = false := by
      rw [List.isEmpty_eq_false_iff]
      exact hne
    have hold : c.outstanding = frame :: frames := by
      simp only [outstanding, hsending, hframes, List.isEmpty_nil, if_true, List.nil_append]
    have hnew : (if frame.isEmpty then [] else [frame]) ++ frames = c.outstanding := by
      simp only [hempty, hold, Bool.false_eq_true, if_false, List.singleton_append]
    refine h.keep done hl { hl with accepted := ?_, wire := ?_ } ?_ rfl rfl rfl
      (fun _ _ => ⟨rfl, rfl⟩) fun _ _ => ⟨rfl, rfl⟩
    · rw [outstanding, hnew]
      exact hl.accepted
    · have hwire := hl.wire
      rw [hsending, List.take_nil] at hwire
      exact hwire
    · refine { h.queue with frames := ?_, bytes := ?_, nonempty := ?_, writing := fun _ => hne, settling := ?_ }
      · rw [outstanding, hnew]
        exact h.queue.frames
      · rw [outstanding, hnew]
        exact h.queue.bytes
      · intro f hf
        refine h.queue.nonempty f ?_
        rw [hframes]
        exact List.mem_cons_of_mem _ hf
      · simp only [hempty, Bool.false_eq_true, if_false]
        exact nofun
  · next hsending =>
    refine h.atStage (fun _ => ?_) nofun (.inl hl.ne_zero)
    rw [hsending]
    exact nofun

theorem Sound.write (h : c.Sound) {done : List Bytes} (hl : c.Linked done) (n : Nat) (hs : c.stage = .writing) :
    (c.write n).Sound := by
  refine h.keep done hl { hl with wire := ?_ } { h.queue with writing := ?_, settling := ?_ } rfl rfl rfl
    ?_ fun _ _ => ⟨rfl, rfl⟩
  · simp only [MediaSignalClient.write, Function.update_self, hl.wire, List.append_assoc, List.take_add]
  · exact fun _ => h.queue.writing hs
  · intro hsettling
    refine ⟨h.queue.writing hs, ?_⟩
    by_contra hne
    have hne : ¬ c.sent + n = c.sending.length := hne
    simp only [MediaSignalClient.write, if_neg hne] at hsettling
    cases hsettling
  · intro t ht
    exact ⟨Function.update_of_ne ht _ _, rfl⟩

/-- When a frame is accounted for, it is counted. -/
theorem Queue.counted (h : c.Queue) (hs : c.stage = .settling) :
    1 ≤ c.pendingFrames ∧ c.sending.length ≤ c.pendingBytes ∧ c.outstanding = c.sending :: c.frames := by
  have hempty : c.sending.isEmpty = false := by
    rw [List.isEmpty_eq_false_iff]
    exact (h.settling hs).1
  have hout : c.outstanding = c.sending :: c.frames := by
    simp only [outstanding, hempty, Bool.false_eq_true, if_false, List.singleton_append]
  have hframes := h.frames
  have hbytes := h.bytes
  simp only [hout, List.length_cons, List.flatten_cons, List.length_append] at hframes hbytes
  refine ⟨?_, ?_, hout⟩ <;> omega

theorem Sound.settle (h : c.Sound) {done : List Bytes} (hl : c.Linked done) (hs : c.stage = .settling) :
    c.settle.Sound := by
  obtain ⟨hone, hlength, hout⟩ := h.queue.counted hs
  have hframesLe := h.queue.framesLe
  have hbytesLe := h.queue.bytesLe
  have hframes := h.queue.frames
  have hbytes := h.queue.bytes
  simp only [hout, List.length_cons, List.flatten_cons, List.length_append] at hframes hbytes
  have hlimit : maxPendingFrames < 2 ^ 64 ∧ maxPendingBytes < 2 ^ 64 := by decide
  have hsubFrames : sizeSub c.pendingFrames 1 = c.pendingFrames - 1 := sizeSub_eq hone (by omega)
  have hsubBytes : sizeSub c.pendingBytes c.sending.length = c.pendingBytes - c.sending.length :=
    sizeSub_eq hlength (by omega)
  unfold MediaSignalClient.settle
  refine h.keep (done ++ [c.sending]) hl { hl with accepted := ?_, wire := ?_ } ?_ rfl rfl rfl
    (fun _ _ => ⟨rfl, rfl⟩) fun _ _ => ⟨rfl, rfl⟩
  · have haccepted := hl.accepted
    rw [hout] at haccepted
    rw [List.append_assoc]
    exact haccepted
  · have hwire := hl.wire
    rw [(h.queue.settling hs).2, List.take_length] at hwire
    simp only [hwire, List.flatten_append, List.flatten_singleton, List.take_nil,
      List.append_nil]
  · refine { h.queue with frames := ?_, bytes := ?_, framesLe := ?_, bytesLe := ?_, writing := nofun, settling := nofun }
    · simp only [outstanding, hsubFrames, List.isEmpty_nil, if_true, List.nil_append]
      omega
    · simp only [outstanding, hsubBytes, List.isEmpty_nil, if_true, List.nil_append]
      omega
    · simp only [hsubFrames]
      exact (Nat.sub_le _ _).trans hframesLe
    · simp only [hsubBytes]
      exact (Nat.sub_le _ _).trans hbytesLe

/-- Every step before the stop keeps the link sound. -/
theorem Sound.step (h : c.Sound) {e : Event} (he : BeforeStop e) (hs : c.step e = some c') : c'.Sound := by
  cases e with
  | start =>
    simp only [MediaSignalClient.step] at hs
    split at hs
    · cases hs
    · cases hs
      exact ⟨{ h.histories with }, { h.queue with }, h.phase.imp (fun hi => { hi with })
        (fun ⟨done, hl⟩ => ⟨done, { hl with }⟩), h.waiting⟩
  | send epoch message notified =>
    obtain rfl : notified = true := he
    cases hs
    exact h.send epoch message
  | invalidate epoch =>
    cases hs
    exact h.invalidate epoch
  | tick timedOut =>
    simp only [MediaSignalClient.step] at hs
    split at hs
    · cases hs
      exact h.atStage nofun nofun (.inr rfl)
    · cases hs
  | connect result =>
    simp only [MediaSignalClient.step] at hs
    split at hs
    · next hidle =>
      cases hs
      exact h.connect hidle.2.2 result
    · cases hs
  | handleEvents token input output hangup failed =>
    simp only [MediaSignalClient.step] at hs
    split at hs
    · next hopen =>
      obtain ⟨hstage, ho, _⟩ := hopen
      split at hs
      · next hconnecting =>
        split at hs
        · cases hs
          exact h.atStage nofun nofun (.inr rfl)
        · cases hs
          have hidle : c.Idle := by
            rcases h.phase with hidle | ⟨done, hl⟩
            · exact hidle
            · exact absurd (hl.connecting.symm.trans hconnecting) nofun
          exact (setConnected_sound h.histories h.queue hidle ho).atStage nofun nofun (.inl (Nat.succ_ne_zero _))
      · next hconnecting =>
        cases hs
        have hne : c.stage ≠ .disconnecting := by
          rw [hstage]
          exact nofun
        exact h.atStage nofun nofun (.inl (h.waiting ho (Bool.not_eq_true _ ▸ hconnecting) hne))
    · cases hs
  | check =>
    simp only [MediaSignalClient.step] at hs
    split at hs
    · next input output hangup hstage =>
      obtain ⟨done, hl⟩ := h.linked (by rw [hstage]; nofun) (by rw [hstage]; nofun)
      split at hs
      · cases hs
        exact h.atStage nofun nofun (.inr rfl)
      · cases hs
        refine h.atStage ?_ ?_ (.inl hl.ne_zero)
        · split
          · exact nofun
          · split <;> exact nofun
        · split
          · exact nofun
          · split <;> exact nofun
    · cases hs
  | receive bytes =>
    simp only [MediaSignalClient.step] at hs
    split at hs
    · next output hstage =>
      obtain ⟨done, hl⟩ := h.linked (by rw [hstage]; nofun) (by rw [hstage]; nofun)
      split at hs
      · cases hs
        exact h.receive hl output bytes
      · cases hs
    · cases hs
  | receiveAgain =>
    simp only [MediaSignalClient.step] at hs
    split at hs
    · next output hstage =>
      obtain ⟨done, hl⟩ := h.linked (by rw [hstage]; nofun) (by rw [hstage]; nofun)
      cases hs
      exact h.receive hl output []
    · cases hs
  | receiveFailed =>
    simp only [MediaSignalClient.step] at hs
    split at hs
    · cases hs
      exact h.atStage nofun nofun (.inr rfl)
    · cases hs
  | takeFrame =>
    simp only [MediaSignalClient.step] at hs
    split at hs
    · next hstage =>
      obtain ⟨done, hl⟩ := h.linked (by rw [hstage]; nofun) (by rw [hstage]; nofun)
      cases hs
      exact h.takeFrame hl
    · cases hs
  | write n =>
    simp only [MediaSignalClient.step] at hs
    split at hs
    · next hwrite =>
      have hstage := hwrite.1
      obtain ⟨done, hl⟩ := h.linked (by rw [hstage]; nofun) (by rw [hstage]; nofun)
      cases hs
      exact h.write hl n hstage
    · cases hs
  | writeAgain =>
    simp only [MediaSignalClient.step] at hs
    split at hs
    · next hstage =>
      obtain ⟨done, hl⟩ := h.linked (by rw [hstage]; nofun) (by rw [hstage]; nofun)
      have hsending := h.queue.writing hstage
      cases hs
      refine h.atStage (fun _ => hsending) (fun hs => ⟨hsending, ?_⟩) (.inl hl.ne_zero)
      by_contra hne
      simp only [if_neg hne] at hs
      cases hs
    · cases hs
  | writeFailed =>
    simp only [MediaSignalClient.step] at hs
    split at hs
    · cases hs
      exact h.atStage nofun nofun (.inr rfl)
    · cases hs
  | settle =>
    simp only [MediaSignalClient.step] at hs
    split at hs
    · next hstage =>
      obtain ⟨done, hl⟩ := h.linked (by rw [hstage]; nofun) (by rw [hstage]; nofun)
      cases hs
      exact h.settle hl hstage
    · cases hs
  | disconnect =>
    simp only [MediaSignalClient.step] at hs
    split at hs
    · cases hs
      exact h.disconnect
    · cases hs

theorem sound_of_reachable (h : c.Reachable) : c.Sound :=
  Reach.invariant fresh_sound (fun _ _ _ hi hok hs => hi.step hok hs) h

/-! ## Isolation -/

/-- What the link keeps apart. -/
structure Isolated (c : MediaSignalClient) : Prop where
  /-- A connection has one epoch, and an epoch one connection. -/
  distinct : ∀ token epoch token' epoch', (token, epoch) ∈ c.connections → (token', epoch') ∈ c.connections →
    (token = token' ↔ epoch = epoch')
  /-- A connection gets the frames accepted under its epoch, in their order and without a gap. -/
  sent : ∀ token epoch, (token, epoch) ∈ c.connections → c.wire token <+: (c.accepted epoch).flatten
  unconnected : ∀ token, (∀ epoch, (token, epoch) ∉ c.connections) → c.wire token = []
  /-- The events of an epoch are the messages its connection has brought. -/
  received : ∀ token epoch, (token, epoch) ∈ c.connections → c.messages epoch = (linkMessages (c.incoming token)).1
  unused : ∀ epoch, (∀ token, (token, epoch) ∉ c.connections) → c.accepted epoch = [] ∧ c.messages epoch = []
  frames : c.pendingFrames = c.outstanding.length
  bytes : c.pendingBytes = c.outstanding.flatten.length
  limits : c.pendingFrames ≤ maxPendingFrames ∧ c.pendingBytes ≤ maxPendingBytes
  /-- The accounting of a written frame subtracts what was added. -/
  nowrap : c.stage = .settling → 1 ≤ c.pendingFrames ∧ c.sending.length ≤ c.pendingBytes

/-- Whatever the threads do and the sockets answer before the stop, the epochs are kept apart. -/
theorem isolated_of_reachable (h : c.Reachable) : c.Isolated := by
  have hsound := sound_of_reachable h
  refine ⟨?_, ?_, ?_, ?_, ?_, ?_, ?_, ?_, ?_⟩
  · intro token epoch token' epoch' hp hq
    exact hsound.histories.distinct hp hq
  · intro token epoch hp
    exact (hsound.histories.carried token epoch hp).sent
  · intro token ht
    exact (hsound.histories.unconnected token ht).1
  · intro token epoch hp
    exact (hsound.histories.carried token epoch hp).received
  · exact hsound.histories.unused
  · exact hsound.queue.frames
  · exact hsound.queue.bytes
  · exact ⟨hsound.queue.framesLe, hsound.queue.bytesLe⟩
  · intro hs
    obtain ⟨hframes, hbytes, _⟩ := hsound.queue.counted hs
    exact ⟨hframes, hbytes⟩

/-- Every frame is announced. -/
def announces : Event → Bool
  | .send _ _ notified => notified
  | _ => true

/-- A frame is cut off by a reconnect, with another one behind it; the next connection carries its own. -/
theorem isolated_after_reconnect : ∃ c : MediaSignalClient, c.connections.length = 2 ∧
    (c.wire (2 ^ 63 + 1)).length = 3 ∧ (c.wire (2 ^ 63 + 2)).length = 6 ∧ c.Isolated := by
  have hrun : ((play MediaSignalClient.step (fun _ => announces)
      [.start, .connect .done, .send 1 [7, 7] true, .send 1 [8] true,
        .handleEvents (2 ^ 63 + 1) false true false false, .check, .takeFrame, .write 3, .invalidate 1, .tick false,
        .disconnect, .connect .done, .send 1 [9] true, .send 2 [9, 9] true,
        .handleEvents (2 ^ 63 + 2) false true false false, .check, .takeFrame, .write 6] {}).any fun c =>
          decide (c.connections.length = 2 ∧ (c.wire (2 ^ 63 + 1)).length = 3 ∧ (c.wire (2 ^ 63 + 2)).length = 6)) =
      true := by decide
  obtain ⟨c, hplay, hc⟩ := (Option.any_eq_true _ _).mp hrun
  obtain ⟨hconnections, hfirst, hsecond⟩ := of_decide_eq_true hc
  refine ⟨c, hconnections, hfirst, hsecond, isolated_of_reachable (reach_play (fun _ e he => ?_) hplay)⟩
  cases e with
  | send epoch message notified => exact he
  | _ => trivial

end MediaSignalClient

end SyncRtc.Net
