import SyncRtc.Client.RecoveryController

/-!
# A recovery ends

What holds of the client at any time is in two parts. `Core` is kept even in the middle of a handler: the budget runs
from the interruption, the retry timer runs in `waiting` only, and what has been written and applied was in order.
`Armed` adds what a handler restores before it returns: the timer of the stage runs.

`retry`, `fail` and `finish` arm the client whatever has been stopped before them, so every handler is settled by the
call it ends with. A send that loses the connection ends in `retry` as well (`sendData_cases`): either nothing has
changed that the timers depend on, or the client is armed and waits.
-/

set_option autoImplicit false

namespace SyncRtc.Client

open Net (Bytes SocketState heartbeatResponse)

/-- A request that may be sent in any state. -/
def isRecoveryRequest (id : UInt16) : Prop := id = authLoginRequest ∨ id = resumeMeetingRequest ∨ id = heartbeatRequest

namespace RealtimeClient

variable {c c' : RealtimeClient} {toJson : Json → Bytes}

/-- What has been written and applied was in order. -/
structure InOrder (c : RealtimeClient) : Prop where
  frames : ∀ frame ∈ c.frames, isRecoveryRequest frame.2 ∨ frame.1 = .ready
  restored : ∀ r ∈ c.restored, r.state = .resuming ∧ (r.response.get "request_id").text = r.requestId
  interruptions : ∀ i ∈ c.interruptions, i.state = .ready

structure Core (c : RealtimeClient) : Prop extends InOrder c where
  business : c.tcp.businessReady = true → c.recovery.state = .ready
  authenticated : c.recovery.state.recovering = true → c.recovery.authenticated = true
  budget : c.recovery.state.recovering = true → ∃ i, c.interruptions.getLast? = some i ∧
    c.recovery.requestId = i.requestId ∧ c.recovery.budgetTimer = some (i.time + 45000)
  waiting : c.recovery.state = .waiting → ∃ due, c.recovery.retryTimer = some due ∧ due ≤ c.now + 10250
  retry : c.recovery.state ≠ .waiting → c.recovery.retryTimer = none
  stage : c.recovery.state ≠ .authenticating → c.recovery.state ≠ .resuming → c.recovery.stageTimer = none

/-- The timer of the stage runs. -/
structure Armed (c : RealtimeClient) : Prop extends Core c where
  closed : c.recovery.state = .waiting → c.tcp.socket = none
  connecting : c.recovery.state = .connecting →
    c.tcp.socket = some .connecting ∧ ∃ due, c.tcp.connectTimer = some due ∧ due ≤ c.now + 5000
  staged : c.recovery.state = .authenticating ∨ c.recovery.state = .resuming →
    c.tcp.socket = some .connected ∧ ∃ due, c.recovery.stageTimer = some due ∧ due ≤ c.now + 5000

/-- Nothing has changed that a timer depends on. -/
structure Alike (c c' : RealtimeClient) : Prop where
  now : c'.now = c.now
  recovery : c'.recovery = c.recovery
  socket : c'.tcp.socket = c.tcp.socket
  connectTimer : c'.tcp.connectTimer = c.tcp.connectTimer

theorem Alike.refl (c : RealtimeClient) : Alike c c := ⟨rfl, rfl, rfl, rfl⟩

theorem Alike.trans {c₁ c₂ c₃ : RealtimeClient} (h : Alike c₁ c₂) (h' : Alike c₂ c₃) : Alike c₁ c₃ :=
  ⟨h'.now.trans h.now, h'.recovery.trans h.recovery, h'.socket.trans h.socket, h'.connectTimer.trans h.connectTimer⟩

theorem Armed.alike (h : Armed c) (halike : Alike c c') (hcore : Core c') : Armed c' := by
  refine { hcore with closed := ?_, connecting := ?_, staged := ?_ }
  · rw [halike.recovery, halike.socket]
    exact h.closed
  · rw [halike.recovery, halike.socket, halike.connectTimer, halike.now]
    exact h.connecting
  · rw [halike.recovery, halike.socket, halike.now]
    exact h.staged

/-! ## The calls a handler ends with -/

theorem InOrder.start : InOrder {} := ⟨nofun, nofun, nofun⟩

/-- Out of a recovery there is nothing to arm. -/
theorem armed_of_not_recovering (h : InOrder c) (hrecovering : c.recovery.state.recovering = false)
    (hbusiness : c.tcp.businessReady = true → c.recovery.state = .ready) (hretry : c.recovery.retryTimer = none)
    (hstage : c.recovery.stageTimer = none) : Armed c := by
  have none : ∀ {state : State}, state.recovering = true → c.recovery.state ≠ state := by
    rintro state hstate rfl
    rw [hrecovering] at hstate
    cases hstate
  refine ⟨⟨h, hbusiness, ?_, ?_, fun hw => absurd hw (none rfl), fun _ => hretry, fun _ _ => hstage⟩,
    fun hw => absurd hw (none rfl), fun hc => absurd hc (none rfl), ?_⟩
  · intro hr
    rw [hrecovering] at hr
    cases hr
  · intro hr
    rw [hrecovering] at hr
    cases hr
  · rintro (ha | hr)
    · exact absurd ha (none rfl)
    · exact absurd hr (none rfl)

theorem Armed.start : Armed {} := armed_of_not_recovering .start rfl nofun rfl rfl

theorem stop_armed (h : InOrder c) : Armed c.stop := armed_of_not_recovering ⟨h.frames, h.restored, h.interruptions⟩ rfl nofun rfl rfl

theorem fail_armed (h : InOrder c) : Armed c.fail :=
  armed_of_not_recovering ⟨h.frames, h.restored, h.interruptions⟩ rfl (by simp [fail, setState]) rfl rfl

theorem finish_armed (h : InOrder c) : Armed c.finish :=
  armed_of_not_recovering ⟨h.frames, h.restored, h.interruptions⟩ rfl (fun _ => rfl) rfl rfl

/-- The retry timer is started, and the controller waits for it. -/
theorem retry_starts (h : InOrder c) (hrecovering : c.recovery.state.recovering = true)
    (hauthenticated : c.recovery.authenticated = true)
    (hbudget : ∃ i, c.interruptions.getLast? = some i ∧ c.recovery.requestId = i.requestId ∧
      c.recovery.budgetTimer = some (i.time + 45000))
    (hinactive : c.recovery.retryTimer = none) (chance : Chance) :
    Armed (c.retry chance) ∧ (c.retry chance).recovery.state = .waiting := by
  have hdelay : retryDelay c.recovery.failures ≤ 10000 := by
    unfold retryDelay
    split <;> omega
  have hbounded : (chance.bounded : Nat) ≤ 250 := Nat.le_of_lt_succ chance.bounded.isLt
  rw [retry, if_neg (by simp [hrecovering])]
  dsimp only
  rw [if_neg (by simp [closeConnection, hinactive])]
  refine ⟨⟨⟨⟨h.frames, h.restored, h.interruptions⟩, nofun, fun _ => hauthenticated, fun _ => hbudget, fun _ => ⟨_, rfl, ?_⟩,
    fun hnot => absurd rfl hnot, fun _ _ => rfl⟩, fun _ => rfl, nofun, ?_⟩, rfl⟩
  · simp only [setState, RealtimeClient.closeConnection]
    omega
  · rintro (ha | hr)
    · cases ha
    · cases hr

/-- A recovery that tries again waits, and is armed. -/
theorem retry_armed (h : Core c) (hrecovering : c.recovery.state.recovering = true) (chance : Chance) :
    Armed (c.retry chance) ∧ (c.retry chance).recovery.state = .waiting := by
  by_cases hwaiting : c.recovery.state = .waiting
  · obtain ⟨due, hdue, hle⟩ := h.waiting hwaiting
    rw [retry, if_neg (by simp [hrecovering])]
    dsimp only
    rw [if_pos (by simp [closeConnection, hdue])]
    refine ⟨⟨⟨⟨h.frames, h.restored, h.interruptions⟩, nofun, h.authenticated, h.budget, h.waiting, h.retry, fun _ _ => rfl⟩,
      fun _ => rfl, ?_, ?_⟩, hwaiting⟩
    · intro hc
      rw [show c.recovery.state = .connecting from hc] at hwaiting
      cases hwaiting
    · rintro (ha | hr)
      · rw [show c.recovery.state = .authenticating from ha] at hwaiting
        cases hwaiting
      · rw [show c.recovery.state = .resuming from hr] at hwaiting
        cases hwaiting
  · exact retry_starts h.toInOrder hrecovering (h.authenticated hrecovering) (h.budget hrecovering) (h.retry hwaiting)
      chance

theorem Core.closeConnection (h : Core c) : Core c.closeConnection :=
  { h with business := nofun }

/-- Losing the connection starts a recovery, or has the current one try again. -/
theorem disconnected_armed (h : Core c) (chance : Chance) :
    Armed (c.disconnected chance) ∧ ((c.disconnected chance).recovery.state = .waiting ∨
      c.recovery.state.recovering = false ∧ (c.disconnected chance).recovery.state = c.recovery.state) := by
  unfold disconnected
  split
  · next hnot =>
    have hnot : c.recovery.state.recovering = false := by
      by_contra hr
      rw [Bool.not_eq_false] at hr
      rcases hnot with hnot | hidle | hfailed
      · exact hnot (h.authenticated hr)
      · rw [hidle] at hr
        cases hr
      · rw [hfailed] at hr
        cases hr
    refine ⟨armed_of_not_recovering h.toInOrder hnot h.business ?_ ?_, .inr ⟨hnot, rfl⟩⟩
    · refine h.retry fun hw => ?_
      rw [hw] at hnot
      cases hnot
    · refine h.stage ?_ ?_
      · intro ha
        rw [ha] at hnot
        cases hnot
      · intro hr
        rw [hr] at hnot
        cases hnot
  · next hgo =>
    simp only [not_or, not_not] at hgo
    obtain ⟨hauthenticated, hidle, hfailed⟩ := hgo
    split
    · next hready =>
      have hinactive := h.retry (by rw [hready]; nofun)
      refine (retry_starts ?_ ?_ ?_ ?_ ?_ chance).imp_right .inl
      · refine ⟨h.frames, h.restored, ?_⟩
        intro i hi
        rcases List.mem_append.mp hi with hi | hi
        · exact h.interruptions i hi
        · rw [List.mem_singleton.mp hi]
          exact hready
      · rfl
      · exact hauthenticated
      · exact ⟨_, List.getLast?_concat, rfl, rfl⟩
      · exact hinactive
    · next hready =>
      have hrecovering : c.recovery.state.recovering = true := by
        revert hidle hfailed hready
        cases c.recovery.state <;> simp [State.recovering]
      exact (retry_armed h hrecovering chance).imp_right .inl

/-! ## Sending -/

theorem connectionLost_armed (h : Core c) (hsocket : c.tcp.socket.isSome) (chance : Chance) :
    Armed (c.connectionLost chance) ∧ ((c.connectionLost chance).recovery.state = .waiting ∨
      c.recovery.state.recovering = false ∧ (c.connectionLost chance).recovery.state = c.recovery.state) := by
  obtain ⟨socket, hsocket⟩ := Option.isSome_iff_exists.mp hsocket
  rw [connectionLost, hsocket]
  have hclosed : Core { c.closeConnection with connectPending := false } := { h with business := nofun }
  exact disconnected_armed hclosed chance

theorem Core.alike (h : Core c) (halike : Alike c c') (hframes : c'.frames = c.frames)
    (hrestored : c'.restored = c.restored) (hinterruptions : c'.interruptions = c.interruptions)
    (hbusiness : c'.tcp.businessReady = c.tcp.businessReady) : Core c' := by
  obtain ⟨hnow, hrecovery, -, -⟩ := halike
  exact ⟨⟨hframes ▸ h.frames, hrestored ▸ h.restored, hinterruptions ▸ h.interruptions⟩, by rw [hbusiness, hrecovery]; exact h.business,
    by rw [hrecovery]; exact h.authenticated, by rw [hrecovery, hinterruptions]; exact h.budget,
    by rw [hrecovery, hnow]; exact h.waiting, by rw [hrecovery]; exact h.retry, by rw [hrecovery]; exact h.stage⟩

/-- What a call that may lose the connection leaves behind. -/
def Sent (c c' : RealtimeClient) : Prop :=
  Core c' ∧ Alike c c' ∨ Armed c' ∧ (c'.recovery.state = .waiting ∨
    c.recovery.state.recovering = false ∧ c'.recovery.state = c.recovery.state)

/-- A send writes, or is refused, or loses the connection. -/
theorem sendData_sent (h : Core c) (chance : Chance) (wire : Wire) (id : UInt16) (data : Bytes) :
    Sent c (c.sendData chance wire id data) := by
  unfold sendData
  dsimp only
  split
  · exact .inl ⟨h, .refl c⟩
  · next hsent =>
    rw [not_or, not_or, not_not, not_and, not_not] at hsent
    obtain ⟨hsocket, hallowed, -⟩ := hsent
    split
    · exact .inr (connectionLost_armed h (by rw [hsocket]; rfl) chance)
    · -- what is written now is a request of the recovery, or the controller is ready
      have hframe : isRecoveryRequest id ∨ c.recovery.state = .ready := by
        by_cases hready : c.tcp.businessReady = true
        · exact .inr (h.business hready)
        · exact .inl (hallowed hready)
      have hwritten : Core { c with frames := c.frames ++ [(c.recovery.state, id)] } := by
        refine { h with frames := ?_ }
        intro frame hmem
        rcases List.mem_append.mp hmem with hmem | hmem
        · exact h.frames frame hmem
        · rw [List.mem_singleton.mp hmem]
          exact hframe
      split
      · exact .inl ⟨hwritten, ⟨rfl, rfl, rfl, rfl⟩⟩
      · exact .inr (connectionLost_armed hwritten (by rw [hsocket]; rfl) chance)

theorem Sent.alike {c₁ c₂ : RealtimeClient} (halike : Alike c c₁) (h : Sent c₁ c₂) : Sent c c₂ := by
  rcases h with ⟨hcore, halike'⟩ | ⟨harmed, hwaiting⟩
  · exact .inl ⟨hcore, halike.trans halike'⟩
  · exact .inr ⟨harmed, by rw [← halike.recovery]; exact hwaiting⟩

theorem Sent.armed (h : Sent c c') (harmed : Armed c) : Armed c' := by
  rcases h with ⟨hcore, halike⟩ | ⟨harmed', -⟩
  · exact harmed.alike halike hcore
  · exact harmed'

theorem sendHeartbeat_sent (h : Core c) (chance : Chance) (now : Nat) : Sent c (c.sendHeartbeat toJson chance now) := by
  unfold sendHeartbeat
  refine Sent.alike ?_ (sendData_sent ?_ chance _ _ _)
  · exact ⟨rfl, rfl, rfl, rfl⟩
  · exact h.alike ⟨rfl, rfl, rfl, rfl⟩ rfl rfl rfl rfl

theorem startHeartbeat_sent (h : Core c) (chance : Chance) (capabilities : List String) :
    Sent c (c.startHeartbeatIfCapable toJson chance capabilities) := by
  unfold startHeartbeatIfCapable
  split
  · unfold startHeartbeat
    split
    · exact .inl ⟨h, .refl c⟩
    · refine Sent.alike ?_ (sendHeartbeat_sent ?_ chance 0)
      · exact ⟨rfl, rfl, rfl, rfl⟩
      · exact h.alike ⟨rfl, rfl, rfl, rfl⟩ rfl rfl rfl rfl
  · exact .inl ⟨h, .refl c⟩

/-! ## Messages -/

/-- In a stage that has sent its request, the timer of the stage may be stopped for a while. -/
theorem Core.unstage (h : Core c) : Core { c with recovery := { c.recovery with stageTimer := none } } :=
  { h with stage := fun _ _ => rfl }

/-- The next stage begins with its timer. -/
theorem stage_armed (h : Core c) {state : State} (hstate : state = .authenticating ∨ state = .resuming)
    (hwaiting : c.recovery.state ≠ .waiting) (hrecovering : c.recovery.state.recovering = true)
    (hsocket : c.tcp.socket = some .connected) :
    Armed { c.setState state with recovery := { (c.setState state).recovery with stageTimer := some (c.now + 5000) } } := by
  have hready : state ≠ .ready := by rcases hstate with rfl | rfl <;> nofun
  refine ⟨⟨⟨h.frames, h.restored, h.interruptions⟩, ?_, fun _ => h.authenticated hrecovering, fun _ => h.budget hrecovering, ?_,
    fun _ => h.retry hwaiting, ?_⟩, ?_, ?_, fun _ => ⟨hsocket, _, rfl, Nat.le_refl _⟩⟩
  · simp [setState, hready]
  · rintro rfl
    rcases hstate with hstate | hstate <;> cases hstate
  · intro ha hr
    exact absurd hstate (not_or.mpr ⟨ha, hr⟩)
  · rintro rfl
    rcases hstate with hstate | hstate <;> cases hstate
  · rintro rfl
    rcases hstate with hstate | hstate <;> cases hstate

theorem handleAuth_armed (h : Armed c) (chance : Chance) (response : Json) :
    Armed (c.handleAuth toJson chance response) := by
  unfold handleAuth
  split
  · exact h
  · next hstate =>
    rw [ne_eq, not_not] at hstate
    have hcore := h.toCore.unstage
    have hrecovering : c.recovery.state.recovering = true := by rw [hstate]; rfl
    dsimp only
    split
    · exact (retry_armed hcore hrecovering chance).1
    · split
      · exact fail_armed hcore.toInOrder
      · have hsupported : Core { c with recovery := { c.recovery with
            stageTimer := none
            resumeSupported := decide ("meeting_resume_v1" ∈ capabilitiesOf response) } } :=
          { hcore with }
        have hsent := @startHeartbeat_sent _ toJson hsupported chance (capabilitiesOf response)
        generalize hbeat : startHeartbeatIfCapable toJson chance (capabilitiesOf response) _ = c₁ at hsent ⊢
        split
        · next hleft =>
          -- sending the first heartbeat has lost the connection
          rcases hsent with ⟨-, halike⟩ | ⟨harmed, -⟩
          · rw [halike.recovery] at hleft
            exact absurd hstate hleft
          · exact harmed
        · next hstay =>
          rw [ne_eq, not_not] at hstay
          rcases hsent with ⟨hcore₁, halike⟩ | ⟨-, hwaiting⟩
          · split
            · exact finish_armed hcore₁.toInOrder
            · split
              · exact finish_armed ⟨hcore₁.frames, hcore₁.restored, hcore₁.interruptions⟩
              · have hsocket := (h.staged (.inl hstate)).1
                have hnext := stage_armed hcore₁ (.inr rfl) (by rw [hstay]; nofun) (by rw [hstay]; rfl)
                  (halike.socket.trans hsocket)
                exact (sendData_sent hnext.toCore chance _ _ _).armed hnext
          · rcases hwaiting with hwaiting | ⟨hnot, -⟩
            · rw [hwaiting] at hstay
              cases hstay
            · exact absurd hrecovering (by rw [hnot]; nofun)

theorem handleResume_armed (h : Armed c) (chance : Chance) (response : Json) :
    Armed (c.handleResume chance response) := by
  unfold handleResume
  split
  · exact h
  · next hstate =>
    rw [ne_eq, not_not] at hstate
    have hcore := h.toCore.unstage
    dsimp only
    split
    · exact h
    · split
      · exact (retry_armed hcore (by rw [hstate]; rfl) chance).1
      · split
        · exact finish_armed ⟨h.frames, h.restored, h.interruptions⟩
        · split
          · exact fail_armed ⟨h.frames, h.restored, h.interruptions⟩
          · next hmatch =>
            rw [ne_eq, not_not] at hmatch
            split
            · exact fail_armed ⟨h.frames, h.restored, h.interruptions⟩
            · refine finish_armed ⟨h.frames, ?_, h.interruptions⟩
              intro r hr
              rcases List.mem_append.mp hr with hr | hr
              · exact h.restored r hr
              · rw [List.mem_singleton.mp hr]
                exact ⟨hstate, hmatch⟩

theorem messageRecv_armed (h : Armed c) (chance : Chance) (id : UInt16) (json : Json) :
    Armed (c.messageRecv toJson chance id json) := by
  have hhandled : Armed (c.handleMessage toJson chance id json).1 := by
    unfold handleMessage
    split
    · exact handleAuth_armed h chance json
    · split
      · exact handleResume_armed h chance json
      · exact h
  have hpassed : (c.handleMessage toJson chance id json).2 = false → (c.handleMessage toJson chance id json).1 = c := by
    unfold handleMessage
    split
    · nofun
    · split
      · nofun
      · exact fun _ => rfl
  unfold messageRecv
  split
  · next c₁ heq =>
    rw [heq] at hhandled
    exact hhandled
  · next c₁ heq =>
    rw [heq] at hpassed
    obtain rfl : c₁ = c := hpassed rfl
    split
    · unfold loginAnswered
      dsimp only
      generalize (if json.isMember "profile" then json.get "profile" else json) = profile
      split
      · exact h
      · split
        · exact h
        · split
          · exact h
          · have hfinished : ∀ d : RealtimeClient, InOrder d →
                Armed (d.finish.startHeartbeatIfCapable toJson chance (capabilitiesOf json)) := by
              intro d hd
              exact (startHeartbeat_sent (finish_armed hd).toCore chance _).armed (finish_armed hd)
            exact hfinished _ ⟨h.frames, h.restored, h.interruptions⟩
    · exact h.alike ⟨rfl, rfl, rfl, rfl⟩ (h.toCore.alike ⟨rfl, rfl, rfl, rfl⟩ rfl rfl rfl rfl)

/-! ## The connection -/

theorem lost_armed (h : Core c) (hnone : c.tcp.socket = none → Armed c) (chance : Chance) :
    Armed (c.connectionLost chance) := by
  cases hsocket : c.tcp.socket with
  | none =>
    rw [connectionLost, hsocket]
    exact hnone hsocket
  | some socket => exact (connectionLost_armed h (by rw [hsocket]; rfl) chance).1

theorem acceptHeartbeat_armed (h : Armed c) (response : Json) : Armed (c.acceptHeartbeat response) := by
  unfold acceptHeartbeat
  split
  · exact h
  · dsimp only
    split
    · split
      · exact h
      · exact h.alike ⟨rfl, rfl, rfl, rfl⟩ (h.toCore.alike ⟨rfl, rfl, rfl, rfl⟩ rfl rfl rfl rfl)
    · exact h

/-- By induction on the messages: each is handled, or ends the connection. -/
theorem readIncoming_armed (generation : Nat) (messages : List Incoming) (h : Armed c) :
    Armed (c.readIncoming toJson generation messages) := by
  induction messages generalizing c with
  | nil => exact h
  | cons message messages ih =>
    rw [readIncoming]
    split
    · exact h
    · split
      · exact ih h
      · split
        · exact lost_armed h.toCore (fun _ => h) message.chance
        · split
          · exact ih (acceptHeartbeat_armed h _)
          · exact ih (messageRecv_armed h message.chance _ _)

theorem heartbeatTick_armed (h : Armed c) (chance : Chance) (messages : List Incoming) :
    Armed (c.heartbeatTick toJson chance messages) := by
  unfold heartbeatTick
  have hread : ∀ (d : RealtimeClient) (generation : Nat), Alike c d → Core d →
      Armed (d.readIncoming toJson generation messages) := by
    intro d generation halike hcore
    exact readIncoming_armed generation messages (h.alike halike hcore)
  have hread := hread { c with tcp := { c.tcp with lastHeartbeatTick := c.now - c.tcp.heartbeatClock } }
    c.tcp.generation ⟨rfl, rfl, rfl, rfl⟩ (h.toCore.alike ⟨rfl, rfl, rfl, rfl⟩ rfl rfl rfl rfl)
  dsimp only
  generalize hc₁ : readIncoming toJson c.tcp.generation messages _ = c₁ at hread ⊢
  split
  · exact hread
  · split
    · have hreprobe : Armed { c₁ with tcp := { c₁.tcp with
          pauseReprobeUsed := true
          reprobeUntil := c.now - c.tcp.heartbeatClock + 5000
          probes := [] } } :=
        hread.alike ⟨rfl, rfl, rfl, rfl⟩ (hread.toCore.alike ⟨rfl, rfl, rfl, rfl⟩ rfl rfl rfl rfl)
      exact (sendHeartbeat_sent hreprobe.toCore chance _).armed hreprobe
    · split
      · exact lost_armed hread.toCore (fun _ => hread) chance
      · split
        · exact (sendHeartbeat_sent hread.toCore chance _).armed hread
        · exact hread

/-- A connection is opened with its time-out, by a recovery or by a login. -/
theorem tcpConnect_armed (h : Core c)
    (hstate : c.recovery.state = .connecting ∨ c.recovery.state.recovering = false) (chance : Chance) :
    Armed (c.tcpConnect chance) := by
  have hcore : Core { c.closeConnection with
      tcp := { c.closeConnection.tcp with socket := some .connecting, connectTimer := some (c.now + 5000) } } :=
    { h with business := nofun }
  unfold tcpConnect
  dsimp only
  split
  · exact (connectionLost_armed hcore rfl chance).1
  · refine { hcore with closed := ?_, connecting := fun _ => ⟨rfl, _, rfl, Nat.le_refl _⟩, staged := ?_ }
    · intro hw
      rw [show c.recovery.state = .waiting from hw] at hstate
      rcases hstate with hstate | hstate <;> cases hstate
    · rintro (ha | hr)
      · rw [show c.recovery.state = .authenticating from ha] at hstate
        rcases hstate with hstate | hstate <;> cases hstate
      · rw [show c.recovery.state = .resuming from hr] at hstate
        rcases hstate with hstate | hstate <;> cases hstate

/-- The retry timer has gone off: the controller is ready to connect. -/
theorem connecting_core (h : Core c) (hwaiting : c.recovery.state = .waiting) :
    Core ({ c with recovery := { c.recovery with retryTimer := none } }.setState .connecting) := by
  have hrecovering : c.recovery.state.recovering = true := by rw [hwaiting]; rfl
  refine ⟨⟨h.frames, h.restored, h.interruptions⟩, nofun, fun _ => h.authenticated hrecovering, fun _ => h.budget hrecovering, nofun,
    fun _ => rfl, fun _ _ => ?_⟩
  exact h.stage (by rw [hwaiting]; nofun) (by rw [hwaiting]; nofun)

theorem connectSucceeded_armed (h : Core c) (hsocket : c.tcp.socket = some .connected)
    (hstate : c.recovery.state = .connecting ∨ c.recovery.state.recovering = false) (chance : Chance) :
    Armed (c.connectSucceeded toJson chance) := by
  have harmed : c.recovery.state ≠ .connecting → Armed c := by
    intro hnot
    refine armed_of_not_recovering h.toInOrder (hstate.resolve_left hnot) h.business ?_ ?_
    · refine h.retry fun hw => ?_
      rw [hw] at hstate
      rcases hstate with hstate | hstate <;> cases hstate
    · refine h.stage (fun ha => ?_) (fun hr => ?_)
      · rw [ha] at hstate
        rcases hstate with hstate | hstate <;> cases hstate
      · rw [hr] at hstate
        rcases hstate with hstate | hstate <;> cases hstate
  -- what `LoginController` does first
  have hlogin : Sent c (if c.connectPending then
      { c with connectPending := false }.send toJson chance authLoginRequest (authRequest c.loginServer) else c) := by
    split
    · refine Sent.alike ?_ (sendData_sent ?_ chance _ _ _)
      · exact ⟨rfl, rfl, rfl, rfl⟩
      · exact h.alike ⟨rfl, rfl, rfl, rfl⟩ rfl rfl rfl rfl
    · exact .inl ⟨h, .refl c⟩
  unfold connectSucceeded
  dsimp only
  generalize (if c.connectPending then
      { c with connectPending := false }.send toJson chance authLoginRequest (authRequest c.loginServer) else c) = c₁
    at hlogin ⊢
  split
  · next hnot =>
    rcases hlogin with ⟨hcore, halike⟩ | ⟨harmed', -⟩
    · exact (harmed (halike.recovery ▸ hnot)).alike halike hcore
    · exact harmed'
  · next hconnecting =>
    rw [ne_eq, not_not] at hconnecting
    rcases hlogin with ⟨hcore, halike⟩ | ⟨harmed', hwaiting⟩
    · have hnext := stage_armed hcore (.inl rfl) (by rw [hconnecting]; nofun) (by rw [hconnecting]; rfl)
        (halike.socket.trans hsocket)
      exact (sendData_sent hnext.toCore chance _ _ _).armed hnext
    · -- had the login lost the connection, the controller would wait now
      rcases hwaiting with hwaiting | ⟨hnot, hsame⟩
      · rw [hwaiting] at hconnecting
        cases hconnecting
      · rw [← hsame, hconnecting] at hnot
        cases hnot

/-! ## Steps -/

/-- What changes the meeting only, or what time and a login note, keeps the client armed. -/
theorem Armed.noted (h : Armed c) (halike : Alike c c') (hframes : c'.frames = c.frames)
    (hrestored : c'.restored = c.restored) (hinterruptions : c'.interruptions = c.interruptions)
    (hbusiness : c'.tcp.businessReady = c.tcp.businessReady) : Armed c' :=
  h.alike halike (h.toCore.alike halike hframes hrestored hinterruptions hbusiness)

theorem Armed.elapse (h : Armed c) (ms : Nat) : Armed { c with now := c.now + ms } := by
  have later : ∀ {timer : Timer} {limit : Nat}, (∃ due, timer = some due ∧ due ≤ c.now + limit) →
      ∃ due, timer = some due ∧ due ≤ c.now + ms + limit := by
    rintro timer limit ⟨due, hdue, hle⟩
    exact ⟨due, hdue, by omega⟩
  exact { h with
    waiting := fun hw => later (h.waiting hw)
    connecting := fun hc => (h.connecting hc).imp_right later
    staged := fun hs => (h.staged hs).imp_right later }

/-- A request of the page: something is noted of it in the meeting, and it is sent. -/
theorem request_armed (h : Armed c) (meeting : MeetingController) (chance : Chance) (wire : Wire) (id : UInt16)
    (data : Bytes) : Armed ({ c with meeting }.sendData chance wire id data) := by
  have hnoted : Armed { c with meeting } := h.noted ⟨rfl, rfl, rfl, rfl⟩ rfl rfl rfl rfl
  exact (sendData_sent hnoted.toCore chance wire id data).armed hnoted

theorem step_armed {e : ClientEvent} (h : Armed c) (hstep : step toJson c e = some c') : Armed c' := by
  cases e with
  | loginPrepared chance server =>
    cases hstep
    have hstopped : Armed { c with loginServer := server }.stop := stop_armed ⟨h.frames, h.restored, h.interruptions⟩
    unfold loginPrepared
    refine tcpConnect_armed ?_ (.inr rfl) chance
    exact { hstopped.toCore with authenticated := nofun, budget := nofun }
  | connected chance =>
    simp only [step] at hstep
    split at hstep
    · next hsocket =>
      cases hstep
      refine connectSucceeded_armed ?_ rfl ?_ chance
      · exact { h.toCore with }
      cases hstate : c.recovery.state with
      | connecting => exact .inl rfl
      | waiting =>
        have := h.closed hstate
        rw [hsocket] at this
        cases this
      | authenticating =>
        have := (h.staged (.inl hstate)).1
        rw [hsocket] at this
        cases this
      | resuming =>
        have := (h.staged (.inr hstate)).1
        rw [hsocket] at this
        cases this
      | idle => exact .inr rfl
      | ready => exact .inr rfl
      | failed => exact .inr rfl
    · cases hstep
  | socketFailed chance =>
    simp only [step] at hstep
    split at hstep <;> cases hstep
    exact lost_armed h.toCore (fun _ => h) chance
  | readyRead messages =>
    simp only [step] at hstep
    split at hstep <;> cases hstep
    exact readIncoming_armed _ messages h
  | connectTimeout chance =>
    simp only [step] at hstep
    split at hstep
    · cases hstep
      refine lost_armed ?_ ?_ chance
      · exact { h.toCore with }
      · intro hnone
        refine { h with connecting := fun hc => ?_ }
        have := (h.connecting hc).1
        rw [show c.tcp.socket = none from hnone] at this
        cases this
    · cases hstep
  | heartbeatTimeout chance messages =>
    simp only [step] at hstep
    split at hstep <;> cases hstep
    refine heartbeatTick_armed ?_ chance messages
    exact h.noted ⟨rfl, rfl, rfl, rfl⟩ rfl rfl rfl rfl
  | retryTimeout chance =>
    simp only [step] at hstep
    split at hstep
    · next hdue =>
      cases hstep
      unfold connectNow
      split
      · next hnot =>
        have hnone := h.retry hnot
        rw [hnone] at hdue
        cases hdue
      · next hwaiting =>
        exact tcpConnect_armed (connecting_core h.toCore (not_not.mp hwaiting)) (.inl rfl) chance
    · cases hstep
  | stageTimeout chance =>
    simp only [step] at hstep
    split at hstep
    · next hdue =>
      cases hstep
      cases hrecovering : c.recovery.state.recovering with
      | true => exact (retry_armed h.toCore.unstage hrecovering chance).1
      | false =>
        rw [h.stage (by intro ha; rw [ha] at hrecovering; cases hrecovering)
          (by intro hr; rw [hr] at hrecovering; cases hrecovering)] at hdue
        cases hdue
    · cases hstep
  | budgetTimeout =>
    simp only [step] at hstep
    split at hstep <;> cases hstep
    exact fail_armed ⟨h.frames, h.restored, h.interruptions⟩
  | requestLeaveMeeting chance meetingId =>
    cases hstep
    unfold requestLeaveMeeting
    split
    · have habandoned : Armed { c with meeting := c.meeting.abandonCurrentMeeting } :=
        h.noted ⟨rfl, rfl, rfl, rfl⟩ rfl rfl rfl rfl
      dsimp only
      split
      · next hresuming =>
        refine (retry_armed habandoned.toCore ?_ chance).1
        rw [show c.recovery.state = .resuming from hresuming]
        rfl
      · exact habandoned
    · split
      · exact h
      · exact request_armed h _ chance _ _ _
  | requestEndMeeting chance meetingId =>
    cases hstep
    unfold requestEndMeeting
    split
    · exact h
    · exact request_armed h _ chance _ _ _
  | requestJoinMeeting chance meetingCode =>
    cases hstep
    unfold requestJoinMeeting
    split
    · exact h
    · exact request_armed h _ chance _ _ _
  | business chance id data =>
    cases hstep
    exact (sendData_sent h.toCore chance _ id data).armed h
  | stop =>
    cases hstep
    exact stop_armed h.toInOrder
  | elapse ms =>
    cases hstep
    exact h.elapse ms

theorem armed (h : Reach (step toJson) (fun _ _ => True) {} c) : Armed c :=
  h.invariant .start fun _ _ _ harmed _ hstep => step_armed harmed hstep

/-! ## Recoveries -/

/-- What a recovery is at any time, between two events. -/
structure Recovers (toJson : Json → Bytes) (c : RealtimeClient) : Prop where
  /-- Its budget runs from the interruption, whose request id it keeps. -/
  budget : c.recovery.state.recovering = true → ∃ i, c.interruptions.getLast? = some i ∧
    c.recovery.requestId = i.requestId ∧ c.recovery.budgetTimer = some (i.time + 45000)
  retry : c.recovery.state = .waiting → ∃ due, c.recovery.retryTimer = some due ∧ due ≤ c.now + 10250
  connect : c.recovery.state = .connecting → ∃ due, c.tcp.connectTimer = some due ∧ due ≤ c.now + 5000
  stage : c.recovery.state = .authenticating ∨ c.recovery.state = .resuming →
    ∃ due, c.recovery.stageTimer = some due ∧ due ≤ c.now + 5000
  /-- A timer that goes off ends the stage, or the recovery. -/
  budgetEnds : isDue c.recovery.budgetTimer c.now = true →
    ∃ c', step toJson c .budgetTimeout = some c' ∧ c'.recovery.state = .failed
  retryEnds : c.recovery.state = .waiting → isDue c.recovery.retryTimer c.now = true → ∀ chance, ∃ c',
    step toJson c (.retryTimeout chance) = some c' ∧
      c'.recovery.state = if chance.refused then .waiting else .connecting
  connectEnds : c.recovery.state = .connecting → isDue c.tcp.connectTimer c.now = true → ∀ chance, ∃ c',
    step toJson c (.connectTimeout chance) = some c' ∧ c'.recovery.state = .waiting
  stageEnds : c.recovery.state = .authenticating ∨ c.recovery.state = .resuming →
    isDue c.recovery.stageTimer c.now = true → ∀ chance, ∃ c',
    step toJson c (.stageTimeout chance) = some c' ∧ c'.recovery.state = .waiting
  /-- It is over within the budget, as long as the budget timer is not late itself. -/
  inTime : c.recovery.state.recovering = true → (∀ due, c.recovery.budgetTimer = some due → c.now ≤ due) →
    ∃ i, c.interruptions.getLast? = some i ∧ c.now ≤ i.time + 45000
  /-- A recovery begins in `ready`, and its request id and its budget stay until another begins. -/
  begins : ∀ i ∈ c.interruptions, i.state = .ready
  constant : ∀ c', Reach (step toJson) (fun _ _ => True) c c' → c'.interruptions = c.interruptions →
    c.recovery.state.recovering = true → c'.recovery.state.recovering = true →
    c'.recovery.requestId = c.recovery.requestId ∧ c'.recovery.budgetTimer = c.recovery.budgetTimer
  /-- Snapshots were applied in `resuming` and answered the request. -/
  restored : ∀ r ∈ c.restored, r.state = .resuming ∧ (r.response.get "request_id").text = r.requestId
  /-- Business frames were written in `ready`. -/
  frames : ∀ frame ∈ c.frames, isRecoveryRequest frame.2 ∨ frame.1 = .ready

theorem Armed.retryEnds (h : Armed c) (hwaiting : c.recovery.state = .waiting)
    (hdue : isDue c.recovery.retryTimer c.now = true) (chance : Chance) :
    ∃ c', step toJson c (.retryTimeout chance) = some c' ∧
      c'.recovery.state = if chance.refused then .waiting else .connecting := by
  refine ⟨_, by rw [step, if_pos hdue], ?_⟩
  have hcore := connecting_core h.toCore hwaiting
  rw [connectNow, if_neg (not_not.mpr hwaiting), tcpConnect]
  dsimp only
  split
  · refine (connectionLost_armed ?_ rfl chance).2.resolve_right ?_
    · exact { hcore with business := nofun }
    · rintro ⟨hnot, -⟩
      cases hnot
  · rfl

theorem Armed.connectEnds (h : Armed c) (hconnecting : c.recovery.state = .connecting)
    (hdue : isDue c.tcp.connectTimer c.now = true) (chance : Chance) :
    ∃ c', step toJson c (.connectTimeout chance) = some c' ∧ c'.recovery.state = .waiting := by
  refine ⟨_, by rw [step, if_pos hdue], ?_⟩
  refine (connectionLost_armed ?_ ?_ chance).2.resolve_right ?_
  · exact { h.toCore with }
  · exact (h.connecting hconnecting).1 ▸ rfl
  · rintro ⟨hnot, -⟩
    rw [show c.recovery.state = .connecting from hconnecting] at hnot
    cases hnot

theorem Armed.stageEnds (h : Armed c) (hstage : c.recovery.state = .authenticating ∨ c.recovery.state = .resuming)
    (hdue : isDue c.recovery.stageTimer c.now = true) (chance : Chance) :
    ∃ c', step toJson c (.stageTimeout chance) = some c' ∧ c'.recovery.state = .waiting := by
  refine ⟨_, by rw [step, if_pos hdue], ?_⟩
  have hrecovering : c.recovery.state.recovering = true := by
    rcases hstage with ha | hr
    · rw [ha]
      rfl
    · rw [hr]
      rfl
  exact (retry_armed h.toCore.unstage hrecovering chance).2

/-- **A recovery ends**: whatever happens, and in whatever order, it has its budget and the timer of its stage, and
each ends what it is for; its request id stays; only the answer to its own request is applied; and what is written
meanwhile is the recovery's own. -/
theorem recovery_ends (h : Reach (step toJson) (fun _ _ => True) {} c) : Recovers toJson c := by
  have harmed := armed h
  refine ⟨harmed.budget, harmed.waiting, fun hc => (harmed.connecting hc).2, fun hs => (harmed.staged hs).2, ?_,
    harmed.retryEnds, harmed.connectEnds, harmed.stageEnds, ?_, harmed.interruptions, ?_, harmed.restored, harmed.frames⟩
  · intro hdue
    exact ⟨_, by rw [step, if_pos hdue], rfl⟩
  · intro hrecovering hpunctual
    obtain ⟨i, hlast, -, hbudget⟩ := harmed.budget hrecovering
    exact ⟨i, hlast, hpunctual _ hbudget⟩
  · intro c' hrun hsame hrecovering hrecovering'
    obtain ⟨i, hlast, hid, hbudget⟩ := harmed.budget hrecovering
    obtain ⟨i', hlast', hid', hbudget'⟩ := (armed (h.trans hrun)).budget hrecovering'
    rw [hsame, hlast] at hlast'
    cases hlast'
    exact ⟨hid'.trans hid.symm, hbudget'.trans hbudget.symm⟩

/-- A login whose connection is lost. -/
theorem recovery_ends_interrupted :
    ∃ c : RealtimeClient, c.recovery.state = .waiting ∧ Recovers (fun _ => []) c := by
  let answer : Incoming :=
    { id := authLoginResponse
      document := some (.obj [("error", .int 0), ("email", .str "a@b"), ("username", .str "a")]) }
  refine ⟨_, ?_, recovery_ends (.next (e := .socketFailed {}) (.next (e := .readyRead [answer])
    (.next (e := .connected {}) (.next (e := .loginPrepared {} {}) .start trivial rfl) trivial rfl) trivial rfl)
    trivial rfl)⟩
  decide

end RealtimeClient

end SyncRtc.Client
