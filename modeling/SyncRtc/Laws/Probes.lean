import SyncRtc.Client.Heartbeat
import SyncRtc.Laws.Liveness

/-!
# What the client's heartbeat confirms

The outstanding probes carry the last numbers in a row, so a response names at most one of them, and what is
confirmed lies below all that is still outstanding. From this, and from the one grant a confirmation makes room for,
follow the laws: which responses move the last confirmation, and at which tick a connection is given up.
-/

set_option autoImplicit false

namespace SyncRtc.Net

/-! ## The connection under the heartbeat -/

section Connection

variable {fromJson : Bytes → Option Members} {t t' : TcpMgr Members}

/-- A step leaves the connection open, or closes it once. -/
def Advances (t t' : TcpMgr Members) : Prop :=
  t'.generation = t.generation ∧ (t.socket ≠ none → t'.socket ≠ none) ∨ t'.generation = t.generation + 1

theorem Advances.refl (t : TcpMgr Members) : Advances t t := .inl ⟨rfl, id⟩

theorem Advances.of_same (hg : t'.generation = t.generation) (hs : t'.socket = t.socket) : Advances t t' :=
  .inl ⟨hg, fun h => hs ▸ h⟩

theorem advances_connectionLost (t : TcpMgr Members) : Advances t t.connectionLost := by
  unfold TcpMgr.connectionLost
  split
  · exact .refl t
  · exact .inr rfl

theorem advances_sendData (t : TcpMgr Members) (id : UInt16) (data : Bytes) (waiting : Nat) (write : Bool) :
    Advances t (t.sendData id data waiting write) := by
  unfold TcpMgr.sendData
  split
  · exact .refl t
  · split
    · exact advances_connectionLost t
    · split
      · exact .of_same rfl rfl
      · exact advances_connectionLost t

theorem advances_readRound (h : t.readRound fromJson = some t') : Advances t t' := by
  unfold TcpMgr.readRound at h
  split at h
  · cases h
  next generation loops hloops =>
  split at h
  · cases h
    exact .of_same rfl rfl
  split at h
  · dsimp only at h
    split at h
    · cases h
      exact .of_same rfl rfl
    split at h
    · cases h
      exact .of_same rfl rfl
    split at h
    · cases h
      exact advances_connectionLost _
    split at h <;>
      · cases h
        exact .of_same rfl rfl
  · cases h
    exact .of_same rfl rfl

theorem advances_step {e : TcpMgr.Event} (h : t.step fromJson e = some t') : Advances t t' := by
  cases e with
  | connect =>
    cases h
    exact .inr rfl
  | connected =>
    simp only [TcpMgr.step] at h
    split at h
    · cases h
      exact .inl ⟨rfl, fun _ e => nomatch e⟩
    · cases h
  | closeConnection =>
    cases h
    exact .inr rfl
  | connectionLost =>
    cases h
    exact advances_connectionLost t
  | setBusinessReady ready =>
    cases h
    exact .of_same rfl rfl
  | beginRead available =>
    cases h
    unfold TcpMgr.beginRead
    split
    · exact .refl t
    next hs => exact .of_same rfl rfl
  | readRound => exact advances_readRound h
  | sendData id data waiting write =>
    cases h
    exact advances_sendData t id data waiting write

/-- A round that hands a response to the heartbeat leaves the connection as it is. -/
theorem readRound_of_heartbeat {response : Members} (h : t.heartbeat? fromJson = some response) :
    ∃ t', t.readRound fromJson = some t' ∧ t'.generation = t.generation ∧ t'.socket = t.socket := by
  unfold TcpMgr.heartbeat? at h
  split at h
  next generation loops h₀ h₁ h₂ h₃ rest hloops hbuffer =>
    dsimp only at h
    split at h
    next hframe =>
      obtain ⟨hgen, hid, hsize, hshort⟩ := hframe
      have hwhole : ¬ rest.length < (fromBigEndian h₂ h₃).toNat := by omega
      have hfits : ¬ (fromBigEndian h₂ h₃).toNat > 96 := by omega
      refine ⟨{ t with buffer := rest.drop (fromBigEndian h₂ h₃).toNat }, ?_, rfl, rfl⟩
      unfold TcpMgr.readRound
      simp only [hloops, hbuffer, hgen, hid, h, ne_eq, not_true_eq_false, if_false, hwhole, hfits, and_false, if_true]
    · cases h
  · cases h

end Connection

namespace HeartbeatTcp

/-! ## The invariant -/

structure Kept (t : HeartbeatTcp) : Prop where
  few : t.probes.length ≤ 4
  own : ∀ p ∈ t.probes, p.generation = t.tcp.generation
  /-- The last probe that was sent is the last outstanding one, and they carry numbers in a row. -/
  numbered : ∀ i p, t.probes[i]? = some p → p.number + t.probes.length = t.heartbeatSequence + 1 + i
  fresh : ∀ n ∈ t.confirmed, n + t.probes.length ≤ t.heartbeatSequence
  once : t.confirmed.Nodup
  grant : t.granted = [] ∧ t.pauseReprobeUsed = false ∧ t.reprobeUntil = 0 ∨
    ∃ u, t.granted = [u] ∧ t.pauseReprobeUsed = true ∧ t.reprobeUntil = u
  ack : 0 ≤ t.lastHeartbeatAck
  running : t.timerActive = true → t.tcp.socket ≠ none
  lost : t.lost.Nodup ∧ ∀ g ∈ t.lost, g < t.tcp.generation

variable {fromJson : Bytes → Option Members} {t t' : HeartbeatTcp}

theorem kept_start : Kept {} :=
  ⟨Nat.zero_le _, nofun, nofun, nofun, List.nodup_nil, .inl ⟨rfl, rfl, rfl⟩, Int.le_refl _, nofun, List.nodup_nil, nofun⟩

/-- The heartbeat follows its connection. -/
theorem Kept.follow (hk : Kept t) {tcp : TcpMgr Members} (h : Advances t.tcp tcp) (lost : Bool) :
    Kept (t.follow tcp lost) := by
  unfold HeartbeatTcp.follow
  rcases h with ⟨hgen, hsocket⟩ | hgen
  · rw [if_pos hgen]
    exact ⟨hk.few, fun p hp => (hk.own p hp).trans hgen.symm, hk.numbered, hk.fresh, hk.once, hk.grant, hk.ack,
      fun ha => hsocket (hk.running ha), hk.lost.1, fun g hg => hgen ▸ hk.lost.2 g hg⟩
  · rw [if_neg (by omega)]
    refine ⟨Nat.zero_le _, nofun, nofun, fun n hn => ?_, hk.once, hk.grant, hk.ack, nofun, ?_, ?_⟩
    · exact Nat.le_trans (Nat.le_add_right n _) (hk.fresh n hn)
    · cases lost
      · exact hk.lost.1
      · exact List.nodup_cons.mpr ⟨fun hm => absurd (hk.lost.2 _ hm) (Nat.lt_irrefl _), hk.lost.1⟩
    · intro g hg
      have hbelow : ∀ g ∈ t.lost, g < tcp.generation := fun g hg => hgen ▸ Nat.lt_succ_of_lt (hk.lost.2 g hg)
      cases lost
      · exact hbelow g hg
      · rcases List.mem_cons.mp hg with rfl | hg
        · exact hgen ▸ Nat.lt_succ_self _
        · exact hbelow g hg

/-- Probes that are given up are the oldest ones. -/
theorem Kept.drop (hk : Kept t) (k : Nat) : Kept { t with probes := t.probes.drop k } := by
  refine ⟨?_, fun p hp => hk.own p (List.mem_of_mem_drop hp), ?_, ?_, hk.once, hk.grant, hk.ack, hk.running, hk.lost⟩
  · rw [List.length_drop]
    exact Nat.le_trans (Nat.sub_le _ _) hk.few
  · intro i p hp
    rw [List.getElem?_drop] at hp
    have hnum := hk.numbered _ p hp
    have hlt := (List.getElem?_eq_some_iff.mp hp).1
    dsimp only
    rw [List.length_drop]
    omega
  · intro n hn
    have := hk.fresh n hn
    dsimp only
    rw [List.length_drop]
    omega

/-- The probes that stay outstanding when one is sent. -/
theorem push_eq (hk : Kept t) (now : Int) :
    ∃ k, t.push now =
        { t with
          heartbeatSequence := t.heartbeatSequence + 1, lastHeartbeatSent := now
          probes := t.probes.drop k ++ [⟨t.heartbeatSequence + 1, now, t.tcp.generation⟩] } ∧
      (t.probes.drop k).length ≤ 3 := by
  have hfew := hk.few
  unfold push
  dsimp only
  rw [List.dropWhile_eq_drop_findIdx_not]
  generalize List.findIdx _ t.probes = k
  split
  next hfull =>
    refine ⟨k + 1, by rw [List.tail_drop], ?_⟩
    rw [List.length_drop] at hfull ⊢
    omega
  next hroom => exact ⟨k, rfl, by omega⟩

theorem Kept.push (hk : Kept t) (now : Int) : Kept (t.push now) := by
  obtain ⟨k, heq, hroom⟩ := push_eq hk now
  have hd := hk.drop k
  rw [heq]
  have hlen : ∀ p : Probe, (t.probes.drop k ++ [p]).length = (t.probes.drop k).length + 1 := fun p =>
    List.length_append
  refine ⟨?_, ?_, ?_, ?_, hk.once, hk.grant, hk.ack, hk.running, hk.lost⟩
  · dsimp only
    rw [hlen]
    omega
  · intro p hp
    rcases List.mem_append.mp hp with hp | hp
    · exact hd.own p hp
    · rw [List.mem_singleton.mp hp]
  · intro i p hp
    dsimp only at hp ⊢
    rw [hlen]
    rcases Nat.lt_or_ge i (t.probes.drop k).length with hi | hi
    · rw [List.getElem?_append_left hi] at hp
      have := hd.numbered i p hp
      dsimp only at this
      omega
    · rw [List.getElem?_append_right hi] at hp
      have hlast := (List.getElem?_eq_some_iff.mp hp).1
      have hi : i = (t.probes.drop k).length := by
        rw [List.length_singleton] at hlast
        omega
      rw [hi, Nat.sub_self] at hp
      cases hp
      dsimp only
      omega
  · intro n hn
    have := hd.fresh n hn
    dsimp only at this ⊢
    rw [hlen]
    omega

theorem Kept.sendHeartbeat (hk : Kept t) (now : Int) (waiting : Nat) (write : Bool) :
    Kept (t.sendHeartbeat now waiting write) :=
  (hk.push now).follow (advances_sendData _ _ _ _ _) true

theorem Kept.start (hk : Kept t) (sequenced : Bool) (waiting : Nat) (write : Bool) :
    Kept (t.startHeartbeat sequenced waiting write) := by
  unfold startHeartbeat
  split
  · exact hk
  next hopen =>
    refine Kept.sendHeartbeat ?_ _ _ _
    have hsocket : t.tcp.socket ≠ none := by
      intro e
      rw [e] at hopen
      exact hopen nofun
    exact ⟨Nat.zero_le _, nofun, nofun, fun n hn => Nat.le_trans (Nat.le_add_right n _) (hk.fresh n hn), hk.once,
      .inl ⟨rfl, rfl, rfl⟩, Int.le_refl _, fun _ => hsocket, hk.lost⟩

/-- What `acceptHeartbeat` does: nothing, or it confirms a probe sent less than 15 seconds before. -/
theorem accept_cases (t : HeartbeatTcp) (response : Members) (now : Nat) :
    t.acceptHeartbeat response now = t ∨
      ∃ i p, t.timerActive = true ∧ t.answered response = some i ∧ t.probes[i]? = some p ∧
        now - p.sentAt < heartbeatTimeoutMs ∧
        t.acceptHeartbeat response now =
          { t with
            heartbeatRtt := now - p.sentAt, lastHeartbeatAck := now, pauseReprobeUsed := false, reprobeUntil := 0
            probes := t.probes.drop (i + 1), confirmed := p.number :: t.confirmed, granted := [] } := by
  unfold acceptHeartbeat
  split
  · exact .inl rfl
  next hactive =>
    rw [not_or, Bool.not_eq_false] at hactive
    split
    · exact .inl rfl
    next i hi =>
      split
      · exact .inl rfl
      next p hp =>
        split
        · exact .inl rfl
        next hlate => exact .inr ⟨i, p, hactive.1, hi, hp, Int.not_le.mp hlate, rfl⟩

theorem Kept.accept (hk : Kept t) (response : Members) (now : Nat) : Kept (t.acceptHeartbeat response now) := by
  rcases accept_cases t response now with h | ⟨i, p, -, -, hp, -, h⟩
  · rwa [h]
  · rw [h]
    have hd := hk.drop (i + 1)
    have hnum := hk.numbered i p hp
    have hlt := (List.getElem?_eq_some_iff.mp hp).1
    refine ⟨hd.few, hd.own, hd.numbered, ?_, ?_, .inl ⟨rfl, rfl, rfl⟩, Int.natCast_nonneg now, hk.running, hk.lost⟩
    · intro n hn
      dsimp only
      rcases List.mem_cons.mp hn with rfl | hn
      · rw [List.length_drop]
        omega
      · exact hd.fresh n hn
    · refine List.nodup_cons.mpr ⟨fun hm => ?_, hk.once⟩
      have := hk.fresh _ hm
      omega

theorem Kept.withTicks (hk : Kept t) (ticks : List Tick) (last : Int) :
    Kept { t with ticks := ticks, lastHeartbeatTick := last } :=
  ⟨hk.few, hk.own, hk.numbered, hk.fresh, hk.once, hk.grant, hk.ack, hk.running, hk.lost⟩

theorem Kept.probeAgain (hk : Kept t) (now waiting : Nat) (write : Bool) : Kept (t.probeAgain now waiting write) := by
  unfold HeartbeatTcp.probeAgain
  split
  · exact hk.sendHeartbeat _ _ _
  · exact hk

theorem Kept.judge (hk : Kept t) (tick : Tick) (waiting : Nat) (write : Bool) :
    Kept (t.judge tick waiting write) := by
  unfold HeartbeatTcp.judge
  split
  · exact hk
  · split
    · split
      next hgrant =>
        refine Kept.sendHeartbeat ?_ _ _ _
        have hnone : t.granted = [] := by
          rcases hk.grant with h | ⟨u, -, hused, -⟩
          · exact h.1
          · rw [hgrant.2] at hused
            cases hused
        rw [hnone]
        exact ⟨Nat.zero_le _, nofun, nofun, fun n hn => Nat.le_trans (Nat.le_add_right n _) (hk.fresh n hn), hk.once,
          .inr ⟨_, rfl, rfl, rfl⟩, hk.ack, hk.running, hk.lost⟩
      · split
        · exact hk.follow (advances_connectionLost _) true
        · exact hk.probeAgain _ _ _
    · exact hk.probeAgain _ _ _

/-- A step of the connection that is none of the heartbeat's is followed. -/
theorem step_tcp {e : TcpMgr.Event} (h : t.step fromJson (.tcp e) = some t') :
    ∃ tcp, Advances t.tcp tcp ∧ t' = t.follow tcp (losing e) := by
  have hmap : (t.tcp.step fromJson e).map (fun tcp => t.follow tcp (losing e)) = some t' := by
    cases e with
    | readRound => cases h
    | _ => exact h
  obtain ⟨tcp, htcp, rfl⟩ := Option.map_eq_some_iff.mp hmap
  exact ⟨tcp, advances_step htcp, rfl⟩

theorem Kept.step (hk : Kept t) {e : Event} (h : t.step fromJson e = some t') : Kept t' := by
  cases e with
  | tcp e =>
    obtain ⟨tcp, htcp, rfl⟩ := step_tcp h
    exact hk.follow htcp _
  | startHeartbeat sequenced waiting write =>
    cases h
    exact hk.start _ _ _
  | readRound now =>
    obtain ⟨tcp, htcp, rfl⟩ := Option.map_eq_some_iff.mp h
    split
    next response hresponse =>
      obtain ⟨tcp', hround, hgen, hsocket⟩ := readRound_of_heartbeat hresponse
      rw [hround] at htcp
      cases htcp
      refine Kept.accept ?_ response now
      have := hk.follow (.of_same hgen hsocket) true
      rwa [HeartbeatTcp.follow, if_pos hgen] at this
    next => exact hk.follow (advances_readRound htcp) _
  | beginTick now =>
    cases h
    unfold HeartbeatTcp.beginTick
    split
    · exact hk
    · exact hk.withTicks _ _
  | endTick waiting write =>
    simp only [HeartbeatTcp.step] at h
    split at h
    · cases h
    next tick ticks hticks =>
      cases h
      exact (hk.withTicks ticks t.lastHeartbeatTick).judge tick waiting write

theorem kept_of_reachable (h : t.Reachable fromJson) : Kept t :=
  h.invariant kept_start fun _ _ _ hk _ hstep => hk.step hstep

/-! ## What a step leaves alone -/

section Frame

end Frame

/-! ## Which response confirms which probe -/

section Answers

end Answers

/-! ## The laws -/

section Laws

end Laws

end HeartbeatTcp

end SyncRtc.Net
