import SyncRtc.Client.TcpMgr
import SyncRtc.Net.Heartbeat
import SyncRtc.Net.Receive

/-!
# The heartbeat of the client

`tcpmgr.cpp`: probes are numbered over all connections, answered by their numbers, and looked at by a tick. A tick
takes the time, reads what has arrived, and judges by the time it has taken: it is kept as a value between these
two, since the slots that the reading calls may do anything, so that other steps come in between. Times are those of
`m_heartbeatClock`, in milliseconds.
-/

set_option autoImplicit false

namespace SyncRtc.Net

/-- `kHeartbeatIntervalMs`. -/
def heartbeatIntervalMs : Int := 5000

/-- `kHeartbeatTimeoutMs`. -/
def heartbeatTimeoutMs : Int := 15000

/-- `QJsonObject`, its members. -/
abbrev Members := List (String × Json)

/-- `TcpMgr::Probe`. The counter behind `number` never wraps here; what is sent of it is a `quint64`. -/
structure Probe where
  number : Nat
  sentAt : Int
  /-- The connection it was sent on. -/
  generation : Nat

/-- `QString::number` of the probe's number. -/
def Probe.sequence (p : Probe) : String := toString (p.number % 2 ^ 64)

/-- A call of `heartbeatTick` that has not come to its end. -/
structure Tick where
  generation : Nat
  now : Nat
  delayed : Bool

/-- `TcpMgr` with its heartbeat. -/
structure HeartbeatTcp where
  tcp : TcpMgr Members := {}
  timerActive : Bool := false
  sequenced : Bool := false
  probes : List Probe := []
  heartbeatSequence : Nat := 0
  pauseReprobeUsed : Bool := false
  lastHeartbeatAck : Int := 0
  lastHeartbeatSent : Int := 0
  lastHeartbeatTick : Int := 0
  reprobeUntil : Int := 0
  heartbeatRtt : Int := -1
  /-- The ticks that are reading, the innermost first. -/
  ticks : List Tick := []
  /-- The connections `signal_connection_lost` was emitted for. -/
  lost : List Nat := []
  /-- The probes that were confirmed. -/
  confirmed : List Nat := []
  /-- The ends of the periods that a re-probe has granted since the last confirmation. -/
  granted : List Int := []

/-- The object the next round of the reading loop hands to `acceptHeartbeat`, if it does. -/
def TcpMgr.heartbeat? (fromJson : Bytes → Option Members) (t : TcpMgr Members) : Option Members :=
  match t.loops, t.buffer with
  | generation :: _, h₀ :: h₁ :: h₂ :: h₃ :: rest =>
    let size := (fromBigEndian h₂ h₃).toNat
    if generation = t.generation ∧ fromBigEndian h₀ h₁ = heartbeatResponse ∧ size ≤ rest.length ∧ size ≤ 96 then
      fromJson (rest.take size)
    else none
  | _, _ => none

namespace HeartbeatTcp

/-- The connection has gone on to `tcp`. When that was over a `closeConnection`, the heartbeat stops; it was
reported lost where `closeConnection` was called by `connectionLost`. -/
def follow (t : HeartbeatTcp) (tcp : TcpMgr Members) (lost : Bool) : HeartbeatTcp :=
  if tcp.generation = t.tcp.generation then { t with tcp := tcp }
  else { t with
    tcp := tcp
    timerActive := false
    probes := []
    heartbeatRtt := -1
    lost := if lost then t.tcp.generation :: t.lost else t.lost }

/-- `TcpMgr::connectionLost`. -/
def connectionLost (t : HeartbeatTcp) : HeartbeatTcp := t.follow t.tcp.connectionLost true

/-- What a probe sends. -/
def request (t : HeartbeatTcp) (p : Probe) : Bytes :=
  text (if t.sequenced then "\x7b\"seq\":\"" ++ p.sequence ++ "\"\x7d" else "\x7b\x7d")

/-- The start of `TcpMgr::sendHeartbeat`: the outstanding probes, with a new one. -/
def push (t : HeartbeatTcp) (now : Int) : HeartbeatTcp :=
  let probes := t.probes.dropWhile fun p => decide (now - p.sentAt ≥ heartbeatTimeoutMs)
  let probes := if probes.length ≥ 4 then probes.tail else probes
  let probe : Probe := ⟨t.heartbeatSequence + 1, now, t.tcp.generation⟩
  { t with heartbeatSequence := t.heartbeatSequence + 1, probes := probes ++ [probe], lastHeartbeatSent := now }

/-- `TcpMgr::sendHeartbeat`. `waiting` and `write` are what `slot_send_data` finds. -/
def sendHeartbeat (t : HeartbeatTcp) (now : Int) (waiting : Nat) (write : Bool) : HeartbeatTcp :=
  let t := t.push now
  let probe : Probe := ⟨t.heartbeatSequence, now, t.tcp.generation⟩
  t.follow (t.tcp.sendData heartbeatRequest (t.request probe) waiting write) true

/-- `TcpMgr::startHeartbeat`. -/
def startHeartbeat (t : HeartbeatTcp) (sequenced : Bool) (waiting : Nat) (write : Bool) : HeartbeatTcp :=
  if t.tcp.socket ≠ some .connected then t
  else
    { t with
      sequenced := sequenced
      probes := []
      pauseReprobeUsed := false
      reprobeUntil := 0
      heartbeatRtt := -1
      lastHeartbeatAck := 0
      lastHeartbeatTick := 0
      timerActive := true
      granted := [] }.sendHeartbeat 0 waiting write

/-- The probe a response answers: in sequence mode the one it names, else the oldest. -/
def answered (t : HeartbeatTcp) (response : Members) : Option Nat :=
  if t.sequenced then
    match response with
    | [(name, .str sequence)] => if name = "seq" then t.probes.findIdx? (fun p => p.sequence = sequence) else none
    | _ => none
  else if response.isEmpty then some 0
  else none

/-- `TcpMgr::acceptHeartbeat`. -/
def acceptHeartbeat (t : HeartbeatTcp) (response : Members) (now : Nat) : HeartbeatTcp :=
  if t.timerActive = false ∨ t.probes.isEmpty then t
  else
    match t.answered response with
    | none => t
    | some i =>
      match t.probes[i]? with
      | none => t
      | some probe =>
        if now - probe.sentAt ≥ heartbeatTimeoutMs then t
        else { t with
          heartbeatRtt := now - probe.sentAt
          lastHeartbeatAck := now
          pauseReprobeUsed := false
          reprobeUntil := 0
          probes := t.probes.drop (i + 1)
          confirmed := probe.number :: t.confirmed
          granted := [] }

/-- A round of `TcpMgr::readIncoming`. -/
def readRound (fromJson : Bytes → Option Members) (t : HeartbeatTcp) (now : Nat) : Option HeartbeatTcp :=
  (t.tcp.readRound fromJson).map fun tcp =>
    match t.tcp.heartbeat? fromJson with
    | some response => { t with tcp := tcp }.acceptHeartbeat response now
    | none => t.follow tcp true

/-- `TcpMgr::heartbeatTick`, up to its reading. -/
def beginTick (t : HeartbeatTcp) (now : Nat) : HeartbeatTcp :=
  if t.timerActive = false then t
  else { t with
    lastHeartbeatTick := now
    ticks := ⟨t.tcp.generation, now, decide (now - t.lastHeartbeatTick > heartbeatIntervalMs)⟩ :: t.ticks }

/-- The last line of `heartbeatTick`. -/
def probeAgain (t : HeartbeatTcp) (now : Nat) (waiting : Nat) (write : Bool) : HeartbeatTcp :=
  if now - t.lastHeartbeatSent ≥ heartbeatIntervalMs then t.sendHeartbeat now waiting write else t

/-- The rest of `TcpMgr::heartbeatTick`. -/
def judge (t : HeartbeatTcp) (tick : Tick) (waiting : Nat) (write : Bool) : HeartbeatTcp :=
  if tick.generation ≠ t.tcp.generation ∨ t.timerActive = false then t
  else if tick.now - t.lastHeartbeatAck ≥ heartbeatTimeoutMs then
    if tick.delayed ∧ t.pauseReprobeUsed = false then
      { t with
        pauseReprobeUsed := true
        reprobeUntil := tick.now + heartbeatIntervalMs
        probes := []
        granted := (tick.now + heartbeatIntervalMs) :: t.granted }.sendHeartbeat tick.now waiting write
    else if tick.now ≥ t.reprobeUntil then t.connectionLost
    else t.probeAgain tick.now waiting write
  else t.probeAgain tick.now waiting write

/-! ## Steps -/

/-- What can happen. The reading of a tick is the steps between its beginning and its end. -/
inductive Event where
  /-- A step of the connection that is none of the heartbeat's. -/
  | tcp (e : TcpMgr.Event)
  | startHeartbeat (sequenced : Bool) (waiting : Nat) (write : Bool)
  | readRound (now : Nat)
  | beginTick (now : Nat)
  | endTick (waiting : Nat) (write : Bool)

/-- Whether a step that ends in `closeConnection` goes there by `connectionLost`. -/
def losing : TcpMgr.Event → Bool
  | .connect => false
  | .closeConnection => false
  | _ => true

def step (fromJson : Bytes → Option Members) (t : HeartbeatTcp) : Event → Option HeartbeatTcp
  | .tcp .readRound => none
  | .tcp e => (t.tcp.step fromJson e).map fun tcp => t.follow tcp (losing e)
  | .startHeartbeat sequenced waiting write => some (t.startHeartbeat sequenced waiting write)
  | .readRound now => t.readRound fromJson now
  | .beginTick now => some (t.beginTick now)
  | .endTick waiting write =>
    match t.ticks with
    | [] => none
    | tick :: ticks => some ({ t with ticks := ticks }.judge tick waiting write)

/-- The states of the client's connection, whatever arrives and however late the ticks are. -/
def Reachable (fromJson : Bytes → Option Members) (t : HeartbeatTcp) : Prop :=
  Reach (step fromJson) (fun _ _ => True) {} t

end HeartbeatTcp

end SyncRtc.Net
