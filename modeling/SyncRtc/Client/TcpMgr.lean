import SyncRtc.Net.Frame
import SyncRtc.Lib.Transition

/-!
# The connection of the client

`tcpmgr.cpp`, without the heartbeat: one socket at a time, a receive buffer, and a generation that every close
counts up. `readIncoming` hands each message to slots that may close the socket, open another one or come back to
`readIncoming` while the loop that called them has not ended. A loop is therefore kept as a value, by the
generation it has started in, and each of its rounds is a step: what a slot does is whatever steps come between
two rounds.
-/

set_option autoImplicit false

namespace SyncRtc.Net

/-- `ID_HEARTBEAT_RESPONSE`. -/
def heartbeatResponse : UInt16 := 1049

/-- `QAbstractSocket::state` of the socket, as far as it is asked for. -/
inductive SocketState where
  | connecting
  | connected
  deriving DecidableEq

/-- `TcpMgr`. `Object` is what a JSON text that is an object is read as. -/
structure TcpMgr (Object : Type) where
  generation : Nat := 0
  socket : Option SocketState := none
  businessReady : Bool := false
  buffer : Bytes := []
  /-- The calls of `readIncoming` that have not returned, the innermost first. -/
  loops : List Nat := []
  /-- What `readAll` has answered in each generation. -/
  received : Nat → Bytes := fun _ => []
  /-- What `signal_message_recv` has carried in each generation. -/
  emitted : Nat → List (UInt16 × Object) := fun _ => []
  /-- What the socket of each generation was given to write. -/
  written : Nat → Bytes := fun _ => []
  /-- The requests `slot_send_data` has written in each generation. -/
  requests : Nat → List (UInt16 × Bytes) := fun _ => []

namespace TcpMgr

variable {Object : Type}

/-- `TcpMgr::closeConnection`. -/
def closeConnection (t : TcpMgr Object) : TcpMgr Object :=
  { t with generation := t.generation + 1, businessReady := false, buffer := [], socket := none }

/-- `TcpMgr::connectionLost`. -/
def connectionLost (t : TcpMgr Object) : TcpMgr Object :=
  match t.socket with
  | none => t
  | some _ => t.closeConnection

/-- `TcpMgr::slot_tcp_connect`. -/
def connect (t : TcpMgr Object) : TcpMgr Object := { t.closeConnection with socket := some .connecting }

/-- The start of `TcpMgr::readIncoming`, which finds `available` on the socket. -/
def beginRead (t : TcpMgr Object) (available : Bytes) : TcpMgr Object :=
  match t.socket with
  | none => t
  | some _ =>
    { t with
      buffer := t.buffer ++ available
      received := Function.update t.received t.generation (t.received t.generation ++ available)
      loops := t.generation :: t.loops }

/-- A round of the loop of `TcpMgr::readIncoming`, of the innermost call. `fromJson` is
`QJsonDocument::fromJson`, for a text that is an object. -/
def readRound (fromJson : Bytes → Option Object) (t : TcpMgr Object) : Option (TcpMgr Object) :=
  match t.loops with
  | [] => none
  | generation :: loops =>
    if generation ≠ t.generation then some { t with loops := loops }
    else
      match t.buffer with
      | h₀ :: h₁ :: h₂ :: h₃ :: rest =>
        let id := fromBigEndian h₀ h₁
        let size := (fromBigEndian h₂ h₃).toNat
        if rest.length < size then some { t with loops := loops }
        else
          let payload := rest.take size
          let t := { t with buffer := rest.drop size }
          if id = heartbeatResponse ∧ size > 96 then some t
          else
            match fromJson payload with
            | none => some { t.connectionLost with loops := loops }
            | some object =>
              -- `acceptHeartbeat` touches the heartbeat's own state only
              if id = heartbeatResponse then some t
              else some { t with
                emitted := Function.update t.emitted t.generation (t.emitted t.generation ++ [(id, object)]) }
      | _ => some { t with loops := loops }

/-- A round that does not end its loop has taken a frame off the buffer. -/
theorem readRound_shrinks {fromJson : Bytes → Option Object} {t t' : TcpMgr Object}
    (h : t.readRound fromJson = some t') (hl : ¬ t'.loops.length < t.loops.length) :
    t'.buffer.length < t.buffer.length := by
  unfold readRound at h
  split at h
  · cases h
  next generation loops hloops =>
  have ended : ∀ {u : TcpMgr Object}, u.loops = loops → u = t' → False := by
    rintro u hu rfl
    rw [hu, hloops, List.length_cons] at hl
    omega
  split at h
  · exact (ended rfl (Option.some.inj h)).elim
  split at h
  · next h₀ h₁ h₂ h₃ rest hbuffer =>
    have hshort : ∀ n, (rest.drop n).length < t.buffer.length := by
      intro n
      rw [hbuffer]
      simp only [List.length_drop, List.length_cons]
      omega
    dsimp only at h
    split at h
    · exact (ended rfl (Option.some.inj h)).elim
    split at h
    · cases h
      exact hshort _
    split at h
    · exact (ended rfl (Option.some.inj h)).elim
    split at h
    · cases h
      exact hshort _
    · cases h
      exact hshort _
  · exact (ended rfl (Option.some.inj h)).elim

/-- The rounds of the innermost loop to its end, when the slots leave the connection alone. -/
def finishRead (fromJson : Bytes → Option Object) (t : TcpMgr Object) : TcpMgr Object :=
  match _h : t.readRound fromJson with
  | none => t
  | some t' => if _hl : t'.loops.length < t.loops.length then t' else finishRead fromJson t'
termination_by t.buffer.length
decreasing_by exact readRound_shrinks _h _hl

/-- `TcpMgr::readIncoming`, when the slots leave the connection alone. -/
def readIncoming (fromJson : Bytes → Option Object) (t : TcpMgr Object) (available : Bytes) : TcpMgr Object :=
  match t.socket with
  | none => t
  | some _ => (t.beginRead available).finishRead fromJson

/-- The requests that may be sent before the login has been answered. -/
def isRecoveryRequest (id : UInt16) : Bool := id = 1010 || id = 1046 || id = 1048

/-- `TcpMgr::slot_send_data`. `waiting` is `bytesToWrite`, and `write` is whether the socket took the frame. -/
def sendData (t : TcpMgr Object) (id : UInt16) (data : Bytes) (waiting : Nat) (write : Bool) : TcpMgr Object :=
  if t.socket ≠ some .connected ∨ (t.businessReady = false ∧ isRecoveryRequest id = false) ∨ data.length > 65535 then t
  else if waiting + data.length + 4 > 4 * 1024 * 1024 then t.connectionLost
  else if write then
    { t with
      written := Function.update t.written t.generation (t.written t.generation ++ streamFrame id data)
      requests := Function.update t.requests t.generation (t.requests t.generation ++ [(id, data)]) }
  else t.connectionLost

/-! ## Steps -/

/-- What can happen, between two rounds of a loop as anywhere else. -/
inductive Event where
  | connect
  | connected
  | closeConnection
  | connectionLost
  | setBusinessReady (ready : Bool)
  | beginRead (available : Bytes)
  | readRound
  | sendData (id : UInt16) (data : Bytes) (waiting : Nat) (write : Bool)

def step (fromJson : Bytes → Option Object) (t : TcpMgr Object) : Event → Option (TcpMgr Object)
  | .connect => some t.connect
  | .connected => if t.socket = some .connecting then some { t with socket := some .connected } else none
  | .closeConnection => some t.closeConnection
  | .connectionLost => some t.connectionLost
  | .setBusinessReady ready => some { t with businessReady := ready }
  | .beginRead available => some (t.beginRead available)
  | .readRound => t.readRound fromJson
  | .sendData id data waiting write => some (t.sendData id data waiting write)

/-- The states of the client's connection, whatever the socket and the slots do. -/
def Reachable (fromJson : Bytes → Option Object) (t : TcpMgr Object) : Prop :=
  Reach (step fromJson) (fun _ _ => True) {} t

end TcpMgr

end SyncRtc.Net
