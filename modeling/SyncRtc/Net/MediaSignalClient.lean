import SyncRtc.Net.Session
import SyncRtc.Lib.Incremental

/-!
# The link to MediaServer

`MediaSignalClient.cpp`: one Unix socket at a time, driven by the I/O thread. Business threads send under the
epoch they know and may give an epoch up; the I/O thread connects, reads, writes and disconnects. A socket has its
token from `Connect` on, and an epoch from `Connected` on.

A section under the lock is one step, together with what the I/O thread does next to fields only it uses. The
histories of a socket are kept under its token, those of the calls and events under the epoch they name.
-/

set_option autoImplicit false

namespace SyncRtc.Net

/-! ## Frames of the link -/

/-- The length field of a frame: four bytes, the highest first. -/
def linkHeader (size : UInt32) : Bytes :=
  [(size >>> 24).toUInt8, (size >>> 16).toUInt8, (size >>> 8).toUInt8, size.toUInt8]

def linkFrame (message : Bytes) : Bytes := linkHeader message.length.toUInt32 ++ message

/-- The length field as `HandleEvents` reads it. -/
def linkSize (h₀ h₁ h₂ h₃ : UInt8) : UInt32 :=
  (h₀.toUInt32 <<< 24) ||| (h₁.toUInt32 <<< 16) ||| (h₂.toUInt32 <<< 8) ||| h₃.toUInt32

/-- The largest length field that is accepted: `kMaxPendingBytes - kHeaderSize`. -/
def linkLimit : Nat := maxPendingBytes - 4

/-! ## The client -/

/-- `kWriteBudget`. -/
def writeBudget : Nat := 64 * 1024

/-- The size of the buffer of `recv`. -/
def receiveBudget : Nat := 4096

/-- The loop of `HandleEvents` over the received bytes: the messages, what is left, and whether a length field
was over the limit. -/
def receiveLoop (messages : List Bytes) (received : Bytes) : List Bytes × Bytes × Bool :=
  match received with
  | h₀ :: h₁ :: h₂ :: h₃ :: rest =>
    let size := (linkSize h₀ h₁ h₂ h₃).toNat
    if size > linkLimit then (messages, received, true)
    else if rest.length < size then (messages, received, false)
    else receiveLoop (messages ++ [rest.take size]) (rest.drop size)
  | _ => (messages, received, false)
termination_by received.length
decreasing_by
  simp only [List.length_cons, List.length_drop]
  omega

/-- Where the I/O thread stands. -/
inductive LinkStage where
  | loop
  /-- In `HandleEvents`, before `IsCurrent`. -/
  | checking (input output hangup : Bool)
  /-- At `recv`. -/
  | receiving (output : Bool)
  /-- At the part for `EPOLLOUT`. -/
  | taking
  /-- At `::send`. -/
  | writing
  /-- A frame has been written, and its accounting comes next. -/
  | settling
  /-- At `Disconnect`. -/
  | disconnecting
  deriving DecidableEq

structure MediaSignalClient where
  started : Bool := false
  connected : Bool := false
  epoch : Nat := 0
  /-- `m_frames`. -/
  frames : List Bytes := []
  pendingBytes : Nat := 0
  pendingFrames : Nat := 0
  /-- `m_fd` is a socket. -/
  isOpen : Bool := false
  socketToken : Nat := 2 ^ 63
  activeEpoch : Nat := 0
  connecting : Bool := false
  received : Bytes := []
  sending : Bytes := []
  sent : Nat := 0
  stage : LinkStage := .loop
  /-- The sockets that have become connections, each with its epoch. -/
  connections : List (Nat × Nat) := []
  /-- The frames of the calls of `Send` under each epoch that have returned true. -/
  accepted : Nat → List Bytes := fun _ => []
  /-- What each socket has taken. -/
  wire : Nat → Bytes := fun _ => []
  /-- What each socket has brought. -/
  incoming : Nat → Bytes := fun _ => []
  /-- The `Message` events of each epoch. -/
  messages : Nat → List Bytes := fun _ => []

namespace MediaSignalClient

/-- `MediaSignalClient::IsCurrent`. -/
def isCurrent (c : MediaSignalClient) (epoch : Nat) : Bool := c.started && c.connected && decide (c.epoch = epoch)

/-- `MediaSignalClient::Invalidate`. -/
def invalidate (c : MediaSignalClient) (epoch : Nat) : MediaSignalClient :=
  if !c.started || decide (epoch ≠ c.epoch) then c else { c with connected := false }

/-- Whether a message would exceed a limit. -/
def overLimit (c : MediaSignalClient) (message : Bytes) : Bool :=
  decide (message.length > linkLimit) ||
  decide (sizeAdd message.length 4 > sizeSub maxPendingBytes c.pendingBytes) ||
  decide (c.pendingFrames ≥ maxPendingFrames)

/-- `MediaSignalClient::Send`. The wake-up answers `notified`. -/
def send (c : MediaSignalClient) (epoch : Nat) (message : Bytes) (notified : Bool) : Bool × MediaSignalClient :=
  if !c.started || !c.connected || decide (epoch ≠ c.epoch) then (false, c)
  else if c.overLimit message then (false, { c with connected := false })
  else
    let frame := linkFrame message
    let c := { c with
      pendingBytes := sizeAdd c.pendingBytes frame.length
      pendingFrames := sizeAdd c.pendingFrames 1
      frames := c.frames ++ [frame] }
    if notified then (true, { c with accepted := Function.update c.accepted epoch (c.accepted epoch ++ [frame]) })
    else (false, { c with connected := false })

/-- `MediaSignalClient::Disconnect`. -/
def disconnect (c : MediaSignalClient) : MediaSignalClient :=
  { c with
    connected := false, frames := [], pendingBytes := 0, pendingFrames := 0, isOpen := false, activeEpoch := 0,
    connecting := false, received := [], sending := [], sent := 0, stage := .loop }

/-- `MediaSignalClient::Connected`. -/
def setConnected (c : MediaSignalClient) : MediaSignalClient :=
  { c with
    connecting := false, epoch := c.epoch + 1, activeEpoch := c.epoch + 1, connected := true
    connections := (c.socketToken, c.epoch + 1) :: c.connections }

/-- What `socket` and `connect` come to. -/
inductive ConnectResult where
  | noSocket
  | failed
  | inProgress
  | done
  deriving DecidableEq

/-- `MediaSignalClient::Connect`. -/
def connect (c : MediaSignalClient) : ConnectResult → MediaSignalClient
  | .noSocket => { c with stage := .disconnecting }
  | .failed => { c with isOpen := true, socketToken := c.socketToken + 1, stage := .disconnecting }
  | .inProgress => { c with isOpen := true, socketToken := c.socketToken + 1, connecting := true }
  | .done => { c with isOpen := true, socketToken := c.socketToken + 1 }.setConnected

/-- `recv` has brought these bytes. -/
def receive (c : MediaSignalClient) (output : Bool) (bytes : Bytes) : MediaSignalClient :=
  let r := receiveLoop (c.messages c.activeEpoch) (c.received ++ bytes)
  { c with
    incoming := Function.update c.incoming c.socketToken (c.incoming c.socketToken ++ bytes)
    messages := Function.update c.messages c.activeEpoch r.1
    received := r.2.1
    stage := if r.2.2 then .disconnecting else if output then .taking else .loop }

/-- The front frame is taken over, unless one is being written. -/
def takeFrame (c : MediaSignalClient) : MediaSignalClient :=
  match c.sending, c.frames with
  | [], [] => { c with stage := .loop }
  | [], frame :: frames =>
    { c with sending := frame, frames := frames, sent := 0, stage := if frame.isEmpty then .loop else .writing }
  | _ :: _, _ => { c with stage := .writing }

/-- `::send` has taken so many bytes. -/
def write (c : MediaSignalClient) (n : Nat) : MediaSignalClient :=
  { c with
    wire := Function.update c.wire c.socketToken (c.wire c.socketToken ++ (c.sending.drop c.sent).take n)
    sent := c.sent + n
    stage := if c.sent + n = c.sending.length then .settling else .loop }

/-- The accounting of a frame that has been written. -/
def settle (c : MediaSignalClient) : MediaSignalClient :=
  { c with
    pendingBytes := sizeSub c.pendingBytes c.sending.length
    pendingFrames := sizeSub c.pendingFrames 1
    sending := []
    stage := .loop }

/-! ## Steps -/

inductive Event where
  | start
  /-- From any thread. -/
  | send (epoch : Nat) (message : Bytes) (notified : Bool)
  | invalidate (epoch : Nat)
  /-- `Tick`, with whether the deadline has passed. -/
  | tick (timedOut : Bool)
  | connect (result : ConnectResult)
  /-- `HandleEvents` for these flags, with the answer of `SO_ERROR`. -/
  | handleEvents (token : Nat) (input output hangup failed : Bool)
  | check
  /-- `recv`: some bytes, none for now, or the end. -/
  | receive (bytes : Bytes)
  | receiveAgain
  | receiveFailed
  | takeFrame
  /-- `::send`: so many bytes, none for now, or an error. -/
  | write (n : Nat)
  | writeAgain
  | writeFailed
  | settle
  | disconnect

def step (c : MediaSignalClient) : Event → Option MediaSignalClient
  | .start => if c.started then none else some { c with started := true }
  | .send epoch message notified => some (c.send epoch message notified).2
  | .invalidate epoch => some (c.invalidate epoch)
  | .tick timedOut =>
    if c.stage = .loop ∧ c.started = true ∧
        ((c.activeEpoch ≠ 0 ∧ c.isCurrent c.activeEpoch = false) ∨ (c.connecting = true ∧ timedOut = true)) then
      some { c with stage := .disconnecting }
    else none
  | .connect result =>
    if c.stage = .loop ∧ c.started = true ∧ c.isOpen = false then some (c.connect result) else none
  | .handleEvents token input output hangup failed =>
    -- An old report is dropped by its token.
    if c.stage = .loop ∧ c.isOpen = true ∧ token = c.socketToken then
      if c.connecting then
        if output = false ∨ failed = true then some { c with stage := .disconnecting }
        else some { c.setConnected with stage := .checking input output hangup }
      else some { c with stage := .checking input output hangup }
    else none
  | .check =>
    match c.stage with
    | .checking input output hangup =>
      if c.isCurrent c.activeEpoch = false ∨ hangup = true then some { c with stage := .disconnecting }
      else some { c with stage := if input then .receiving output else if output then .taking else .loop }
    | _ => none
  | .receive bytes =>
    match c.stage with
    | .receiving output => if 0 < bytes.length ∧ bytes.length ≤ receiveBudget then some (c.receive output bytes) else none
    | _ => none
  | .receiveAgain =>
    match c.stage with
    | .receiving output => some (c.receive output [])
    | _ => none
  | .receiveFailed =>
    match c.stage with
    | .receiving _ => some { c with stage := .disconnecting }
    | _ => none
  | .takeFrame => if c.stage = .taking then some c.takeFrame else none
  | .write n =>
    if c.stage = .writing ∧ 0 < n ∧ n ≤ min writeBudget (c.sending.length - c.sent) then some (c.write n) else none
  | .writeAgain =>
    if c.stage = .writing then some { c with stage := if c.sent = c.sending.length then .settling else .loop } else none
  | .writeFailed => if c.stage = .writing then some { c with stage := .disconnecting } else none
  | .settle => if c.stage = .settling then some c.settle else none
  | .disconnect => if c.stage = .disconnecting then some c.disconnect else none

/-- Before the stop every wake-up is taken. -/
def BeforeStop : Event → Prop
  | .send _ _ notified => notified = true
  | _ => True

/-- The states of the link before the stop, whatever the threads and the outside do. -/
def Reachable (c : MediaSignalClient) : Prop := Reach step (fun _ e => BeforeStop e) {} c

end MediaSignalClient

end SyncRtc.Net
