import SyncRtc.Realtime.LogicSystem

/-!
# The server as a process

`LogicSystem.lean` is driven by whoever calls it. Here the I/O thread does: what it does to the sockets and to the link
of MediaServer, and then what it posts. Between the two the threads of the business layer may go on; the I/O thread
itself does nothing else before it has posted (`Errand`).

The business layer only sees the data of `Server`. `Server.bare` is a server without its queues and operations.
-/

set_option autoImplicit false

namespace SyncRtc

/-- The data alone: no queue holds anything, and no operation runs. -/
def Server.bare (σ : Server) : Server :=
  { σ with
    conns := fun s => { isOpen := (σ.conns s).isOpen }
    rooms := fun m => { data := (σ.rooms m).data }
    timer := none
    control := []
    controlOp := none }

/-- What the I/O thread is about to post. -/
inductive Errand where
  | disconnected (session : SessionId)
  | media (event : MediaEvent) (epoch : Nat)
  deriving DecidableEq

structure Process where
  logic : LogicSystem
  errand : Option Errand := none

namespace Process

inductive Event where
  | accept
  /-- A frame has arrived: `PostMsgToQue`. -/
  | frame (session : SessionId) (r : Request) (bytes : Nat)
  /-- `CloseClient`, as far as the post. -/
  | close (session : SessionId)
  | post
  /-- The last `shared_ptr` to a session whose connection has ended is gone. -/
  | release (session : SessionId)
  /-- `CheckHeartbeats`, once a second. -/
  | tick
  /-- `Connected` and `Disconnect` of `MediaSignalClient`, as far as the post. -/
  | linkUp
  | linkDown
  | linkMessage (message : Payload) (bytes : Nat)
  | clocks (wall elapsed : Nat)
  /-- A thread of the business layer goes on. -/
  | inner (e : LogicSystem.Event)

def outside (π : Process) (server : Server) : Process := { π with logic := { π.logic with server } }

def owe (π : Process) (errand : Errand) : Process := { π with errand := some errand }

/-- No command of the connection is left that would hold its session. -/
def isForgotten (σ : LogicSystem) (s : SessionId) : Bool :=
  (List.range σ.nextQueue).all fun i => decide (σ.owners i = .conn s → (σ.queues i).pending = 0)

/-- `CServer::CloseClient` and `MediaSignalClient::m_callback` post what they owe. -/
def post (π : Process) : Option Process :=
  match π.errand with
  | some (.disconnected s) => some { logic := π.logic.postMsgToQue s .disconnected 0 }
  | some (.media event epoch) => some { logic := π.logic.postMediaEvent event epoch .malformed 0 }
  | none => none

/-- The I/O thread goes on, when it owes nothing. -/
def turn (π : Process) : Event → Option Process
  | .accept =>
    let server := π.logic.server
    some (π.outside
      { server.setConn server.nextSession { isOpen := true } with nextSession := server.nextSession + 1 })
  | .frame s r bytes =>
    if (π.logic.server.conns s).isOpen then some { π with logic := π.logic.postMsgToQue s (.request r) bytes } else none
  | .close s =>
    let server := π.logic.server
    if (server.conns s).isOpen then
      some ((π.outside ((server.setSession s { server.sessions s with closed := true }).setConn s {})).owe
        (.disconnected s))
    else none
  | .tick => some { π with logic := π.logic.postReconnectTimeoutCheck }
  | .linkUp =>
    let server := π.logic.server
    if server.link.active = 0 then
      let epoch := server.link.epoch + 1
      some ((π.outside { server with link := { epoch, active := epoch, connected := true } }).owe (.media .connected epoch))
    else none
  | .linkDown =>
    let server := π.logic.server
    if server.link.active = 0 then none
    else
      some ((π.outside { server with link := { server.link with active := 0, connected := false } }).owe
        (.media .disconnected server.link.active))
  | .linkMessage message bytes =>
    if π.logic.server.link.active = 0 then none
    else some { π with logic := π.logic.postMediaEvent .message π.logic.server.link.active message bytes }
  | _ => none

def step [PoolSizes] (π : Process) : Event → Option Process
  | .post => π.post
  | .release s =>
    let server := π.logic.server
    if (server.conns s).isOpen = false ∧ π.errand ≠ some (.disconnected s) ∧ isForgotten π.logic s ∧ s < server.nextSession then
      some (π.outside (server.setSession s { server.sessions s with alive := false }))
    else none
  | .clocks wall elapsed =>
    let server := π.logic.server
    some (π.outside { server with wall, steady := server.steady + elapsed })
  | .inner e => if e.isInner then (π.logic.step e).map fun logic => { π with logic } else none
  | e => if π.errand.isNone then π.turn e else none

/-- The process before its first connection, with the AIServer stub or without. -/
def start (server : Server) (aiStub : Bool) : Process := { logic := LogicSystem.start server aiStub }

/-- The states of a process that has started over any stores, and that nobody has asked to stop. -/
def Reachable [PoolSizes] (π : Process) : Prop :=
  ∃ server aiStub, server.Initial ∧ Reach step (fun _ _ => True) (start server aiStub) π

end Process

end SyncRtc
