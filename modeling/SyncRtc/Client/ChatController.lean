import SyncRtc.Realtime.Chat

/-!
# The client's chat list

`ChatController` of the client: one list of messages for the meeting it is in, fed by its own sends, the
server's answers and pushes, and pages of the history. A message is found by its client id first and by
its server id second; a page is merged and the list sorted by server id, unconfirmed messages last.

Qt's reading of a JSON value (`toString`, `toLongLong`, `toInt`) is modelled as documented. The text of a
time is Qt's own: `display` stands for `formatMessageTimeForDisplay`.
-/

set_option autoImplicit false

namespace SyncRtc

/-! ## Values as Qt reads them -/

/-- `QString::toULongLong`: a text of digits below `2 ^ 64`, and 0 for any other. The blanks and the plus
sign Qt skips are in no id a server writes. -/
def toULongLong (text : String) : Nat :=
  let digits := text.toList
  let value := Nat.ofDigitChars 10 digits 0
  if digits.all Char.isDigit ∧ value < 2 ^ 64 then value else 0

namespace Json

/-- `QJsonValue::toString`. -/
def text : Json → String
  | .str s => s
  | _ => ""

/-- `toVariant().toLongLong()`. -/
def longLong : Json → Int
  | .bool b => if b then 1 else 0
  | .int i => i
  | .real q => ⌊q + 1 / 2⌋
  | .str s => toULongLong s
  | _ => 0

/-- `toVariant().toString()`. -/
def variantText : Json → String
  | .bool b => if b then "true" else "false"
  | .int i => toString i
  | .real q => toString q
  | .str s => s
  | _ => ""

/-- `toInt(other)`. -/
def intOr (other : Int) : Json → Int
  | .int i => if -2 ^ 31 ≤ i ∧ i < 2 ^ 31 then i else other
  | _ => other

/-- `toBool(false)`. -/
def truth : Json → Bool
  | .bool b => b
  | _ => false

end Json

/-! ## The list -/

inductive DeliveryState where
  | sending
  | sent
  | failed
  | unknown
  deriving DecidableEq

/-- `ChatController::ChatMessage`. -/
structure ChatMessage where
  messageId : String := ""
  clientMsgId : String
  meetingId : String
  chatType : String
  senderUserId : Int := 0
  senderName : String
  receiverUserId : String
  content : String
  createdAt : String
  deliveryState : DeliveryState := .sending
  isMine : Bool := false
  deriving DecidableEq

/-- `ChatController`: its meeting and its messages. -/
structure ChatController where
  activeMeetingId : String := ""
  messages : List ChatMessage := []

/-- A request the client sends: `GET_MEETING_GROUP_MESSAGES` or its private twin. -/
structure HistoryRequest where
  meetingId : String
  peerUserId : Option Int
  beforeMessageId : Nat
  limit : Int

/-- The body of the request on the wire. -/
def HistoryRequest.body (r : HistoryRequest) : Json :=
  .obj ([("meeting_id", .str r.meetingId), ("before_message_id", .int r.beforeMessageId), ("limit", .int r.limit)] ++
    r.peerUserId.toList.map fun peer => ("peer_user_id", .int peer))

section

variable (display : String → String)

/-- `ChatController::messageFromJson`. -/
def messageFromJson (json : Json) : Option ChatMessage :=
  let message : ChatMessage :=
    { messageId := (json.get "message_id").text
      clientMsgId := (json.get "client_msg_id").text
      meetingId := (json.get "meeting_id").text
      chatType := (json.get "chat_type").text
      senderUserId := (json.get "sender_user_id").longLong
      senderName := (json.get "sender_name").text
      receiverUserId := (json.get "receiver_user_id").variantText
      content := (json.get "content").text
      createdAt := display (json.get "created_at").text
      isMine := (json.get "is_mine").truth }
  let isGroup := message.chatType = "group"
  let isPrivate := message.chatType = "private" ∧ 0 < toULongLong message.receiverUserId ∧
    toULongLong message.receiverUserId < 2 ^ 63
  if message.messageId ≠ "" ∧ message.clientMsgId ≠ "" ∧ message.meetingId ≠ "" ∧ (isGroup ∨ isPrivate) ∧
      0 < message.senderUserId ∧ message.senderName ≠ "" ∧ message.content ≠ "" ∧ message.createdAt ≠ "" then
    some message
  else none

end

/-- `ChatController::belongsToConversation`. -/
def belongsToConversation (message : ChatMessage) (chatType peerUserId : String) : Bool :=
  if chatType = "group" then message.chatType = "group"
  else if chatType ≠ "private" ∨ peerUserId = "" ∨ message.chatType ≠ "private" then false
  else toString message.senderUserId = peerUserId || message.receiverUserId = peerUserId

/-- The order of `std::stable_sort` in `mergeHistoryMessages`: by server id, unconfirmed messages last. -/
def sortsBefore (left right : ChatMessage) : Bool :=
  let a := toULongLong left.messageId
  let b := toULongLong right.messageId
  if a = 0 ∨ b = 0 then a ≠ 0 && b = 0 else a < b

/-- `ChatController::findMessage`. -/
def findMessage (messages : List ChatMessage) (clientMsgId : String) : Option Nat :=
  messages.findIdx? fun m => m.clientMsgId = clientMsgId

/-- `ChatController::findMessageByServerId`. -/
def findMessageByServerId (messages : List ChatMessage) (messageId : String) : Option Nat :=
  if messageId = "" then none else messages.findIdx? fun m => m.messageId = messageId

/-- One round of the loop of `mergeHistoryMessages`: the message takes the place of the row that is it, or
a place of its own. -/
def mergeMessage (messages : List ChatMessage) (message : ChatMessage) : List ChatMessage :=
  match (findMessage messages message.clientMsgId).orElse
      fun _ => findMessageByServerId messages message.messageId with
  | some row => messages.set row message
  | none => messages ++ [message]

/-- What `mergeHistoryMessages` returns: the rounds that found no row. -/
def addedCount : List ChatMessage → List ChatMessage → Nat
  | _, [] => 0
  | messages, message :: history =>
    (match (findMessage messages message.clientMsgId).orElse
        fun _ => findMessageByServerId messages message.messageId with
      | some _ => 0
      | none => 1) + addedCount (mergeMessage messages message) history

/-- `ChatController::mergeHistoryMessages`. -/
def mergeHistoryMessages (messages history : List ChatMessage) : List ChatMessage :=
  if history.isEmpty then messages
  else (history.foldl mergeMessage messages).mergeSort fun a b => !sortsBefore b a

namespace ChatController

variable (display : String → String) (c : ChatController)

/-- `setActiveMeetingId`. -/
def setActiveMeetingId (meetingId : String) : ChatController :=
  if c.activeMeetingId = meetingId then c else { activeMeetingId := meetingId, messages := [] }

/-- `requestHistory`: the request it sends, if any. -/
def requestHistory (meetingId chatType peerUserId beforeMessageId : String) (limit : Int) : Option HistoryRequest :=
  if meetingId = "" ∨ meetingId ≠ c.activeMeetingId then none
  else if chatType ≠ "group" ∧ (chatType ≠ "private" ∨ toULongLong peerUserId = 0) then none
  else some
    { meetingId := meetingId
      peerUserId := if chatType = "private" then some (toULongLong peerUserId) else none
      beforeMessageId := toULongLong beforeMessageId
      limit := max 1 (min limit 100) }

/-- `earliestMessageId` of the group conversation: the cursor of the next older page. -/
def earliestMessageId (chatType peerUserId : String) : String :=
  ((c.messages.find? fun m => belongsToConversation m chatType peerUserId).map ChatMessage.messageId).getD ""

/-- `sendMessage`, with the `QUuid` it draws: the list with the unconfirmed message. -/
def sendMessage (meetingId chatType targetUserId content uuid time : String) : ChatController :=
  if meetingId = "" ∨ meetingId ≠ c.activeMeetingId ∨ content = "" ∨ (chatType = "private" ∧ targetUserId = "") then c
  else
    { c with messages := c.messages ++
        [{ clientMsgId := uuid, meetingId := meetingId, chatType := chatType, senderName := "我",
           receiverUserId := targetUserId, content := content, createdAt := time, isMine := true }] }

/-- `applySendMessageAck`. -/
def applySendMessageAck (json : Json) : ChatController :=
  let clientMsgId := (json.get "client_msg_id").text
  if clientMsgId = "" then c
  else
    match findMessage c.messages clientMsgId with
    | none => c
    | some row =>
      if (json.get "error").intOr ErrorCode.json.toInt ≠ ErrorCode.success.toInt then
        { c with messages := c.messages.modify row fun m => { m with deliveryState := .failed } }
      else
        match messageFromJson display json with
        | none => c
        | some message =>
          if message.meetingId ≠ c.activeMeetingId then c
          else { c with messages := c.messages.set row { message with deliveryState := .sent, isMine := true } }

/-- `applyMessageReceived`. -/
def applyMessageReceived (json : Json) : ChatController :=
  match messageFromJson display json with
  | none => c
  | some message =>
    if message.meetingId ≠ c.activeMeetingId then c
    else
      match findMessage c.messages message.clientMsgId with
      | some row => { c with messages := c.messages.set row { message with deliveryState := .sent, isMine := true } }
      | none => { c with messages := c.messages ++ [{ message with deliveryState := .sent, isMine := false }] }

/-- The messages of a page that are all of a conversation: none if one of them is not. -/
def pageMessages (chatType peerUserId : String) (items : List Json) : Option (List ChatMessage) :=
  items.mapM fun item =>
    ((messageFromJson display item).filter fun m => item.isObject && belongsToConversation m chatType peerUserId).map
      fun m => { m with deliveryState := .sent }

/-- `applyGroupHistoryResponse`. -/
def applyGroupHistoryResponse (json : Json) : ChatController :=
  if (json.get "meeting_id").text ≠ c.activeMeetingId then c
  else if (json.get "error").intOr ErrorCode.json.toInt ≠ ErrorCode.success.toInt then c
  else
    match json.get "messages" with
    | .arr items =>
      match pageMessages display "group" "" items with
      | none => c
      | some history => { c with messages := mergeHistoryMessages c.messages history }
    | _ => c

/-- `applyPrivateHistoryResponse`. -/
def applyPrivateHistoryResponse (json : Json) : ChatController :=
  let peer := (json.get "peer_user_id").longLong
  if (json.get "meeting_id").text ≠ c.activeMeetingId then c
  else if (json.get "error").intOr ErrorCode.json.toInt ≠ ErrorCode.success.toInt then c
  else
    match json.get "messages" with
    | .arr items =>
      if peer ≤ 0 then c
      else
        match pageMessages display "private" (toString peer) items with
        | none => c
        | some history => { c with messages := mergeHistoryMessages c.messages history }
    | _ => c

/-- `connectionInterrupted`: what was on its way may have arrived or not. -/
def connectionInterrupted : ChatController :=
  { c with messages := c.messages.map fun m =>
      if m.deliveryState = .sending then { m with deliveryState := .unknown } else m }

end ChatController

end SyncRtc
