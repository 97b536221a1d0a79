import AgenticLocalApp.Protocol.Messages
import AgenticLocalApp.Protocol.PlanContent

/-!
# Messages of the loop

A message ready to be posted, and a validated message of the model.
-/

namespace AgenticLocalApp

structure OutboundMessage where
  messageId : String
  messageType : MessageType
  payload : Json
  sizeBytes : Nat

structure UserResponseContent where
  format : String
  status : String
  expectsReply : Bool
  body : String

/-- The content of a message of the model, as far as the loop tells contents apart. -/
inductive InboundContent where
  | userResponse (content : UserResponseContent)
  | other (content : Json)

structure InboundMessage where
  messageId : String
  messageType : MessageType
  /-- The message as received. -/
  payload : Json
  sizeBytes : Nat
  content : InboundContent
  /-- The plan that the message carries. -/
  plan : Option (PlanType × PlanContent) := none
  warnings : List String := []

end AgenticLocalApp
