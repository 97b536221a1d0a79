import AgenticLocalApp.Domain.Records
import Mathlib.Data.Rat.Floor

/-!
# The context window

How full the window of a conversation is, from the bytes sent and received in it, the message about
to be sent and the error that came back.
-/

namespace AgenticLocalApp

/-- The context section of the configuration. -/
structure ContextConfig where
  budgetBytes : Nat
  warningRatio : Rat
  saturationRatio : Rat
  rotateOnUnusableReplyInWarning : Bool
  maxRotationsPerSession : Nat

/-- `_threshold`: the ratio of the budget, rounded up. -/
def threshold (ratio : Rat) (budget : Nat) : Nat := (Rat.ceil (ratio * budget)).toNat

/-- The code of a read that waited in vain. -/
def getTimeoutCode : String := "MODEL_GET_TIMEOUT"

/-- `_SEVERITY`. -/
def ContextWindowState.severity : ContextWindowState → Nat
  | .healthy => 0
  | .warning => 1
  | .saturated => 2

namespace ContextConfig

variable (c : ContextConfig)

/-- The state that a count of bytes alone stands for. -/
def windowOf (bytes projected : Nat) : ContextWindowState :=
  if c.budgetBytes < bytes + projected then .saturated
  else if threshold c.saturationRatio c.budgetBytes ≤ bytes then .saturated
  else if threshold c.warningRatio c.budgetBytes ≤ bytes then .warning
  else .healthy

/-- A window never gets better by itself. -/
def worse (computed current : ContextWindowState) : ContextWindowState :=
  if current.severity ≤ computed.severity then computed else current

/-- `evaluate`, without an error. -/
def evaluate (conversation : ConversationRecord) (projected : Nat := 0) : ContextWindowState :=
  worse (c.windowOf conversation.contextBytes projected) conversation.contextWindowState

/-- `should_rotate_on_unusable_reply`. -/
def shouldRotateOnUnusableReply (conversation : ConversationRecord) (error : NormalizedError) : Bool :=
  c.rotateOnUnusableReplyInWarning && c.evaluate conversation ≠ .healthy &&
    (error.errorType = .modelProtocolError ||
      (error.errorType = .timeoutError && error.errorCode = getTimeoutCode))

/-- `evaluate`, after an error. -/
def evaluateError (conversation : ConversationRecord) (error : NormalizedError) :
    ContextWindowState :=
  if error.errorType = .modelContextWindowError ∨ c.shouldRotateOnUnusableReply conversation error then
    worse .saturated conversation.contextWindowState
  else c.evaluate conversation

/-- `is_saturated`. -/
def isSaturated (conversation : ConversationRecord) : Bool := c.evaluate conversation = .saturated

end ContextConfig

end AgenticLocalApp
