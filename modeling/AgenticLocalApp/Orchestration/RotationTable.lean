import AgenticLocalApp.Orchestration.ReplyHandling
import AgenticLocalApp.Orchestration.RotationStages

/-!
# The failure table of rotations

Where a rotation can fail: at its guards, at the summary, at a remote call, at a reply that is not
the acknowledgement, and at any write.  Each of these leaves one row of the table behind, which is
what the loop and the recovery find.
-/

namespace AgenticLocalApp

open Prog

/-- A row of the table: the parent, the child, how much the counters grew, the resume cycle, whether
the request and the copy are there and confirmed, and how far the replies of the child were read. -/
structure TableRow where
  parent : ConversationState
  child : Option ConversationState := none
  counted : Nat := 0
  cycle : Option CycleState := none
  request : Option Bool := none
  copy : Option Bool := none
  cursor : Option String := none
  errors : Nat := 0

namespace TableRow

def initFailed : TableRow where
  parent := .rotating

/-- The counters, the cycle and the request are written, and the child does not wait yet. -/
def opened : TableRow where
  parent := .rotating
  child := some .active
  counted := 1
  cycle := some .running
  request := some false

def requestFailed : TableRow where
  parent := .rotating
  child := some .waitingModelResponse
  counted := 1
  cycle := some .running
  request := some false

def readFailed : TableRow where
  parent := .rotating
  child := some .waitingModelResponse
  counted := 1
  cycle := some .running
  request := some true

def refused (cursor : Option String) : TableRow where
  parent := .rotating
  child := some .waitingModelResponse
  counted := 1
  cycle := some .failed
  request := some true
  cursor := cursor
  errors := 1

/-- The acknowledgement is written, and the parent is not closed yet. -/
def acknowledged (cursor : Option String) : TableRow where
  parent := .rotating
  child := some .waitingModelResponse
  counted := 1
  cycle := some .running
  request := some true
  cursor := cursor

/-- The parent is closed, and the cycle not completed yet. -/
def closed (cursor : Option String) : TableRow where
  parent := .closed
  child := some .waitingModelResponse
  counted := 1
  cycle := some .running
  request := some true
  cursor := cursor

/-- The cycle is completed, and nothing is sent again yet. -/
def completed (cursor : Option String) : TableRow where
  parent := .closed
  child := some .waitingModelResponse
  counted := 1
  cycle := some .completed
  request := some true
  cursor := cursor

def copyFailed (cursor : Option String) : TableRow :=
  { completed cursor with copy := some false }

def done (cursor : Option String) : TableRow :=
  { completed cursor with copy := some true }

end TableRow

/-- The stage is the one of the row, in a rotation of the conversation `c` of the session `s`. -/
structure Stage.Matches (st : Stage) (s : SessionRecord) (c : ConversationRecord)
    (pending : RotationRequest) (row : TableRow) : Prop where
  session : st.session.sessionId = s.sessionId
  state : st.session.status = s.status
  source : st.parent.conversationId = c.conversationId
  link : st.parent.parentConversationId = c.parentConversationId
  parent : st.parent.status = row.parent
  rotations : st.session.rotationsCount = s.rotationsCount + row.counted
  cycles : st.session.consumedCycles = s.consumedCycles + row.counted
  child : st.child.map ConversationRecord.status = row.child
  read : ∀ child, st.child = some child → child.getCursor = row.cursor ∧
    child.protocolErrorCount = row.errors ∧ child.parentConversationId = some c.conversationId ∧
    st.session.currentConversationId = some child.conversationId
  cycle : st.cycle.map CycleRecord.status = row.cycle
  resume : ∀ cycle, st.cycle = some cycle → cycle.cycleType = .resume
  request : st.request.map MessageRecord.postConfirmed = row.request
  copy : st.copy.map MessageRecord.postConfirmed = row.copy
  retransmission : ∀ m, st.copy = some m → m.retransmissionOf = some pending.originalMessageId ∧
    m.cycleId = pending.cycleId ∧
    ∀ child, st.child = some child → m.conversationId = child.conversationId

/-- The rotation that started from `σ₀` stands at the stage, which is the one of the row. -/
structure Stage.At (st : Stage) (σ₀ : Store) (s : SessionRecord) (c : ConversationRecord)
    (pending : RotationRequest) (row : TableRow) (σ : Store) : Prop where
  shown : st.In σ₀ σ
  said : st.Matches s c pending row

namespace Stage.At

variable {st : Stage} {σ₀ σ : Store} {s : SessionRecord} {c : ConversationRecord}
  {pending : RotationRequest} {row : TableRow}

theorem count (h : st.At σ₀ s c pending row σ) (s' : SessionRecord)
    (hid : s'.sessionId = st.session.sessionId) (hstate : s'.status = st.session.status)
    (hcurrent : s'.currentConversationId = st.session.currentConversationId)
    (hrotations : s'.rotationsCount = st.session.rotationsCount + 1)
    (hcycles : s'.consumedCycles = st.session.consumedCycles + 1) :
    Stage.At { st with session := s' } σ₀ s c pending { row with counted := row.counted + 1 }
      (σ.saveSession s') where
  shown := h.shown.saveSession hid
  said :=
    { h.said with
      session := hid.trans h.said.session
      state := hstate.trans h.said.state
      rotations := by rw [hrotations, h.said.rotations, Nat.add_assoc]
      cycles := by rw [hcycles, h.said.cycles, Nat.add_assoc]
      read := fun d hd => by
        obtain ⟨hcursor, herrors, hparent, hpoints⟩ := h.said.read d hd
        exact ⟨hcursor, herrors, hparent, hcurrent.trans hpoints⟩ }

theorem saveCycle (h : st.At σ₀ s c pending row σ) (cycle : CycleRecord) {d : ConversationRecord}
    (hd : st.child = some d) (hresume : cycle.cycleType = .resume) :
    Stage.At { st with cycle := some cycle } σ₀ s c pending { row with cycle := some cycle.status }
      (σ.saveCycle cycle) where
  shown := h.shown.saveCycle hd
  said :=
    { h.said with
      cycle := rfl
      resume := fun e he => by
        obtain rfl := Option.some.inj he
        exact hresume }

end Stage.At

/-- The remote calls of a rotation. -/
inductive RotationCall where
  | init | request | read | copy | close
  deriving DecidableEq

/-- What is stored when the call is made, and stays when it fails. -/
def RotationCall.row : RotationCall → Option String → TableRow
  | .init, _ => .initFailed
  | .request, _ => .requestFailed
  | .read, _ => .readFailed
  | .copy, cursor => .copyFailed cursor
  | .close, cursor => .done cursor

/-- The answer of a remote call that failed with the error. -/
def Op.Fails : (op : Op) → op.Ans → NormalizedError → Prop
  | .initConversation _, answer, e => answer = .error e
  | .postMessage _ _, answer, e => answer = .error e
  | .waitForReply _ _, answer, e => answer = .error e
  | .closeConversation _, answer, e => answer = .error e
  | _, _, _ => False

/-- What is read of an answer is one of `reads`. -/
def Op.ReadsAmong (reads : GetResult → Prop) : (op : Op) → op.Ans → Prop
  | .waitForReply _ _, answer => ∀ reply, answer = .ok reply → reads reply
  | _, _ => True

section Contract

variable (σ₀ : Store) (s : SessionRecord) (c : ConversationRecord) (pending : RotationRequest)

variable {σ₀ s c pending}

end Contract

section Steps

variable {rc : RotationCoordinator} {σ₀ : Store} {s : SessionRecord} {c : ConversationRecord}
  {pending : RotationRequest} {lost : RotationCall → NormalizedError → Prop} {reads : GetResult → Prop} {w : World}

namespace RotationCoordinator

end RotationCoordinator

/-! ## Whole rotations -/

namespace RotationCoordinator

end RotationCoordinator

end Steps

/-! ## A parent that is closed, and a cycle that is not completed -/

namespace RotationCoordinator

end RotationCoordinator

end AgenticLocalApp
