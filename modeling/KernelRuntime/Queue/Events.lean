import KernelRuntime.Memory.MessageStore

/-! # Events of the agent loop

What travels on `task_queue` and `execution_queue`, and the envelope the broker puts around it. -/

namespace KernelRuntime
set_option autoImplicit false

/-- An entry of the `tools` list of an execution event. -/
structure ToolSpec where
  id : Option String
  name : String
  args : Json
deriving DecidableEq

inductive ToolEventType where
  | executeTool
  | executeToolBatch
deriving DecidableEq

/-- An event of `execution_queue`. An `EXECUTE_TOOL` event carries one tool, which the worker reads
as a list of one. -/
structure ToolEvent where
  eventType : ToolEventType
  taskId : Option String
  sessionId : String
  tools : List ToolSpec
  tenantId : Option String
deriving DecidableEq

/-- An `AGENT_THINK` event of `task_queue`. -/
structure ThinkEvent where
  taskId : Option String
  sessionId : String
  description : String
  tenantId : Option String
deriving DecidableEq

/-- The envelope of an event on a stream of `LocalDurableBroker`. -/
structure StreamMessage (α : Type) where
  id : ℕ
  data : α
  attemptCount : ℕ
deriving DecidableEq

end KernelRuntime
