namespace MacroLift.Constants

def kernel : List (String × String) :=
  [("uint16_t", "configMINIMAL_STACK_SIZE"),
   ("uint16_t", "configTIMER_TASK_STACK_DEPTH"),
   ("BaseType_t", "pdFALSE"),
   ("BaseType_t", "pdFAIL"),
   ("BaseType_t", "pdTRUE"),
   ("BaseType_t", "pdPASS"),
   ("BaseType_t", "errQUEUE_FULL"),
   ("BaseType_t", "errQUEUE_EMPTY"),
   ("BaseType_t", "errCOULD_NOT_ALLOCATE_REQUIRED_MEMORY"),
   ("BaseType_t", "errQUEUE_BLOCKED"),
   ("BaseType_t", "errQUEUE_YIELD"),
   ("BaseType_t", "tmrCOMMAND_DELETE"),
   ("BaseType_t", "tmrCOMMAND_START"),
   ("BaseType_t", "tmrCOMMAND_START_FROM_ISR"),
   ("BaseType_t", "tmrCOMMAND_STOP"),
   ("BaseType_t", "tmrCOMMAND_STOP_FROM_ISR"),
   ("BaseType_t", "tmrCOMMAND_RESET"),
   ("BaseType_t", "tmrCOMMAND_RESET_FROM_ISR"),
   ("BaseType_t", "tmrCOMMAND_CHANGE_PERIOD"),
   ("BaseType_t", "tmrCOMMAND_CHANGE_PERIOD_FROM_ISR"),
   ("BaseType_t", "queueSEND_TO_BACK"),
   ("BaseType_t", "queueSEND_TO_FRONT"),
   ("BaseType_t", "queueOVERWRITE"),
   ("uint8_t", "queueQUEUE_TYPE_BASE"),
   ("uint8_t", "queueQUEUE_TYPE_BINARY_SEMAPHORE"),
   ("uint8_t", "queueQUEUE_TYPE_MUTEX"),
   ("uint8_t", "queueQUEUE_TYPE_RECURSIVE_MUTEX"),
   ("UBaseType_t", "semSEMAPHORE_QUEUE_ITEM_LENGTH"),
   ("TickType_t", "semGIVE_BLOCK_TIME"),
   ("TickType_t", "portMAX_DELAY"),
   ("TickType_t", "portTICK_PERIOD_MS"),
   ("BaseType_t", "taskSCHEDULER_SUSPENDED"),
   ("BaseType_t", "taskSCHEDULER_NOT_STARTED"),
   ("BaseType_t", "taskSCHEDULER_RUNNING")]

/-- The lines that turn one macro into a constant, by way of a constant with a name of its own. -/
def guardedLines (type name : String) : List String :=
  let held := "__" ++ name ++ "_UNDEF__"
  ["#ifdef " ++ name,
   "static const " ++ type ++ " " ++ held ++ " = " ++ name ++ ";",
   "#undef " ++ name,
   "const " ++ type ++ " " ++ name ++ " = " ++ held ++ ";",
   "#endif"]

def header (constants : List (String × String)) : String :=
  "\n".intercalate (constants.flatMap fun constant => guardedLines constant.1 constant.2) ++ "\n"

end MacroLift.Constants
