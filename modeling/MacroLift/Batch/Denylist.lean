import MacroLift.Text.Affix

namespace MacroLift.Denylist

def starts : List String :=
  ["_", "INT", "UINT", "list", "trace", "config", "configAssert", "portTASK_FUNCTION"]

def names : List String :=
  ["offsetof", "taskYIELD", "portYIELD", "vSemaphoreCreateBinary"]

def endings : List String :=
  ["YIELD_FROM_ISR", "_CRITICAL_FROM_ISR", "DISABLE_INTERRUPTS", "ENABLE_INTERRUPTS", "END_SWITCHING_ISR",
   "INTERRUPT_MASK_FROM_ISR", "_TCB"]

def excludes (patterns : List String) (name : String) : Bool :=
  names.contains name || starts.any (Text.startsWith name) || endings.any (Text.endsWith name) ||
    patterns.any (Text.matchesPattern name)

end MacroLift.Denylist
