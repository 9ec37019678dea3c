import MacroLift.Text.Affix

namespace MacroLift.Rust

def parameterTypes : List (String × String) :=
  [("pxHigherPriorityTaskWoken", "*mut BaseType_t"),
   ("pxYieldPending", "*mut BaseType_t"),
   ("pxPreviousWakeTime", "*mut UBaseType_t"),
   ("uxQueueLength", "UBaseType_t"),
   ("uxItemSize", "UBaseType_t"),
   ("uxMaxCount", "UBaseType_t"),
   ("uxInitialCount", "UBaseType_t"),
   ("uxTopPriority", "UBaseType_t"),
   ("uxPriority", "UBaseType_t"),
   ("uxReadyPriorities", "UBaseType_t"),
   ("uxIndexToNotify", "UBaseType_t"),
   ("uxIndexToWaitOn", "UBaseType_t"),
   ("uxIndexToClear", "UBaseType_t"),
   ("pvItemToQueue", "*const ::core::ffi::c_void"),
   ("pvParameters", "*const ::core::ffi::c_void"),
   ("pvBlockToFree", "*mut ::core::ffi::c_void"),
   ("pcName", "*const ::core::ffi::c_char"),
   ("xMutex", "QueueHandle_t"),
   ("xQueue", "QueueHandle_t"),
   ("xSemaphore", "SemaphoreHandle_t"),
   ("xBlockTime", "TickType_t"),
   ("xTicksToWait", "TickType_t"),
   ("xNewPeriod", "TickType_t"),
   ("xExpectedIdleTime", "TickType_t"),
   ("xTimeIncrement", "TickType_t"),
   ("xTask", "TaskHandle_t"),
   ("xTaskToNotify", "TaskHandle_t"),
   ("pxCreatedTask", "*mut TaskHandle_t"),
   ("pvTaskCode", "TaskFunction_t"),
   ("xTimer", "TimerHandle_t"),
   ("eAction", "eNotifyAction"),
   ("ulValue", "u32"),
   ("ulSecureStackSize", "u32"),
   ("ulBitsToClearOnEntry", "u32"),
   ("ulBitsToClearOnExit", "u32"),
   ("ulBitsToClear", "u32"),
   ("usStackDepth", "u16"),
   ("pulPreviousNotificationValue", "*mut u32"),
   ("pulPreviousNotifyValue", "*mut u32"),
   ("pulNotificationValue", "*mut u32"),
   ("pvTaskToDelete", "*mut ::core::ffi::c_void"),
   ("pvBuffer", "*mut ::core::ffi::c_void"),
   ("pucQueueStorage", "*mut u8"),
   ("pxQueueBuffer", "*mut StaticQueue_t"),
   ("pxSemaphoreBuffer", "*mut StaticSemaphore_t"),
   ("pxMutexBuffer", "*mut StaticSemaphore_t"),
   ("pxStaticSemaphore", "*mut StaticSemaphore_t"),
   ("xClearCountOnExit", "BaseType_t")]

def plainParameterTypes : List (String × String) :=
  [("*_CRITICAL_FROM_ISR", "UBaseType_t"),
   ("*CLEAR_INTERRUPT_MASK_FROM_ISR", "UBaseType_t"),
   ("*YIELD_FROM_ISR", "BaseType_t"),
   ("xTaskCreateRestricted", "TaskParameters_t")]

def parameterType? (macroName parameter : String) : Option String :=
  match parameterTypes.lookup parameter with
  | some type => some type
  | none =>
    if parameter = "x" then
      (plainParameterTypes.find? fun row => Text.matchesPattern macroName row.1).map Prod.snd
    else none

def returnType? (macroName : String) : Option String :=
  if Text.occursIn "GetMutexHolder".toList macroName.toList then some "TaskHandle_t"
  else if Text.startsWith macroName "port" && Text.endsWith macroName "_PRIORITY" then some "UBaseType_t"
  else if Text.startsWith macroName "xSemaphoreCreate" then some "SemaphoreHandle_t"
  else if Text.startsWith macroName "xQueueCreate" then some "QueueHandle_t"
  else if Text.startsWith macroName "ul" then some "u32"
  else if Text.startsWith macroName "x" then some "BaseType_t"
  else if Text.startsWith macroName "ux" then some "UBaseType_t"
  else none

def valueNames : List (String × String) :=
  [("NULL", "::core::ptr::null_mut()"), ("eIncrement", "eNotifyAction_eIncrement")]

def typeNames : List (String × String) :=
  [("void", "::core::ffi::c_void"),
   ("char", "::core::ffi::c_char"),
   ("short", "::core::ffi::c_short"),
   ("int", "::core::ffi::c_int"),
   ("long", "::core::ffi::c_long"),
   ("float", "::core::ffi::c_float"),
   ("double", "::core::ffi::c_double"),
   ("int8_t", "i8"),
   ("int16_t", "i16"),
   ("int32_t", "i32"),
   ("int64_t", "i64"),
   ("uint8_t", "u8"),
   ("uint16_t", "u16"),
   ("uint32_t", "u32"),
   ("uint64_t", "u64"),
   ("size_t", "usize")]

/-- What rendering looks up: the types of parameters and results, where an empty type counts as unknown, and
    the names that values are spelled with. -/
structure Tables where
  parameterType? : String → String → Option String
  returnType? : String → Option String
  valueNames : List (String × String)

namespace Tables

def kernel : Tables := ⟨Rust.parameterType?, Rust.returnType?, Rust.valueNames⟩

def withParameterTypes (tables : Tables) (entries : List (String × String)) : Tables :=
  { tables with parameterType? := fun macroName parameter => entries.lookup (macroName ++ "." ++ parameter) }

def withReturnTypes (tables : Tables) (entries : List (String × String)) : Tables :=
  { tables with returnType? := fun macroName => entries.lookup macroName }

end Tables

end MacroLift.Rust
