import MacroLift.Text.Quoted

namespace MacroLift.Text

inductive Utf8Cause where
  | badStart
  | badContinuation
  | cutShort
  deriving Repr, DecidableEq

structure Utf8Fault where
  bytes : List UInt8
  offset : Nat
  cause : Utf8Cause
  deriving Repr, DecidableEq

namespace Utf8Fault

def reason (fault : Utf8Fault) : String :=
  match fault.cause with
  | .badStart => "invalid start byte"
  | .badContinuation => "invalid continuation byte"
  | .cutShort => "unexpected end of data"

def message (fault : Utf8Fault) : String :=
  match fault.bytes with
  | [b] =>
    "'utf-8' codec can't decode byte 0x" ++ String.ofList (hexDigits 2 b.toNat) ++ " in position " ++
      toString fault.offset ++ ": " ++ fault.reason
  | bs =>
    "'utf-8' codec can't decode bytes in position " ++ toString fault.offset ++ "-" ++
      toString (fault.offset + bs.length - 1) ++ ": " ++ fault.reason

end Utf8Fault

/-- How many bytes follow a start byte, the bounds of the first of them, and the bits the start byte gives.
    The bounds keep out forms that are longer than needed, surrogates, and numbers past U+10FFFF. -/
def utf8Start? (b : UInt8) : Option (Nat × UInt8 × UInt8 × Nat) :=
  if b < 0x80 then some (0, 0x80, 0xBF, b.toNat)
  else if b < 0xC2 then none
  else if b < 0xE0 then some (1, 0x80, 0xBF, b.toNat - 0xC0)
  else if b < 0xF0 then
    some (2, if b == 0xE0 then 0xA0 else 0x80, if b == 0xED then 0x9F else 0xBF, b.toNat - 0xE0)
  else if b < 0xF5 then
    some (3, if b == 0xF0 then 0x90 else 0x80, if b == 0xF4 then 0x8F else 0xBF, b.toNat - 0xF0)
  else none

structure Utf8State where
  read : List UInt8
  missing : Nat
  low : UInt8
  high : UInt8
  value : Nat

def utf8Run : Option Utf8State → Nat → List Char → List UInt8 → Except Utf8Fault (List Char)
  | none, _, text, [] => .ok text.reverse
  | some state, offset, _, [] => .error ⟨state.read, offset - state.read.length, .cutShort⟩
  | none, offset, text, b :: rest =>
    match utf8Start? b with
    | none => .error ⟨[b], offset, .badStart⟩
    | some (0, _, _, value) => utf8Run none (offset + 1) (Char.ofNat value :: text) rest
    | some (missing + 1, low, high, value) =>
      utf8Run (some ⟨[b], missing, low, high, value⟩) (offset + 1) text rest
  | some state, offset, text, b :: rest =>
    if b < state.low || state.high < b then
      .error ⟨state.read, offset - state.read.length, .badContinuation⟩
    else
      let value := state.value * 64 + (b.toNat - 0x80)
      match state.missing with
      | 0 => utf8Run none (offset + 1) (Char.ofNat value :: text) rest
      | missing + 1 => utf8Run (some ⟨state.read ++ [b], missing, 0x80, 0xBF, value⟩) (offset + 1) text rest

def decodeUtf8 (bytes : List UInt8) : Except Utf8Fault (List Char) :=
  utf8Run none 0 [] bytes

end MacroLift.Text
