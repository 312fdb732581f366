import UnitHost.Config
import UnitHost.Store
import UnitHost.Wasm.Text.Resolved
import UnitHost.Wasm.Typing

/-!
# Engine

Which modules are accepted and how deep code may call. An engine is built once from a
configuration; every module of every session it serves is compiled by it.

How bytes are read as a module is a part of the engine. The reader that engines are built with,
`Engine.readText?`, takes the text form over the instructions of `Wasm.Instr` and, of the binary
form, the empty module. Another reader may take more, such as binary units: a module is checked
after it was read, by whatever reader.
-/

namespace UnitHost

open Wasm

namespace Engine

/-- The first bytes of a module in binary form. -/
def binaryMagic : List UInt8 := [0x00, 0x61, 0x73, 0x6D]

/-- The empty module in binary form. -/
def emptyBinary : List UInt8 := binaryMagic ++ [0x01, 0x00, 0x00, 0x00]

/-- The module some bytes describe: text, or the empty module in binary form. -/
def readText? (bytes : List UInt8) : Option Module :=
  if binaryMagic.isPrefixOf bytes then
    if bytes == emptyBinary then some {} else none
  else do Wasm.Text.moduleOf? (← Text.Utf8.decode? bytes).toList

end Engine

/-- What an engine was built with. -/
structure Engine where
  referenceTypes : Bool := true
  stackSize : Nat := 1048576
  /-- The module some bytes describe. -/
  read? : List UInt8 → Option Module := Engine.readText?

namespace Engine

/-- The engine of a configuration. Bulk memory is required by reference types and by threads, and
SIMD by its relaxed form; neither threads nor relaxed SIMD can be switched off. -/
def build (config : Config) : Except Failure Engine :=
  let refuse (fault : EngineFault) : Except Failure Engine := .error (.compilation (.engine fault))
  if config.enableReferenceTypes && !config.enableBulkMemory then refuse .bulkForReferences
  else if !config.enableBulkMemory then refuse .bulkForThreads
  else if config.stackSize == 0 then refuse .noStack
  else if !config.enableSimd then refuse .simdDisabled
  else .ok { referenceTypes := config.enableReferenceTypes, stackSize := config.stackSize }

/-- Stack bytes that one call takes at least. -/
def frameBytes : Nat := 32

/-- How many calls may be open at once. -/
def maxDepth (e : Engine) : Nat := e.stackSize / frameBytes

/-- Compiles a module that is well-formed and valid. -/
def compile? (e : Engine) (bytes : List UInt8) : Option Module := do
  let m ← e.read? bytes
  if m.isValid e.referenceTypes then some m else none

/-- Compiles a base. -/
def compileBase (e : Engine) (bytes : List UInt8) : Except Failure Module :=
  match e.compile? bytes with
  | some m => .ok m
  | none => .error (.compilation .invalid)

end Engine

end UnitHost
