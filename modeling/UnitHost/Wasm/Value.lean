import UnitHost.Failure
import UnitHost.Wasm.Module

/-!
# Values and arithmetic

Values of running code, and the operations on 32-bit words. Signed operations read a word in two's
complement; shifts and rotations take their amount modulo 32.
-/

namespace UnitHost.Wasm

/-- A value. References are always null: no instruction makes one to a function. -/
inductive Value where
  | i32 (n : UInt32)
  | i64 (n : UInt64)
  | f32 (bits : UInt32)
  | f64 (bits : UInt64)
  | null
  deriving DecidableEq, Repr

namespace Value

/-- The value a local starts with. -/
def zero : ValType → Value
  | .i32 => i32 0
  | .i64 => i64 0
  | .f32 => f32 0
  | .f64 => f64 0
  | .ref _ => null

/-- The value as a 32-bit word; valid code asks this of no other. -/
def word : Value → UInt32
  | i32 n => n
  | _ => 0

end Value

/-- A word read as a signed number. -/
def signed (n : UInt32) : Int32 := n.toInt32

/-- Bits set in a word. -/
def bitCount (n : UInt32) : Nat := (List.range 32).countP n.toNat.testBit

/-- Zero bits below the lowest bit set. -/
def trailingZeros (n : UInt32) : Nat := ((List.range 32).takeWhile (!n.toNat.testBit ·)).length

/-- Zero bits above the highest bit set. -/
def leadingZeros (n : UInt32) : Nat := if n == 0 then 32 else 31 - n.toNat.log2

/-- An operation on one word. -/
def Unary.apply (op : Unary) (n : UInt32) : UInt32 :=
  match op with
  | .clz => UInt32.ofNat (leadingZeros n)
  | .ctz => UInt32.ofNat (trailingZeros n)
  | .popcnt => UInt32.ofNat (bitCount n)
  | .eqz => if n == 0 then 1 else 0

/-- An operation on two words. Division by zero traps, and so does the one signed quotient that is
not a word. -/
def Binary.apply (op : Binary) (a b : UInt32) : Except Trap UInt32 :=
  let truth (c : Bool) : Except Trap UInt32 := .ok (if c then 1 else 0)
  match op with
  | .add => .ok (a + b)
  | .sub => .ok (a - b)
  | .mul => .ok (a * b)
  | .divS =>
    if b == 0 then .error .divideByZero
    else if a == 0x80000000 && b == 0xFFFFFFFF then .error .overflow
    else .ok (signed a / signed b).toUInt32
  | .divU => if b == 0 then .error .divideByZero else .ok (a / b)
  | .remS =>
    if b == 0 then .error .divideByZero
    else if b == 0xFFFFFFFF then .ok 0
    else .ok (signed a % signed b).toUInt32
  | .remU => if b == 0 then .error .divideByZero else .ok (a % b)
  | .and => .ok (a &&& b)
  | .or => .ok (a ||| b)
  | .xor => .ok (a ^^^ b)
  | .shl => .ok (a <<< b)
  | .shrS => .ok (signed a >>> signed (b % 32)).toUInt32
  | .shrU => .ok (a >>> b)
  | .rotl => .ok ((a <<< b) ||| (a >>> (32 - b % 32)))
  | .eq => truth (a == b)
  | .ltS => truth (signed a < signed b)
  | .ltU => truth (a < b)
  | .gtU => truth (b < a)

/-- The word four bytes hold, the lowest first. -/
def wordOfBytes (bytes : List UInt8) : UInt32 :=
  UInt32.ofNat (bytes.foldr (fun b n => b.toNat + 256 * n) 0)

/-- The lowest bytes of a word, the lowest first. -/
def bytesOfWord (width : Width) (n : UInt32) : List UInt8 :=
  (List.range width.bytes).map fun i => UInt8.ofNat (n.toNat / Nat.pow 256 i)

end UnitHost.Wasm
