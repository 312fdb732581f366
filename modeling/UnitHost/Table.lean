import Std.Data.TreeMap.Lemmas
import UnitHost.Abi

/-!
# Tables

A table of functions for indirect calls. Only the slots written so far are held; every other slot
is empty. The bound on the held slots is part of the type, so a slot that growth adds is empty.
-/

namespace UnitHost

open Wasm

/-- What can be called: a host call, or code at an address of the store. -/
inductive Callee where
  | host (call : HostCall)
  | code (address : Nat)
  deriving DecidableEq, Repr

/-- A table. -/
structure Table where
  kind : RefType
  size : Nat
  /-- Most slots it may grow to, if it was declared with a maximum. -/
  maximum : Option Nat := none
  slots : Std.TreeMap Nat Callee := {}
  slots_lt : ∀ i ∈ slots, i < size

/-- Most slots a table can have. -/
def maxSlots : Nat := 4294967295

namespace Table

/-- Empty slots. -/
def empty (kind : RefType) (size : Nat) (maximum : Option Nat := none) : Table where
  kind
  size
  maximum
  slots_lt := by simp

/-- The function in a slot. -/
def get? (t : Table) (i : Nat) : Option Callee := t.slots[i]?

/-- Puts functions into slots, from a slot on. -/
def fillSlots (slots : Std.TreeMap Nat Callee) (start : Nat) : List Callee → Std.TreeMap Nat Callee
  | [] => slots
  | f :: rest => fillSlots (slots.insert start f) (start + 1) rest

theorem mem_fillSlots {slots : Std.TreeMap Nat Callee} {start i : Nat} {funcs : List Callee} :
    i ∈ fillSlots slots start funcs ↔ i ∈ slots ∨ start ≤ i ∧ i < start + funcs.length := by
  induction funcs generalizing slots start with
  | nil => exact ⟨Or.inl, fun h => h.elim id fun ⟨low, high⟩ => absurd high (Nat.not_lt.2 low)⟩
  | cons f rest ih =>
    simp only [fillSlots, ih, Std.TreeMap.mem_insert, Nat.compare_eq_eq, List.length_cons]
    by_cases hi : i ∈ slots
    · simp [hi]
    · simp only [hi, or_false, false_or]; omega

/-- Writes functions from a slot on, if they all lie inside. -/
def write? (t : Table) (start : Nat) (funcs : List Callee) : Option Table :=
  if fits : start + funcs.length ≤ t.size then
    some { t with
      slots := fillSlots t.slots start funcs
      slots_lt := by
        intro i hi
        rcases mem_fillSlots.1 hi with old | ⟨_, new⟩
        · exact t.slots_lt i old
        · exact Nat.lt_of_lt_of_le new fits }
  else none

/-- Most slots the table can grow to. -/
def limit (t : Table) : Nat := min (t.maximum.getD maxSlots) maxSlots

/-- The table with `delta` more empty slots, if its limit allows. -/
def grow? (t : Table) (delta : Nat) : Option Table :=
  if t.size + delta ≤ t.limit then
    some { t with
      size := t.size + delta
      slots_lt := fun i hi => Nat.lt_of_lt_of_le (t.slots_lt i hi) (Nat.le_add_right _ _) }
  else none

end Table

end UnitHost
