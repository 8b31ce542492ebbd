import Mathlib.Algebra.GroupWithZero.Nat

/-!
# JSON values

The part of a JSON value that the handlers read. Numbers keep the three forms that
the parser distinguishes; only the first one is an unsigned integer.
-/

namespace Arbexpert.Base

/-- The range of unsigned 64-bit integers is not empty. -/
instance neZeroU64 : NeZero (2 ^ 64) := ⟨Nat.ne_of_gt (Nat.two_pow_pos 64)⟩

/-- A JSON number: an unsigned 64-bit integer, a negative integer, or the bits of a
floating-point number. -/
inductive Number
  | posInt (n : Fin (2 ^ 64))
  | negInt (n : ℕ)
  | float (bits : Fin (2 ^ 64))

/-- A JSON value. -/
inductive Value
  | null
  | bool (b : Bool)
  | number (n : Number)
  | string (s : String)
  | array (items : List Value)
  | object (fields : List (String × Value))

/-- The value of a field; `null` when there is none. -/
def Value.field : Value → String → Value
  | .object fields, key => (fields.lookup key).getD .null
  | _, _ => .null

/-- The item at an index; `null` when there is none. -/
def Value.item : Value → ℕ → Value
  | .array items, k => items[k]?.getD .null
  | _, _ => .null

/-- The boolean that the value is. -/
def Value.asBool : Value → Option Bool
  | .bool b => some b
  | _ => none

/-- The string that the value is. -/
def Value.asStr : Value → Option String
  | .string s => some s
  | _ => none

/-- The unsigned 64-bit integer that the value is. -/
def Value.asU64 : Value → Option ℕ
  | .number (.posInt n) => some n
  | _ => none

/-- The signed 64-bit integer that the value is. -/
def Value.asI64 : Value → Option Int64
  | .number (.posInt n) => if n.val < 2 ^ 63 then some (Int64.ofNat n) else none
  | .number (.negInt n) => if n ≤ 2 ^ 63 then some (Int64.ofInt (-n)) else none
  | _ => none

/-- The items of the array that the value is. -/
def Value.asArray : Value → Option (List Value)
  | .array items => some items
  | _ => none

/-- An unsigned integer of a value fits 64 bits. -/
theorem Value.asU64_lt {value : Value} {n : ℕ} (h : value.asU64 = some n) : n < 2 ^ 64 := by
  unfold Value.asU64 at h
  split at h
  · rename_i m
    cases h
    exact m.isLt
  · cases h

/-- Decimal numbers as the handlers obtain them: parsed from a string, or
deserialised from a JSON value. -/
class DecimalText (D : Type*) where
  parse : String → Option D
  deserialize : Value → Option D

/-- The number that a text of digits writes; an empty text writes none. -/
def readDigits (text : String) : Option ℕ :=
  match text.toList with
  | [] => none
  | digits => digits.foldl
      (fun value c => value.bind fun n => if c.isDigit then some (10 * n + c.toNat - 48) else none)
      (some 0)

/-- Decimals without sign and fraction, as natural numbers. -/
instance : DecimalText ℕ where
  parse := readDigits
  deserialize
    | .number (.posInt n) => some n
    | .string text => readDigits text
    | _ => none

/-- The successor of an unsigned 64-bit counter, which wraps around. -/
def succU64 (n : ℕ) : ℕ := (n + 1) % 2 ^ 64

/-- Below the largest value the successor is the next number. -/
theorem succU64_of_lt {n : ℕ} (h : n + 1 < 2 ^ 64) : succU64 n = n + 1 := Nat.mod_eq_of_lt h

/-- The successor of the largest value is zero. -/
theorem succU64_max : succU64 (2 ^ 64 - 1) = 0 := rfl

end Arbexpert.Base
