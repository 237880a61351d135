import Mathlib.Algebra.GroupWithZero.Nat
import Mathlib.Data.List.Basic

/-!
# JavaScript's string operations

The few operations on strings that JavaScript code leans on and that differ from Lean's own:
lengths count UTF-16 units, `trim` has its own set of blanks, and the empty string is falsy. All
of them go through the list of characters, so that they evaluate.
-/

namespace Foundations

/-- The number of UTF-16 units of a character. -/
def utf16Units (c : Char) : Nat :=
  if c.toNat < 0x10000 then 1 else 2

/-- `s.length`. -/
def jsLength (s : String) : Nat :=
  (s.toList.map utf16Units).sum

/-- The characters that `trim` removes. -/
def isJsBlank (c : Char) : Bool :=
  let n := c.toNat
  (9 ≤ n && n ≤ 13) || n == 0x20 || n == 0xa0 || n == 0x1680 || (0x2000 ≤ n && n ≤ 0x200a) ||
    n == 0x2028 || n == 0x2029 || n == 0x202f || n == 0x205f || n == 0x3000 || n == 0xfeff

/-- `!s.trim()`: nothing but blanks. -/
def isBlank (s : String) : Bool :=
  s.toList.all isJsBlank

/-- `s.trim()`. -/
def jsTrim (s : String) : String :=
  .ofList ((s.toList.dropWhile isJsBlank).reverse.dropWhile isJsBlank).reverse

/-- `s.trim() || null`. -/
def trimOrNull (s : Option String) : Option String :=
  s.bind fun t => if isBlank t then none else some (jsTrim t)

/-- `s.startsWith(p)`. -/
def jsStartsWith (s p : String) : Bool :=
  p.toList.isPrefixOf s.toList

/-- `s.slice(0, n)`, for texts in the basic plane. -/
def jsTake (n : Nat) (s : String) : String :=
  .ofList (s.toList.take n)

/-- Whether an optional text counts as given: JavaScript takes the empty string for absent. -/
def truthy (s : Option String) : Bool :=
  match s with
  | none => false
  | some t => t != ""

@[simp]
theorem truthy_none : truthy none = false := rfl

end Foundations
