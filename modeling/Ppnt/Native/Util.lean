import Mathlib.Data.Nat.Digits.Defs

/-!
# Bytes and text

Model of `ppnt-common/src/util.ixx` and of the functions of the standard library that the rest uses
on text.  A `std::string` or `std::string_view` is the list of its bytes.
-/

namespace Ppnt.Native

/-- A literal. -/
def ascii (s : String) : List UInt8 := s.toList.map fun c => UInt8.ofNat c.toNat

def toLowerAscii (c : UInt8) : UInt8 := if 65 ≤ c && c ≤ 90 then c + 32 else c

def toLowerAsciiStr (s : List UInt8) : List UInt8 := s.map toLowerAscii

/-- `ignore_case_equal`. -/
def ignoreCaseEqual (a b : List UInt8) : Bool := toLowerAsciiStr a = toLowerAsciiStr b

/-! ## Numbers -/

/-- Leading decimal digits. -/
def leadingDigits (bs : List UInt8) : List UInt8 := bs.takeWhile fun b => 48 ≤ b && b ≤ 57

def decimalValue (ds : List UInt8) : Nat := ds.foldl (fun n d => 10 * n + (d.toNat - 48)) 0

/-- `std::from_chars` into an `int`: an optional minus sign and the leading digits.  The target is
    left alone if there are none or the value does not fit. -/
def fromChars (bs : List UInt8) (old : Int) : Int :=
  let negative := bs.head? = some 45
  let ds := leadingDigits (if negative then bs.drop 1 else bs)
  let value : Int := if negative then -decimalValue ds else decimalValue ds
  if ds = [] ∨ value < -2 ^ 31 ∨ 2 ^ 31 ≤ value then old else value

/-- `std::from_chars` into an `int`, `none` for an error code. -/
def fromChars? (bs : List UInt8) : Option Int :=
  let negative := bs.head? = some 45
  let ds := leadingDigits (if negative then bs.drop 1 else bs)
  let value : Int := if negative then -decimalValue ds else decimalValue ds
  if ds = [] ∨ value < -2 ^ 31 ∨ 2 ^ 31 ≤ value then none else some value

/-- Decimal digits, without leading zeros. -/
def decimal (n : Nat) : List UInt8 :=
  if n = 0 then ascii "0" else (Nat.digits 10 n).reverse.map fun d => UInt8.ofNat (48 + d)

/-- `std::format("\x7b\x7d", n)` of an `int`. -/
def formatInt : Int → List UInt8
  | .ofNat n => decimal n
  | .negSucc n => ascii "-" ++ decimal (n + 1)

/-! ## Positions -/

/-- `find` of a character. -/
def find (c : UInt8) (s : List UInt8) : Option Nat := s.findIdx? (· = c)

/-- `find_first_of`. -/
def findFirstOf (cs s : List UInt8) : Option Nat := s.findIdx? (· ∈ cs)

/-- `rfind` of a character. -/
def rfind (c : UInt8) (s : List UInt8) : Option Nat :=
  (find c s.reverse).map fun i => s.length - 1 - i

end Ppnt.Native
