import Ppnt.Native.Util

/-!
# Base64

Model of `Base64` of `ppnt-common/src/util.cpp`.  The counters of the loops are `int`s: a step that
overflows one is undefined, and so is a read behind the end of the text.  `char_array_3` and
`char_array_4` are left uninitialised by the source, so the array that a loop fills is a parameter.
`std::isalnum` is that of the "C" locale; nothing in the repository sets another one.
-/

namespace Ppnt.Native.Base64

inductive Failure where
  /-- An `int` overflows. -/
  | overflow
  /-- A read behind the end. -/
  | outOfBounds
  /-- `std::length_error`, thrown by `reserve`. -/
  | lengthError
  deriving DecidableEq, Repr

/-! ## Characters -/

/-- `base64_chars`. -/
def chars : List UInt8 :=
  ascii "ABCDEFGHIJKLMNOPQRSTUVWXYZ" ++ ascii "abcdefghijklmnopqrstuvwxyz" ++ ascii "0123456789+/"

def isalnum (c : UInt8) : Bool :=
  (48 ≤ c && c ≤ 57) || (65 ≤ c && c ≤ 90) || (97 ≤ c && c ≤ 122)

/-- `is_base64`. -/
def isBase64 (c : UInt8) : Bool := isalnum c || c == 43 || c == 47

/-- `base64_chars.find(c)` in an `unsigned char`: `npos` becomes 255. -/
def index (c : UInt8) : UInt8 := UInt8.ofNat ((find c chars).getD (2 ^ 64 - 1))

/-! ## Counters -/

/-- A `size_t` in an `int`. -/
def toInt (n : Nat) : Int := Int.bmod n (2 ^ 32)

/-- `--` of an `int`. -/
def decrement (n : Int) : Except Failure Int :=
  if n = -2 ^ 31 then .error .overflow else .ok (n - 1)

/-- `++` of an `int`. -/
def increment (n : Int) : Except Failure Int :=
  if n = 2 ^ 31 - 1 then .error .overflow else .ok (n + 1)

/-! ## Encoding -/

/-- The four indices of three bytes. -/
def charArray4 (a : Vector UInt8 3) : Vector UInt8 4 :=
  #v[(a[0] &&& 0xfc) >>> 2,
    ((a[0] &&& 0x03) <<< 4) + ((a[1] &&& 0xf0) >>> 4),
    ((a[1] &&& 0x0f) <<< 2) + ((a[2] &&& 0xc0) >>> 6),
    a[2] &&& 0x3f]

/-- The characters of three bytes.  The indices are below 64, so each of them is in the table. -/
def group (a : Vector UInt8 3) : List UInt8 :=
  (charArray4 a).toList.map fun v => chars.getD v.toNat 0

structure Encoder where
  i : Fin 3
  charArray3 : Vector UInt8 3
  ret : List UInt8

/-- The body of the loop of `encode`. -/
def Encoder.put (e : Encoder) (b : UInt8) : Encoder :=
  let charArray3 := e.charArray3.set e.i b
  if h : e.i.val + 1 < 3 then { e with i := ⟨e.i + 1, h⟩, charArray3 }
  else { i := 0, charArray3, ret := e.ret ++ group charArray3 }

/-- `encode` behind its loop. -/
def Encoder.finish (e : Encoder) : List UInt8 :=
  if e.i = 0 then e.ret
  else
    let charArray3 := Vector.ofFn fun j => if j < e.i then e.charArray3[j] else 0
    e.ret ++ (group charArray3).take (e.i + 1) ++ List.replicate (3 - e.i) 61

/-- The loop of `encode`. -/
def encodeLoop (inLen : Int) (bytes : List UInt8) (e : Encoder) : Except Failure Encoder := do
  let rest ← decrement inLen
  if inLen = 0 then return e
  match bytes with
  | [] => throw .outOfBounds
  | b :: bytes => encodeLoop rest bytes (e.put b)

/-- `encode` of `in_len` bytes at an address. -/
def encodeBytes (charArray3 : Vector UInt8 3) (bytesToEncode : List UInt8) (inLen : Int) :
    Except Failure (List UInt8) := do
  let e ← encodeLoop inLen bytesToEncode { i := 0, charArray3, ret := [] }
  return e.finish

/-- `encode` of a `std::string_view`. -/
def encode (charArray3 : Vector UInt8 3) (str : List UInt8) : Except Failure (List UInt8) :=
  encodeBytes charArray3 str (toInt str.length)

/-! ## Decoding -/

/-- The three bytes of four indices. -/
def charArray3 (a : Vector UInt8 4) : Vector UInt8 3 :=
  #v[(a[0] <<< 2) + ((a[1] &&& 0x30) >>> 4),
    ((a[1] &&& 0xf) <<< 4) + ((a[2] &&& 0x3c) >>> 2),
    ((a[2] &&& 0x3) <<< 6) + a[3]]

structure Decoder where
  i : Fin 4
  charArray4 : Vector UInt8 4
  ret : List UInt8

/-- The body of the loop of `decode` and `decode_bin`. -/
def Decoder.put (d : Decoder) (c : UInt8) : Decoder :=
  let charArray4 := d.charArray4.set d.i c
  if h : d.i.val + 1 < 4 then { d with i := ⟨d.i + 1, h⟩, charArray4 }
  else
    let charArray4 := charArray4.map index
    { i := 0, charArray4, ret := d.ret ++ (charArray3 charArray4).toList }

/-- `decode` and `decode_bin` behind their loops. -/
def Decoder.finish (d : Decoder) : List UInt8 :=
  if d.i = 0 then d.ret
  else
    let charArray4 := Vector.ofFn fun j => if j < d.i then d.charArray4[j] else 0
    let charArray4 := charArray4.map index
    d.ret ++ (charArray3 charArray4).toList.take (d.i - 1)

/-- The loop of `decode` and `decode_bin`; `s` is the text from `in_` on. -/
def decodeLoop (inLen in_ : Int) (s : List UInt8) (d : Decoder) : Except Failure Decoder := do
  let rest ← decrement inLen
  if inLen = 0 then return d
  match s with
  | [] => throw .outOfBounds
  | c :: s =>
    if c != 61 && isBase64 c then
      let next ← increment in_
      decodeLoop rest next s (d.put c)
    else return d

def decode (charArray4 : Vector UInt8 4) (encodedString : List UInt8) :
    Except Failure (List UInt8) := do
  let d ← decodeLoop (toInt encodedString.length) 0 encodedString { i := 0, charArray4, ret := [] }
  return d.finish

/-- `ret.reserve(in_len * 3 / 4)`: a negative value is a huge `size_t`. -/
def reserve (inLen : Int) : Except Failure Unit :=
  if inLen * 3 < -2 ^ 31 ∨ 2 ^ 31 ≤ inLen * 3 then .error .overflow
  else if (inLen * 3).tdiv 4 < 0 then .error .lengthError
  else .ok ()

/-- `decode_bin`. -/
def decodeBin (charArray4 : Vector UInt8 4) (encodedString : List UInt8) :
    Except Failure (List UInt8) := do
  let inLen := toInt encodedString.length
  reserve inLen
  let d ← decodeLoop inLen 0 encodedString { i := 0, charArray4, ret := [] }
  return d.finish

end Ppnt.Native.Base64
