import TtLive.JavaScript
import TtLive.WebDefaults

/-!
# `hybrid-fake-dom.js`: strings and bytes

`atob` and `btoa`, `FakeTextEncoder` and `FakeTextDecoder`. A string is its UTF-16 code units; the bit operations are
those of JavaScript, on signed 32-bit integers.
-/

namespace TtLive.fake_dom
open JavaScript

/-- The code units of a string. -/
abbrev Units := List UInt16

def units (s : Str) : Units := s.map UInt8.toUInt16

/-- `String.fromCharCode(n)`. -/
def fromCharCode (n : Int32) : UInt16 := n.toUInt32.toUInt16

def charCode (c : UInt16) : Int32 := Int32.ofNat c.toNat

/-! ### `atob` and `btoa` -/

def base64_chars : Units :=
  units (lit "ABCDEFGHIJKLMNOPQRSTUVWXYZabcdefghijklmnopqrstuvwxyz0123456789+/")

/-- `chars.indexOf(c)`; `undefined` is looked for as `"undefined"`, which `chars` does not contain. -/
def indexOf (chars : Units) : Option UInt16 → Int32
  | none => -1
  | some c => (chars.idxOf? c).elim (-1) Int32.ofNat

/-- A round of `atob` on `str[i]`, ..., `str[i + 3]`. -/
def atob_round (c₀ c₁ c₂ c₃ : Option UInt16) : Units :=
  let chars := base64_chars ++ units (lit "=")
  let a := indexOf chars c₀
  let b := indexOf chars c₁
  let c := indexOf chars c₂
  let d := indexOf chars c₃
  let bits := (a <<< 18) ||| (b <<< 12) ||| (c <<< 6) ||| d
  [fromCharCode ((bits >>> 16) &&& 0xff)] ++
    (if c ≠ 64 then [fromCharCode ((bits >>> 8) &&& 0xff)] else []) ++
    (if d ≠ 64 then [fromCharCode (bits &&& 0xff)] else [])

/-- The loop of `atob`, `i += 4`. -/
def atob_loop : Units → Units
  | [] => []
  | [a] => atob_round (some a) none none none
  | [a, b] => atob_round (some a) (some b) none none
  | [a, b, c] => atob_round (some a) (some b) (some c) none
  | a :: b :: c :: d :: str => atob_round (some a) (some b) (some c) (some d) ++ atob_loop str

/-- `str.replace(/=+$/, '')`, and the loop. -/
def atob (str : Units) : Units := atob_loop (str.reverse.dropWhile (· = 0x3d)).reverse

/-- `chars[n]`. -/
def base64_char (n : Int32) : Units := base64_chars[n.toNatClampNeg]?.toList

/-- A round of `btoa`: `charCodeAt` behind the end is `NaN`, which `|| 0` makes 0. -/
def btoa_round (c₀ : UInt16) (c₁ c₂ : Option UInt16) : Units :=
  let a := charCode c₀
  let b := c₁.elim 0 charCode
  let c := c₂.elim 0 charCode
  let bits := (a <<< 16) ||| (b <<< 8) ||| c
  base64_char ((bits >>> 18) &&& 63) ++ base64_char ((bits >>> 12) &&& 63) ++
    (if c₁.isSome then base64_char ((bits >>> 6) &&& 63) else [0x3d]) ++
    (if c₂.isSome then base64_char (bits &&& 63) else [0x3d])

/-- `btoa`, `i += 3`. -/
def btoa : Units → Units
  | [] => []
  | [a] => btoa_round a none none
  | [a, b] => btoa_round a (some b) none
  | a :: b :: c :: str => btoa_round a (some b) (some c) ++ btoa str

/-! ### `FakeTextEncoder` and `FakeTextDecoder` -/

/-- An element of a new `Uint8Array`. -/
def toUint8 (n : Int32) : UInt8 := n.toUInt32.toUInt8

/-- The numbers that `encode` pushes for a code point of two, three and four bytes. -/
def push_two (c : Int32) : Bytes := [toUint8 ((0xc0 : Int32) ||| (c >>> 6)), toUint8 ((0x80 : Int32) ||| (c &&& 0x3f))]

def push_three (c : Int32) : Bytes :=
  [toUint8 ((0xe0 : Int32) ||| (c >>> 12)), toUint8 ((0x80 : Int32) ||| ((c >>> 6) &&& 0x3f)),
    toUint8 ((0x80 : Int32) ||| (c &&& 0x3f))]

def push_four (c : Int32) : Bytes :=
  [toUint8 ((0xf0 : Int32) ||| (c >>> 18)), toUint8 ((0x80 : Int32) ||| ((c >>> 12) &&& 0x3f)),
    toUint8 ((0x80 : Int32) ||| ((c >>> 6) &&& 0x3f)), toUint8 ((0x80 : Int32) ||| (c &&& 0x3f))]

/-- `0x10000 + (((c & 0x3FF) << 10) | (str.charCodeAt(i) & 0x3FF))`; behind the end the character code is `NaN`, which
the mask makes 0. -/
def from_pair (c : Int32) (next : Option UInt16) : Int32 :=
  (0x10000 : Int32) + (((c &&& 0x3ff) <<< 10) ||| next.elim 0 fun d => charCode d &&& 0x3ff)

/-- The loop of `FakeTextEncoder.encode` over what is left of the string. -/
def encode (str : Units) : Bytes :=
  match str with
  | [] => []
  | u :: str =>
    let c := charCode u
    if c < 0x80 then toUint8 c :: encode str
    else if c < 0x800 then push_two c ++ encode str
    else if c < 0xd800 ∨ c ≥ 0xe000 then push_three c ++ encode str
    else push_four (from_pair c str[0]?) ++ encode (str.drop 1)
termination_by str.length
decreasing_by all_goals simp only [List.length_cons, List.length_drop]; omega

/-- `bytes[i++] & 0x3F`; behind the end it is `undefined`, which the mask makes 0. -/
def low_bits (b : Option UInt8) : Int32 := b.elim 0 fun b => Int32.ofNat b.toNat &&& 0x3f

def from_two (b : Int32) (b₁ : Option UInt8) : Int32 := ((b &&& 0x1f) <<< 6) ||| low_bits b₁

def from_three (b : Int32) (b₁ b₂ : Option UInt8) : Int32 :=
  ((b &&& 0x0f) <<< 12) ||| (low_bits b₁ <<< 6) ||| low_bits b₂

def from_four (b : Int32) (b₁ b₂ b₃ : Option UInt8) : Int32 :=
  ((b &&& 0x07) <<< 18) ||| (low_bits b₁ <<< 12) ||| (low_bits b₂ <<< 6) ||| low_bits b₃

/-- The two code units made of `cp - 0x10000`. -/
def to_pair (cp : Int32) : Units :=
  [fromCharCode ((0xd800 : Int32) + (cp >>> 10)), fromCharCode ((0xdc00 : Int32) + (cp &&& 0x3ff))]

/-- The loop of `FakeTextDecoder.decode` over what is left of the array. -/
def decode_bytes (bytes : Bytes) : Units :=
  match bytes with
  | [] => []
  | byte :: bytes =>
    let b := Int32.ofNat byte.toNat
    if b < 0x80 then fromCharCode b :: decode_bytes bytes
    else if b < 0xe0 then fromCharCode (from_two b bytes[0]?) :: decode_bytes (bytes.drop 1)
    else if b < 0xf0 then fromCharCode (from_three b bytes[0]? bytes[1]?) :: decode_bytes (bytes.drop 2)
    else to_pair (from_four b bytes[0]? bytes[1]? bytes[2]? - 0x10000) ++ decode_bytes (bytes.drop 3)
termination_by bytes.length
decreasing_by all_goals simp only [List.length_cons, List.length_drop]; omega

/-- A view of a buffer. -/
structure Uint8Array where
  buffer : Bytes
  byteOffset : Nat
  length : Nat
  in_buffer : byteOffset + length ≤ buffer.length

def Uint8Array.bytes (v : Uint8Array) : Bytes := (v.buffer.drop v.byteOffset).take v.length

/-- The argument of `decode`. -/
inductive BufferSource
  | missing
  | array_buffer (bytes : Bytes)
  | view (v : Uint8Array)

/-- `FakeTextDecoder.decode`: `new Uint8Array(buf.buffer || buf)` is a view of all of the buffer. -/
def decode : BufferSource → Units
  | .missing => []
  | .array_buffer bytes => decode_bytes bytes
  | .view v => decode_bytes v.buffer

end TtLive.fake_dom
