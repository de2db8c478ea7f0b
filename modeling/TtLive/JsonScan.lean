import TtLive.Search
import TtLive.WsClient

/-!
# The needle scanners of `client.cpp`

`json_string_field`, `json_int_field` and `json_object_field` look for `"key":` in the text of a response and
read on from there.
-/

namespace TtLive
open Search

/-- The value of a hexadecimal digit. -/
def hex_digit_value (c : UInt8) : Option Nat :=
  if 0x30 ≤ c ∧ c ≤ 0x39 then some (c.toNat - 0x30)
  else if 0x61 ≤ c ∧ c ≤ 0x66 then some (c.toNat - 0x57)
  else if 0x41 ≤ c ∧ c ≤ 0x46 then some (c.toNat - 0x37)
  else none

/-- The digits of `strtol` with base 16, as far as they go. -/
def leading_hex (s : Bytes) : List Nat := (s.map hex_digit_value).takeWhile (·.isSome) |>.filterMap id

/-- `std::stoi(s, nullptr, 16)` of at most four characters: white space, a sign, `0x` before a digit, digits. -/
def stoi_hex (s : Bytes) : Except Exn Int :=
  let s := s.dropWhile fun c => c = 0x20 ∨ 0x09 ≤ c ∧ c ≤ 0x0d
  let neg := s.head? = some 0x2d
  let s := if s.head? = some 0x2d ∨ s.head? = some 0x2b then s.tail else s
  let s := if s.head? = some 0x30 ∧ (s.tail.head? = some 0x78 ∨ s.tail.head? = some 0x58) ∧ leading_hex (s.drop 2) ≠ []
    then s.drop 2 else s
  let digits := leading_hex s
  if digits = [] then .error "stoi"
  else
    let n : Int := digits.foldl (fun n d => 16 * n + d) 0
    .ok (if neg then -n else n)

/-- The byte for the letter of a short escape. -/
def short_escape (n : UInt8) : UInt8 :=
  if n = 0x6e then 0x0a else if n = 0x74 then 0x09 else if n = 0x72 then 0x0d else n

def json_unescape : Bytes → Except Exn Bytes
  | [] => .ok []
  | 0x5c :: 0x75 :: a :: b :: c :: d :: s => do
    let code ← stoi_hex [a, b, c, d]
    let rest ← json_unescape s
    -- non-ASCII: the escape is dropped
    return if code < 0x80 then UInt8.ofInt code :: rest else rest
  | 0x5c :: n :: s => do
    let rest ← json_unescape s
    return short_escape n :: rest
  | c :: s => do
    let rest ← json_unescape s
    return c :: rest

/-- `"\"" + key + "\":"`, and the first character of the value for two of the scanners. -/
def needle (key value_start : Bytes) : Bytes := 0x22 :: key ++ 0x22 :: 0x3a :: value_start

/-- The loop of `json_string_field`: the string body up to the closing quote. -/
def raw_body : Bytes → Bytes
  | [] => []
  | c :: s =>
    if c = 0x5c then
      match s with
      | [] => [c]
      | d :: s => c :: d :: raw_body s
    else if c = 0x22 then []
    else c :: raw_body s

def json_string_field (json key : Bytes) : Except Exn Bytes :=
  match find_after (needle key [0x22]) json with
  | none => .ok []
  | some s => json_unescape (raw_body s)

/-- The value of a run of digits. -/
def decimal (digits : Bytes) : Nat := digits.foldl (fun n c => 10 * n + (c.toNat - 0x30)) 0

/-- The digit loop of `json_int_field`, with `v` and `any`; `none` for a signed overflow. -/
def int_digits (v : Nat) (any : Bool) : Bytes → Option (Nat × Bool)
  | [] => some (v, any)
  | c :: s =>
    if 0x30 ≤ c ∧ c ≤ 0x39 then
      let v := 10 * v + (c.toNat - 0x30)
      if v < 0x8000000000000000 then int_digits v true s else none
    else some (v, any)

/-- What `json_int_field` reads behind the needle. -/
def int_value (s : Bytes) : Option Int :=
  let s := s.dropWhile fun c => c = 0x20 ∨ c = 0x22
  let neg := s.head? = some 0x2d
  match int_digits 0 false (if neg then s.tail else s) with
  | none => none
  | some (v, any) => some (if any then if neg then -v else v else 0)

def json_int_field (json key : Bytes) : Option Int :=
  match find_after (needle key []) json with
  | none => some 0
  | some s => int_value s

/-- The loop of `json_object_field`: what it passes up to and with the brace that brings `depth` to zero;
`none` at the end of the text. -/
def to_closing_brace (depth : Int) (in_str : Bool) : Bytes → Option Bytes
  | [] => none
  | c :: s =>
    if in_str then
      if c = 0x5c then
        match s with
        | [] => none
        | d :: s => (c :: d :: ·) <$> to_closing_brace depth true s
      else (c :: ·) <$> to_closing_brace depth (c ≠ 0x22) s
    else if c = 0x22 then (c :: ·) <$> to_closing_brace depth true s
    else if c = 0x7b then (c :: ·) <$> to_closing_brace (depth + 1) false s
    else if c = 0x7d then if depth - 1 = 0 then some [c] else (c :: ·) <$> to_closing_brace (depth - 1) false s
    else (c :: ·) <$> to_closing_brace depth false s

def json_object_field (json key : Bytes) : Bytes :=
  match find_after (needle key [0x7b]) json with
  | none => []
  | some s => (to_closing_brace 0 false (0x7b :: s)).getD []

end TtLive
