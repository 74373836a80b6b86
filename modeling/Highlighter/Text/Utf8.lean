import Highlighter.Text.Quoted

/-!
UTF-8. Reading stops at the first byte that cannot go on a character, and tells which bytes do not
make one: the first byte of the character and those that rightly follow it.
-/

set_option autoImplicit false

namespace Highlighter

inductive Utf8Reason where
  | invalidStart
  | invalidContinuation
  | unexpectedEnd
  deriving DecidableEq, Repr

/-- Some bytes that do not make a character: the first of them, its place, and how many they are. -/
structure Utf8Fault where
  reason : Utf8Reason
  lead : UInt8
  place : Nat
  length : Nat
  deriving DecidableEq, Repr

def Utf8Reason.message : Utf8Reason → String
  | invalidStart => "invalid start byte"
  | invalidContinuation => "invalid continuation byte"
  | unexpectedEnd => "unexpected end of data"

def Utf8Fault.message (f : Utf8Fault) : String :=
  let place :=
    if f.length ≤ 1 then
      s!"byte 0x{String.ofList (hexDigits 2 f.lead.toNat)} in position {f.place}"
    else s!"bytes in position {f.place}-{f.place + f.length - 1}"
  "'utf-8' codec can't decode " ++ place ++ ": " ++ f.reason.message

namespace Utf8

/-- A character of which some bytes have been read: the first byte and its place, how many bytes
have been read, the bits they give, and the ranges in which the next bytes have to lie. -/
structure Unfinished where
  lead : UInt8
  place : Nat
  length : Nat
  bits : Nat
  next : UInt8 × UInt8
  rest : List (UInt8 × UInt8)

def Unfinished.fault (u : Unfinished) (reason : Utf8Reason) : Utf8Fault :=
  ⟨reason, u.lead, u.place, u.length⟩

/-- The range of the bytes that go on a character. -/
def tail : UInt8 × UInt8 := (0x80, 0xBF)

/-- The ranges of the bytes that go on a character which starts with `lead`. They leave out what
could be written in fewer bytes, surrogates, and what lies above U+10FFFF. -/
def continuation? (lead : UInt8) : Option ((UInt8 × UInt8) × List (UInt8 × UInt8)) :=
  if 0xC2 ≤ lead ∧ lead ≤ 0xDF then some (tail, [])
  else if lead = 0xE0 then some ((0xA0, 0xBF), [tail])
  else if lead = 0xED then some ((0x80, 0x9F), [tail])
  else if 0xE1 ≤ lead ∧ lead ≤ 0xEF then some (tail, [tail])
  else if lead = 0xF0 then some ((0x90, 0xBF), [tail, tail])
  else if 0xF1 ≤ lead ∧ lead ≤ 0xF3 then some (tail, [tail, tail])
  else if lead = 0xF4 then some ((0x80, 0x8F), [tail, tail])
  else none

/-- The bits that the first byte of a character of several bytes gives. -/
def leadBits (lead : UInt8) : Nat :=
  if lead < 0xE0 then lead.toNat % 0x20
  else if lead < 0xF0 then lead.toNat % 0x10
  else lead.toNat % 0x08

/-- Reads bytes of which the first is at `place`, perhaps inside a character. -/
def decodeFrom (place : Nat) : Option Unfinished → List UInt8 → Except Utf8Fault Text
  | none, [] => .ok []
  | some u, [] => .error (u.fault .unexpectedEnd)
  | none, b :: bytes =>
    if b < 0x80 then do
      return Char.ofNat b.toNat :: (← decodeFrom (place + 1) none bytes)
    else
      match continuation? b with
      | none => .error ⟨.invalidStart, b, place, 1⟩
      | some (next, rest) =>
        decodeFrom (place + 1) (some ⟨b, place, 1, leadBits b, next, rest⟩) bytes
  | some u, b :: bytes =>
    if u.next.1 ≤ b ∧ b ≤ u.next.2 then
      let bits := u.bits * 0x40 + b.toNat % 0x40
      match u.rest with
      | [] => do return Char.ofNat bits :: (← decodeFrom (place + 1) none bytes)
      | next :: rest =>
        decodeFrom (place + 1) (some { u with length := u.length + 1, bits, next, rest }) bytes
    else .error (u.fault .invalidContinuation)

def decode (bytes : List UInt8) : Except Utf8Fault Text := decodeFrom 0 none bytes

/-- A byte that goes on a character, with six of its bits. -/
def tailByte (n : Nat) : UInt8 := UInt8.ofNat (0x80 + n % 0x40)

def encodeChar (c : Char) : List UInt8 :=
  let n := c.toNat
  if n < 0x80 then [UInt8.ofNat n]
  else if n < 0x800 then [UInt8.ofNat (0xC0 + n / 0x40), tailByte n]
  else if n < 0x10000 then [UInt8.ofNat (0xE0 + n / 0x1000), tailByte (n / 0x40), tailByte n]
  else [UInt8.ofNat (0xF0 + n / 0x40000), tailByte (n / 0x1000), tailByte (n / 0x40), tailByte n]

def encode (t : Text) : List UInt8 := t.flatMap encodeChar

end Utf8

end Highlighter
