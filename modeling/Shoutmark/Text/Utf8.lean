/-! UTF-8, read strictly. Octets that encode no character are refused at the first octet that
rules them out, with the octets read of that character and the reason. -/

namespace Shoutmark.Text.Utf8

inductive Reason
  | invalidStart
  | invalidContinuation
  | unexpectedEnd
  deriving DecidableEq, Repr

/-- The octets from `start` up to `stop` encode no character; `lead` is the first of them. -/
structure Refusal where
  lead : UInt8
  start : Nat
  stop : Nat
  reason : Reason
  deriving DecidableEq, Repr

def Reason.message : Reason → String
  | .invalidStart => "invalid start byte"
  | .invalidContinuation => "invalid continuation byte"
  | .unexpectedEnd => "unexpected end of data"

def hexOctet (b : UInt8) : String :=
  String.ofList [Nat.digitChar (b.toNat / 16), Nat.digitChar (b.toNat % 16)]

def Refusal.message (r : Refusal) : String :=
  let place :=
    if r.stop = r.start + 1 then "byte 0x" ++ hexOctet r.lead ++ " in position " ++ toString r.start
    else "bytes in position " ++ toString r.start ++ "-" ++ toString (r.stop - 1)
  "'utf-8' codec can't decode " ++ place ++ ": " ++ r.reason.message

/-- A character of which some octets are read: its first octet and where that stands, how many
octets are still due, between which bounds the next must lie, and the bits so far. -/
structure Partial where
  lead : UInt8
  start : Nat
  due : Nat
  low : UInt8
  high : UInt8
  bits : Nat
  deriving DecidableEq, Repr

/-- The character that an octet opens, if it opens one of several octets. The bounds for the second
octet keep out spellings longer than need be, surrogates, and points above the last. -/
def opening (start : Nat) (b : UInt8) : Option Partial :=
  let n := b.toNat
  if b < 0xC2 then none
  else if b ≤ 0xDF then some ⟨b, start, 1, 0x80, 0xBF, n % 32⟩
  else if b = 0xE0 then some ⟨b, start, 2, 0xA0, 0xBF, n % 16⟩
  else if b = 0xED then some ⟨b, start, 2, 0x80, 0x9F, n % 16⟩
  else if b ≤ 0xEF then some ⟨b, start, 2, 0x80, 0xBF, n % 16⟩
  else if b = 0xF0 then some ⟨b, start, 3, 0x90, 0xBF, n % 8⟩
  else if b ≤ 0xF3 then some ⟨b, start, 3, 0x80, 0xBF, n % 8⟩
  else if b = 0xF4 then some ⟨b, start, 3, 0x80, 0x8F, n % 8⟩
  else none

/-- Reads octets from a position on, within a character or between two. -/
def decodeFrom (position : Nat) (within : Option Partial) :
    List UInt8 → Except Refusal (List Char)
  | [] =>
    match within with
    | none => .ok []
    | some p => .error ⟨p.lead, p.start, position, .unexpectedEnd⟩
  | b :: rest =>
    match within with
    | none =>
      if b < 0x80 then do
        let cs ← decodeFrom (position + 1) none rest
        return Char.ofNat b.toNat :: cs
      else
        match opening position b with
        | some p => decodeFrom (position + 1) (some p) rest
        | none => .error ⟨b, position, position + 1, .invalidStart⟩
    | some p =>
      if p.low ≤ b && b ≤ p.high then
        let bits := p.bits * 64 + b.toNat % 64
        if p.due ≤ 1 then do
          let cs ← decodeFrom (position + 1) none rest
          return Char.ofNat bits :: cs
        else
          decodeFrom (position + 1)
            (some { p with due := p.due - 1, low := 0x80, high := 0xBF, bits }) rest
      else .error ⟨p.lead, p.start, position, .invalidContinuation⟩

def decode (octets : List UInt8) : Except Refusal (List Char) := decodeFrom 0 none octets

def encode (s : String) : List UInt8 := s.toUTF8.toList

end Shoutmark.Text.Utf8
