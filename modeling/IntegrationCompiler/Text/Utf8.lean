import IntegrationCompiler.Text.Quoted

/-!
# Octets as text

Reading octets as UTF-8, with the place and the reason where that fails.

Main definitions:

* `Utf8.decode` — the characters that octets encode, or the first fault;
* `Utf8.encode` — the octets of a text;
* `charOfCode` — the character of a code;
* `unifyNewlines` — every way of ending a line as a line feed.
-/

namespace IntegrationCompiler.Text

namespace Utf8

/-- Why octets encode no character. -/
inductive Reason where
  | start
  | continuation
  | truncated
  deriving DecidableEq, Repr

/-- The name of a reason. -/
def Reason.text : Reason → String
  | .start => "invalid start byte"
  | .continuation => "invalid continuation byte"
  | .truncated => "unexpected end of data"

/-- Octets that encode no character: where they begin, how many they are, and the first of them. -/
structure Fault where
  position : Nat
  length : Nat
  first : UInt8
  reason : Reason
  deriving DecidableEq, Repr

/-- The message of a fault. -/
def Fault.message (f : Fault) : String :=
  let place :=
    if f.length = 1 then
      "byte 0x" ++ String.ofList (hex 2 f.first.toNat) ++ " in position " ++ toString f.position
    else
      "bytes in position " ++ toString f.position ++ "-" ++ toString (f.position + f.length - 1)
  "'utf-8' codec can't decode " ++ place ++ ": " ++ f.reason.text

/-- Whether an octet continues a character. -/
def isContinuation (b : UInt8) : Bool :=
  0x80 ≤ b && b < 0xC0

/-- Whether an octet may be the second one after a first one: some combinations would encode a
character in more octets than it needs, half of a surrogate pair, or no character at all. -/
def maySecond (first second : UInt8) : Bool :=
  isContinuation second &&
    (first != 0xE0 || 0xA0 ≤ second) && (first != 0xED || second < 0xA0) &&
    (first != 0xF0 || 0x90 ≤ second) && (first != 0xF4 || second < 0x90)

/-- The bits that a continuation adds to a code. -/
def extend (code : Nat) (b : UInt8) : Nat :=
  code * 64 + b.toNat % 64

/-- The characters that octets encode; the first octet stands at a position. -/
def decodeFrom (position : Nat) : List UInt8 → Except Fault (List Char)
  | [] => .ok []
  | first :: rest =>
    let fault (length : Nat) (reason : Reason) : Except Fault (List Char) :=
      .error ⟨position, length, first, reason⟩
    if first < 0x80 then
      (decodeFrom (position + 1) rest).map (Char.ofNat first.toNat :: ·)
    else if first < 0xC2 || 0xF5 ≤ first then fault 1 .start
    else
      match rest with
      | [] => fault 1 .truncated
      | second :: rest =>
        if !maySecond first second then fault 1 .continuation
        else if first < 0xE0 then
          let code := extend (first.toNat % 32) second
          (decodeFrom (position + 2) rest).map (Char.ofNat code :: ·)
        else
          match rest with
          | [] => fault 2 .truncated
          | third :: rest =>
            if !isContinuation third then fault 2 .continuation
            else if first < 0xF0 then
              let code := extend (extend (first.toNat % 16) second) third
              (decodeFrom (position + 3) rest).map (Char.ofNat code :: ·)
            else
              match rest with
              | [] => fault 3 .truncated
              | fourth :: rest =>
                if !isContinuation fourth then fault 3 .continuation
                else
                  let code := extend (extend (extend (first.toNat % 8) second) third) fourth
                  (decodeFrom (position + 4) rest).map (Char.ofNat code :: ·)

/-- The characters that octets encode. -/
def decode (octets : List UInt8) : Except Fault (List Char) :=
  decodeFrom 0 octets

/-- The octets of a text. -/
def encode (s : String) : List UInt8 :=
  s.toUTF8.toList

end Utf8

/-- Whether a code is that of half of a surrogate pair, which no octets encode. -/
def isHalf (code : Nat) : Bool :=
  0xD800 ≤ code && code ≤ 0xDFFF

/-- The character of a code. Half of a surrogate pair is none, and a replacement takes its place. -/
def charOfCode (code : Nat) : Char :=
  if code.isValidChar then Char.ofNat code else '\ufffd'

/-- A text whose lines all end in a line feed: a carriage return, alone or before a line feed, ends
a line too. -/
def unifyNewlines : List Char → List Char
  | '\r' :: '\n' :: rest => '\n' :: unifyNewlines rest
  | '\r' :: rest => '\n' :: unifyNewlines rest
  | c :: rest => c :: unifyNewlines rest
  | [] => []

end IntegrationCompiler.Text
