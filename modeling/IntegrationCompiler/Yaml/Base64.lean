/-!
# Octets in base 64

Reading octets written with 64 letters. Characters that are no letters are passed over, and padding
ends the text once it completes a group of four. Main definition: `base64?`.
-/

namespace IntegrationCompiler.Yaml

/-- The value of a letter. -/
def base64Value? (c : Char) : Option Nat :=
  if 'A' ≤ c && c ≤ 'Z' then some (c.toNat - 0x41)
  else if 'a' ≤ c && c ≤ 'z' then some (c.toNat - 0x61 + 26)
  else if '0' ≤ c && c ≤ '9' then some (c.toNat - 0x30 + 52)
  else if c == '+' then some 62
  else if c == '/' then some 63
  else none

/-- The octets of a group that has `size` letters so far with the value `bits`, of the `pads` signs of
padding after it, and of the text that follows. -/
def base64From (size bits pads : Nat) : List Char → Option (List UInt8)
  | [] => if size = 0 then some [] else none
  | '=' :: rest =>
    if 2 ≤ size && 4 ≤ size + pads + 1 then some []
    else base64From size bits (if 2 ≤ size then pads + 1 else pads) rest
  | c :: rest =>
    match base64Value? c with
    | none => base64From size bits pads rest
    | some v =>
      match size with
      | 0 => base64From 1 v 0 rest
      | 1 => (base64From 2 (v % 16) 0 rest).map (UInt8.ofNat (bits * 4 + v / 16) :: ·)
      | 2 => (base64From 3 (v % 4) 0 rest).map (UInt8.ofNat (bits * 16 + v / 4) :: ·)
      | _ => (base64From 0 0 0 rest).map (UInt8.ofNat (bits * 64 + v) :: ·)

/-- The octets of a text; none if it ends inside a group, or is not ASCII. -/
def base64? (cs : List Char) : Option (List UInt8) :=
  if cs.all fun c => c.toNat < 0x80 then base64From 0 0 0 cs else none

end IntegrationCompiler.Yaml
