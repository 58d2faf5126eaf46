/-! Bytes written in base sixty-four. -/
namespace CheckedModels.Yaml

def sextet? (c : Char) : Option Nat :=
  if 'A' ≤ c && c ≤ 'Z' then some (c.toNat - 'A'.toNat)
  else if 'a' ≤ c && c ≤ 'z' then some (c.toNat - 'a'.toNat + 26)
  else if c.isDigit then some (c.toNat - '0'.toNat + 52)
  else if c == '+' then some 62
  else if c == '/' then some 63
  else none

/-- The bytes of a text. `place` counts the characters of the current group of four, `left` holds the
bits of the last one that no byte has, and `pads` counts equals signs. Padding ends the text, and
characters without a value are passed over. -/
def bytesFrom (place left pads : Nat) : List Char → Option (List Nat)
  | [] => if place = 0 then some [] else none
  | c :: rest =>
    if c == '=' then
      if 2 ≤ place then
        if 4 ≤ place + pads + 1 then some [] else bytesFrom place left (pads + 1) rest
      else bytesFrom place left pads rest
    else
      match sextet? c with
      | none => bytesFrom place left pads rest
      | some n =>
        match place with
        | 0 => bytesFrom 1 n 0 rest
        | 1 => (bytesFrom 2 (n % 16) 0 rest).map ((left * 4 + n / 16) :: ·)
        | 2 => (bytesFrom 3 (n % 4) 0 rest).map ((left * 16 + n / 4) :: ·)
        | _ => (bytesFrom 0 0 0 rest).map ((left * 64 + n) :: ·)

/-- Only ASCII text can be bytes. -/
def bytesOfText? (text : String) : Option (List Nat) :=
  if text.toList.all fun c => c.toNat < 0x80 then bytesFrom 0 0 0 text.toList else none

end CheckedModels.Yaml
