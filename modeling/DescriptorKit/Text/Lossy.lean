import DescriptorKit.Bytes

/-!
Reading bytes as text where they need not be well-formed. Each longest run of bytes that starts a
character and goes wrong becomes one replacement character.
-/
namespace DescriptorKit.Text

/-- A character of which some bytes have been read. -/
structure Partial where
  value : Nat
  /-- How many bytes are missing. -/
  missing : Nat
  /-- The bounds of the next byte. -/
  low : UInt8
  high : UInt8

/-- What a byte begins: a character of its own, or one with more bytes. -/
inductive Lead where
  | whole (c : Char)
  | more (p : Partial)
  | none

def replacement : Char := Char.ofNat 0xfffd

def lead (b : UInt8) : Lead :=
  let n := b.toNat
  if n < 0x80 then .whole (Char.ofNat n)
  else if n < 0xc2 then .none
  else if n < 0xe0 then .more ⟨n - 0xc0, 1, 0x80, 0xbf⟩
  else if n = 0xe0 then .more ⟨0, 2, 0xa0, 0xbf⟩
  else if n = 0xed then .more ⟨13, 2, 0x80, 0x9f⟩
  else if n < 0xf0 then .more ⟨n - 0xe0, 2, 0x80, 0xbf⟩
  else if n = 0xf0 then .more ⟨0, 3, 0x90, 0xbf⟩
  else if n < 0xf4 then .more ⟨n - 0xf0, 3, 0x80, 0xbf⟩
  else if n = 0xf4 then .more ⟨4, 3, 0x80, 0x8f⟩
  else .none

mutual

/-- The characters of bytes that start a new one. -/
def lossyChars : Bytes → List Char
  | [] => []
  | b :: rest =>
    match lead b with
    | .whole c => c :: lossyChars rest
    | .more p => lossyMore p rest
    | .none => replacement :: lossyChars rest

/-- The characters of bytes that go on with one. -/
def lossyMore (p : Partial) : Bytes → List Char
  | [] => [replacement]
  | b :: rest =>
    if p.low ≤ b ∧ b ≤ p.high then
      let value := p.value * 64 + (b.toNat - 0x80)
      if p.missing ≤ 1 then Char.ofNat value :: lossyChars rest
      else lossyMore ⟨value, p.missing - 1, 0x80, 0xbf⟩ rest
    else
      match lead b with
      | .whole c => replacement :: c :: lossyChars rest
      | .more q => replacement :: lossyMore q rest
      | .none => replacement :: replacement :: lossyChars rest

end

def lossy (b : Bytes) : String := String.ofList (lossyChars b)

end DescriptorKit.Text
