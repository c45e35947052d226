import GramIndex.Gram

/-!
This module contains the decoding of bytes that need not be UTF-8: each part that is not is replaced
by one replacement character.
-/

namespace GramIndex.Text

/--
What stands for bytes that are not UTF-8.
-/
def replacement : Char := '\ufffd'

/--
The bytes that may follow the bytes of an unfinished character.
-/
structure Pending where
  /-- The bits of the character so far. -/
  bits : Nat
  /-- How many more bytes the character has, at least one. -/
  missing : Nat
  /-- The least and the greatest next byte. -/
  least : Nat
  greatest : Nat

/--
What the first byte of a character of several bytes leaves open. The bounds of the second byte
exclude surrogates, forms longer than needed, and what lies beyond the last code point.
-/
def lead? (b : Nat) : Option Pending :=
  if 0xC2 ≤ b && b ≤ 0xDF then
    some ⟨b - 0xC0, 1, 0x80, 0xBF⟩
  else if 0xE0 ≤ b && b ≤ 0xEF then
    some ⟨b - 0xE0, 2, if b = 0xE0 then 0xA0 else 0x80, if b = 0xED then 0x9F else 0xBF⟩
  else if 0xF0 ≤ b && b ≤ 0xF4 then
    some ⟨b - 0xF0, 3, if b = 0xF0 then 0x90 else 0x80, if b = 0xF4 then 0x8F else 0xBF⟩
  else
    none

/--
Read a byte that starts a character: the characters that are complete, and what is left open.
-/
def startChar (b : Nat) : List Char × Option Pending :=
  if b < 0x80 then
    ([.ofNat b], none)
  else
    match lead? b with
    | some p => ([], some p)
    | none => ([replacement], none)

/--
Read a byte after the bytes of an unfinished character. A byte that cannot follow ends the
unfinished character and starts another.
-/
def continueChar (p : Pending) (b : Nat) : List Char × Option Pending :=
  if p.least ≤ b && b ≤ p.greatest then
    let bits := p.bits * 64 + b % 64
    if p.missing ≤ 1 then
      ([.ofNat bits], none)
    else
      ([], some ⟨bits, p.missing - 1, 0x80, 0xBF⟩)
  else
    let (cs, next) := startChar b
    (replacement :: cs, next)

/--
The characters of a byte string. Each longest run of bytes that starts a character but does not
complete it gives one replacement character, and so does each other byte that starts none.
-/
def decode (bytes : Gram) : List Char :=
  go none bytes
where
  go : Option Pending → Gram → List Char
    | none, [] => []
    | some _, [] => [replacement]
    | pending, b :: rest =>
      let (cs, next) := match pending with
        | none => startChar b.toNat
        | some p => continueChar p b.toNat
      cs ++ go next rest

end GramIndex.Text
