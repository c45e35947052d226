/-!
This module contains grams: the byte strings that keys, literals and records are made of, with the
bytes of a text, occurrence of one gram in another, and the windows of a record.
-/

namespace GramIndex

/--
A byte string. Grams are cut at any byte, so a gram need not be the bytes of a text.
-/
abbrev Gram := List UInt8

/--
The UTF-8 bytes of a sequence of characters.
-/
def utf8 (cs : List Char) : Gram :=
  cs.flatMap String.utf8EncodeChar

def textBytes (s : String) : Gram :=
  utf8 s.toList

@[simp]
theorem utf8_nil : utf8 [] = [] := rfl

@[simp]
theorem utf8_append (cs ds : List Char) : utf8 (cs ++ ds) = utf8 cs ++ utf8 ds := by
  simp [utf8]

namespace Gram

/--
Whether `gram` is a contiguous part of the given bytes.
-/
def occursIn (gram : Gram) : Gram → Bool
  | [] => gram.isEmpty
  | b :: rest => gram.isPrefixOf (b :: rest) || gram.occursIn rest

theorem occursIn_iff {gram bytes : Gram} : gram.occursIn bytes = true ↔ gram <:+: bytes := by
  induction bytes with
  | nil => simp [occursIn]
  | cons b rest ih => simp [occursIn, ih, List.infix_cons_iff]

/--
The contiguous parts of length `k`, from left to right. A window starts at every byte that has `k`
bytes from itself on.
-/
def windows (k : Nat) : Gram → List Gram
  | [] => []
  | b :: rest =>
    let window := (b :: rest).take k
    if window.length = k then window :: windows k rest else []

end Gram

end GramIndex
