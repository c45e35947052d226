import GramIndex.Matcher
import GramIndex.Pattern.Compiler
import GramIndex.Proofs.Bytes

/-!
This module contains what a compiler makes of the bytes of characters, where backslashes may stand
before any of them: dropping the backslashes leaves the bytes of the characters that they escape.
-/

namespace GramIndex

namespace Pattern

/--
Drop the backslashes that escape another character.
-/
def dropEscapes : List Char → List Char
  | [] => []
  | [c] => [c]
  | c :: next :: rest =>
    if c = '\\' then next :: dropEscapes rest else c :: dropEscapes (next :: rest)

theorem dropEscapes_ne_nil {cs : List Char} (h : cs ≠ []) : dropEscapes cs ≠ [] := by
  fun_cases dropEscapes cs with
  | case1 => exact absurd rfl h
  | case2 | case3 | case4 => simp

end Pattern

namespace Compiler

open Pattern (byte dropEscapes)

variable {c : Compiler} {a more : Gram} {b : UInt8} {d : Char}

theorem isPlainLiteral_cons (hb : b ≠ byte '\\') :
    c.isPlainLiteral (b :: more) = (!c.metachars.contains b && c.isPlainLiteral more) := by
  cases more with
  | nil => simp [isPlainLiteral, hb]
  | cons next rest => rw [isPlainLiteral, if_neg hb]

theorem unescape_cons (hb : b ≠ byte '\\') : unescape (b :: more) = b :: unescape more := by
  cases more with
  | nil => rfl
  | cons next rest => rw [unescape, if_neg hb]

theorem isPlainLiteral_append (ha : ∀ b ∈ a, b ≠ byte '\\') :
    c.isPlainLiteral (a ++ more) =
      (a.all (fun b => !c.metachars.contains b) && c.isPlainLiteral more) := by
  induction a with
  | nil => rfl
  | cons b a ih =>
    rw [List.cons_append, isPlainLiteral_cons (ha b List.mem_cons_self),
      ih fun d hd => ha d (List.mem_cons_of_mem b hd), List.all_cons, Bool.and_assoc]

theorem unescape_append (ha : ∀ b ∈ a, b ≠ byte '\\') :
    unescape (a ++ more) = a ++ unescape more := by
  induction a with
  | nil => rfl
  | cons b a ih =>
    rw [List.cons_append, unescape_cons (ha b List.mem_cons_self),
      ih fun d hd => ha d (List.mem_cons_of_mem b hd), List.cons_append]

/--
A character has the byte of a metacharacter only if it is one.
-/
theorem mem_defaultMetachars_iff (hb : b ∈ String.utf8EncodeChar d) :
    b ∈ defaultMetachars ↔ isMetacharacter d = true ∧ d ≠ '\\' := by
  have hslash : '\\' ∉ "\x7b[^$.*+?|()]\x7d".toList := by decide
  have hlt : ∀ e ∈ "\x7b[^$.*+?|()]\x7d".toList ++ ['\\'], (e.toNat < 128 : Bool) = true :=
    List.all_eq_true.1 (by decide)
  simp only [decide_eq_true_eq] at hlt
  have hmeta : isMetacharacter d = ("\x7b[^$.*+?|()]\x7d".toList ++ ['\\']).contains d := rfl
  rw [hmeta, List.contains_eq_mem, decide_eq_true_eq]
  constructor
  · intro h
    obtain ⟨e, he, rfl⟩ := List.mem_map.1 h
    have he' := List.mem_append_left ['\\'] he
    rw [mem_utf8EncodeChar_iff (hlt e he')] at hb
    rw [hb]
    exact ⟨he', fun heq => hslash (heq ▸ he)⟩
  · rintro ⟨hmem, hne⟩
    rw [utf8EncodeChar_of_lt (hlt d hmem), List.mem_singleton] at hb
    rw [List.mem_append, List.mem_singleton] at hmem
    rw [hb]
    exact List.mem_map.2 ⟨d, hmem.resolve_right hne, rfl⟩

theorem mem_alphanumerics_iff (hb : b ∈ String.utf8EncodeChar d) :
    b ∈ alphanumerics ↔ d.isAlphanum = true := by
  have hbounds : (byte '0').toNat = 48 ∧ (byte '9').toNat = 57 ∧ (byte 'a').toNat = 97 ∧
      (byte 'z').toNat = 122 ∧ (byte 'A').toNat = 65 ∧ (byte 'Z').toNat = 90 := by decide
  have hbounds' : '0'.val.toNat = 48 ∧ '9'.val.toNat = 57 ∧ 'a'.val.toNat = 97 ∧
      'z'.val.toNat = 122 ∧ 'A'.val.toNat = 65 ∧ 'Z'.val.toNat = 90 := by decide
  have hval : d.toNat = d.val.toNat := rfl
  have hmem : b ∈ (List.range 128).map UInt8.ofNat ↔ b.toNat < 128 := by
    simp only [List.mem_map, List.mem_range]
    constructor
    · rintro ⟨n, hn, rfl⟩
      rw [UInt8.toNat_ofNat']
      omega
    · intro h
      exact ⟨b.toNat, h, UInt8.ofNat_toNat⟩
  have halphanum : d.isAlphanum = (decide ('A'.val ≤ d.val ∧ d.val ≤ 'Z'.val) ||
      'a'.val ≤ d.val && d.val ≤ 'z'.val || '0'.val ≤ d.val && d.val ≤ '9'.val) := rfl
  simp only [alphanumerics, List.mem_filter, hmem, Pattern.isDigit, Pattern.isLetter, halphanum,
    Bool.or_eq_true, Bool.and_eq_true, decide_eq_true_eq, UInt8.le_iff_toNat_le,
    UInt32.le_iff_toNat_le]
  by_cases hd : d.toNat < 128
  · rw [utf8EncodeChar_of_lt hd, List.mem_singleton] at hb
    rw [hb, toNat_byte hd]
    omega
  · have := le_of_mem_utf8EncodeChar (Nat.le_of_not_lt hd) hb
    omega

theorem ne_slash_of_mem_utf8EncodeChar (hd : d ≠ '\\') (hb : b ∈ String.utf8EncodeChar d) :
    b ≠ byte '\\' := by
  intro heq
  rw [heq, mem_utf8EncodeChar_iff (by decide)] at hb
  exact hd hb

/--
All bytes of a character stand for themselves after a backslash, also those after the first one.
-/
theorem unescape_slash (d : Char) (more : Gram) :
    unescape (byte '\\' :: (String.utf8EncodeChar d ++ more)) =
      String.utf8EncodeChar d ++ unescape more := by
  obtain ⟨b, tail, hbytes, htail⟩ := exists_utf8EncodeChar_cons d
  rw [hbytes, List.cons_append, unescape, if_pos rfl, List.cons_append]
  congr 1
  apply unescape_append
  intro e he
  exact ne_byte_of_le (by decide) (htail e he)

theorem unescape_utf8 (cs : List Char) : unescape (utf8 cs) = utf8 (dropEscapes cs) := by
  fun_induction dropEscapes cs with
  | case1 => rfl
  | case2 d =>
    by_cases hd : d = '\\'
    · rw [hd]
      rfl
    · rw [utf8_cons, unescape_append fun _ => ne_slash_of_mem_utf8EncodeChar hd]
      rfl
  | case3 next rest ih =>
    have hslash : String.utf8EncodeChar '\\' = [byte '\\'] := rfl
    rw [utf8_cons, utf8_cons, utf8_cons, hslash, List.singleton_append, unescape_slash, ih]
  | case4 d next rest hd ih =>
    rw [utf8_cons, unescape_append fun _ => ne_slash_of_mem_utf8EncodeChar hd, ih, utf8_cons d]

end Compiler

end GramIndex
