import GramIndex.Pattern.Scan

/-!
This module contains what the bytes of characters can be: an ASCII character is one byte, and no
byte of another character is that of an ASCII character.
-/

namespace GramIndex

open Pattern (byte)

variable {c d : Char} {b : UInt8}

theorem utf8EncodeChar_of_lt (h : c.toNat < 128) : String.utf8EncodeChar c = [byte c] := by
  have hval : c.val.toNat ≤ 0x7f := by
    have : c.toNat = c.val.toNat := rfl
    omega
  simp only [String.utf8EncodeChar, hval, if_true]
  rfl

theorem le_of_mem_utf8EncodeChar (h : 128 ≤ c.toNat) (hb : b ∈ String.utf8EncodeChar c) :
    128 ≤ b.toNat := by
  have hval : ¬ c.val.toNat ≤ 0x7f := by
    have : c.toNat = c.val.toNat := rfl
    omega
  simp only [String.utf8EncodeChar, hval, if_false] at hb
  -- In each of the longer forms, all bytes are a number with a mark from 128 on added.
  split at hb
  · simp only [List.mem_cons, List.not_mem_nil, or_false] at hb
    obtain rfl | rfl := hb
    all_goals
      simp only [UInt8.toNat_ofNat']
      omega
  · split at hb
    · simp only [List.mem_cons, List.not_mem_nil, or_false] at hb
      obtain rfl | rfl | rfl := hb
      all_goals
        simp only [UInt8.toNat_ofNat']
        omega
    · simp only [List.mem_cons, List.not_mem_nil, or_false] at hb
      obtain rfl | rfl | rfl | rfl := hb
      all_goals
        simp only [UInt8.toNat_ofNat']
        omega

theorem toNat_byte (h : d.toNat < 128) : (byte d).toNat = d.toNat := by
  have : d.toNat = d.val.toNat := rfl
  simp only [byte, Char.toUInt8, UInt32.toNat_toUInt8]
  omega

theorem byte_inj (hc : c.toNat < 128) (hd : d.toNat < 128) (h : byte c = byte d) : c = d := by
  have := congrArg UInt8.toNat h
  rw [toNat_byte hc, toNat_byte hd] at this
  exact Char.toNat_inj.1 this

theorem mem_utf8EncodeChar_iff (hd : d.toNat < 128) :
    byte d ∈ String.utf8EncodeChar c ↔ c = d := by
  constructor
  · intro h
    by_cases hc : c.toNat < 128
    · rw [utf8EncodeChar_of_lt hc, List.mem_singleton] at h
      exact (byte_inj hd hc h).symm
    · have := le_of_mem_utf8EncodeChar (Nat.le_of_not_lt hc) h
      rw [toNat_byte hd] at this
      omega
  · intro h
    rw [h, utf8EncodeChar_of_lt hd]
    exact List.mem_singleton_self _

theorem mem_utf8_iff {cs : List Char} (hd : d.toNat < 128) : byte d ∈ utf8 cs ↔ d ∈ cs := by
  unfold utf8
  simp only [List.mem_flatMap, mem_utf8EncodeChar_iff hd, exists_eq_right]

theorem ne_byte_of_mem_utf8 {cs : List Char} (hd : d.toNat < 128) (h : d ∉ cs)
    (hb : b ∈ utf8 cs) : b ≠ byte d := by
  intro heq
  rw [heq, mem_utf8_iff hd] at hb
  exact h hb

@[simp]
theorem utf8_cons (c : Char) (cs : List Char) :
    utf8 (c :: cs) = String.utf8EncodeChar c ++ utf8 cs := rfl

theorem utf8_eq_nil_iff {cs : List Char} : utf8 cs = [] ↔ cs = [] := by
  cases cs with
  | nil => simp
  | cons c cs => simp [String.utf8EncodeChar_ne_nil]

theorem utf8_of_lt {cs : List Char} (h : ∀ c ∈ cs, c.toNat < 128) : utf8 cs = cs.map byte := by
  induction cs with
  | nil => rfl
  | cons c cs ih =>
    rw [utf8_cons, utf8EncodeChar_of_lt (h c List.mem_cons_self),
      ih fun d hd => h d (List.mem_cons_of_mem c hd)]
    rfl

theorem eq_of_head? (hd : d.toNat < 128) {tail : Gram}
    (h : (String.utf8EncodeChar c ++ tail).head? = some (byte d)) : c = d := by
  rw [List.head?_append] at h
  cases hbytes : (String.utf8EncodeChar c).head? with
  | none =>
    rw [List.head?_eq_none_iff] at hbytes
    exact absurd hbytes String.utf8EncodeChar_ne_nil
  | some b =>
    rw [hbytes, Option.some_or] at h
    rw [h] at hbytes
    exact (mem_utf8EncodeChar_iff hd).1 (List.mem_of_head? hbytes)

/--
No byte of a character after its first one is an ASCII byte.
-/
theorem exists_utf8EncodeChar_cons (c : Char) :
    ∃ b tail, String.utf8EncodeChar c = b :: tail ∧ ∀ e ∈ tail, 128 ≤ e.toNat := by
  cases hbytes : String.utf8EncodeChar c with
  | nil => exact absurd hbytes String.utf8EncodeChar_ne_nil
  | cons b tail =>
    refine ⟨b, tail, rfl, ?_⟩
    intro e he
    by_cases hc : c.toNat < 128
    · rw [utf8EncodeChar_of_lt hc] at hbytes
      cases hbytes
      simp at he
    · exact le_of_mem_utf8EncodeChar (Nat.le_of_not_lt hc) (hbytes ▸ List.mem_cons_of_mem b he)

theorem ne_byte_of_le (hd : d.toNat < 128) (hb : 128 ≤ b.toNat) : b ≠ byte d := by
  intro heq
  rw [heq, toNat_byte hd] at hb
  omega

/--
An ASCII byte stands between whole characters.
-/
theorem exists_split_utf8 {cs : List Char} {before rest : Gram} (hb : b.toNat < 128)
    (h : utf8 cs = before ++ b :: rest) :
    ∃ ds d es, cs = ds ++ d :: es ∧ utf8 ds = before ∧ String.utf8EncodeChar d = [b] ∧
      utf8 es = rest := by
  induction cs generalizing before with
  | nil => simp at h
  | cons c cs ih =>
    rw [utf8_cons, List.append_eq_append_iff] at h
    obtain ⟨more, hbefore, hcs⟩ | ⟨more, hc, hmore⟩ := h
    · obtain ⟨ds, d, es, rfl, hds, hd, hes⟩ := ih hcs
      refine ⟨c :: ds, d, es, rfl, ?_, hd, hes⟩
      rw [utf8_cons, hds, hbefore]
    · cases more with
      | nil =>
        have hmore : utf8 cs = [] ++ b :: rest := hmore.symm
        obtain ⟨ds, d, es, rfl, hds, hd, hes⟩ := ih hmore
        refine ⟨c :: ds, d, es, rfl, ?_, hd, hes⟩
        rw [utf8_cons, hds, hc, List.append_nil, List.append_nil]
      | cons first more =>
        -- The byte is one of the character, which then is ASCII and has no other byte.
        rw [List.cons_append, List.cons.injEq] at hmore
        obtain ⟨rfl, rfl⟩ := hmore
        have hlt : c.toNat < 128 := by
          apply Decidable.byContradiction
          intro hge
          have hmem : b ∈ String.utf8EncodeChar c := by simp [hc]
          have := le_of_mem_utf8EncodeChar (Nat.le_of_not_lt hge) hmem
          omega
        rw [utf8EncodeChar_of_lt hlt, List.singleton_eq_append_iff] at hc
        simp only [List.cons.injEq, reduceCtorEq, and_false, or_false] at hc
        obtain ⟨rfl, rfl, rfl⟩ := hc
        exact ⟨[], c, cs, rfl, rfl, utf8EncodeChar_of_lt hlt, rfl⟩

theorem utf8_infix {cs ds : List Char} (h : cs <:+: ds) : utf8 cs <:+: utf8 ds := by
  obtain ⟨before, behind, heq⟩ := h
  rw [← heq, utf8_append, utf8_append]
  exact ⟨_, _, rfl⟩

/--
The bytes of a character tell where it ends.
-/
theorem eq_of_utf8EncodeChar_append {xs ys : Gram}
    (h : String.utf8EncodeChar c ++ xs = String.utf8EncodeChar d ++ ys) : c = d ∧ xs = ys := by
  have hdecode (e : Char) (zs : Gram) :
      (String.utf8EncodeChar e ++ zs).toByteArray.utf8DecodeChar? 0 = some e := by
    rw [List.toByteArray_append]
    exact ByteArray.utf8DecodeChar?_utf8EncodeChar_append
  have hc := hdecode c xs
  rw [h, hdecode d ys, Option.some.injEq] at hc
  rw [hc] at h
  exact ⟨hc.symm, List.append_cancel_left h⟩

/--
Only the first byte of a character can be the first byte of another one.
-/
theorem eq_nil_of_utf8EncodeChar_eq {before rest xs ys : Gram}
    (hd : String.utf8EncodeChar d = before ++ b :: rest)
    (hc : String.utf8EncodeChar c ++ xs = b :: ys) : before = [] := by
  have hfirst : b.IsUTF8FirstByte := by
    have hhead := UInt8.isUTF8FirstByte_getElem_zero_utf8EncodeChar (c := c)
    cases hbytes : String.utf8EncodeChar c with
    | nil => exact absurd hbytes String.utf8EncodeChar_ne_nil
    | cons e tail =>
      simp only [hbytes, List.cons_append, List.cons.injEq] at hc hhead
      rw [← hc.1]
      exact hhead
  have hlength : before.length < (String.utf8EncodeChar d).length := by simp [hd]
  have hindex := @UInt8.isUTF8FirstByte_getElem_utf8EncodeChar d before.length hlength
  simp only [hd, List.getElem_append_right (Nat.le_refl _), Nat.sub_self, List.getElem_cons_zero]
    at hindex
  exact List.length_eq_zero_iff.1 (hindex.1 hfirst)

theorem prefix_of_utf8 {cs ds : List Char} (h : utf8 cs <+: utf8 ds) : cs <+: ds := by
  induction cs generalizing ds with
  | nil => exact List.nil_prefix
  | cons c cs ih =>
    obtain ⟨rest, hrest⟩ := h
    rw [utf8_cons, List.append_assoc] at hrest
    cases ds with
    | nil =>
      rw [utf8_nil, List.append_eq_nil_iff] at hrest
      exact absurd hrest.1 String.utf8EncodeChar_ne_nil
    | cons d ds =>
      rw [utf8_cons] at hrest
      obtain ⟨hcd, htail⟩ := eq_of_utf8EncodeChar_append hrest
      exact List.cons_prefix_cons.2 ⟨hcd, ih ⟨rest, htail⟩⟩

/--
The bytes of characters occur only where the characters do. The first of them is the first byte of a
character, so they start between two characters.
-/
theorem utf8_infix_iff {cs ds : List Char} : utf8 cs <:+: utf8 ds ↔ cs <:+: ds := by
  constructor
  · intro h
    cases cs with
    | nil => exact List.nil_infix
    | cons c cs =>
      obtain ⟨before, behind, heq⟩ := h
      induction ds generalizing before with
      | nil =>
        simp only [utf8_nil, List.append_eq_nil_iff, utf8_cons] at heq
        exact absurd heq.1.2.1 String.utf8EncodeChar_ne_nil
      | cons d ds ih =>
        rw [List.append_assoc] at heq
        cases before with
        | nil => exact (prefix_of_utf8 ⟨behind, heq⟩).isInfix
        | cons b before =>
          rw [utf8_cons d, List.append_eq_append_iff] at heq
          obtain ⟨more, hd, hrest⟩ | ⟨more, hbefore, hds⟩ := heq
          · cases more with
            | nil =>
              apply List.infix_cons
              exact ih [] (by rw [← List.nil_append (utf8 ds), ← hrest]; simp)
            | cons first more =>
              rw [utf8_cons, List.append_assoc] at hrest
              cases eq_nil_of_utf8EncodeChar_eq hd hrest
          · apply List.infix_cons
            apply ih more
            rw [List.append_assoc, ← hds]
  · exact utf8_infix
end GramIndex
