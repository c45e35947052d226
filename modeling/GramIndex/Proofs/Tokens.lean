import GramIndex.Proofs.Readings
import GramIndex.Regex.Token

/-!
This module contains the parts of readings that the tokens of patterns are, and the symbols that
each kind of token is read from.
-/

namespace GramIndex

namespace Pattern

/--
The parts that readings are put together from.
-/
inductive Part where
  | atom (a : Atom)
  | mark (m : Mark)
  | bar
  | openGroup (head : Head)
  /-- The head of a group with flags of its own. -/
  | openFlagged (flags : List Char)
  | closeGroup
  | setFlags (flags : List Char)
  deriving DecidableEq, Repr

def Part.chars : Part → List Char
  | .atom a => a.chars
  | .mark m => m.chars
  | .bar => ['|']
  | .openGroup head => '(' :: head.mark
  | .openFlagged flags => '(' :: '?' :: flags ++ [':']
  | .closeGroup => [')']
  | .setFlags flags => '(' :: '?' :: flags ++ [')']

/--
The atom with the given characters.
-/
def Atom.ofChars : List Char → Atom
  | [c] => if c ∈ signs then .sign c else .char c
  | ['\\', c] => .escape c []
  | text => .bracket text

end Pattern

namespace Regex.Token

open Pattern

/--
The part that a token is, given the characters that it is read from.
-/
def part (cs : List Char) : Token → Part
  | .quantifier least _ isLazy => .mark ⟨if isLazy then cs.dropLast else cs, least, isLazy⟩
  | .bar => .bar
  | .openGroup (.capture none) => .openGroup .capture
  | .openGroup (.capture (some name)) => .openGroup (.named (cs[2]? = some 'P') name)
  | .openGroup (.plain _) =>
    match (cs.drop 2).dropLast with
    | [] => .openGroup .plain
    | flags => .openFlagged flags
  | .closeGroup => .closeGroup
  | .setFlags _ => .setFlags (cs.drop 2).dropLast
  | _ => .atom (.ofChars cs)

/--
A group head that leaves the flags as they are.
-/
def KeepsFlags : GroupHead → Prop
  | .capture _ => True
  | .plain change => change = ⟨[], []⟩

/--
A token that is an atom.
-/
inductive IsAtom : Token → Atom → Prop where
  | char {c : Char} (h : c ∉ special) : IsAtom (.char c) (.char c)
  | any : IsAtom .any (.sign '.')
  | start : IsAtom .start (.sign '^')
  | stop : IsAtom .stop (.sign '$')
  | escape {c : Char} {e : Escape} (h : Escape.ofChar? c = some e) :
    IsAtom (ofEscape e) (.escape c [])
  | bracket {set : CharSet} {depth : Nat} {text : List Char} (h : text.head? = some '[') :
    IsAtom (.bracket set depth) (.bracket text)

/--
A token and the part that it is.
-/
inductive IsPart : Token → Part → Prop where
  | atom {t : Token} {a : Atom} (h : IsAtom t a) : IsPart t (.atom a)
  | mark {least : Nat} {most : Option Nat} {isLazy : Bool} {sign : List Char}
    (h : IsMark least sign) : IsPart (.quantifier least most isLazy) (.mark ⟨sign, least, isLazy⟩)
  | bar : IsPart .bar .bar
  | openGroup {h : GroupHead} {head : Head} (hfits : head.Fits) (hkeeps : KeepsFlags h) :
    IsPart (.openGroup h) (.openGroup head)
  | openFlagged {change : FlagChange} {flags : List Char} (h : AreFlags flags) :
    IsPart (.openGroup (.plain change)) (.openFlagged flags)
  | closeGroup : IsPart .closeGroup .closeGroup
  | setFlags {change : FlagChange} {flags : List Char} (h : AreFlags flags) :
    IsPart (.setFlags change) (.setFlags flags)

/--
A token is the part that its own symbols, and those behind them, make it.
-/
structure Looks (t : Token) (own rest : List Symbol) : Prop where
  chars : (t.part (own.flatMap Symbol.chars)).chars = own.flatMap Symbol.chars
  part : IsPart t (t.part (own.flatMap Symbol.chars))
  apart : ∀ least most, t = .quantifier least most false → rest.head? ≠ some (.plain '?')

variable {symbols rest own : List Symbol} {t : Token}

def plains (cs : List Char) : List Symbol :=
  cs.map .plain

theorem flatMap_plains (cs : List Char) : (plains cs).flatMap Symbol.chars = cs := by
  simp [plains, List.flatMap_map, Symbol.chars]

section Bounds

theorem exists_blanks (symbols : List Symbol) :
    ∃ cs, symbols = plains cs ++ symbols.dropWhile isBlankSymbol ∧
      ∀ c ∈ cs, Unicode.isBlank c = true := by
  induction symbols with
  | nil => exact ⟨[], rfl, by simp⟩
  | cons s symbols ih =>
    rw [List.dropWhile_cons]
    split
    · next hs =>
      obtain ⟨cs, heq, hcs⟩ := ih
      cases s with
      | escaped c => simp [isBlankSymbol] at hs
      | plain c =>
        refine ⟨c :: cs, ?_, ?_⟩
        · rw [plains, List.map_cons, List.cons_append, ← plains, ← heq]
        · exact List.forall_mem_cons.2 ⟨hs, hcs⟩
    · exact ⟨[], rfl, by simp⟩

theorem exists_digits (symbols : List Symbol) :
    ∃ cs : List Char,
      symbols = plains cs ++ symbols.dropWhile (fun s => (digit? s).isSome) ∧
      (∀ c ∈ cs, c.isDigit = true) ∧
      symbols.takeWhile (fun s => (digit? s).isSome) = plains cs ∧
      (plains cs).filterMap digit? = cs.map fun c => c.toNat - '0'.toNat := by
  induction symbols with
  | nil => exact ⟨[], rfl, by simp, rfl, rfl⟩
  | cons s symbols ih =>
    rw [List.dropWhile_cons, List.takeWhile_cons]
    split
    · next hs =>
      obtain ⟨cs, heq, hcs, htake, hvalues⟩ := ih
      cases s with
      | escaped c => simp [digit?] at hs
      | plain c =>
        have hc : c.isDigit = true := by
          simp only [digit?] at hs
          split at hs
          · assumption
          · simp at hs
        refine ⟨c :: cs, ?_, List.forall_mem_cons.2 ⟨hc, hcs⟩, ?_, ?_⟩
        · rw [plains, List.map_cons, List.cons_append, ← plains, ← heq]
        · rw [htake]
          rfl
        · have hplains : plains (c :: cs) = .plain c :: plains cs := rfl
          rw [hplains, List.filterMap_cons_some (b := c.toNat - '0'.toNat), hvalues, List.map_cons]
          simp only [digit?, if_pos hc]
    · exact ⟨[], rfl, by simp, rfl, rfl⟩

theorem exists_bound {n : Nat} (h : bound? symbols = some (n, rest)) :
    ∃ cs, symbols = plains cs ++ rest ∧ IsBound n cs := by
  obtain ⟨before, hbefore, hblank⟩ := exists_blanks symbols
  obtain ⟨digits, hdigits, hdigit, htake, hvalues⟩ :=
    exists_digits (symbols.dropWhile isBlankSymbol)
  obtain ⟨behind, hbehind, hblank'⟩ := exists_blanks
    ((symbols.dropWhile isBlankSymbol).dropWhile fun s => (digit? s).isSome)
  unfold bound? at h
  simp only at h
  split at h
  · simp at h
  · next hnot =>
    rw [htake, hvalues] at h
    simp only [Option.some.injEq, Prod.mk.injEq] at h
    obtain ⟨rfl, rfl⟩ := h
    have hne : digits ≠ [] := by
      rintro rfl
      rw [htake] at hnot
      simp [plains] at hnot
    refine ⟨before ++ digits ++ behind, ?_, before, behind, ⟨digits, hne, hdigit⟩, rfl, ?_, ?_⟩
    · simp only [plains, List.map_append, List.append_assoc] at *
      rw [← hbehind, ← hdigits, ← hbefore]
    · rw [List.foldl_map]
      rfl
    · exact List.forall_mem_append.2 ⟨hblank, hblank'⟩

theorem exists_bounds {least : Nat} {most : Option Nat}
    (h : bounds? symbols = some ((least, most), rest)) :
    ∃ cs, symbols = plains cs ++ .plain '\x7d' :: rest ∧ IsBounds least cs := by
  unfold bounds? at h
  split at h
  · simp at h
  · next hbound =>
    cases h
    obtain ⟨cs, heq, hcs⟩ := exists_bound hbound
    exact ⟨cs, heq, .exactly hcs⟩
  · next hbound =>
    cases h
    obtain ⟨cs, heq, hcs⟩ := exists_bound hbound
    refine ⟨cs ++ [','], ?_, .atLeast hcs⟩
    rw [heq]
    simp [plains]
  · next hbound =>
    split at h
    · next hmost =>
      split at h
      · cases h
        obtain ⟨cs, heq, hcs⟩ := exists_bound hbound
        obtain ⟨ds, heq', hds⟩ := exists_bound hmost
        refine ⟨cs ++ ',' :: ds, ?_, .between hcs hds⟩
        rw [heq, heq']
        simp [plains]
      · simp at h
    · simp at h
  · simp at h

end Bounds

section Heads

theorem isName_of_isNameChar {name : List Char} (h : ∀ c ∈ name, isNameChar c = true) :
    IsName name := by
  intro c hc hlt
  have hascii : ∀ n < 128, isNameChar (Char.ofNat n) = true →
      (Char.ofNat n).isAlphanum = true ∨ Char.ofNat n ∈ ['_', '.', '[', ']'] := by decide +kernel
  have hchar := hascii c.toNat hlt
  rw [Char.ofNat_toNat] at hchar
  exact hchar (h c hc)

theorem exists_nameRest {name : List Char} (h : nameRest? symbols = some (name, rest)) :
    symbols = plains name ++ .plain '>' :: rest ∧ ∀ c ∈ name, isNameChar c = true := by
  fun_induction nameRest? symbols generalizing name with
  | case1 =>
    cases h
    exact ⟨rfl, by simp⟩
  | case2 c symbols hgt hc name' rest' hrest ih =>
    cases h
    obtain ⟨heq, hname⟩ := ih hrest
    refine ⟨?_, List.forall_mem_cons.2 ⟨hc, hname⟩⟩
    rw [heq]
    rfl
  | case3 | case4 | case5 => simp at h

theorem isNameChar_of_isNameStart {c : Char} (h : isNameStart c = true) : isNameChar c = true := by
  simp only [isNameStart, Bool.or_eq_true] at h
  simp only [isNameChar, Bool.or_eq_true]
  cases h with
  | inl h => simp [h]
  | inr h => simp [h]

theorem exists_name {name : List Char} (h : name? symbols = some (name, rest)) :
    symbols = plains name ++ .plain '>' :: rest ∧ IsName name := by
  unfold name? at h
  split at h
  · next c symbols =>
    split at h
    · next hc =>
      split at h
      · next hrest =>
        cases h
        obtain ⟨heq, hname⟩ := exists_nameRest hrest
        refine ⟨?_, isName_of_isNameChar
          (List.forall_mem_cons.2 ⟨isNameChar_of_isNameStart hc, hname⟩)⟩
        rw [heq]
        rfl
      · simp at h
    · simp at h
  · simp at h

theorem mem_flagChars_of_ofChar? {c : Char} {f : Flag} (h : Flag.ofChar? c = some f) :
    c ∈ flagChars := by
  unfold Flag.ofChar? at h
  split at h
  · simp [flagChars]
  · simp [flagChars]
  · simp [flagChars]
  · simp [flagChars]
  · simp at h

/--
The symbols of flags up to the colon or the parenthesis that ends them.
-/
def IsFlags (symbols rest : List Symbol) (heads : Bool) (cs : List Char) : Prop :=
  symbols = plains cs ++ .plain (if heads then ':' else ')') :: rest ∧ ∀ c ∈ cs, c ∈ flagChars

theorem IsFlags.cons {heads : Bool} {cs : List Char} {c : Char}
    (h : IsFlags symbols rest heads cs) (hc : c ∈ flagChars) :
    IsFlags (.plain c :: symbols) rest heads (c :: cs) := by
  refine ⟨?_, List.forall_mem_cons.2 ⟨hc, h.2⟩⟩
  rw [h.1]
  rfl

theorem exists_flags {change change' : FlagChange} {negated heads : Bool}
    (h : flags? change negated symbols = some (change', heads, rest)) :
    ∃ cs, IsFlags symbols rest heads cs ∧ (cs = [] → change' = change) ∧
      (heads = false → negated = false → change = ⟨[], []⟩ → cs ≠ []) := by
  fun_induction flags? change negated symbols with
  | case2 change negated symbols hsome =>
    cases h
    exact ⟨[], ⟨rfl, by simp⟩, fun _ => rfl, by simp⟩
  | case4 change negated symbols hsome =>
    cases h
    refine ⟨[], ⟨rfl, by simp⟩, fun _ => rfl, ?_⟩
    intro _ hnegated hchange
    rw [hnegated, hchange] at hsome
    simp at hsome
  | case6 change negated symbols hnegated ih =>
    obtain ⟨cs, hcs, _⟩ := ih h
    exact ⟨'-' :: cs, hcs.cons (by simp [flagChars]), by simp, by simp⟩
  | case9 change c symbols _ _ _ f hf _ ih
  | case10 change negated c symbols _ _ _ f hf _ _ ih =>
    obtain ⟨cs, hcs, _⟩ := ih h
    exact ⟨c :: cs, hcs.cons (mem_flagChars_of_ofChar? hf), by simp, by simp⟩
  | case1 | case3 | case5 | case7 | case8 | case11 => simp at h

theorem looks_named (withLetter : Bool) {name : List Char} (h : IsName name) :
    Looks (.openGroup (.capture (some name)))
      (plains ('(' :: (Head.named withLetter name).mark)) rest := by
  have hpart : (Token.openGroup (.capture (some name))).part
      ('(' :: (Head.named withLetter name).mark) = .openGroup (.named withLetter name) := by
    cases withLetter <;> simp [Token.part, Head.mark]
  refine ⟨?_, ?_, by simp⟩
  · rw [flatMap_plains, hpart]
    rfl
  · rw [flatMap_plains, hpart]
    exact .openGroup h trivial

theorem looks_flagged {change : FlagChange} {flags : List Char} (h : ∀ c ∈ flags, c ∈ flagChars)
    (hnone : flags = [] → change = ⟨[], []⟩) :
    Looks (.openGroup (.plain change)) (plains ('(' :: '?' :: flags ++ [':'])) rest := by
  have hdrop : (('(' :: '?' :: flags ++ [':']).drop 2).dropLast = flags := by simp
  refine ⟨?_, ?_, by simp⟩
  · rw [flatMap_plains, Token.part, hdrop]
    cases flags with
    | nil => rfl
    | cons f flags => rfl
  · rw [flatMap_plains, Token.part, hdrop]
    cases flags with
    | nil => exact .openGroup trivial (hnone rfl)
    | cons f flags => exact .openFlagged ⟨by simp, h⟩

theorem looks_setFlags {change : FlagChange} {flags : List Char} (h : AreFlags flags) :
    Looks (.setFlags change) (plains ('(' :: '?' :: flags ++ [')'])) rest := by
  have hdrop : (('(' :: '?' :: flags ++ [')']).drop 2).dropLast = flags := by simp
  refine ⟨?_, ?_, by simp⟩
  · rw [flatMap_plains, Token.part, hdrop]
    rfl
  · rw [flatMap_plains, Token.part, hdrop]
    exact .setFlags h

theorem looks_group (h : group? symbols = some (t, rest)) :
    ∃ own, .plain '(' :: symbols = own ++ rest ∧ Looks t own rest := by
  have hnamed (withLetter : Bool) {symbols : List Symbol} (h : named? symbols = some (t, rest)) :
      ∃ own, plains (if withLetter then ['(', '?', 'P', '<'] else ['(', '?', '<']) ++ symbols =
        own ++ rest ∧ Looks t own rest := by
    unfold named? at h
    split at h
    · next hname =>
      cases h
      obtain ⟨heq, hname⟩ := exists_name hname
      refine ⟨_, ?_, looks_named withLetter hname⟩
      rw [heq]
      cases withLetter <;> simp [plains, Head.mark]
    · simp at h
  unfold group? at h
  split at h
  · exact hnamed true h
  · exact hnamed false h
  · split at h
    · next hflags =>
      cases h
      obtain ⟨cs, ⟨heq, hcs⟩, hnone, _⟩ := exists_flags hflags
      refine ⟨_, ?_, looks_flagged hcs hnone⟩
      rw [heq]
      simp [plains]
    · next hflags =>
      cases h
      obtain ⟨cs, ⟨heq, hcs⟩, _, hsome⟩ := exists_flags hflags
      refine ⟨_, ?_, looks_setFlags ⟨hsome rfl rfl rfl, hcs⟩⟩
      rw [heq]
      simp [plains]
    · simp at h
  · cases h
    exact ⟨[.plain '('], rfl, rfl, .openGroup trivial trivial, by simp⟩

end Heads

theorem looks_quantify {least : Nat} {most : Option Nat} {sign : List Char}
    (hmark : IsMark least sign) (h : quantify least most symbols = (t, rest)) :
    ∃ own, plains sign ++ symbols = own ++ rest ∧ Looks t own rest := by
  unfold quantify at h
  split at h
  · next symbols =>
    cases h
    have hpart : (Token.quantifier least most true).part (sign ++ ['?']) =
        .mark ⟨sign, least, true⟩ := by
      simp [Token.part]
    refine ⟨plains (sign ++ ['?']), by simp [plains], ?_, ?_, by simp⟩
    · rw [flatMap_plains, hpart]
      rfl
    · rw [flatMap_plains, hpart]
      exact .mark hmark
  · next hrest =>
    cases h
    refine ⟨plains sign, rfl, ?_, ?_, ?_⟩
    · rw [flatMap_plains]
      simp [Token.part, Part.chars, Mark.chars]
    · rw [flatMap_plains]
      exact .mark hmark
    · intro _ _ _ hhead
      obtain ⟨others, rfl⟩ := List.head?_eq_some_iff.1 hhead
      exact hrest others rfl

theorem looks_sign {c : Char} (ht : IsAtom t (.sign c))
    (hpart : t.part [c] = .atom (.ofChars [c])) (hc : c ∈ signs) : Looks t [.plain c] rest := by
  have hsign : Atom.ofChars [c] = .sign c := by
    simp [Atom.ofChars, hc]
  rw [hsign] at hpart
  have hchars : [Symbol.plain c].flatMap Symbol.chars = [c] := rfl
  refine ⟨?_, ?_, ?_⟩
  · rw [hchars, hpart]
    rfl
  · rw [hchars, hpart]
    exact .atom ht
  · rintro least most rfl
    cases hpart

theorem looks_char {c : Char} (h : c ∉ special) : Looks (.char c) [.plain c] rest := by
  have hsign : c ∉ signs := fun hmem => h (by simp [special, hmem])
  have hpart : (Token.char c).part [c] = .atom (.char c) := by
    simp [Token.part, Atom.ofChars, hsign]
  have hchars : [Symbol.plain c].flatMap Symbol.chars = [c] := rfl
  refine ⟨?_, ?_, by simp⟩
  · rw [hchars, hpart]
    rfl
  · rw [hchars, hpart]
    exact .atom (.char h)

theorem looks_escape {c : Char} {e : Escape} (h : Escape.ofChar? c = some e) :
    Looks (ofEscape e) [.escaped c] rest := by
  have hpart : (ofEscape e).part ['\\', c] = .atom (.escape c []) := by
    cases e <;> rfl
  have hchars : [Symbol.escaped c].flatMap Symbol.chars = ['\\', c] := rfl
  refine ⟨?_, ?_, ?_⟩
  · rw [hchars, hpart]
    rfl
  · rw [hchars, hpart]
    exact .atom (.escape h)
  · intro least most heq
    rw [heq] at hpart
    cases hpart

theorem looks_bracket {members : List Symbol} {set : CharSet} {depth : Nat}
    (hmembers : members ≠ []) : Looks (.bracket set depth) (.plain '[' :: members) rest := by
  have hpart : (Token.bracket set depth).part ((.plain '[' :: members).flatMap Symbol.chars) =
      .atom (.bracket ((.plain '[' :: members).flatMap Symbol.chars)) := by
    cases members with
    | nil => exact absurd rfl hmembers
    | cons s members => cases s <;> simp [Token.part, Atom.ofChars, Symbol.chars]
  refine ⟨?_, ?_, by simp⟩
  · rw [hpart]
    rfl
  · rw [hpart]
    exact .atom (.bracket rfl)

theorem looks_first (h : first? symbols = some (t, rest)) (hslash : .plain '\\' ∉ symbols) :
    ∃ own, symbols = own ++ rest ∧ Looks t own rest := by
  unfold first? at h
  split at h
  · simp at h
  · next c symbols =>
    split at h
    · next e he =>
      cases h
      exact ⟨[.escaped c], rfl, looks_escape he⟩
    · simp at h
  · next c symbols =>
    simp only [List.mem_cons, not_or] at hslash
    split at h
    · cases h
      exact ⟨_, rfl, looks_sign .any rfl (by simp [signs])⟩
    · cases h
      exact ⟨_, rfl, looks_sign .start rfl (by simp [signs])⟩
    · cases h
      exact ⟨_, rfl, looks_sign .stop rfl (by simp [signs])⟩
    · cases h
      exact ⟨[.plain '|'], rfl, rfl, .bar, by simp⟩
    · cases h
      exact ⟨[.plain ')'], rfl, rfl, .closeGroup, by simp⟩
    · exact looks_group h
    · split at h
      · next hread =>
        cases h
        obtain ⟨opens, own, heq, hclass⟩ := Bracket.exists_isClass_of_read? hread hslash.2
        refine ⟨.plain '[' :: own, by rw [heq, List.cons_append], looks_bracket ?_⟩
        cases hclass
        simp
      · simp at h
    · exact looks_quantify .any (Option.some.inj h)
    · exact looks_quantify .some (Option.some.inj h)
    · exact looks_quantify .optional (Option.some.inj h)
    · split at h
      · next hbounds =>
        obtain ⟨cs, heq, hcs⟩ := exists_bounds hbounds
        have hquantify := looks_quantify (.counted hcs) (Option.some.inj h)
        rw [heq]
        simpa [plains] using hquantify
      · simp at h
    -- What is none of these stands for itself. A bare backslash is no symbol.
    · next hany hstart hstop hbar hclose hopen hbracket hstar hplus hquestion hbrace =>
      cases h
      refine ⟨_, rfl, looks_char ?_⟩
      have hescape : c ≠ '\\' := by
        intro heq
        rw [heq] at hslash
        exact hslash.1 rfl
      simp only [special, signs, scanned, List.cons_append, List.nil_append, List.mem_cons,
        List.not_mem_nil, or_false, not_or]
      exact ⟨hany, hstart, hstop, hopen, hclose, hbar, hescape, hbracket, hstar, hplus, hquestion,
        hbrace⟩

end Regex.Token

end GramIndex
