import GramIndex.Proofs.Grammar
import GramIndex.Proofs.Levels
import GramIndex.Proofs.Readings

/-!
This module contains the patterns without structure: characters one after the other, and between
them conditions on words, which escaped angle brackets ask for. Where such a pattern is found is
told by its characters and by what stands around them.
-/

namespace GramIndex.Regex

open Pattern (literalChar isAngle)

namespace Symbol

/--
Whether a symbol is neither a metacharacter nor the escape of a letter or a digit.
-/
def isBare : Symbol → Bool
  | .plain c => !isMetacharacter c
  | .escaped c => !c.isAlphanum

/--
The condition that an escaped angle bracket asks for.
-/
def condition? : Symbol → Option Look
  | .escaped '<' => some .wordStart
  | .escaped '>' => some .wordEnd
  | _ => none

def meaning (s : Symbol) : Regex :=
  match s.condition? with
  | some condition => .look condition
  | none => single (literalChar s)

def token? : Symbol → Option Token
  | .plain c => some (.char c)
  | .escaped c => (Escape.ofChar? c).map Token.ofEscape

variable {s : Symbol} {t : Token}

theorem first?_bare (h : s.isBare = true) (rest : List Symbol) :
    Token.first? (s :: rest) = s.token?.map (·, rest) := by
  cases s with
  | plain c =>
    simp only [isBare, Bool.not_eq_true'] at h
    unfold Token.first?
    simp only
    split
    all_goals try exact absurd h (by decide)
    rfl
  | escaped c =>
    unfold Token.first? token?
    simp only
    cases Escape.ofChar? c <;> rfl

theorem all?_bare (h : s.isBare = true) (rest : List Symbol) :
    Token.all? (s :: rest) = s.token?.bind fun t => (Token.all? rest).map (t :: ·) := by
  rw [Token.all?]
  simp only [List.isEmpty_cons, Bool.false_eq_true, if_false]
  split
  · next t others hfirst =>
    rw [first?_bare h, Option.map_eq_some_iff] at hfirst
    obtain ⟨u, hu, heq⟩ := hfirst
    cases heq
    rw [hu]
    rfl
  · next hfirst =>
    rw [first?_bare h, Option.map_eq_none_iff] at hfirst
    rw [hfirst]
    rfl

theorem atom?_of_token (h : s.isBare = true) (ht : s.token? = some t) {flags : Flags}
    (hcase : flags.ignoreCase = false) :
    Level.atom? flags t = some s.meaning ∧ t.depth = 0 := by
  have hatom (c : Char) : Level.atom? flags (.char c) = some (single c) := by
    have hread : Level.atom? flags (.char c) = some (.one flags.ignoreCase (.single c)) := rfl
    rw [hread, hcase]
    rfl
  cases s with
  | plain c =>
    cases ht
    exact ⟨hatom c, rfl⟩
  | escaped c =>
    simp only [isBare, Bool.not_eq_true'] at h
    obtain ⟨e, he, rfl⟩ := Option.map_eq_some_iff.1 ht
    unfold Escape.ofChar? at he
    split at he
    all_goals try exact absurd h (by decide)
    · cases he
      exact ⟨rfl, rfl⟩
    · cases he
      exact ⟨rfl, rfl⟩
    · next hless hgreater =>
      split at he
      · cases he
        refine ⟨?_, rfl⟩
        have hnone : (escaped c).condition? = none := by
          unfold condition?
          split
          · next heq =>
            cases heq
            exact absurd rfl hless
          · next heq =>
            cases heq
            exact absurd rfl hgreater
          · rfl
        rw [meaning, hnone]
        exact hatom c
      · simp at he

end Symbol

variable {symbols : List Symbol} {tokens : List Token} {r : Regex} {cs text : List Char} {i j : Nat}

/--
The expressions that symbols without structure stand for, the last one first.
-/
def meanings (symbols : List Symbol) : List (Nested Regex) :=
  (symbols.map fun s => .leaf s.meaning).reverse

theorem ofTokens?_bare (hbare : ∀ s ∈ symbols, s.isBare = true)
    (htokens : Token.all? symbols = some tokens) (level : Level)
    (hcase : level.flags.ignoreCase = false) :
    ∃ last : Level, ofTokens? level [] tokens = some last.close ∧
      last.items = meanings symbols ++ level.items ∧ last.alternatives = level.alternatives := by
  induction symbols generalizing tokens level with
  | nil =>
    rw [Token.all?] at htokens
    cases htokens
    exact ⟨level, rfl, rfl, rfl⟩
  | cons s symbols ih =>
    have hs := hbare s List.mem_cons_self
    rw [Symbol.all?_bare hs, Option.bind_eq_some_iff] at htokens
    obtain ⟨t, ht, htokens⟩ := htokens
    obtain ⟨others, hothers, rfl⟩ := Option.map_eq_some_iff.1 htokens
    obtain ⟨hatom, hdepth⟩ := Symbol.atom?_of_token hs ht hcase
    obtain ⟨last, hlast, hitems, halternatives⟩ :=
      ih (fun s hs => hbare s (List.mem_cons_of_mem _ hs)) hothers (level.push ⟨s.meaning, 0⟩)
        hcase
    refine ⟨last, ?_, ?_, halternatives⟩
    · rw [ofTokens?_atom hatom, hdepth]
      exact hlast
    · rw [hitems]
      simp [meanings, Level.push, Nested.leaf]

/--
A pattern without structure is read as a sequence.
-/
theorem ofPattern?_bare (hsymbols : Symbol.ofChars? cs = some symbols)
    (hbare : ∀ s ∈ symbols, s.isBare = true) (h : ofPattern? cs = some r) :
    r = (Nested.join .seq .empty (meanings symbols)).value := by
  obtain ⟨symbols', tokens, part, hsymbols', htokens, _, hpart, _, rfl⟩ :=
    ofPattern?_eq_some_iff.1 h
  rw [hsymbols] at hsymbols'
  cases hsymbols'
  obtain ⟨last, hlast, hitems, halternatives⟩ :=
    ofTokens?_bare hbare htokens (.start false {}) rfl
  rw [hpart] at hlast
  cases hlast
  rw [Level.close, halternatives, Level.sequence, hitems, Level.start, List.append_nil]
  rfl

/--
The characters that the symbols match, one after the other.
-/
def letters (symbols : List Symbol) : List Char :=
  (symbols.filter fun s => s.condition?.isNone).map literalChar

theorem letters_condition {s : Symbol} {condition : Look} (hs : s.condition? = some condition) :
    letters (s :: symbols) = letters symbols := by
  simp [letters, hs]

theorem letters_char {s : Symbol} (hs : s.condition? = none) :
    letters (s :: symbols) = literalChar s :: letters symbols := by
  simp [letters, hs]

/--
Whether the conditions hold where the characters stand, with what is before and after all of them.
-/
def Fits : List Symbol → Option Char → Option Char → Prop
  | [], _, _ => True
  | s :: rest, before, after =>
    match s.condition? with
    | some condition =>
      condition.holds before ((letters rest).head?.or after) = true ∧ Fits rest before after
    | none => Fits rest (some (literalChar s)) after

theorem before_append (front rest : List Char) :
    before (front ++ rest) front.length = front.getLast? := by
  unfold before
  split
  · next h =>
    rw [List.length_eq_zero_iff.1 h]
    rfl
  · rw [List.getElem?_append_left (by omega), List.getLast?_eq_getElem?]

theorem getElem?_append_length (front rest : List Char) :
    (front ++ rest)[front.length]? = rest.head? := by
  rw [List.getElem?_append_right (Nat.le_refl _), Nat.sub_self, List.head?_eq_getElem?]

/--
The symbols of a pattern without structure match from place `i` up to place `j` if their characters
stand there and their conditions hold.
-/
def Stands (symbols : List Symbol) (text : List Char) (i j : Nat) : Prop :=
  ∃ front back, text = front ++ letters symbols ++ back ∧ front.length = i ∧
    (front ++ letters symbols).length = j ∧ Fits symbols front.getLast? back.head?

theorem stands_condition {s : Symbol} {condition : Look} (hs : s.condition? = some condition) :
    Stands (s :: symbols) text i j ↔
      condition.holds (before text i) text[i]? = true ∧ Stands symbols text i j := by
  have hplace (front back : List Char) : (letters symbols).head?.or back.head? =
      (front ++ letters symbols ++ back)[front.length]? := by
    rw [List.append_assoc, getElem?_append_length, List.head?_append]
  unfold Stands
  rw [letters_condition hs]
  constructor
  · rintro ⟨front, back, rfl, rfl, hj, hfits⟩
    rw [Fits, hs, hplace front] at hfits
    refine ⟨?_, front, back, rfl, rfl, hj, hfits.2⟩
    rw [List.append_assoc, before_append, ← List.append_assoc]
    exact hfits.1
  · rintro ⟨hholds, front, back, rfl, rfl, hj, hfits⟩
    refine ⟨front, back, rfl, rfl, hj, ?_⟩
    rw [Fits, hs, hplace front]
    rw [List.append_assoc, before_append, ← List.append_assoc] at hholds
    exact ⟨hholds, hfits⟩

theorem stands_char {s : Symbol} (hs : s.condition? = none) :
    Stands (s :: symbols) text i j ↔
      text[i]? = some (literalChar s) ∧ Stands symbols text (i + 1) j := by
  unfold Stands
  rw [letters_char hs]
  constructor
  · rintro ⟨front, back, rfl, rfl, hj, hfits⟩
    rw [Fits, hs] at hfits
    refine ⟨?_, front ++ [literalChar s], back, ?_, ?_, ?_, ?_⟩
    · rw [List.append_assoc, getElem?_append_length]
      rfl
    · simp
    · simp
    · rw [← hj]
      simp
    · simpa using hfits
  · rintro ⟨hchar, front, back, rfl, hi, hj, hfits⟩
    obtain rfl | ⟨front, c, rfl⟩ := List.eq_nil_or_concat front
    · simp at hi
    · simp only [List.concat_eq_append, List.length_append, List.length_singleton,
        Nat.add_right_cancel_iff] at hi
      subst hi
      simp only [List.concat_eq_append, List.append_assoc, getElem?_append_length] at hchar
      cases hchar
      refine ⟨front, back, by simp, rfl, ?_, ?_⟩
      · rw [← hj]
        simp
      · rw [Fits, hs]
        simpa using hfits

theorem joined_meanings : Joined text (meanings symbols) i j ↔ Stands symbols text i j := by
  induction symbols generalizing i with
  | nil =>
    constructor
    · rintro ⟨rfl, hi⟩
      refine ⟨text.take i, text.drop i, ?_, ?_, ?_, trivial⟩
      · simp [letters]
      · simp [hi]
      · simp [letters, hi]
    · rintro ⟨front, back, rfl, rfl, rfl, _⟩
      exact ⟨by simp [letters], by simp⟩
  | cons s symbols ih =>
    have hsplit : meanings (s :: symbols) = meanings symbols ++ [.leaf s.meaning] := by
      simp [meanings]
    rw [hsplit, joined_append]
    simp only [joined_singleton, ih]
    cases hs : s.condition? with
    | some condition =>
      rw [stands_condition hs]
      simp only [Nested.leaf, Symbol.meaning, hs, Spans]
      constructor
      · rintro ⟨k, ⟨rfl, _, hholds⟩, hrest⟩
        exact ⟨hholds, hrest⟩
      · rintro ⟨hholds, hrest⟩
        have hle := (ih.2 hrest).le
        exact ⟨i, ⟨rfl, by omega, hholds⟩, hrest⟩
    | none =>
      rw [stands_char hs]
      simp only [Nested.leaf, Symbol.meaning, hs]
      constructor
      · rintro ⟨k, hsingle, hrest⟩
        obtain ⟨rfl, hchar⟩ := spans_single.1 hsingle
        exact ⟨hchar, hrest⟩
      · rintro ⟨hchar, hrest⟩
        exact ⟨i + 1, spans_single.2 ⟨rfl, hchar⟩, hrest⟩

/--
A pattern without structure is found where its characters stand one after the other and its
conditions hold.
-/
theorem matches_bare_iff (hsymbols : Symbol.ofChars? cs = some symbols)
    (hbare : ∀ s ∈ symbols, s.isBare = true) (h : ofPattern? cs = some r) :
    r.Matches text ↔ ∃ front back, text = front ++ letters symbols ++ back ∧
      Fits symbols front.getLast? back.head? := by
  rw [ofPattern?_bare hsymbols hbare h]
  unfold Matches
  simp only [spans_join_seq, joined_meanings]
  constructor
  · rintro ⟨i, j, front, back, htext, _, _, hfits⟩
    exact ⟨front, back, htext, hfits⟩
  · rintro ⟨front, back, htext, hfits⟩
    exact ⟨_, _, front, back, htext, rfl, rfl, hfits⟩

section Fits

variable {before after before' after' : Option Char}

theorem letters_of_none (h : ∀ s ∈ symbols, s.condition? = none) :
    letters symbols = symbols.map literalChar := by
  have hall : symbols.filter (fun s => s.condition?.isNone) = symbols := by
    rw [List.filter_eq_self]
    intro s hs
    rw [h s hs]
    rfl
  rw [letters, hall]

theorem fits_of_none (h : ∀ s ∈ symbols, s.condition? = none) : Fits symbols before after := by
  induction symbols generalizing before with
  | nil => trivial
  | cons s symbols ih =>
    obtain ⟨hs, hsymbols⟩ := List.forall_mem_cons.1 h
    rw [Fits, hs]
    exact ih hsymbols

theorem matches_letters_iff (hsymbols : Symbol.ofChars? cs = some symbols)
    (hbare : ∀ s ∈ symbols, s.isBare = true) (hnone : ∀ s ∈ symbols, s.condition? = none)
    (h : ofPattern? cs = some r) : r.Matches text ↔ symbols.map literalChar <:+: text := by
  rw [matches_bare_iff hsymbols hbare h, letters_of_none hnone]
  constructor
  · rintro ⟨front, back, rfl, _⟩
    exact ⟨front, back, rfl⟩
  · rintro ⟨front, back, rfl⟩
    exact ⟨front, back, rfl, fits_of_none hnone⟩

theorem holds_congr {s : Symbol} {condition : Look} (hs : s.condition? = some condition)
    (hbefore : before.any isWordChar = before'.any isWordChar)
    (hafter : after.any isWordChar = after'.any isWordChar) :
    condition.holds before after = condition.holds before' after' := by
  unfold Symbol.condition? at hs
  split at hs
  · cases hs
    simp only [Look.holds, hbefore, hafter]
  · cases hs
    simp only [Look.holds, hbefore, hafter]
  · cases hs

/--
The conditions only ask whether characters of words stand around the pattern.
-/
theorem Fits.congr (hbefore : before.any isWordChar = before'.any isWordChar)
    (hafter : after.any isWordChar = after'.any isWordChar) (h : Fits symbols before after) :
    Fits symbols before' after' := by
  induction symbols generalizing before before' with
  | nil => trivial
  | cons s symbols ih =>
    rw [Fits] at h ⊢
    cases hs : s.condition? with
    | none =>
      rw [hs] at h
      exact ih rfl h
    | some condition =>
      rw [hs] at h
      refine ⟨?_, ih hbefore h.2⟩
      rw [← h.1]
      apply (holds_congr hs hbefore _).symm
      cases (letters symbols).head? with
      | none => exact hafter
      | some c => rfl

/--
A character of a word where there is one, and otherwise nothing.
-/
def sample (c : Option Char) : Option Char :=
  if c.any isWordChar then some 'a' else none

theorem any_sample (c : Option Char) : (sample c).any isWordChar = c.any isWordChar := by
  unfold sample
  split
  · next h =>
    rw [h]
    decide +kernel
  · next h =>
    rw [Bool.not_eq_true] at h
    rw [h]
    rfl

theorem countP_sample (c : Option Char) : (sample c).toList.countP isAngle = 0 := by
  unfold sample
  split <;> rfl

/--
A match of a pattern with conditions has fewer angle brackets than the pattern.
-/
theorem countP_letters_lt (h : ∃ s ∈ symbols, s.condition?.isSome = true) :
    (letters symbols).countP isAngle < (symbols.map literalChar).countP isAngle := by
  have hle (symbols : List Symbol) :
      (letters symbols).countP isAngle ≤ (symbols.map literalChar).countP isAngle :=
    (List.filter_sublist.map literalChar).countP_le
  induction symbols with
  | nil => simp at h
  | cons s symbols ih =>
    cases hs : s.condition? with
    | none =>
      have hmore : ∃ s ∈ symbols, s.condition?.isSome = true := by
        obtain ⟨t, ht, hsome⟩ := h
        rcases List.mem_cons.1 ht with rfl | ht
        · rw [hs] at hsome
          cases hsome
        · exact ⟨t, ht, hsome⟩
      rw [letters_char hs, List.map_cons, List.countP_cons, List.countP_cons]
      have := ih hmore
      omega
    | some condition =>
      have hangle : isAngle (literalChar s) = true := by
        unfold Symbol.condition? at hs
        split at hs
        · rfl
        · rfl
        · cases hs
      rw [letters_condition hs, List.map_cons, List.countP_cons, if_pos hangle]
      have := hle symbols
      omega

/--
A pattern with conditions does not match the texts that have all of its characters. It matches some
text without its angle brackets, or no text at all.
-/
theorem exists_differs (hsymbols : Symbol.ofChars? cs = some symbols)
    (hbare : ∀ s ∈ symbols, s.isBare = true) (h : ofPattern? cs = some r)
    (hsome : ∃ s ∈ symbols, s.condition?.isSome = true) :
    ∃ text, ¬ (r.Matches text ↔ symbols.map literalChar <:+: text) := by
  by_cases hmatch : ∃ text, r.Matches text
  · obtain ⟨text, hmatch⟩ := hmatch
    obtain ⟨front, back, _, hfits⟩ := (matches_bare_iff hsymbols hbare h).1 hmatch
    -- What stands around the match is replaced by letters, which are no brackets.
    have hlast (c : Option Char) : c.toList.getLast? = c := by cases c <;> rfl
    have hhead (c : Option Char) : c.toList.head? = c := by cases c <;> rfl
    have hfits : Fits symbols (sample front.getLast?).toList.getLast?
        (sample back.head?).toList.head? := by
      rw [hlast, hhead]
      exact hfits.congr (any_sample _).symm (any_sample _).symm
    refine ⟨(sample front.getLast?).toList ++ letters symbols ++ (sample back.head?).toList, ?_⟩
    intro hiff
    have hinfix := hiff.1 ((matches_bare_iff hsymbols hbare h).2 ⟨_, _, rfl, hfits⟩)
    have hle := hinfix.sublist.countP_le (p := isAngle)
    rw [List.countP_append, List.countP_append, countP_sample, countP_sample] at hle
    have := countP_letters_lt hsome
    omega
  · exact ⟨symbols.map literalChar, fun hiff => hmatch ⟨_, hiff.2 (List.infix_refl _)⟩⟩

end Fits

end GramIndex.Regex
