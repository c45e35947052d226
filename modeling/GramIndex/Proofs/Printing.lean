import GramIndex.Proofs.Scans

/-!
This module contains the compilation of patterns that are printed from trees: the scanners find the
tree in its print, so that the plan of the pattern is that of the tree.
-/

namespace GramIndex.Pattern

open Compiler (unescape)
open Regex (Symbol)

section Runs

variable {symbols : List Symbol} {s : Symbol} {c : Char}

theorem range_of_isEscapable (h : isEscapable c = true) :
    33 ≤ c.toNat ∧ c.toNat ≤ 126 ∧ c.isAlphanum = false ∧ c ≠ '<' ∧ c ≠ '>' := by
  simp only [isEscapable, Bool.and_eq_true, Bool.not_eq_true', decide_eq_true_eq, ne_eq] at h
  obtain ⟨⟨⟨⟨hfirst, hlast⟩, halphanum⟩, hless⟩, hgreater⟩ := h
  exact ⟨hfirst, hlast, halphanum, hless, hgreater⟩

theorem ne_of_isMetacharacter {d : Char} (hc : isMetacharacter c = false)
    (hd : isMetacharacter d = true) : c ≠ d := by
  intro heq
  rw [heq, hd] at hc
  cases hc

theorem quiet_literal (h : isLiteralSymbol s = true) : Quiet .outside (Symbol.bytes [s]) := by
  cases s with
  | plain c =>
    simp only [isLiteralSymbol, Bool.not_eq_true'] at h
    apply quiet_plain
    intro hmem
    have hmeta : ∀ d ∈ scanned, isMetacharacter d = true := List.all_eq_true.1 (by decide)
    exact ne_of_isMetacharacter h (hmeta c hmem) rfl
  | escaped c => exact quiet_escaped c

theorem quiet_literals (h : ∀ s ∈ symbols, isLiteralSymbol s = true) :
    Quiet .outside (Symbol.bytes symbols) := by
  induction symbols with
  | nil => exact quiet_nil
  | cons s symbols ih =>
    rw [Symbol.bytes_cons]
    apply (quiet_literal (h s List.mem_cons_self)).append
    apply ih
    intro t ht
    exact h t (List.mem_cons_of_mem s ht)

theorem quiet_run (run : Run) : Quiet .outside (utf8 run.print) :=
  quiet_literals run.literal

theorem ends_run (run : Run) (tail : Gram) : Ends (utf8 run.print ++ tail) := by
  obtain ⟨symbols, hne, hliteral⟩ := run
  cases symbols with
  | nil => exact absurd rfl hne
  | cons s symbols =>
    have hs := hliteral s List.mem_cons_self
    cases s with
    | plain c =>
      simp only [isLiteralSymbol, Bool.not_eq_true'] at hs
      apply ends_utf8_cons
      intro hmem
      have hmeta : ∀ d ∈ ['*', '?', '+', '\x7b'], isMetacharacter d = true :=
        List.all_eq_true.1 (by decide)
      exact ne_of_isMetacharacter hs (hmeta c hmem) rfl
    | escaped c => exact ends_utf8_cons (by decide) _ tail

/--
A compiler that takes the symbols of literal runs for literals.
-/
structure TakesRuns (c : Compiler) : Prop where
  metachars : ∀ b ∈ c.metachars, b ∈ Compiler.defaultMetachars
  escapes : ∀ b ∈ c.classEscapes, b ∈ byte '<' :: byte '>' :: Compiler.alphanumerics

theorem byte_not_mem_metachars {b : UInt8} (h : isMetacharacter c = false)
    (hb : b ∈ String.utf8EncodeChar c) : b ≠ byte '\\' ∧ b ∉ Compiler.defaultMetachars := by
  constructor
  · have hne : c ≠ '\\' := ne_of_isMetacharacter h (by decide)
    exact Compiler.ne_slash_of_mem_utf8EncodeChar hne hb
  · intro hmem
    rw [Compiler.mem_defaultMetachars_iff hb, h] at hmem
    cases hmem.1

theorem byte_not_mem_classEscapes (h : isEscapable c = true) :
    byte c ∉ byte '<' :: byte '>' :: Compiler.alphanumerics := by
  obtain ⟨hlow, hhigh, halphanum, hless, hgreater⟩ := range_of_isEscapable h
  have hlt : c.toNat < 128 := by omega
  intro hmem
  rw [List.mem_cons, List.mem_cons] at hmem
  obtain heq | heq | hmem := hmem
  · exact hless (byte_inj hlt (by decide) heq)
  · exact hgreater (byte_inj hlt (by decide) heq)
  · have hb : byte c ∈ String.utf8EncodeChar c := (mem_utf8EncodeChar_iff hlt).2 rfl
    rw [(Compiler.mem_alphanumerics_iff hb).1 hmem] at halphanum
    cases halphanum

variable {compiler : Compiler}

theorem TakesRuns.literal (hc : TakesRuns compiler) (h : ∀ s ∈ symbols, isLiteralSymbol s = true) :
    compiler.isPlainLiteral (Symbol.bytes symbols) = true ∧
      unescape (Symbol.bytes symbols) = utf8 (symbols.map literalChar) := by
  induction symbols with
  | nil => exact ⟨rfl, rfl⟩
  | cons s symbols ih =>
    obtain ⟨hplain, hunescape⟩ := ih fun t ht => h t (List.mem_cons_of_mem s ht)
    have hs := h s List.mem_cons_self
    rw [Symbol.bytes_cons, List.map_cons, utf8_cons]
    cases s with
    | plain c =>
      simp only [isLiteralSymbol, Bool.not_eq_true'] at hs
      have hslash : ∀ b ∈ String.utf8EncodeChar c, b ≠ byte '\\' := by
        intro b hb
        exact (byte_not_mem_metachars hs hb).1
      rw [Symbol.bytes_plain, Compiler.isPlainLiteral_append hslash,
        Compiler.unescape_append hslash, hplain, hunescape, Bool.and_true]
      refine ⟨?_, rfl⟩
      simp only [List.all_eq_true, Bool.not_eq_true', List.contains_eq_mem,
        decide_eq_false_iff_not]
      intro b hb hmem
      exact (byte_not_mem_metachars hs hb).2 (hc.metachars b hmem)
    | escaped c =>
      have hescape : byte c ∉ compiler.classEscapes := by
        intro hmem
        exact byte_not_mem_classEscapes hs (hc.escapes _ hmem)
      have := range_of_isEscapable hs
      have hlt : c.toNat < 128 := by omega
      rw [Symbol.bytes_escaped, literalChar, utf8EncodeChar_of_lt hlt]
      simp [Compiler.isPlainLiteral, unescape, hescape, hplain, hunescape]

theorem TakesRuns.leaf_run (hc : TakesRuns compiler) (run : Run) :
    compiler.leaf (utf8 run.print) = .literal (utf8 run.chars) := by
  obtain ⟨hplain, hunescape⟩ := hc.literal run.literal
  have hprint : Symbol.bytes run.symbols = utf8 run.print := rfl
  rw [hprint] at hplain hunescape
  unfold Compiler.leaf
  rw [if_pos hplain, hunescape]
  rfl

theorem takesRuns_default : TakesRuns default where
  metachars _ hb := hb
  escapes _ hb := List.mem_cons_of_mem _ (List.mem_cons_of_mem _ hb)

end Runs

section Heads

variable {c : Char}

theorem GroupName.valid_of_mem {name : GroupName} (h : c ∈ name.chars) :
    c.isAlphanum = true ∨ c = '_' := by
  cases List.mem_cons.1 h with
  | inl heq =>
    rw [heq, Char.isAlphanum, Bool.or_eq_true]
    exact name.first_valid.imp_left .inl
  | inr hmem => exact name.others_valid c hmem

theorem GroupName.isName (name : GroupName) : IsName name.chars := by
  intro c hc _
  exact (valid_of_mem hc).imp_right fun h => by simp [h]

theorem GroupName.not_mem_chars (name : GroupName) {d : Char} (hd : d.isAlphanum = false)
    (hunderscore : d ≠ '_') : d ∉ name.chars := by
  intro hmem
  cases valid_of_mem hmem with
  | inl h =>
    rw [hd] at h
    cases h
  | inr h => exact hunderscore h

variable {opener : Opener} {body rest : Gram}

theorem quiet_mark (opener : Opener) : Quiet .outside (utf8 opener.mark) := by
  apply quiet_utf8
  intro d hd
  have hother : ∀ d ∈ scanned, d.isAlphanum = false ∧ d ≠ '_' ∧ d ≠ '?' ∧ d ≠ ':' ∧
      d ≠ 'P' ∧ d ≠ '<' ∧ d ≠ '>' := by simp [scanned]
  have hd := hother d hd
  cases opener with
  | capture => simp [Opener.mark]
  | plain => simp [Opener.mark, hd]
  | named withLetter name =>
    have hname := name.not_mem_chars hd.1 hd.2.1
    cases withLetter with
    | false => simp [Opener.mark, hname, hd]
    | true => simp [Opener.mark, hname, hd]

theorem groupBody?_mark (hbody : body.head? ≠ some (byte '?')) :
    groupBody? (utf8 opener.mark ++ body) = some body := by
  cases opener with
  | capture =>
    have hfits : Head.capture.Fits := trivial
    exact Head.groupBody?_mark hfits hbody
  | plain => rfl
  | named withLetter name =>
    have hfits : (Head.named withLetter name.chars).Fits := name.isName
    exact Head.groupBody?_mark hfits hbody

theorem opensFlags_mark (hrest : rest.head? ≠ some (byte '?')) :
    opensFlags (utf8 opener.mark ++ rest) = false := by
  cases opener with
  | capture =>
    cases rest with
    | nil => rfl
    | cons b rest =>
      have hb : b ≠ byte '?' := by
        intro heq
        rw [heq] at hrest
        exact hrest rfl
      cases rest with
      | nil => rfl
      | cons f rest => simp [Opener.mark, opensFlags, hb]
  | plain => rfl
  | named withLetter name =>
    cases withLetter with
    | false => rfl
    | true => rfl

end Heads

section Quantifiers

theorem lt_of_isDigit {c : Char} (h : c.isDigit = true) : c.toNat < 128 := by
  have := range_of_isDigit h
  omega

theorem isDigit_byte {c : Char} (h : c.isDigit = true) : isDigit (byte c) = true := by
  have hrange := range_of_isDigit h
  have hbounds : (byte '0').toNat = 48 ∧ (byte '9').toNat = 57 := by decide
  simp only [isDigit, Bool.and_eq_true, decide_eq_true_eq, UInt8.le_iff_toNat_le,
    toNat_byte (lt_of_isDigit h)]
  omega

theorem Numeral.not_mem_digits (m : Numeral) {d : Char} (hd : d.isDigit = false) :
    d ∉ m.digits := by
  intro hmem
  rw [m.digits_valid d hmem] at hd
  cases hd

theorem Numeral.atLeastOnce (m : Numeral) {tail : List Char}
    (htail : tail = [] ∨ tail.head? = some ',') :
    atLeastOnce (utf8 (m.digits ++ tail)) = decide (1 ≤ m.value) := by
  unfold Pattern.atLeastOnce
  rw [takeWhile_utf8_comma (m.not_mem_digits (by decide)) htail,
    utf8_of_lt fun c hc => lt_of_isDigit (m.digits_valid c hc)]
  have hne : (m.digits.map byte).isEmpty = false := by
    simp [m.ne_nil]
  have hdigits : (m.digits.map byte).all isDigit = true := by
    rw [List.all_map, List.all_eq_true]
    intro c hc
    exact isDigit_byte (m.digits_valid c hc)
  have hsome : (m.digits.map byte).any (· ≠ byte '0') = decide (1 ≤ m.value) := by
    rw [List.any_map, Bool.eq_iff_iff, List.any_eq_true, decide_eq_true_iff, m.one_le_value_iff]
    apply exists_congr
    intro c
    apply and_congr_right
    intro hc
    simp only [Function.comp_apply, decide_eq_true_iff]
    apply not_congr
    constructor
    · exact byte_inj (lt_of_isDigit (m.digits_valid c hc)) (by decide)
    · intro heq
      rw [heq]
  simp only [hne, hdigits, hsome, Bool.not_false, Bool.true_and]

variable {required isLazy : Bool} {tail : Gram}

/--
A quantifier is read as a whole, unless it is a question mark that makes another one lazy.
-/
theorem Repetition.quantifiers_go (r : Repetition) (h : isLazy = true → r ≠ .zeroOrOne) :
    quantifiers.go required isLazy (utf8 r.print ++ tail) =
      quantifiers.go (required && decide (1 ≤ r.least)) true tail := by
  have hcounted (m : Numeral) {behind : List Char} (hbehind : '\x7d' ∉ behind)
      (hcomma : behind = [] ∨ behind.head? = some ',') :
      quantifiers.go required isLazy
          (utf8 ('\x7b' :: (m.digits ++ behind) ++ ['\x7d']) ++ tail) =
        quantifiers.go (required && decide (1 ≤ m.value)) true tail := by
    rw [quantifiers_go_counted, m.atLeastOnce hcomma]
    rw [List.mem_append, not_or]
    exact ⟨m.not_mem_digits (by decide), hbehind⟩
  cases r with
  | zeroOrMore =>
    have hno : decide (1 ≤ zeroOrMore.least) = false := rfl
    rw [hno, Bool.and_false]
    exact quantifiers_go_any
  | oneOrMore =>
    have hyes : decide (1 ≤ oneOrMore.least) = true := rfl
    rw [hyes, Bool.and_true]
    exact quantifiers_go_some
  | zeroOrOne =>
    have hnot : isLazy = false := by
      cases isLazy with
      | false => rfl
      | true => exact absurd rfl (h rfl)
    have hno : decide (1 ≤ zeroOrOne.least) = false := rfl
    rw [hnot, hno, Bool.and_false]
    exact quantifiers_go_optional
  | exactly m =>
    have hprint : (exactly m).print = '\x7b' :: (m.digits ++ []) ++ ['\x7d'] := by simp [print]
    rw [hprint]
    exact hcounted m (by simp) (.inl rfl)
  | atLeast m =>
    have hprint : (atLeast m).print = '\x7b' :: (m.digits ++ [',']) ++ ['\x7d'] := by simp [print]
    rw [hprint]
    exact hcounted m (by simp) (.inr rfl)
  | between m n =>
    have hprint : (between m n).print = '\x7b' :: (m.digits ++ ',' :: n.digits) ++ ['\x7d'] := by
      simp [print]
    have hn := n.not_mem_digits (d := '\x7d') (by decide)
    rw [hprint]
    exact hcounted m (by simp [hn]) (.inr rfl)

theorem Quantifier.quantifiers_go (q : Quantifier)
    (h : isLazy = true → q.repetition ≠ .zeroOrOne) :
    quantifiers.go required isLazy (utf8 q.print ++ tail) =
      quantifiers.go (required && decide (1 ≤ q.repetition.least)) (!q.isLazy) tail := by
  unfold print
  rw [utf8_append, List.append_assoc, q.repetition.quantifiers_go h]
  cases q.isLazy with
  | false => rfl
  | true => exact quantifiers_go_question

theorem quantifiers_go_print {qs : List Quantifier} (htail : Ends tail)
    (hfirst : ∀ q, qs.head? = some q → isLazy = true → q.repetition ≠ .zeroOrOne)
    (h : qs.IsChain fun q r => r.repetition = .zeroOrOne → q.isLazy = true) :
    quantifiers.go required isLazy ((qs.map fun q => q.print).flatMap utf8 ++ tail) =
      (required && qs.all fun q => 1 ≤ q.repetition.least, tail) := by
  induction qs generalizing required isLazy with
  | nil =>
    rw [List.all_nil, Bool.and_true]
    exact quantifiers_go_ends htail
  | cons q qs ih =>
    rw [List.map_cons, List.flatMap_cons, List.append_assoc, q.quantifiers_go (hfirst q rfl),
      List.all_cons, ← Bool.and_assoc]
    apply ih
    · intro r hr hlazy heq
      cases qs with
      | nil => cases hr
      | cons next qs =>
        cases hr
        rw [(List.isChain_cons_cons.1 h).1 heq] at hlazy
        cases hlazy
    · cases qs with
      | nil => exact .nil
      | cons next qs => exact (List.isChain_cons_cons.1 h).2

theorem quiet_quantifier (q : Quantifier) : Quiet .outside (utf8 q.print) := by
  apply quiet_utf8
  intro d hd
  have hother : ∀ d ∈ scanned, d.isDigit = false ∧ d ≠ '*' ∧ d ≠ '+' ∧ d ≠ '?' ∧
      d ≠ ',' ∧ d ≠ '\x7b' ∧ d ≠ '\x7d' := by simp [scanned]
  have hd := hother d hd
  have hdigits (m : Numeral) : d ∉ m.digits := m.not_mem_digits hd.1
  obtain ⟨repetition, isLazy⟩ := q
  cases isLazy
  all_goals
    cases repetition
    all_goals simp [Quantifier.print, Repetition.print, hdigits, hd]

theorem Quantifiers.quantifiers_append (qs : Quantifiers) (htail : Ends tail) :
    quantifiers ((qs.toList.map fun q => q.print).flatMap utf8 ++ tail) =
      (qs.required, tail) := by
  unfold quantifiers
  rw [quantifiers_go_print htail (fun _ _ hlazy => absurd hlazy Bool.false_ne_true) qs.apart,
    Bool.true_and]
  rfl

theorem Quantifiers.quantifiers_eq (qs : Quantifiers) :
    quantifiers ((qs.toList.map fun q => q.print).flatMap utf8) = (qs.required, []) := by
  have hread := qs.quantifiers_append ends_nil
  rw [List.append_nil] at hread
  exact hread

theorem Quantifiers.quantifies (qs : Quantifiers) :
    Quantifies ((qs.toList.map fun q => q.print).flatMap utf8) where
  quiet := by
    apply Quiet.flatMap
    intro cs hcs
    obtain ⟨q, _, rfl⟩ := List.mem_map.1 hcs
    exact quiet_quantifier q
  read tail htail := by
    rw [qs.quantifiers_append htail, qs.quantifiers_eq]

end Quantifiers

section Trees

mutual

/--
A tree as the scanners see it, with the characters of its parts.
-/
def Alternation.skeleton : Alternation → Skeleton (List Char)
  | .last items => items.skeleton .nil
  | .bar items others => items.skeleton (.bar others.skeleton)

def Items.skeleton {runFirst : Bool} : Items runFirst → Skeleton (List Char) → Skeleton (List Char)
  | .nil, tail => tail
  | .run run rest, tail => .atom run.print (rest.skeleton tail)
  | .group opener body quantifiers rest, tail =>
    .group ('(' :: opener.mark) body.skeleton (quantifiers.toList.map fun q => q.print)
      (rest.skeleton tail)

end

theorem utf8_flatMap_print (qs : List Quantifier) :
    utf8 (qs.flatMap Quantifier.print) = (qs.map fun q => q.print).flatMap utf8 := by
  simp [utf8, List.flatMap_assoc, List.flatMap_map]

mutual

theorem Alternation.print_skeleton (t : Alternation) :
    t.skeleton.print utf8 = utf8 t.print := by
  cases t with
  | last items =>
    rw [Alternation.skeleton, items.print_skeleton, Alternation.print]
    exact List.append_nil _
  | bar items others =>
    rw [Alternation.skeleton, items.print_skeleton, Alternation.print, utf8_append, utf8_bar,
      Skeleton.print, others.print_skeleton]

theorem Items.print_skeleton {runFirst : Bool} (items : Items runFirst)
    (tail : Skeleton (List Char)) :
    (items.skeleton tail).print utf8 = utf8 items.print ++ tail.print utf8 := by
  cases items with
  | nil => rfl
  | run run rest =>
    rw [Items.skeleton, Skeleton.print, rest.print_skeleton, Items.print, utf8_append,
      List.append_assoc]
  | group opener body quantifiers rest =>
    rw [Items.skeleton, Skeleton.print, body.print_skeleton, rest.print_skeleton, Items.print]
    simp only [utf8_append, utf8_open, utf8_close, utf8_flatMap_print, List.append_assoc,
      List.cons_append]

end

variable {tail : Gram}

theorem ends_cons {b : UInt8} (h : ¬ startsQuantifier b) (rest : Gram) : Ends (b :: rest) := by
  intro first hfirst
  cases hfirst
  exact h

theorem Items.ends {runFirst : Bool} (items : Items runFirst) (h : Ends tail) :
    Ends (utf8 items.print ++ tail) := by
  cases items with
  | nil => exact h
  | run run rest =>
    rw [Items.print, utf8_append, List.append_assoc]
    exact ends_run run _
  | group opener body quantifiers rest =>
    exact ends_cons (by decide) _

theorem Alternation.ends (t : Alternation) (h : Ends tail) : Ends (utf8 t.print ++ tail) := by
  cases t with
  | last items => exact items.ends h
  | bar items others =>
    rw [Alternation.print, utf8_append, List.append_assoc]
    apply items.ends
    exact ends_cons (by decide) _

theorem Alternation.head?_ne (t : Alternation) :
    (t.skeleton.print utf8).head? ≠ some (byte '?') := by
  have hends := t.ends ends_nil
  rw [List.append_nil] at hends
  rw [t.print_skeleton]
  exact hends.head?_ne

mutual

theorem Alternation.wellFormed (t : Alternation) : t.skeleton.WellFormed utf8 := by
  cases t with
  | last items => exact items.wellFormed trivial ends_nil
  | bar items others =>
    have htail : (Skeleton.bar others.skeleton).WellFormed utf8 := others.wellFormed
    apply items.wellFormed htail
    exact ends_cons (by decide) _

theorem Items.wellFormed {runFirst : Bool} (items : Items runFirst)
    {tail : Skeleton (List Char)} (h : tail.WellFormed utf8) (hends : Ends (tail.print utf8)) :
    (items.skeleton tail).WellFormed utf8 := by
  cases items with
  | nil => exact h
  | run run rest => exact ⟨quiet_run run, rest.wellFormed h hends⟩
  | group opener body quantifiers rest =>
    have hbody := body.wellFormed
    refine ⟨⟨utf8 opener.mark, rfl, ⟨?_, ?_⟩, fun _ => hbody⟩, quantifiers.quantifies, ?_,
      rest.wellFormed h hends⟩
    · exact (quiet_mark opener).passed.append (Skeleton.passed_print hbody)
    · intro inside hinside
      rw [groupBody?_mark body.head?_ne] at hinside
      exact (Option.some.inj hinside).symm
    · rw [rest.print_skeleton]
      exact rest.ends hends

end

variable {c : Compiler}

/--
The plans of the alternatives that the scanners find, with their literals filled in.
-/
def filled (c : Compiler) (alternatives : List (Plan Gram) × List (List (Plan Gram))) :
    List (Plan Gram) :=
  (alternatives.1 :: alternatives.2).map fun operands => .all (operands.map (Plan.expand c.leaf))

theorem expand_alternation {alternatives : List (Plan Gram) × List (List (Plan Gram))} :
    (Skeleton.alternation alternatives).expand c.leaf = .any (filled c alternatives) := by
  unfold Skeleton.alternation filled
  rw [Plan.expand_any, List.map_map]
  congr 1
  apply List.map_congr_left
  intro operands _
  exact Plan.expand_all

theorem TakesRuns.spanOperand_run (hc : TakesRuns c) (run : Run) :
    (spanOperand (utf8 run.print)).map (Plan.expand c.leaf) = [.literal (utf8 run.chars)] := by
  have hne : (utf8 run.print).isEmpty = false := by
    rw [List.isEmpty_eq_false_iff]
    intro heq
    exact run.ne_nil (Symbol.bytes_eq_nil_iff.1 heq)
  simp only [spanOperand, hne, Bool.false_eq_true, if_false, List.map_cons, List.map_nil,
    Plan.expand, hc.leaf_run]

mutual

theorem Alternation.filled_alternatives (hc : TakesRuns c) (t : Alternation) :
    filled c (t.skeleton.alternatives utf8 []) = t.plans := by
  cases t with
  | last items =>
    obtain ⟨hfirst, hothers⟩ := items.filled_alternatives hc [] .nil (fun _ => rfl) fun _ => rfl
    rw [Alternation.skeleton, filled, hothers, Alternation.plans, List.map_cons, hfirst]
    rfl
  | bar items others =>
    obtain ⟨hfirst, hothers⟩ := items.filled_alternatives hc [] (.bar others.skeleton)
      (fun _ => rfl) fun _ => rfl
    rw [Alternation.skeleton, filled, hothers, Alternation.plans, List.map_cons, hfirst,
      ← others.filled_alternatives hc]
    rfl

/--
Items add their plans to the alternative that a span begins. The span is empty where a run comes
first, since the scanners would take both for one literal.
-/
theorem Items.filled_alternatives (hc : TakesRuns c) {runFirst : Bool} (items : Items runFirst)
    (span : Gram) (tail : Skeleton (List Char)) {others : List (List (Plan Gram))}
    (hspan : runFirst = true → span = [])
    (htail : ∀ span, tail.alternatives utf8 span = (spanOperand span, others)) :
    ((items.skeleton tail).alternatives utf8 span).1.map (Plan.expand c.leaf) =
        (spanOperand span).map (Plan.expand c.leaf) ++ items.plans ∧
      ((items.skeleton tail).alternatives utf8 span).2 = others := by
  cases items with
  | nil =>
    rw [Items.skeleton, htail, Items.plans, List.append_nil]
    exact ⟨rfl, rfl⟩
  | run run rest =>
    obtain ⟨hfirst, hothers⟩ := rest.filled_alternatives hc (utf8 run.print) tail
      (fun h => absurd h Bool.false_ne_true) htail
    rw [hspan rfl, Items.skeleton, Skeleton.alternatives, List.nil_append, hfirst,
      hc.spanOperand_run]
    exact ⟨rfl, hothers⟩
  | group opener body quantifiers rest =>
    obtain ⟨hfirst, hothers⟩ := rest.filled_alternatives hc [] tail (fun _ => rfl) htail
    have hspeaks : Skeleton.speaks (utf8 ('(' :: opener.mark)).tail (body.skeleton.print utf8)
        ((quantifiers.toList.map fun q => q.print).flatMap utf8) = quantifiers.required := by
      rw [Skeleton.speaks, utf8_open, List.tail_cons, groupBody?_mark body.head?_ne,
        quantifiers.quantifiers_eq, Option.isSome_some, Bool.true_and]
    rw [Items.skeleton, Skeleton.alternatives, hspeaks, hothers, Items.plans]
    refine ⟨?_, rfl⟩
    rw [List.map_append, List.map_cons, hfirst, apply_ite (Plan.expand c.leaf),
      expand_alternation, body.filled_alternatives hc]
    rfl

end

theorem hasInlineFlags_go_cons {b : UInt8} {rest : Gram} (hnext : Place.next .outside b = .outside)
    (h : b = byte '(' → opensFlags rest = false) :
    hasInlineFlags.go .outside (b :: rest) = hasInlineFlags.go .outside rest := by
  rw [hasInlineFlags.go, hnext]
  by_cases hb : b = byte '('
  · simp [h hb]
  · simp [hb]

mutual

theorem Alternation.hasInlineFlags_go (t : Alternation) (rest : Gram) :
    hasInlineFlags.go .outside (utf8 t.print ++ rest) = hasInlineFlags.go .outside rest := by
  cases t with
  | last items => exact items.hasInlineFlags_go rest
  | bar items others =>
    rw [Alternation.print, utf8_append, List.append_assoc, items.hasInlineFlags_go, utf8_bar,
      List.cons_append, hasInlineFlags_go_cons next_bar fun h => absurd h (by decide),
      others.hasInlineFlags_go]

theorem Items.hasInlineFlags_go {runFirst : Bool} (items : Items runFirst) (rest : Gram) :
    hasInlineFlags.go .outside (utf8 items.print ++ rest) = hasInlineFlags.go .outside rest := by
  cases items with
  | nil => rfl
  | run run others =>
    rw [Items.print, utf8_append, List.append_assoc, hasInlineFlags_go_quiet (quiet_run run),
      others.hasInlineFlags_go]
  | group opener body quantifiers others =>
    simp only [Items.print, utf8_append, utf8_open, utf8_close, utf8_flatMap_print,
      List.append_assoc, List.cons_append]
    -- The body begins with nothing that makes its group one that only sets flags.
    have hbody (after : Gram) : (utf8 body.print ++ byte ')' :: after).head? ≠ some (byte '?') := by
      apply Ends.head?_ne
      apply body.ends
      exact ends_cons (by decide) _
    rw [hasInlineFlags_go_cons next_open fun _ => opensFlags_mark (hbody _),
      hasInlineFlags_go_quiet (quiet_mark opener), body.hasInlineFlags_go,
      hasInlineFlags_go_cons next_close fun h => absurd h (by decide),
      hasInlineFlags_go_quiet quantifiers.quantifies.quiet, others.hasInlineFlags_go]

end

theorem Alternation.hasInlineFlags_print (t : Alternation) :
    hasInlineFlags (utf8 t.print) = false := by
  have hgo := t.hasInlineFlags_go []
  rw [List.append_nil] at hgo
  exact hgo

theorem TakesRuns.compileBytes_print (hc : TakesRuns c) (t : Alternation) :
    c.compileBytes (utf8 t.print) = t.plan := by
  unfold Compiler.compileBytes
  rw [t.hasInlineFlags_print, if_neg Bool.false_ne_true, ← t.print_skeleton,
    Skeleton.outline_print t.wellFormed, expand_alternation, t.filled_alternatives hc]
  rfl

/--
The plan that is compiled from the print of a tree is that of the tree, and is satisfied by every
text that has a text of the language in it.
-/
theorem Alternation.compile_print (t : Alternation) :
    (default : Compiler).compile (String.ofList t.print) = t.plan ∧
      ∀ w ∈ t.language, ∀ bytes, utf8 w <:+: bytes →
        ((default : Compiler).compile (String.ofList t.print)).Satisfies bytes := by
  have hcompile : (default : Compiler).compile (String.ofList t.print) = t.plan := by
    unfold Compiler.compile textBytes
    rw [String.toList_ofList]
    exact takesRuns_default.compileBytes_print t
  refine ⟨hcompile, ?_⟩
  rw [hcompile]
  intro w hw bytes hbytes
  exact t.satisfies_plan hw hbytes

/--
The tree of `x((a|b)c){2,}?y`.
-/
def Alternation.nested : Alternation :=
  let letter : Alternation :=
    .bar (.run ⟨[.plain 'a'], by decide, by decide⟩ .nil)
      (.last (.run ⟨[.plain 'b'], by decide, by decide⟩ .nil))
  let body : Alternation :=
    .last (.group .capture letter ⟨[], .nil⟩ (.run ⟨[.plain 'c'], by decide, by decide⟩ .nil))
  .last (.run ⟨[.plain 'x'], by decide, by decide⟩
    (.group .capture body ⟨[⟨.atLeast ⟨['2'], by simp, by simp⟩, true⟩], .singleton _⟩
      (.run ⟨[.plain 'y'], by decide, by decide⟩ .nil)))

theorem Alternation.compile_print_nested :
    nested.print = "x((a|b)c)\x7b2,\x7d?y".toList ∧
      (default : Compiler).compile "x((a|b)c)\x7b2,\x7d?y" =
        .and (.and (.literal [120]) (.and (.or (.literal [97]) (.literal [98])) (.literal [99])))
          (.literal [121]) ∧
      "xacbcy".toList ∈ nested.language ∧
      ((default : Compiler).compile "x((a|b)c)\x7b2,\x7d?y").Satisfies (textBytes "wxacbcyz") := by
  have hprint : nested.print = "x((a|b)c)\x7b2,\x7d?y".toList := by decide
  have hlanguage : "xacbcy".toList ∈ nested.language := by
    have hrun (d : Char) : [d] ∈ ({[d]} * 1 : Language Char) :=
      Language.mem_mul.2 ⟨[d], rfl, [], rfl, rfl⟩
    refine Language.mem_mul.2 ⟨['x'], rfl, "acbcy".toList, ?_, rfl⟩
    refine Language.mem_mul.2 ⟨"acbc".toList, ⟨2, by decide, ?_, ?_⟩, ['y'], hrun 'y', rfl⟩
    · intro m hm
      cases hm
    · rw [pow_two]
      refine Language.mem_mul.2 ⟨['a', 'c'], ?_, ['b', 'c'], ?_, rfl⟩
      · exact Language.mem_mul.2 ⟨['a'], .inl (hrun 'a'), ['c'], hrun 'c', rfl⟩
      · exact Language.mem_mul.2 ⟨['b'], .inr (hrun 'b'), ['c'], hrun 'c', rfl⟩
  obtain ⟨hcompile, hsatisfies⟩ := Alternation.compile_print nested
  rw [hprint, String.ofList_toList] at hcompile hsatisfies
  refine ⟨hprint, hcompile, hlanguage, hsatisfies _ hlanguage _ ?_⟩
  exact utf8_infix ⟨['w'], ['z'], rfl⟩

end Trees

end GramIndex.Pattern
