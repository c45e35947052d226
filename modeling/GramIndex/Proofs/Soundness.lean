import GramIndex.Proofs.Plans
import GramIndex.Proofs.Scans

/-!
This module contains the soundness of the plans of patterns with respect to how an engine reads
them: a text that the reading of a pattern allows satisfies the plan, as long as the scanners are in
step with the reading.
-/

namespace GramIndex.Pattern

open Compiler (unescape)
open Regex (Symbol Times)

section Skeleton

variable {marks : List Mark} {tail : Gram}

/--
A reading as the scanners see it, with the characters of its parts. They do not look into a group
with flags of its own.
-/
def Reading.skeleton : Reading → Skeleton (List Char)
  | .done => .nil
  | .item atom marks rest => .atom (atom.chars ++ marks.flatMap Mark.chars) rest.skeleton
  | .bar rest => .bar rest.skeleton
  | .group head body marks rest =>
    .group ('(' :: head.mark) body.skeleton (marks.map Mark.chars) rest.skeleton
  | .flagged flags text marks rest =>
    .group ('(' :: '?' :: flags ++ [':']) (.atom text .nil) (marks.map Mark.chars) rest.skeleton
  | .setFlags flags text => .atom ('(' :: '?' :: flags ++ ')' :: text) .nil

theorem utf8_flatMap_marks (marks : List Mark) :
    utf8 (marks.flatMap Mark.chars) = (marks.map Mark.chars).flatMap utf8 := by
  simp [utf8, List.flatMap_assoc, List.flatMap_map]

theorem Reading.print_skeleton (t : Reading) : t.skeleton.print utf8 = utf8 t.chars := by
  induction t with
  | done => rfl
  | item atom marks rest ih =>
    rw [skeleton, Skeleton.print, ih, chars, utf8_append (_ ++ _)]
  | bar rest ih => rw [skeleton, Skeleton.print, ih, chars, utf8_bar]
  | group head body marks rest ihbody ih =>
    simp only [skeleton, Skeleton.print, chars, ihbody, ih, utf8_append, utf8_open, utf8_close,
      utf8_flatMap_marks, List.cons_append, List.append_assoc]
  | flagged flags text marks rest ih =>
    have hchars : (flagged flags text marks rest).chars = ('(' :: '?' :: flags ++ [':']) ++
        (text ++ ')' :: (marks.flatMap Mark.chars ++ rest.chars)) := by
      simp [chars]
    rw [hchars, utf8_append (_ ++ _), utf8_append text, utf8_close, utf8_append (marks.flatMap _),
      utf8_flatMap_marks]
    simp only [skeleton, Skeleton.print, ih, List.append_assoc, List.nil_append]
  | setFlags flags text =>
    rw [skeleton, Skeleton.print, Skeleton.print, chars, List.append_nil]

theorem AreMarks.of_cons {m : Mark} (h : AreMarks (m :: marks)) : AreMarks marks :=
  ⟨fun n hn => h.valid n (List.mem_cons_of_mem m hn), h.apart.of_cons⟩

/--
Quantifiers that are not lazy are not followed by question marks.
-/
theorem AreMarks.head?_ne {m : Mark} (h : AreMarks (m :: marks)) (htail : Ends tail)
    (hlazy : m.isLazy = false) :
    ((marks.map Mark.chars).flatMap utf8 ++ tail).head? ≠ some (byte '?') := by
  cases marks with
  | nil => exact htail.head?_ne
  | cons next marks =>
    have hnext := h.valid next (by simp)
    obtain ⟨c, cs, hsign, _⟩ := hnext.exists_cons
    intro hhead
    have hchars : next.chars = c :: (cs ++ if next.isLazy then ['?'] else []) := by
      rw [Mark.chars, hsign, List.cons_append]
    rw [List.map_cons, List.flatMap_cons, hchars, utf8_cons, List.append_assoc,
      List.append_assoc] at hhead
    have hc := eq_of_head? (by decide) hhead
    have hquestion : next.sign = ['?'] := hnext.eq_question (by rw [hsign, hc]; rfl)
    have hapart := (List.isChain_cons_cons.1 h.apart).1 hquestion
    rw [hlazy] at hapart
    cases hapart

/--
The scanners read the quantifiers after a group as they are, and take them to ask for an occurrence
only if each of them does.
-/
theorem AreMarks.exists_need (h : AreMarks marks) :
    ∃ need, (need = true → ∀ m ∈ marks, 1 ≤ m.least) ∧ ∀ required tail, Ends tail →
      quantifiers.go required false ((marks.map Mark.chars).flatMap utf8 ++ tail) =
        (required && need, tail) := by
  induction marks with
  | nil =>
    refine ⟨true, by simp, ?_⟩
    intro required tail htail
    rw [List.map_nil, List.flatMap_nil, List.nil_append, quantifiers_go_ends htail, Bool.and_true]
  | cons m marks ih =>
    obtain ⟨need, hneed, hread⟩ := ih h.of_cons
    obtain ⟨first, hfirst, hgo⟩ := Mark.exists_need (h.valid m List.mem_cons_self)
    refine ⟨first && need, ?_, ?_⟩
    · intro hboth
      rw [Bool.and_eq_true] at hboth
      exact List.forall_mem_cons.2 ⟨hfirst hboth.1, hneed hboth.2⟩
    · intro required tail htail
      rw [List.map_cons, List.flatMap_cons, List.append_assoc, hgo _ _ (h.head?_ne htail),
        hread _ _ htail, Bool.and_assoc]

theorem AreMarks.quiet (h : AreMarks marks) :
    Quiet .outside ((marks.map Mark.chars).flatMap utf8) := by
  apply Quiet.flatMap
  intro cs hcs
  obtain ⟨m, hm, rfl⟩ := List.mem_map.1 hcs
  exact Mark.quiet (h.valid m hm)

theorem AreMarks.quantifies (h : AreMarks marks) :
    Quantifies ((marks.map Mark.chars).flatMap utf8) ∧
      ((quantifiers ((marks.map Mark.chars).flatMap utf8)).1 = true →
        ∀ m ∈ marks, 1 ≤ m.least) := by
  obtain ⟨need, hneed, hread⟩ := h.exists_need
  have hself : quantifiers ((marks.map Mark.chars).flatMap utf8) = (need, []) := by
    have := hread true [] ends_nil
    rw [List.append_nil] at this
    exact this
  refine ⟨⟨h.quiet, ?_⟩, ?_⟩
  · intro tail htail
    rw [hself, quantifiers, hread true tail htail, Bool.true_and]
  · rw [hself]
    exact hneed

theorem Atom.quiet {atom : Atom} (h : atom.Fits) (haligned : atom.Aligned) :
    Quiet .outside (utf8 atom.chars) := by
  cases atom with
  | char c =>
    apply quiet_utf8
    intro d hd hmem
    rw [List.mem_singleton.1 hmem] at hd
    exact h (by simp [special, hd])
  | sign c =>
    apply quiet_utf8
    intro d hd hmem
    have hother : ∀ d ∈ scanned, d ∉ signs := by simp [scanned, signs]
    rw [List.mem_singleton.1 hmem] at hd
    exact hother c hd h
  | escape c argument =>
    obtain ⟨_, _, hargument⟩ := h
    have hchars : utf8 (Atom.escape c argument).chars =
        Symbol.bytes [.escaped c] ++ utf8 argument := by
      simp [Atom.chars, Symbol.bytes, Symbol.chars]
    rw [hchars]
    exact (quiet_escaped c).append (quiet_utf8 hargument)
  | bracket text =>
    obtain ⟨cls, rfl, hcls⟩ := haligned
    exact hcls.quiet

theorem Atom.exists_chars {atom : Atom} (h : atom.Fits) :
    ∃ c cs, atom.chars = c :: cs ∧ c ∉ ['*', '?', '+', '\x7b'] := by
  cases atom with
  | char c =>
    refine ⟨c, [], rfl, ?_⟩
    intro hc
    have hspecial : ∀ c ∈ ['*', '?', '+', '\x7b'], c ∈ special := by simp [special]
    exact h (hspecial c hc)
  | sign c =>
    refine ⟨c, [], rfl, ?_⟩
    have hother : ∀ c ∈ signs, c ∉ ['*', '?', '+', '\x7b'] := by simp [signs]
    exact hother c h
  | escape c argument => exact ⟨_, _, rfl, by decide⟩
  | bracket text =>
    obtain ⟨cs, rfl⟩ := List.head?_eq_some_iff.1 h
    exact ⟨_, _, rfl, by decide⟩

/--
No quantifier stands where an item may begin.
-/
theorem Reading.ends {t : Reading} (h : t.Fits) (htail : Ends tail) :
    Ends (utf8 t.chars ++ tail) := by
  cases t with
  | done => exact htail
  | item atom marks rest =>
    obtain ⟨c, cs, hchars, hc⟩ := Atom.exists_chars h.1
    rw [chars, hchars, List.append_assoc, List.cons_append]
    exact ends_utf8_cons hc _ _
  | bar | group | flagged | setFlags => exact ends_utf8_cons (by decide) _ _

/--
Whether the scanners find flags that are set within a group, or in the whole pattern.
-/
def Reading.setsFlags : Reading → Bool
  | .done => false
  | .item _ _ rest => rest.setsFlags
  | .bar rest => rest.setsFlags
  | .group _ body _ rest => body.setsFlags || rest.setsFlags
  | .flagged _ _ _ rest => rest.setsFlags
  | .setFlags _ _ => true

theorem Reading.ends_skeleton {t : Reading} (h : t.Fits) : Ends (t.skeleton.print utf8) := by
  have hends := t.ends h ends_nil
  rwa [List.append_nil, ← t.print_skeleton] at hends

theorem AreFlags.passed_text {flags text : List Char} (h : AreFlags flags)
    (htext : ∃ symbols, text = symbols.flatMap Symbol.chars ∧ Balanced symbols) :
    Passed (utf8 ('?' :: flags ++ [':']) ++ utf8 text) := by
  obtain ⟨symbols, rfl, hbalanced⟩ := htext
  apply Passed.append _ hbalanced.passed
  rw [utf8_append]
  exact (h.quiet.append (quiet_utf8 (by simp [scanned]))).passed

theorem Reading.wellFormed {t : Reading} (h : t.Fits) (haligned : t.Aligned)
    (hset : t.setsFlags = false) : t.skeleton.WellFormed utf8 := by
  induction t with
  | done => trivial
  | item atom marks rest ih =>
    obtain ⟨hatom, hmarks, hrest⟩ := h
    refine ⟨?_, ih hrest haligned.2 hset⟩
    rw [utf8_append, utf8_flatMap_marks]
    exact (Atom.quiet hatom haligned.1).append hmarks.quiet
  | bar rest ih => exact ih h haligned hset
  | group head body marks rest ihbody ih =>
    obtain ⟨hhead, hbody, hmarks, hrest⟩ := h
    obtain ⟨hquiet, haligned, halignedRest⟩ := haligned
    obtain ⟨hsetBody, hsetRest⟩ := Bool.or_eq_false_iff.1 hset
    have hformed := ihbody hbody haligned hsetBody
    refine ⟨⟨utf8 head.mark, rfl, ⟨?_, ?_⟩, fun _ => hformed⟩, hmarks.quantifies.1,
      rest.ends_skeleton hrest, ih hrest halignedRest hsetRest⟩
    · exact (head.quiet_mark hhead hquiet).passed.append (Skeleton.passed_print hformed)
    · intro inside hinside
      rw [head.groupBody?_mark hhead (body.ends_skeleton hbody).head?_ne] at hinside
      exact (Option.some.inj hinside).symm
  | flagged flags text marks rest ih =>
    obtain ⟨hflags, hmarks, hrest⟩ := h
    have hprint : (Skeleton.atom text .nil).print utf8 = utf8 text := by
      simp [Skeleton.print]
    have hnone : groupBody? (utf8 ('?' :: flags ++ [':']) ++ utf8 text) = none := by
      rw [utf8_append, List.append_assoc]
      exact hflags.groupBody?_eq_none _
    refine ⟨⟨utf8 ('?' :: flags ++ [':']), rfl, ⟨?_, ?_⟩, ?_⟩, hmarks.quantifies.1,
      rest.ends_skeleton hrest, ih hrest haligned.2 hset⟩
    · rw [hprint]
      exact hflags.passed_text haligned.1
    · rw [hprint, hnone]
      simp
    · rw [hprint, hnone]
      simp
  | setFlags => cases hset

/--
The scanners find flags that are set, since they cross everything before these.
-/
theorem Reading.hasInlineFlags_of_setsFlags {t : Reading} (h : t.Fits) (haligned : t.Aligned)
    (hset : t.setsFlags = true) (rest : Gram) :
    hasInlineFlags.go .outside (utf8 t.chars ++ rest) = true := by
  rw [← t.print_skeleton]
  induction t generalizing rest with
  | done => cases hset
  | item atom marks others ih =>
    obtain ⟨hatom, hmarks, hothers⟩ := h
    rw [skeleton, Skeleton.print, List.append_assoc, utf8_append, utf8_flatMap_marks,
      hasInlineFlags_go_quiet ((Atom.quiet hatom haligned.1).append hmarks.quiet)]
    exact ih hothers haligned.2 hset rest
  | bar others ih =>
    exact hasInlineFlags_go_append (a := [byte '|']) rfl (ih h haligned hset rest)
  | group head body marks others ihbody ih =>
    obtain ⟨hhead, hbody, hmarks, hothers⟩ := h
    obtain ⟨hquiet, haligned, halignedOthers⟩ := haligned
    have hmark : Place.after .outside (utf8 ('(' :: head.mark)) = .outside :=
      (head.quiet_mark hhead hquiet).after
    rw [skeleton, Skeleton.print, List.append_assoc, List.append_assoc]
    apply hasInlineFlags_go_append hmark
    -- Only a body without such flags is known to be crossed as a whole.
    cases hsetBody : body.setsFlags with
    | true => exact ihbody hbody haligned hsetBody _
    | false =>
      have hsetOthers : others.setsFlags = true := by
        simpa [setsFlags, hsetBody] using hset
      have hbehind := hasInlineFlags_go_append hmarks.quiet.after
        (ih hothers halignedOthers hsetOthers rest)
      rw [← List.append_assoc] at hbehind
      apply hasInlineFlags_go_append
        (Skeleton.passed_print (body.wellFormed hbody haligned hsetBody)).after
      exact hasInlineFlags_go_append (a := [byte ')']) rfl hbehind
  | flagged flags text marks others ih =>
    obtain ⟨hflags, hmarks, hothers⟩ := h
    have hbehind := hasInlineFlags_go_append hmarks.quiet.after (ih hothers haligned.2 hset rest)
    rw [← List.append_assoc] at hbehind
    have hgroup := hasInlineFlags_go_append (hflags.passed_text haligned.1).group.after hbehind
    have hopen : String.utf8EncodeChar '(' = [byte '('] := rfl
    simpa [skeleton, Skeleton.print, hopen] using hgroup
  | setFlags flags text =>
    have hopens := AreFlags.opensFlags h (utf8 text ++ rest)
    have hprint : (setFlags flags text).skeleton.print utf8 ++ rest =
        byte '(' :: (utf8 ('?' :: flags) ++ byte ')' :: (utf8 text ++ rest)) := by
      have hchars : (setFlags flags text).chars = '(' :: (('?' :: flags) ++ ')' :: text) := rfl
      rw [print_skeleton, hchars, utf8_open, utf8_append, utf8_close]
      simp only [List.cons_append, List.append_assoc]
    rw [hprint, hasInlineFlags.go, hopens]
    rfl

end Skeleton

section Literals

variable {run : List (Atom × List Mark)} {marks : List Mark} {more : Gram}

/--
The character that a compiler takes an atom for.
-/
def Atom.literal : Atom → List Char
  | .char c => [c]
  | .escape c _ => [c]
  | _ => []

def runChars (run : List (Atom × List Mark)) : List Char :=
  run.flatMap fun item => item.1.chars ++ item.2.flatMap Mark.chars

theorem not_isPlainLiteral_cons {c : Char} (h : isMetacharacter c = true) (hslash : c ≠ '\\')
    (cs : List Char) :
    (default : Compiler).isPlainLiteral (utf8 (c :: cs) ++ more) = false := by
  have hbytes : ∀ b ∈ String.utf8EncodeChar c, b ≠ byte '\\' := fun b hb =>
    Compiler.ne_slash_of_mem_utf8EncodeChar hslash hb
  obtain ⟨b, tail, hcons, _⟩ := exists_utf8EncodeChar_cons c
  have hb : b ∈ String.utf8EncodeChar c := hcons ▸ List.mem_cons_self
  have hmeta : b ∈ (default : Compiler).metachars :=
    (Compiler.mem_defaultMetachars_iff hb).2 ⟨h, hslash⟩
  rw [utf8_cons, List.append_assoc, Compiler.isPlainLiteral_append hbytes, hcons]
  simp [hmeta]

theorem AreMarks.eq_nil_of_plain (h : AreMarks marks)
    (hplain : (default : Compiler).isPlainLiteral (utf8 (marks.flatMap Mark.chars) ++ more) =
      true) : marks = [] := by
  cases marks with
  | nil => rfl
  | cons m marks =>
    obtain ⟨c, cs, hsign, hc⟩ := (h.valid m List.mem_cons_self).exists_cons
    have hmeta : ∀ c ∈ ['*', '?', '+', '\x7b'], isMetacharacter c = true ∧ c ≠ '\\' := by
      simp [isMetacharacter]
    have hchars : (m :: marks).flatMap Mark.chars =
        c :: (cs ++ (if m.isLazy then ['?'] else []) ++ marks.flatMap Mark.chars) := by
      simp [Mark.chars, hsign]
    rw [hchars, not_isPlainLiteral_cons (hmeta c hc).1 (hmeta c hc).2] at hplain
    cases hplain

theorem isMetacharacter_of_plain {c : Char} {cs : List Char} (h : (Atom.char c).Fits)
    (hplain : (default : Compiler).isPlainLiteral (utf8 (c :: cs) ++ more) = true) :
    c ≠ '\\' ∧ isMetacharacter c = false := by
  have hslash : c ≠ '\\' := by
    rintro rfl
    exact h (by decide)
  refine ⟨hslash, ?_⟩
  rw [Bool.eq_false_iff]
  intro hmeta
  rw [not_isPlainLiteral_cons hmeta hslash] at hplain
  cases hplain

theorem utf8_escape {c : Char} (hc : c.toNat < 128) (cs : List Char) :
    utf8 ('\\' :: c :: cs) = byte '\\' :: byte c :: utf8 cs := by
  have hslash : String.utf8EncodeChar '\\' = [byte '\\'] := rfl
  simp [hslash, utf8EncodeChar_of_lt hc]

/--
Letters and digits are not escaped in literals, and so no escape in them has an argument.
-/
theorem isAlphanum_of_plain {c : Char} {argument : List Char} (h : (Atom.escape c argument).Fits)
    (hplain : (default : Compiler).isPlainLiteral (byte '\\' :: byte c :: more) = true) :
    c.isAlphanum = false ∧ argument = [] ∧
      (default : Compiler).isPlainLiteral more = true := by
  obtain ⟨hlt, hargument, _⟩ := h
  have hb : byte c ∈ String.utf8EncodeChar c := (mem_utf8EncodeChar_iff hlt).2 rfl
  rw [Compiler.isPlainLiteral, if_pos rfl, Bool.and_eq_true, Bool.not_eq_true',
    List.contains_eq_mem, decide_eq_false_iff_not] at hplain
  have halphanum : c.isAlphanum = false := by
    rw [Bool.eq_false_iff]
    intro halphanum
    exact hplain.1 ((Compiler.mem_alphanumerics_iff hb).2 halphanum)
  refine ⟨halphanum, ?_, hplain.2⟩
  apply Decidable.byContradiction
  intro hne
  rw [Char.isAlphanum, hargument hne] at halphanum
  cases halphanum

/--
What the default compiler takes for a literal is written as characters that stand for themselves,
with backslashes or without.
-/
theorem isLiteralItem_of_plain {atom : Atom} (hatom : atom.Fits) (hmarks : AreMarks marks)
    (h : (default : Compiler).isPlainLiteral
      (utf8 (atom.chars ++ marks.flatMap Mark.chars) ++ more) = true) :
    isLiteralItem (atom, marks) = true ∧ (default : Compiler).isPlainLiteral more = true ∧
      unescape (utf8 (atom.chars ++ marks.flatMap Mark.chars) ++ more) =
        utf8 atom.literal ++ unescape more := by
  cases atom with
  | char c =>
    obtain ⟨hslash, hmeta⟩ := isMetacharacter_of_plain hatom h
    have hbytes : ∀ b ∈ String.utf8EncodeChar c, b ≠ byte '\\' := fun b hb =>
      Compiler.ne_slash_of_mem_utf8EncodeChar hslash hb
    have hchars : utf8 ((Atom.char c).chars ++ marks.flatMap Mark.chars) ++ more =
        String.utf8EncodeChar c ++ (utf8 (marks.flatMap Mark.chars) ++ more) := by
      simp [Atom.chars]
    rw [hchars, Compiler.isPlainLiteral_append hbytes, Bool.and_eq_true] at h
    rw [hchars, Compiler.unescape_append hbytes]
    cases hmarks.eq_nil_of_plain h.2
    exact ⟨by rw [isLiteralItem, hmeta]; rfl, h.2, by simp [Atom.literal]⟩
  | sign c =>
    have hmeta : ∀ c ∈ signs, isMetacharacter c = true ∧ c ≠ '\\' := by
      simp [signs, isMetacharacter]
    have hchars : (Atom.sign c).chars ++ marks.flatMap Mark.chars =
        c :: marks.flatMap Mark.chars := rfl
    rw [hchars, not_isPlainLiteral_cons (hmeta c hatom).1 (hmeta c hatom).2] at h
    cases h
  | escape c argument =>
    have hchars : utf8 ((Atom.escape c argument).chars ++ marks.flatMap Mark.chars) ++ more =
        byte '\\' :: byte c :: (utf8 (argument ++ marks.flatMap Mark.chars) ++ more) := by
      rw [Atom.chars, List.cons_append, List.cons_append, utf8_escape hatom.1]
      rfl
    rw [hchars] at h
    obtain ⟨halphanum, hnil, hplain⟩ := isAlphanum_of_plain hatom h
    rw [hnil, List.nil_append] at hplain
    cases hmarks.eq_nil_of_plain hplain
    rw [hchars, hnil, unescape, if_pos rfl]
    exact ⟨by rw [isLiteralItem, halphanum]; rfl, hplain,
      by simp [Atom.literal, utf8EncodeChar_of_lt hatom.1]⟩
  | bracket text =>
    obtain ⟨cs, rfl⟩ := List.head?_eq_some_iff.1 hatom
    have hchars : (Atom.bracket ('[' :: cs)).chars ++ marks.flatMap Mark.chars =
        '[' :: (cs ++ marks.flatMap Mark.chars) := rfl
    rw [hchars, not_isPlainLiteral_cons (by decide) (by decide)] at h
    cases h

theorem run_of_plain (hrun : ∀ item ∈ run, item.1.Fits ∧ AreMarks item.2)
    (h : (default : Compiler).isPlainLiteral (utf8 (runChars run) ++ more) = true) :
    run.all isLiteralItem = true ∧
      unescape (utf8 (runChars run) ++ more) =
        utf8 (run.flatMap fun item => item.1.literal) ++ unescape more := by
  induction run with
  | nil => exact ⟨rfl, rfl⟩
  | cons item run ih =>
    obtain ⟨⟨hatom, hmarks⟩, hrun⟩ := List.forall_mem_cons.1 hrun
    have hchars : utf8 (runChars (item :: run)) ++ more =
        utf8 (item.1.chars ++ item.2.flatMap Mark.chars) ++ (utf8 (runChars run) ++ more) := by
      rw [runChars, List.flatMap_cons, utf8_append (_ ++ _), List.append_assoc]
      rfl
    rw [hchars] at h ⊢
    obtain ⟨hliteral, hplain, hunescape⟩ := isLiteralItem_of_plain hatom hmarks h
    obtain ⟨hall, hmore⟩ := ih hrun hplain
    rw [List.all_cons, hunescape, hmore, List.flatMap_cons, utf8_append, List.append_assoc]
    exact ⟨by rw [hall, Bool.and_true]; exact hliteral, rfl⟩

end Literals

section Satisfies

variable {text : List Char} {run : List (Atom × List Mark)} {i j k : Nat}

/--
Items in a row may match the text from place `i` up to place `j`.
-/
def Matched (text : List Char) : List (Atom × List Mark) → Nat → Nat → Prop
  | [], i, j => i = j
  | (atom, marks) :: run, i, j =>
    ∃ k, Repeated marks (atom.Allows text) i k ∧ Matched text run k j

theorem Matched.concat {atom : Atom} {marks : List Mark} (h : Matched text run i k)
    (hitem : Repeated marks (atom.Allows text) k j) :
    Matched text (run ++ [(atom, marks)]) i j := by
  induction run generalizing i with
  | nil =>
    have : i = k := h
    rw [this]
    exact ⟨j, hitem, rfl⟩
  | cons item run ih =>
    obtain ⟨m, hfirst, hrun⟩ := h
    exact ⟨m, hfirst, ih hrun⟩

theorem Atom.literal_prefix {atom : Atom} {marks : List Mark} {cs : List Char}
    (hliteral : isLiteralItem (atom, marks) = true)
    (hangle : atom ≠ .escape '<' [] ∧ atom ≠ .escape '>' [])
    (h : Repeated marks (atom.Allows text) i k) (hcs : cs <+: text.drop k) :
    atom.literal ++ cs <+: text.drop i := by
  have hchar {c : Char} (hc : atom.char? = some c) (hmarks : marks = []) :
      c :: cs <+: text.drop i := by
    rw [hmarks] at h
    obtain ⟨rfl, hget⟩ := h c hc
    obtain ⟨hi, hget⟩ := List.getElem?_eq_some_iff.1 hget
    rw [List.drop_eq_getElem_cons hi, hget]
    exact List.cons_prefix_cons.2 ⟨rfl, hcs⟩
  unfold isLiteralItem at hliteral
  split at hliteral
  · next heq =>
    cases heq
    exact hchar rfl rfl
  · next c heq =>
    cases heq
    apply hchar _ rfl
    have hnot : isAngle c = false := by
      unfold isAngle
      rw [Bool.or_eq_false_iff, decide_eq_false_iff_not, decide_eq_false_iff_not]
      refine ⟨?_, ?_⟩
      · rintro rfl
        exact hangle.1 rfl
      · rintro rfl
        exact hangle.2 rfl
    rw [Bool.not_eq_true'] at hliteral
    rw [Atom.char?, hliteral, hnot]
    rfl
  · cases hliteral

/--
Where a run of items that is taken for a literal matches, the text goes on with the literal.
-/
theorem Matched.literal_prefix (h : Matched text run i j) (hliteral : run.all isLiteralItem = true)
    (hangle : ∀ item ∈ run, item.1 ≠ .escape '<' [] ∧ item.1 ≠ .escape '>' []) :
    (run.flatMap fun item => item.1.literal) <+: text.drop i := by
  induction run generalizing i with
  | nil => exact List.nil_prefix
  | cons item run ih =>
    obtain ⟨hfirst, hothers⟩ := List.forall_mem_cons.1 hangle
    rw [List.all_cons, Bool.and_eq_true] at hliteral
    obtain ⟨k, hitem, hrun⟩ := h
    rw [List.flatMap_cons]
    exact Atom.literal_prefix hliteral.1 hfirst hitem (ih hrun hliteral.2 hothers)

def Meets (text : List Char) (operands : List (Plan Gram)) : Prop :=
  ∀ p ∈ operands, (p.expand (default : Compiler).leaf).Satisfies (utf8 text)

theorem meets_append {operands others : List (Plan Gram)} :
    Meets text (operands ++ others) ↔ Meets text operands ∧ Meets text others :=
  List.forall_mem_append

theorem meets_cons {operand : Plan Gram} {operands : List (Plan Gram)} :
    Meets text (operand :: operands) ↔
      (operand.expand (default : Compiler).leaf).Satisfies (utf8 text) ∧ Meets text operands :=
  List.forall_mem_cons

theorem satisfies_alternation {alternatives : List (Plan Gram) × List (List (Plan Gram))} :
    ((Skeleton.alternation alternatives).expand (default : Compiler).leaf).Satisfies (utf8 text) ↔
      Meets text alternatives.1 ∨ ∃ operands ∈ alternatives.2, Meets text operands := by
  have hsay (operands : List (Plan Gram)) :
      (Plan.all operands).Holds
          (fun b => ((default : Compiler).leaf b).Satisfies (utf8 text)) ↔
        Meets text operands := by
    rw [Plan.holds_all]
    unfold Meets Plan.Satisfies
    simp only [Plan.holds_expand]
  rw [Skeleton.alternation, Plan.Satisfies, Plan.holds_expand, List.map_cons, Plan.holds_any]
  constructor
  · rintro ⟨p, hp, hholds⟩
    cases List.mem_cons.1 hp with
    | inl hp =>
      rw [hp] at hholds
      exact .inl ((hsay _).1 hholds)
    | inr hp =>
      obtain ⟨operands, hoperands, rfl⟩ := List.mem_map.1 hp
      exact .inr ⟨operands, hoperands, (hsay _).1 hholds⟩
  · intro h
    cases h with
    | inl h => exact ⟨_, List.mem_cons_self, (hsay _).2 h⟩
    | inr h =>
      obtain ⟨operands, hoperands, hholds⟩ := h
      exact ⟨_, List.mem_cons_of_mem _ (List.mem_map_of_mem hoperands), (hsay _).2 hholds⟩

/--
The text has the literal of a run that may match it.
-/
theorem Matched.meets (h : Matched text run i j)
    (hrun : ∀ item ∈ run, item.1.Fits ∧ AreMarks item.2)
    (hspelled : run.all isLiteralItem = true →
      ∀ item ∈ run, item.1 ≠ .escape '<' [] ∧ item.1 ≠ .escape '>' []) :
    Meets text (spanOperand (utf8 (runChars run))) := by
  unfold spanOperand
  split
  · simp [Meets]
  · rw [meets_cons, Plan.expand, Compiler.leaf]
    refine ⟨?_, by simp [Meets]⟩
    split
    · next hplain =>
      rw [← List.append_nil (utf8 (runChars run))] at hplain
      obtain ⟨hliteral, hunescape⟩ := run_of_plain hrun hplain
      rw [List.append_nil] at hunescape
      rw [hunescape]
      have hinfix := (h.literal_prefix hliteral (hspelled hliteral)).isInfix.trans
        (List.drop_suffix i text).isInfix
      have hnil : unescape [] = [] := rfl
      rw [hnil, List.append_nil]
      exact utf8_infix hinfix
    · trivial

theorem exists_of_repeated {marks : List Mark} {R : Nat → Nat → Prop}
    (hleast : ∀ m ∈ marks, 1 ≤ m.least) (h : Repeated marks R i j) : ∃ k l, R k l := by
  induction marks generalizing R with
  | nil => exact ⟨i, j, h⟩
  | cons m marks ih =>
    obtain ⟨hm, hmarks⟩ := List.forall_mem_cons.1 hleast
    obtain ⟨k, l, n, hn, htimes⟩ := ih hmarks h
    obtain ⟨n, rfl⟩ : ∃ n', n = n' + 1 := ⟨n - 1, by omega⟩
    obtain ⟨first, hfirst, _⟩ := htimes
    exact ⟨k, first, hfirst⟩

/--
A text satisfies the operands of an alternative that may match it, the first of which goes on from a
run of items before the place of the reading.
-/
theorem Reading.meets {t : Reading} (h : t.Fits) (hset : t.setsFlags = false)
    (hrun : ∀ item ∈ run, item.1.Fits ∧ AreMarks item.2)
    (hspelled : ∀ leaf ∈ t.leaves run, leaf.all isLiteralItem = true →
      ∀ item ∈ leaf, item.1 ≠ .escape '<' [] ∧ item.1 ≠ .escape '>' []) :
    (∀ i k j, Matched text run i k → t.First text k j →
      Meets text (t.skeleton.alternatives utf8 (utf8 (runChars run))).1) ∧
    (∀ i j, t.Later text i j →
      ∃ operands ∈ (t.skeleton.alternatives utf8 (utf8 (runChars run))).2,
        Meets text operands) := by
  have hnone : ∀ item ∈ ([] : List (Atom × List Mark)), item.1.Fits ∧ AreMarks item.2 := by simp
  -- Whether items are a literal is known only where their run ends, so the run is carried along.
  induction t generalizing run with
  | done =>
    refine ⟨fun i k j hmatched _ => hmatched.meets hrun ?_, fun i j hlater => hlater.elim⟩
    exact hspelled run (List.mem_singleton_self run)
  | item atom marks rest ih =>
    obtain ⟨hatom, hmarks, hrest⟩ := h
    have hchars : utf8 (runChars run) ++ utf8 (atom.chars ++ marks.flatMap Mark.chars) =
        utf8 (runChars (run ++ [(atom, marks)])) := by
      rw [← utf8_append]
      simp [runChars]
    have hrun' : ∀ item ∈ run ++ [(atom, marks)], item.1.Fits ∧ AreMarks item.2 :=
      List.forall_mem_append.2 ⟨hrun, by simpa using ⟨hatom, hmarks⟩⟩
    obtain ⟨hfirst, hlater⟩ := ih hrest hset hrun' hspelled
    rw [skeleton, Skeleton.alternatives, hchars]
    refine ⟨?_, hlater⟩
    rintro i k j hmatched ⟨m, hitem, hthen⟩
    exact hfirst i m j (hmatched.concat hitem) hthen
  | bar rest ih =>
    obtain ⟨hfirst, hlater⟩ := ih h hset hnone fun leaf hleaf =>
      hspelled leaf (List.mem_cons_of_mem run hleaf)
    rw [skeleton, Skeleton.alternatives]
    refine ⟨fun i k j hmatched _ => hmatched.meets hrun ?_, ?_⟩
    · exact hspelled run List.mem_cons_self
    · rintro i j (hthen | hthen)
      · exact ⟨_, List.mem_cons_self, hfirst i i j rfl hthen⟩
      · obtain ⟨operands, hoperands, hmeets⟩ := hlater i j hthen
        exact ⟨operands, List.mem_cons_of_mem _ hoperands, hmeets⟩
  | group head body marks rest ihbody ih =>
    obtain ⟨hhead, hbody, hmarks, hrest⟩ := h
    obtain ⟨hsetBody, hsetRest⟩ := Bool.or_eq_false_iff.1 hset
    obtain ⟨hfirst, hlater⟩ := ih hrest hsetRest hnone fun leaf hleaf =>
      hspelled leaf (List.mem_append_right _ hleaf)
    rw [skeleton, Skeleton.alternatives]
    refine ⟨?_, hlater⟩
    rintro i k j hmatched ⟨m, hgroup, hthen⟩
    refine meets_append.2 ⟨hmatched.meets hrun (hspelled run List.mem_cons_self), meets_cons.2 ⟨?_,
      hfirst m m j rfl hthen⟩⟩
    -- The plan has the body in it only if every quantifier asks for it, and then it was matched.
    split
    · next hspeaks =>
      rw [Skeleton.speaks, Bool.and_eq_true] at hspeaks
      have hleast := hmarks.quantifies.2 hspeaks.2
      have hrequired : (marks.all fun m => 1 ≤ m.least) = true := by
        simpa using hleast
      obtain ⟨hfirstBody, hlaterBody⟩ := ihbody hbody hsetBody hnone fun leaf hleaf => by
        apply hspelled leaf
        rw [leaves, if_pos hrequired]
        exact List.mem_append_left _ (List.mem_cons_of_mem run hleaf)
      obtain ⟨a, b, hinside⟩ := exists_of_repeated hleast hgroup
      exact satisfies_alternation.2 (hinside.imp (hfirstBody a a b rfl) (hlaterBody a b))
    · trivial
  | flagged flags text' marks rest ih =>
    obtain ⟨hflags, hmarks, hrest⟩ := h
    obtain ⟨hfirst, hlater⟩ := ih hrest hset hnone fun leaf hleaf =>
      hspelled leaf (List.mem_cons_of_mem run hleaf)
    rw [skeleton, Skeleton.alternatives]
    refine ⟨?_, hlater⟩
    rintro i k j hmatched ⟨m, hthen⟩
    refine meets_append.2 ⟨hmatched.meets hrun (hspelled run List.mem_cons_self), meets_cons.2 ⟨?_,
      hfirst m m j rfl hthen⟩⟩
    have hnone : groupBody? ((utf8 ('(' :: '?' :: flags ++ [':'])).tail ++
        (Skeleton.atom text' .nil).print utf8) = none := by
      have htail : (utf8 ('(' :: '?' :: flags ++ [':'])).tail = utf8 ('?' :: flags ++ [':']) := rfl
      rw [htail, utf8_append, List.append_assoc]
      exact hflags.groupBody?_eq_none _
    rw [Skeleton.speaks, hnone]
    trivial
  | setFlags => cases hset

/--
A text that the reading of a pattern allows satisfies the plan of the pattern.
-/
theorem Reading.satisfies_compileBytes {t : Reading} (h : t.Fits) (hstep : t.InStep)
    (hallows : t.Allows text i j) :
    ((default : Compiler).compileBytes (utf8 t.chars)).Satisfies (utf8 text) := by
  unfold Compiler.compileBytes
  split
  · trivial
  · next hflags =>
    have hset : t.setsFlags = false := by
      rw [Bool.eq_false_iff]
      intro hset
      apply hflags
      rw [hasInlineFlags, ← List.append_nil (utf8 t.chars)]
      exact t.hasInlineFlags_of_setsFlags h hstep.aligned hset []
    rw [← t.print_skeleton, Skeleton.outline_print (t.wellFormed h hstep.aligned hset),
      satisfies_alternation]
    obtain ⟨hfirst, hlater⟩ := t.meets h hset (by simp) hstep.spelled
    exact hallows.imp (hfirst i i j rfl) (hlater i j)

end Satisfies

end GramIndex.Pattern
