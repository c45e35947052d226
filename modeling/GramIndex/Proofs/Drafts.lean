import GramIndex.Proofs.Levels
import GramIndex.Proofs.Tokens
import Mathlib.Data.List.Chain

/-!
This module contains how the parts of patterns are put together to readings. The parts are gone over
from the last one to the first one, since quantifiers stand behind what they belong to.
-/

namespace GramIndex

namespace Pattern

/--
What is read of a group from some place on.
-/
structure Draft where
  /-- The quantifiers that belong to what is before the place. -/
  marks : List Mark
  reading : Reading
  deriving DecidableEq, Repr

def Draft.chars (d : Draft) : List Char :=
  d.marks.flatMap Mark.chars ++ d.reading.chars

/--
Put a part before what is read of the innermost group and of those around it.
-/
def Part.before? : Part → Draft × List Draft → Option (Draft × List Draft)
  | .atom a, (d, outer) => some (⟨[], .item a d.marks d.reading⟩, outer)
  | .mark m, (d, outer) => some (⟨m :: d.marks, d.reading⟩, outer)
  | .bar, (⟨[], t⟩, outer) => some (⟨[], .bar t⟩, outer)
  | .openGroup head, (⟨[], t⟩, d :: outer) =>
    some (⟨[], .group head t d.marks d.reading⟩, outer)
  | .openFlagged flags, (⟨[], t⟩, d :: outer) =>
    some (⟨[], .flagged flags t.chars d.marks d.reading⟩, outer)
  | .closeGroup, (d, outer) => some (⟨[], .done⟩, d :: outer)
  | .setFlags flags, (⟨[], t⟩, outer) => some (⟨[], .setFlags flags t.chars⟩, outer)
  | _, _ => none

def drafts? : List Part → Option (Draft × List Draft)
  | [] => some (⟨[], .done⟩, [])
  | p :: parts => (drafts? parts).bind p.before?

/--
The reading that has the given parts. All groups of it have ends, and no quantifier is left over.
-/
def ofParts? (parts : List Part) : Option Reading :=
  match drafts? parts with
  | some (⟨[], t⟩, []) => some t
  | _ => none

section Chars

variable {p : Part} {parts : List Part} {d d' : Draft} {outer outer' : List Draft}

theorem chars_before? (h : p.before? (d, outer) = some (d', outer')) :
    d'.chars ++ outer'.flatMap (')' :: ·.chars) =
      p.chars ++ (d.chars ++ outer.flatMap (')' :: ·.chars)) := by
  obtain ⟨marks, t⟩ := d
  cases p with
  | atom | mark | closeGroup =>
    cases h
    simp [Draft.chars, Reading.chars, Part.chars]
  | bar | setFlags =>
    cases marks with
    | nil =>
      cases h
      simp [Draft.chars, Reading.chars, Part.chars]
    | cons => cases h
  | openGroup | openFlagged =>
    cases marks with
    | nil =>
      cases outer with
      | nil => cases h
      | cons =>
        cases h
        simp [Draft.chars, Reading.chars, Part.chars]
    | cons => cases h

theorem chars_drafts? (h : drafts? parts = some (d, outer)) :
    d.chars ++ outer.flatMap (')' :: ·.chars) = parts.flatMap Part.chars := by
  induction parts generalizing d outer with
  | nil =>
    cases h
    rfl
  | cons p parts ih =>
    obtain ⟨⟨next, others⟩, hnext, hbefore⟩ := Option.bind_eq_some_iff.1 h
    rw [chars_before? hbefore, ih hnext, List.flatMap_cons]

end Chars

section Fits

def Part.Fits : Part → Prop
  | .atom a => a.Fits
  | .mark m => IsMark m.least m.sign
  | .openGroup head => head.Fits
  | .openFlagged flags => AreFlags flags
  | .setFlags flags => AreFlags flags
  | _ => True

/--
Two parts that may stand one after the other.
-/
def Part.Apart (p next : Part) : Prop :=
  ∀ m m', p = .mark m → next = .mark m' → m'.sign = ['?'] → m.isLazy = true

structure Draft.Fits (d : Draft) : Prop where
  marks : AreMarks d.marks
  reading : d.reading.Fits

variable {p : Part} {parts : List Part} {d d' : Draft} {outer outer' : List Draft}

theorem areMarks_nil : AreMarks [] where
  valid := by simp
  apart := .nil

/--
Quantifiers that are left over are the first parts.
-/
theorem head?_of_drafts? (h : drafts? parts = some (d, outer)) {m : Mark}
    (hm : d.marks.head? = some m) : parts.head? = some (.mark m) := by
  cases parts with
  | nil =>
    cases h
    cases hm
  | cons p parts =>
    obtain ⟨⟨⟨marks, t⟩, others⟩, _, hbefore⟩ := Option.bind_eq_some_iff.1 h
    cases p with
    | mark m' =>
      cases hbefore
      cases hm
      rfl
    | atom | closeGroup =>
      cases hbefore
      cases hm
    | bar | setFlags =>
      cases marks <;> cases hbefore
      cases hm
    | openGroup | openFlagged =>
      cases marks <;> cases others <;> cases hbefore
      cases hm

theorem fits_before? (h : p.before? (d, outer) = some (d', outer')) (hp : p.Fits)
    (hd : ∀ e ∈ d :: outer, e.Fits)
    (hapart : ∀ m next, p = .mark m → d.marks.head? = some next → next.sign = ['?'] →
      m.isLazy = true) : ∀ e ∈ d' :: outer', e.Fits := by
  obtain ⟨hfirst, houter⟩ := List.forall_mem_cons.1 hd
  obtain ⟨marks, t⟩ := d
  cases p with
  | atom a =>
    cases h
    exact List.forall_mem_cons.2 ⟨⟨areMarks_nil, hp, hfirst.marks, hfirst.reading⟩, houter⟩
  | mark m =>
    cases h
    refine List.forall_mem_cons.2 ⟨⟨⟨?_, ?_⟩, hfirst.reading⟩, houter⟩
    · exact List.forall_mem_cons.2 ⟨hp, hfirst.marks.valid⟩
    -- A question mark here would have been read with the quantifier before it.
    · refine List.isChain_cons.2 ⟨?_, hfirst.marks.apart⟩
      intro next hnext
      exact hapart m next rfl hnext
  | closeGroup =>
    cases h
    exact List.forall_mem_cons.2 ⟨⟨areMarks_nil, trivial⟩, hd⟩
  | bar =>
    cases marks <;> cases h
    exact List.forall_mem_cons.2 ⟨⟨areMarks_nil, hfirst.reading⟩, houter⟩
  | setFlags flags =>
    cases marks <;> cases h
    exact List.forall_mem_cons.2 ⟨⟨areMarks_nil, hp⟩, houter⟩
  | openGroup head =>
    cases marks <;> cases outer <;> cases h
    obtain ⟨hrest, houter⟩ := List.forall_mem_cons.1 houter
    exact List.forall_mem_cons.2
      ⟨⟨areMarks_nil, hp, hfirst.reading, hrest.marks, hrest.reading⟩, houter⟩
  | openFlagged flags =>
    cases marks <;> cases outer <;> cases h
    obtain ⟨hrest, houter⟩ := List.forall_mem_cons.1 houter
    exact List.forall_mem_cons.2 ⟨⟨areMarks_nil, hp, hrest.marks, hrest.reading⟩, houter⟩

theorem fits_drafts? (h : drafts? parts = some (d, outer)) (hparts : ∀ p ∈ parts, p.Fits)
    (hapart : parts.IsChain Part.Apart) : ∀ e ∈ d :: outer, e.Fits := by
  induction parts generalizing d outer with
  | nil =>
    cases h
    exact List.forall_mem_cons.2 ⟨⟨areMarks_nil, trivial⟩, by simp⟩
  | cons p parts ih =>
    obtain ⟨hp, hparts⟩ := List.forall_mem_cons.1 hparts
    obtain ⟨hfirst, hapart⟩ := List.isChain_cons.1 hapart
    obtain ⟨⟨next, others⟩, hnext, hbefore⟩ := Option.bind_eq_some_iff.1 h
    apply fits_before? hbefore hp (ih hnext hparts hapart)
    intro m m' hm hhead
    exact hfirst (.mark m') (head?_of_drafts? hnext hhead) m m' hm rfl

end Fits

theorem ofParts?_eq_some_iff {parts : List Part} {t : Reading} :
    ofParts? parts = some t ↔ drafts? parts = some (⟨[], t⟩, []) := by
  unfold ofParts?
  split
  · next h =>
    rw [h]
    simp
  · next hnot =>
    constructor
    · intro h
      cases h
    · intro h
      exact absurd h (hnot t)

end Pattern

namespace Regex

open Pattern

variable {symbols : List Symbol} {pieces : List (Token × Part)}

/--
The characters of the symbols before the ones that are left.
-/
def own (symbols rest : List Symbol) : List Char :=
  (symbols.take (symbols.length - rest.length)).flatMap Symbol.chars

/--
Cut a whole pattern into tokens, each with the part that it is.
-/
def pieces? (symbols : List Symbol) : Option (List (Token × Part)) :=
  if symbols.isEmpty then
    some []
  else
    match _h : Token.first? symbols with
    | some (t, rest) =>
      (pieces? rest).map ((t, t.part (own symbols rest)) :: ·)
    | none => none
termination_by symbols.length
decreasing_by exact Token.first?_length _h

/--
How this library reads a pattern.
-/
def read? (pattern : String) : Option Reading :=
  ((Symbol.ofChars? pattern.toList).bind pieces?).bind (ofParts? <| ·.map Prod.snd)

theorem all?_eq : Token.all? symbols = (pieces? symbols).map (·.map Prod.fst) := by
  fun_induction pieces? symbols with
  | case1 symbols hempty => rw [Token.all?, if_pos hempty, Option.map_some, List.map_nil]
  | case2 symbols hempty t rest hfirst ih =>
    rw [Token.all?, if_neg hempty]
    split
    · next hfirst' =>
      cases hfirst.symm.trans hfirst'
      rw [ih, Option.map_map, Option.map_map]
      rfl
    · next hnone => cases hfirst.symm.trans hnone
  | case3 symbols hempty hfirst =>
    rw [Token.all?, if_neg hempty]
    split
    · next hsome => cases hfirst.symm.trans hsome
    · rfl

/--
Pieces that patterns are cut into.
-/
structure ArePieces (pieces : List (Token × Part)) (symbols : List Symbol) : Prop where
  chars : pieces.flatMap (·.2.chars) = symbols.flatMap Symbol.chars
  parts : ∀ piece ∈ pieces, Token.IsPart piece.1 piece.2
  apart : (pieces.map Prod.snd).IsChain Part.Apart

theorem Symbol.head?_of_flatMap {c : Char} {cs : List Char} (h : symbols.flatMap chars = c :: cs)
    (hc : c ≠ '\\') : symbols.head? = some (.plain c) := by
  cases symbols with
  | nil => cases h
  | cons s symbols =>
    cases s with
    | plain d =>
      cases h
      rfl
    | escaped d =>
      cases h
      exact absurd rfl hc

theorem Token.Looks.partApart {t : Token} {own rest : List Symbol} (h : Looks t own rest)
    {next : Part} {others : List Char}
    (hrest : rest.flatMap Symbol.chars = next.chars ++ others) :
    (t.part (own.flatMap Symbol.chars)).Apart next := by
  intro m m' hm hnext hsign
  have hpart := h.part
  rw [hm] at hpart
  cases hpart with
  | @mark least most isLazy sign hmark =>
    cases isLazy with
    | true => rfl
    | false =>
      refine absurd ?_ (h.apart least most rfl)
      apply Symbol.head?_of_flatMap _ (by decide)
      · exact (if m'.isLazy then ['?'] else []) ++ others
      · rw [hrest, hnext, Part.chars, Mark.chars, hsign]
        rfl

theorem arePieces_of_pieces? (h : pieces? symbols = some pieces) (hslash : .plain '\\' ∉ symbols) :
    ArePieces pieces symbols := by
  fun_induction pieces? symbols generalizing pieces with
  | case1 symbols hempty =>
    cases h
    rw [List.isEmpty_iff.1 hempty]
    exact ⟨rfl, by simp, .nil⟩
  | case2 symbols hempty t rest hfirst ih =>
    obtain ⟨others, hothers, rfl⟩ := Option.map_eq_some_iff.1 h
    obtain ⟨front, hsymbols, hlooks⟩ := Token.looks_first hfirst hslash
    have hown : own symbols rest = front.flatMap Symbol.chars := by
      rw [own, hsymbols, List.length_append, Nat.add_sub_cancel, List.take_left]
    rw [hown]
    rw [hsymbols, List.mem_append, not_or] at hslash
    have hrest := ih hothers hslash.2
    refine ⟨?_, List.forall_mem_cons.2 ⟨hlooks.part, hrest.parts⟩, ?_⟩
    · rw [List.flatMap_cons, hsymbols, List.flatMap_append, hrest.chars, hlooks.chars]
    · refine List.isChain_cons.2 ⟨?_, hrest.apart⟩
      intro next hnext
      obtain ⟨parts, hparts⟩ := List.head?_eq_some_iff.1 hnext
      apply hlooks.partApart
      · rw [← hrest.chars, ← List.flatMap_map Prod.snd Part.chars, hparts, List.flatMap_cons]
  | case3 => cases h

theorem lt_of_ofChar? {c : Char} {e : Escape} (h : Escape.ofChar? c = some e) : c.toNat < 128 := by
  unfold Escape.ofChar? at h
  split at h
  all_goals try decide
  split at h
  · next hascii =>
    simp only [Bool.and_eq_true, decide_eq_true_eq] at hascii
    exact hascii.1
  · cases h

theorem Token.IsAtom.fits {t : Token} {a : Atom} (h : IsAtom t a) : a.Fits := by
  cases h with
  | char h => exact h
  | any | start | stop => simp [Atom.Fits, signs]
  | escape h => exact ⟨lt_of_ofChar? h, by simp, by simp⟩
  | bracket h => exact h

theorem Token.IsPart.fits {t : Token} {p : Part} (h : IsPart t p) : p.Fits := by
  cases h with
  | atom h => exact h.fits
  | mark h => exact h
  | openGroup h => exact h
  | openFlagged h => exact h
  | setFlags h => exact h
  | bar | closeGroup => trivial

theorem fits_of_read? {pattern : String} {t : Reading} (h : read? pattern = some t) :
    t.chars = pattern.toList ∧ t.Fits := by
  obtain ⟨pieces, hbind, hparts⟩ := Option.bind_eq_some_iff.1 h
  obtain ⟨symbols, hsymbols, hpieces⟩ := Option.bind_eq_some_iff.1 hbind
  obtain ⟨hchars, hslash⟩ := chars_ofChars? hsymbols
  have hare := arePieces_of_pieces? hpieces hslash
  have hdrafts := ofParts?_eq_some_iff.1 hparts
  constructor
  · have hall := chars_drafts? hdrafts
    rw [List.flatMap_map, hare.chars, hchars] at hall
    simpa [Draft.chars] using hall
  · have hfits := fits_drafts? hdrafts
      (List.forall_mem_map.2 fun piece hpiece => (hare.parts piece hpiece).fits) hare.apart
    exact (hfits _ List.mem_cons_self).reading

end Regex

end GramIndex
