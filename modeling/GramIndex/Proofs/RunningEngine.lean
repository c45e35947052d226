import GramIndex.Proofs.Drafts
import GramIndex.Proofs.Search

/-!
This module contains that the engine of this library keeps to what engines document: its levels
match no more than the readings of the patterns allow.
-/

namespace GramIndex.Regex

open Pattern

section Repeated

variable {R S : Nat → Nat → Prop} {marks : List Mark} {i j : Nat}

theorem repeated_mono (hsub : ∀ i j, R i j → S i j) (h : Repeated marks R i j) :
    Repeated marks S i j := by
  induction marks generalizing R S with
  | nil => exact hsub i j h
  | cons m marks ih =>
    apply ih _ h
    rintro i j ⟨n, hn, htimes⟩
    exact ⟨n, hn, htimes.mono hsub⟩

end Repeated

section Atoms

variable {text : List Char} {i j : Nat}

theorem ofChar?_of_symbol {c : Char} {e : Escape} (h : Escape.ofChar? c = some e)
    (halnum : c.isAlphanum = false) (hangle : isAngle c = false) : e = .char c := by
  unfold Escape.ofChar? at h
  split at h
  all_goals try exact absurd halnum (by decide)
  · exact absurd hangle (by decide)
  · exact absurd hangle (by decide)
  · split at h
    · exact (Option.some.inj h).symm
    · cases h

/--
What an atom matches while case matters.
-/
theorem allows_of_atom? {flags : Flags} {t : Token} {a : Atom} {r : Regex} (hatom : t.IsAtom a)
    (hr : Level.atom? flags t = some r) (hcase : flags.ignoreCase = false)
    (h : r.Spans text i j) : a.Allows text i j := by
  have hsingle {c : Char} (hr : Level.atom? flags (.char c) = some r) :
      j = i + 1 ∧ text[i]? = some c := by
    have hread : Level.atom? flags (.char c) = some (.one flags.ignoreCase (.single c)) := rfl
    rw [hread, hcase, Option.some.injEq] at hr
    rw [← hr] at h
    exact spans_single.1 h
  intro d hd
  cases hatom with
  | char =>
    cases hd
    exact hsingle hr
  | @escape c e he =>
    simp only [Atom.char?] at hd
    split at hd
    · cases hd
    · next hsymbol =>
      cases hd
      rw [Bool.not_eq_true, Bool.or_eq_false_iff] at hsymbol
      rw [ofChar?_of_symbol he hsymbol.1 hsymbol.2] at hr
      exact hsingle hr
  | any | start | stop | bracket => cases hd

end Atoms

section Closes

variable {text : List Char} {level last inner : Level} {around : List Level} {d e : Draft}
  {drafts : List Draft} {i j : Nat} {r : Nested Regex}

/--
Items, of which the last one has more quantifiers to come.
-/
def Ahead (text : List Char) (marks : List Mark) : List (Nested Regex) → Nat → Nat → Prop
  | [], i, j => i = j
  | r :: before, i, j => ∃ k, Joined text before i k ∧ Repeated marks (r.value.Spans text) k j

theorem ahead_of_joined {items : List (Nested Regex)} (h : Joined text items i j) :
    Ahead text [] items i j := by
  cases items with
  | nil => exact h.1
  | cons r before => exact h

/--
What an open level may match that goes on as a draft says.
-/
inductive Goes (text : List Char) (level : Level) (d : Draft) (i j : Nat) : Prop where
  | before (a : Nested Regex) (ha : a ∈ level.alternatives) (h : a.value.Spans text i j)
  | first (k : Nat) (hitems : Ahead text d.marks level.items i k)
    (h : d.reading.First text k j)
  | later (h : d.reading.Later text i j)

/--
An open level becomes the level `last` by what a draft says.
-/
structure Closes (level : Level) (d : Draft) (last : Level) : Prop where
  /-- Quantifiers belong to an item. -/
  marks : d.marks ≠ [] → level.repeatable = true
  goes : level.flags.ignoreCase = false → ∀ text i j, last.close.value.Spans text i j →
    Goes text level d i j

/--
Open levels become an expression by what the drafts for them say.
-/
def Follows (r : Nested Regex) : Level → List Level → Draft → List Draft → Prop
  | level, [], d, [] => ∃ last, Closes level d last ∧ last.close = r
  | level, outer :: around, d, e :: drafts =>
    ∃ last, Closes level d last ∧ Follows r (outer.pushGroup last) around e drafts
  | _, _, _, _ => False

theorem Follows.imp {level' : Level} {d' : Draft} (h : Follows r level' around d' drafts)
    (hcloses : ∀ last, Closes level' d' last → Closes level d last) :
    Follows r level around d drafts := by
  cases around with
  | nil =>
    cases drafts with
    | nil =>
      obtain ⟨last, hlast, hr⟩ := h
      exact ⟨last, hcloses last hlast, hr⟩
    | cons => cases h
  | cons outer around =>
    cases drafts with
    | nil => cases h
    | cons e drafts =>
      obtain ⟨last, hlast, hrest⟩ := h
      exact ⟨last, hcloses last hlast, hrest⟩

theorem Follows.marks_eq_nil (h : Follows r level around d drafts)
    (hrepeatable : level.repeatable = false) : d.marks = [] := by
  obtain ⟨last, hlast⟩ : ∃ last, Closes level d last := by
    cases around with
    | nil =>
      cases drafts with
      | nil => exact Exists.imp (fun _ => And.left) h
      | cons => cases h
    | cons =>
      cases drafts with
      | nil => cases h
      | cons => exact Exists.imp (fun _ => And.left) h
  by_contra hne
  have hsome := hlast.marks hne
  rw [hrepeatable] at hsome
  cases hsome

theorem closes_done : Closes level ⟨[], .done⟩ level where
  marks := fun h => absurd rfl h
  goes := by
    intro _ text i j h
    obtain hitems | ⟨a, ha, hspans⟩ := Level.joined_of_close h
    · exact .first j (ahead_of_joined hitems) rfl
    · exact .before a ha hspans

theorem closes_item {a : Atom} {s : Nested Regex} (h : Closes (level.push s) d last)
    (ha : level.flags.ignoreCase = false → ∀ text i j, s.value.Spans text i j → a.Allows text i j) :
    Closes level ⟨[], .item a d.marks d.reading⟩ last where
  marks := fun hne => absurd rfl hne
  goes := by
    intro hcase text i j hspans
    cases h.goes hcase text i j hspans with
    | before b hb hspans => exact .before b hb hspans
    | first k hitems hrest =>
      obtain ⟨m, hjoined, hrepeated⟩ := hitems
      exact .first m (ahead_of_joined hjoined)
        ⟨k, repeated_mono (ha hcase text) hrepeated, hrest⟩
    | later hlater => exact .later hlater

theorem closes_mark {m : Mark} {most : Option Nat} {level' : Level}
    (hquantify : level.quantify? m.least most m.isLazy = some level')
    (h : Closes level' d last) : Closes level ⟨m :: d.marks, d.reading⟩ last := by
  unfold Level.quantify? at hquantify
  split at hquantify
  · next s items hrepeatable hlevel =>
    cases hquantify
    refine ⟨fun _ => hrepeatable, ?_⟩
    intro hcase text i j hspans
    cases h.goes hcase text i j hspans with
    | before b hb hspans => exact .before b hb hspans
    | first k hitems hrest =>
      obtain ⟨l, hjoined, hrepeated⟩ := hitems
      have hall : Repeated d.marks
          (fun i j => ∃ n, m.least ≤ n ∧ Times (s.value.Spans text) n i j) l k :=
        repeated_mono (fun _ _ => times_of_replicate) hrepeated
      refine .first k ?_ hrest
      rw [hlevel]
      exact ⟨l, hjoined, hall⟩
    | later hlater => exact .later hlater
  · cases hquantify

theorem closes_bar (h : Closes level.bar d last) : Closes level ⟨[], .bar d.reading⟩ last where
  marks := fun hne => absurd rfl hne
  goes := by
    intro hcase text i j hspans
    cases h.goes hcase text i j hspans with
    | before b hb hspans =>
      cases hb with
      | head => exact .first j (ahead_of_joined (spans_join_seq.1 hspans)) rfl
      | tail _ hb => exact .before b hb hspans
    | first k hitems hrest =>
      obtain rfl : i = k := hitems
      exact .later (.inl hrest)
    | later hlater => exact .later (.inr hlater)

theorem closes_setFlags {flags text : List Char} {last : Level} :
    Closes level ⟨[], .setFlags flags text⟩ last where
  marks := fun hne => absurd rfl hne
  goes := fun _ _ _ _ _ => .later trivial

/--
A level that is just open matches what the reading of it allows.
-/
theorem allows_of_closes {captures : Bool} {flags : Flags}
    (h : Closes (.start captures flags) d last) (hcase : flags.ignoreCase = false)
    (hspans : last.close.value.Spans text i j) : d.reading.Allows text i j := by
  cases h.goes hcase text i j hspans with
  | before b hb => cases hb
  | first k hitems hrest =>
    obtain rfl : i = k := hitems
    exact .inl hrest
  | later hlater => exact .inr hlater

theorem closes_group {h' : GroupHead} {head : Head} (hkeeps : Token.KeepsFlags h')
    (hinner : Closes (level.inside h') d inner)
    (h : Closes (level.pushGroup inner) e last) :
    Closes level ⟨[], .group head d.reading e.marks e.reading⟩ last where
  marks := fun hne => absurd rfl hne
  goes := by
    intro hcase text i j hspans
    cases h.goes hcase text i j hspans with
    | before b hb hspans => exact .before b hb hspans
    | first k hitems hrest =>
      obtain ⟨m, hjoined, hrepeated⟩ := hitems
      refine .first m (ahead_of_joined hjoined) ⟨k, repeated_mono ?_ hrepeated, hrest⟩
      intro i j hbody
      cases h' with
      | capture => exact allows_of_closes hinner hcase hbody
      | plain change =>
        cases hkeeps
        exact allows_of_closes hinner hcase hbody
    | later hlater => exact .later hlater

theorem closes_flagged {flags text : List Char} (h : Closes (level.pushGroup inner) e last) :
    Closes level ⟨[], .flagged flags text e.marks e.reading⟩ last where
  marks := fun hne => absurd rfl hne
  goes := by
    intro hcase text i j hspans
    cases h.goes hcase text i j hspans with
    | before b hb hspans => exact .before b hb hspans
    | first k hitems hrest =>
      obtain ⟨m, hjoined, _⟩ := hitems
      exact .first m (ahead_of_joined hjoined) ⟨k, hrest⟩
    | later hlater => exact .later hlater

end Closes

section Steps

variable {level : Level} {around : List Level} {tokens : List Token} {r : Nested Regex}

theorem exists_atom? {t : Token} {a : Atom} (h : t.IsAtom a) (flags : Flags) :
    ∃ s, Level.atom? flags t = some s := by
  cases h with
  | @escape c e he => cases e <;> exact ⟨_, rfl⟩
  | char | any | start | stop | bracket => exact ⟨_, rfl⟩

theorem repeatable_inside (h : GroupHead) : (level.inside h).repeatable = false := by
  cases h <;> rfl

/--
A token leaves levels open. Where drafts say how these go on, so do the drafts with the part that
the token is before them.
-/
theorem exists_before? {t : Token} {p : Part} (hpart : t.IsPart p)
    (h : ofTokens? level around (t :: tokens) = some r) :
    ∃ level' around', ofTokens? level' around' tokens = some r ∧
      ∀ d drafts, Follows r level' around' d drafts →
        ∃ d' drafts', p.before? (d, drafts) = some (d', drafts') ∧
          Follows r level around d' drafts' := by
  cases hpart with
  | atom hatom =>
    obtain ⟨s, hs⟩ := exists_atom? hatom level.flags
    rw [ofTokens?_atom hs] at h
    refine ⟨_, _, h, fun d drafts hfollows => ⟨_, _, rfl, hfollows.imp fun last hlast => ?_⟩⟩
    exact closes_item hlast fun hcase text i j => allows_of_atom? hatom hs hcase
  | @mark least most isLazy sign hmark =>
    rw [ofTokens?] at h
    split at h
    · next level' hquantify =>
      refine ⟨_, _, h, fun d drafts hfollows => ⟨_, _, rfl, hfollows.imp fun last hlast => ?_⟩⟩
      exact closes_mark hquantify hlast
    · cases h
  | bar =>
    rw [ofTokens?] at h
    refine ⟨_, _, h, ?_⟩
    rintro ⟨marks, reading⟩ drafts hfollows
    obtain rfl : marks = [] := hfollows.marks_eq_nil rfl
    exact ⟨_, _, rfl, hfollows.imp fun last => closes_bar⟩
  | @setFlags change flags hflags =>
    rw [ofTokens?] at h
    refine ⟨_, _, h, ?_⟩
    rintro ⟨marks, reading⟩ drafts hfollows
    obtain rfl : marks = [] := hfollows.marks_eq_nil rfl
    exact ⟨_, _, rfl, hfollows.imp fun last _ => closes_setFlags⟩
  | closeGroup =>
    cases around with
    | nil => cases h
    | cons outer around =>
      refine ⟨_, _, h, fun d drafts hfollows => ⟨_, _, rfl, ?_⟩⟩
      exact ⟨level, closes_done, hfollows⟩
  | @openGroup h' head _ hkeeps =>
    rw [ofTokens?_openGroup] at h
    refine ⟨_, _, h, ?_⟩
    rintro ⟨marks, reading⟩ drafts hfollows
    obtain rfl : marks = [] := hfollows.marks_eq_nil (repeatable_inside h')
    cases drafts with
    | nil => cases hfollows
    | cons e drafts =>
      obtain ⟨inner, hinner, hfollows⟩ := hfollows
      refine ⟨_, _, rfl, hfollows.imp fun last hlast => ?_⟩
      exact closes_group hkeeps hinner hlast
  | @openFlagged change flags hflags =>
    rw [ofTokens?_openGroup] at h
    refine ⟨_, _, h, ?_⟩
    rintro ⟨marks, reading⟩ drafts hfollows
    obtain rfl : marks = [] := hfollows.marks_eq_nil rfl
    cases drafts with
    | nil => cases hfollows
    | cons e drafts =>
      obtain ⟨inner, hinner, hfollows⟩ := hfollows
      exact ⟨_, _, rfl, hfollows.imp fun last => closes_flagged⟩

theorem exists_follows {pieces : List (Token × Part)} {level : Level} {around : List Level}
    (hparts : ∀ piece ∈ pieces, Token.IsPart piece.1 piece.2)
    (h : ofTokens? level around (pieces.map Prod.fst) = some r) :
    ∃ d drafts, drafts? (pieces.map Prod.snd) = some (d, drafts) ∧
      Follows r level around d drafts := by
  -- Levels are opened from the front and drafts put together from the back: each step hands its
  -- levels on to the rest, which hands its drafts back.
  induction pieces generalizing level around with
  | nil =>
    rw [List.map_nil, ofTokens?] at h
    split at h
    · next hnone =>
      rw [List.isEmpty_iff.1 hnone]
      exact ⟨_, _, rfl, level, closes_done, Option.some.inj h⟩
    · cases h
  | cons piece pieces ih =>
    obtain ⟨hpiece, hparts⟩ := List.forall_mem_cons.1 hparts
    obtain ⟨level', around', hrest, hbefore⟩ := exists_before? hpiece h
    obtain ⟨d, drafts, hd, hfollows⟩ := ih hparts hrest
    obtain ⟨d', drafts', hd', hfollows'⟩ := hbefore d drafts hfollows
    refine ⟨d', drafts', ?_, hfollows'⟩
    rw [List.map_cons, drafts?, hd, Option.bind_some, hd']

theorem exists_read? {pattern : String} {s : Regex} (h : ofPattern? pattern.toList = some s) :
    ∃ t, read? pattern = some t ∧ ∀ text i j, s.Spans text i j → t.Allows text i j := by
  obtain ⟨symbols, tokens, part, hsymbols, hall, _, htokens, _, rfl⟩ :=
    ofPattern?_eq_some_iff.1 h
  rw [all?_eq] at hall
  obtain ⟨pieces, hpieces, rfl⟩ := Option.map_eq_some_iff.1 hall
  obtain ⟨hchars, hslash⟩ := chars_ofChars? hsymbols
  obtain ⟨⟨marks, t⟩, drafts, hdrafts, hfollows⟩ :=
    exists_follows (arePieces_of_pieces? hpieces hslash).parts htokens
  obtain rfl : marks = [] := hfollows.marks_eq_nil rfl
  cases drafts with
  | cons => cases hfollows
  | nil =>
    obtain ⟨last, hlast, rfl⟩ := hfollows
    refine ⟨t, ?_, fun text i j => allows_of_closes hlast rfl⟩
    rw [read?, hsymbols, Option.bind_some, hpieces, Option.bind_some]
    exact ofParts?_eq_some_iff.2 hdrafts

end Steps

theorem ofPattern?_of_build {limit : Nat} {pattern : String} {r : Regex}
    (h : engine.build limit pattern = .ok r) : ofPattern? pattern.toList = some r := by
  simp only [engine] at h
  split at h
  · cases h
  · next hr =>
    split at h
    · cases h
    · cases h
      exact hr

/--
The engine of this library keeps to what engines document.
-/
theorem documented_engine : engine.Documented read? where
  reads := by
    intro limit pattern r h
    obtain ⟨t, ht, _⟩ := exists_read? (ofPattern?_of_build h)
    rw [ht]
    rfl
  fits := fits_of_read?
  allows := by
    intro limit pattern text r t h ht hmatch
    obtain ⟨t', ht', hallows⟩ := exists_read? (ofPattern?_of_build h)
    cases ht.symm.trans ht'
    obtain ⟨i, j, hspans⟩ := matches_of_isMatch hmatch
    exact ⟨i, j, hallows _ i j hspans⟩

end GramIndex.Regex
