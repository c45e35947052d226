import GramIndex.Proofs.Spans
import GramIndex.Regex.Parser

/-!
This module contains the steps in which patterns are read, from their characters to levels, and what
the levels match: the items of the alternative being read one after the other, and what an item
becomes under quantifiers.
-/

namespace GramIndex.Regex

section Steps

theorem Symbol.ne_slash {c : Char} {rest : List Char} (hend : c = '\\' → rest = [] → False)
    (hescape : ∀ d more, c = '\\' → rest = d :: more → False) : c ≠ '\\' := by
  intro heq
  cases rest with
  | nil => exact hend heq rfl
  | cons d rest => exact hescape d rest heq rfl

theorem chars_ofChars? {cs : List Char} {symbols : List Symbol}
    (h : Symbol.ofChars? cs = some symbols) :
    symbols.flatMap Symbol.chars = cs ∧ .plain '\\' ∉ symbols := by
  fun_induction Symbol.ofChars? cs generalizing symbols with
  | case1 =>
    cases h
    exact ⟨rfl, by simp⟩
  | case2 => simp at h
  | case3 c rest ih =>
    rw [Option.map_eq_some_iff] at h
    obtain ⟨others, hothers, rfl⟩ := h
    obtain ⟨hchars, hslash⟩ := ih hothers
    refine ⟨?_, by simpa using hslash⟩
    rw [List.flatMap_cons, hchars]
    rfl
  | case4 c rest hend hescape ih =>
    rw [Option.map_eq_some_iff] at h
    obtain ⟨others, hothers, rfl⟩ := h
    obtain ⟨hchars, hslash⟩ := ih hothers
    refine ⟨?_, ?_⟩
    · rw [List.flatMap_cons, hchars]
      rfl
    · simp only [List.mem_cons, Symbol.plain.injEq, not_or]
      exact ⟨(Symbol.ne_slash hend hescape).symm, hslash⟩

theorem ofPattern?_eq_some_iff {cs : List Char} {r : Regex} :
    ofPattern? cs = some r ↔ ∃ symbols tokens part, Symbol.ofChars? cs = some symbols ∧
      Token.all? symbols = some tokens ∧ (groupNames tokens).Nodup ∧
      ofTokens? (.start false {}) [] tokens = some part ∧ part.depth ≤ deepest ∧
      part.value = r := by
  unfold ofPattern?
  constructor
  · intro h
    split at h
    · simp at h
    · next tokens hall =>
      obtain ⟨symbols, hsymbols, htokens⟩ := Option.bind_eq_some_iff.1 hall
      split at h
      · next hnames =>
        split at h
        · next part hpart =>
          split at h
          · next hdepth =>
            exact ⟨symbols, tokens, part, hsymbols, htokens, hnames, hpart, hdepth,
              Option.some.inj h⟩
          · simp at h
        · simp at h
      · simp at h
  · rintro ⟨symbols, tokens, part, hsymbols, htokens, hnames, hpart, hdepth, rfl⟩
    simp [hsymbols, htokens, hnames, hpart, hdepth]

variable {level : Level} {around : List Level} {tokens : List Token}

def Level.inside (level : Level) : GroupHead → Level
  | .capture _ => .start true level.flags
  | .plain change => .start false (level.flags.change change)

theorem ofTokens?_openGroup {head : GroupHead} :
    ofTokens? level around (.openGroup head :: tokens) =
      ofTokens? (level.inside head) (level :: around) tokens := by
  cases head with
  | capture name => rw [ofTokens?, Level.inside]
  | plain change => rw [ofTokens?, Level.inside]

theorem ofTokens?_atom {t : Token} {r : Regex} (h : Level.atom? level.flags t = some r) :
    ofTokens? level around (t :: tokens) =
      ofTokens? (level.push ⟨r, t.depth⟩) around tokens := by
  cases t with
  | bar | closeGroup | openGroup | setFlags | quantifier => cases h
  | _ => simp only [ofTokens?, h]

end Steps

section Spans

variable {text : List Char} {i j : Nat}

def single (d : Char) : Regex :=
  .one false (.single d)

theorem spans_single {d : Char} :
    (single d).Spans text i j ↔ j = i + 1 ∧ text[i]? = some d := by
  simp only [single, Spans, CharSet.single, CharSet.mem, Bool.false_and, Bool.or_false,
    Bool.and_eq_true, decide_eq_true_eq]
  constructor
  · rintro ⟨hj, e, he, hmem⟩
    rw [he, Char.le_antisymm hmem.1 hmem.2]
    exact ⟨hj, rfl⟩
  · rintro ⟨hj, hd⟩
    exact ⟨hj, d, hd, Char.le_refl d, Char.le_refl d⟩

/--
Expressions one after the other, the last one first.
-/
def Joined (text : List Char) : List (Nested Regex) → Nat → Nat → Prop
  | [], i, j => i = j ∧ i ≤ text.length
  | r :: before, i, j => ∃ k, Joined text before i k ∧ r.value.Spans text k j

theorem Joined.le {items : List (Nested Regex)} (h : Joined text items i j) :
    i ≤ j ∧ j ≤ text.length := by
  induction items generalizing j with
  | nil => exact ⟨Nat.le_of_eq h.1, h.1 ▸ h.2⟩
  | cons r items ih =>
    obtain ⟨k, hbefore, hr⟩ := h
    exact ⟨Nat.le_trans (ih hbefore).1 hr.le.1, hr.le.2⟩

theorem joined_append {items before : List (Nested Regex)} :
    Joined text (items ++ before) i j ↔ ∃ k, Joined text before i k ∧ Joined text items k j := by
  induction items generalizing j with
  | nil =>
    constructor
    · intro h
      exact ⟨j, h, rfl, h.le.2⟩
    · rintro ⟨k, h, hk, _⟩
      rwa [← hk]
  | cons r items ih =>
    simp only [List.cons_append, Joined, ih]
    constructor
    · rintro ⟨k, ⟨m, hbefore, hitems⟩, hr⟩
      exact ⟨m, hbefore, k, hitems, hr⟩
    · rintro ⟨m, hbefore, k, hitems, hr⟩
      exact ⟨k, ⟨m, hbefore, hitems⟩, hr⟩

theorem joined_singleton {r : Nested Regex} :
    Joined text [r] i j ↔ r.value.Spans text i j := by
  constructor
  · rintro ⟨k, ⟨hk, _⟩, h⟩
    rwa [hk]
  · intro h
    exact ⟨i, ⟨rfl, h.le_length⟩, h⟩

theorem spans_foldl_seq {before : List (Nested Regex)} {r : Nested Regex} :
    (before.foldl
      (fun list part => ⟨.seq part.value list.value, max list.depth (part.depth + 1)⟩)
        r).value.Spans text i j ↔ ∃ k, Joined text before i k ∧ r.value.Spans text k j := by
  induction before generalizing r with
  | nil => exact joined_singleton.symm
  | cons part before ih =>
    rw [List.foldl_cons, ih]
    constructor
    · rintro ⟨k, hbefore, m, hpart, hr⟩
      exact ⟨m, ⟨k, hbefore, hpart⟩, hr⟩
    · rintro ⟨m, ⟨k, hbefore, hpart⟩, hr⟩
      exact ⟨k, hbefore, m, hpart, hr⟩

theorem spans_join_seq {items : List (Nested Regex)} :
    (Nested.join .seq .empty items).value.Spans text i j ↔ Joined text items i j := by
  match items with
  | [] => exact Iff.rfl
  | [part] => exact joined_singleton.symm
  | last :: part :: before => exact spans_foldl_seq (r := last.wrap id)

theorem exists_of_foldl {before : List (Nested Regex)} {r : Nested Regex}
    (h : (before.foldl
      (fun list part => ⟨.alt part.value list.value, max list.depth (part.depth + 1)⟩)
        r).value.Spans text i j) :
    r.value.Spans text i j ∨ ∃ a ∈ before, a.value.Spans text i j := by
  induction before generalizing r with
  | nil => exact .inl h
  | cons part before ih =>
    cases ih h with
    | inl h =>
      cases h with
      | inl hpart => exact .inr ⟨part, List.mem_cons_self, hpart⟩
      | inr hr => exact .inl hr
    | inr h =>
      obtain ⟨a, ha, hspans⟩ := h
      exact .inr ⟨a, List.mem_cons_of_mem part ha, hspans⟩

namespace Level

variable {level : Level}

theorem joined_of_close (h : level.close.value.Spans text i j) :
    Joined text level.items i j ∨ ∃ a ∈ level.alternatives, a.value.Spans text i j := by
  unfold close at h
  cases halternatives : level.alternatives with
  | nil =>
    rw [halternatives] at h
    exact .inl (spans_join_seq.1 h)
  | cons a others =>
    rw [halternatives] at h
    exact (exists_of_foldl (r := level.sequence.wrap id) h).imp_left spans_join_seq.1

end Level

theorem eq_of_times {R : Nat → Nat → Prop} (hR : ∀ {i j : Nat}, R i j → i = j) {n : Nat}
    (h : Times R n i j) : i = j := by
  induction n generalizing i with
  | zero => exact h
  | succ n ih =>
    obtain ⟨k, hfirst, hrest⟩ := h
    rw [hR hfirst, ih hrest]

theorem Spans.eq_of_onlyEmpty {r : Regex} (hempty : r.onlyEmpty = true) (h : r.Spans text i j) :
    i = j := by
  induction r generalizing i j with
  | empty => exact h.1
  | one => cases hempty
  | look => exact h.1
  | seq r s ihr ihs =>
    obtain ⟨hr, hs⟩ := Bool.and_eq_true_iff.1 hempty
    obtain ⟨k, hfirst, hrest⟩ := h
    rw [ihr hr hfirst, ihs hs hrest]
  | alt r s ihr ihs =>
    obtain ⟨hr, hs⟩ := Bool.and_eq_true_iff.1 hempty
    exact h.elim (ihr hr) (ihs hs)
  | repeated r least extra isLazy ih =>
    obtain ⟨_, n, _, hmost, htimes⟩ := h
    have hcases : r.onlyEmpty = true ∨ least = 0 ∧ extra = some 0 := by
      simpa [onlyEmpty] using hempty
    obtain hr | ⟨hzero, hnone⟩ := hcases
    · exact eq_of_times (ih hr) htimes
    · have hn := hmost 0 hnone
      obtain rfl : n = 0 := by omega
      exact htimes
  | group captures r ih => exact ih hempty h

theorem times_of_replicate {r : Regex} {least : Nat} {most : Option Nat} {isLazy : Bool}
    (h : (r.replicate least most isLazy).Spans text i j) :
    ∃ n, least ≤ n ∧ Times (r.Spans text) n i j := by
  have hrepeated {least : Nat} {extra : Option Nat}
      (h : (if extra = some 0 && least = 0 then .empty
        else if extra = some 0 && least = 1 then r
        else .repeated r least extra isLazy : Regex).Spans text i j) :
      ∃ n, least ≤ n ∧ Times (r.Spans text) n i j := by
    split at h
    · next hzero =>
      simp only [Bool.and_eq_true, decide_eq_true_eq] at hzero
      exact ⟨0, Nat.le_of_eq hzero.2, h.1⟩
    · split at h
      · next hone =>
        simp only [Bool.and_eq_true, decide_eq_true_eq] at hone
        exact ⟨1, Nat.le_of_eq hone.2, times_one.2 h⟩
      · obtain ⟨_, n, hn, _, htimes⟩ := h
        exact ⟨n, hn, htimes⟩
  cases hempty : r.onlyEmpty with
  | false =>
    rw [replicate, hempty] at h
    exact hrepeated h
  | true =>
    rw [replicate, hempty] at h
    obtain ⟨n, hn, htimes⟩ := hrepeated h
    -- What matches only the empty text matches it as often as is asked for.
    cases n with
    | zero => exact ⟨0, by omega, htimes⟩
    | succ n =>
      have hstay := eq_of_times (·.eq_of_onlyEmpty hempty) htimes
      subst hstay
      obtain ⟨k, hfirst, _⟩ := htimes
      have hback := hfirst.eq_of_onlyEmpty hempty
      subst hback
      exact ⟨least, Nat.le_refl least, times_self hfirst⟩

end Spans

end GramIndex.Regex
