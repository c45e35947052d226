import GramIndex.Proofs.Search

/-!
This module contains why the search finds whatever is there, so that it decides whether an
expression matches. What is left out of a step cannot matter: an expression that matches the empty
text is entered anew wherever it may be, and of a repetition that could go on in either half, the
first one goes on.
-/

namespace GramIndex.Regex

variable {text : List Char} {p q : Nat} {r s : Regex}

/--
Relations that hold between places in order have a first one that moves on.
-/
theorem Times.exists_first {R : Nat → Nat → Prop} {n : Nat} (hR : ∀ i j, R i j → i ≤ j)
    (h : Times R n p q) (hlt : p < q) : ∃ k m, p < k ∧ m < n ∧ R p k ∧ Times R m k q := by
  induction n with
  | zero =>
    have : p = q := h
    omega
  | succ n ih =>
    obtain ⟨k, hfirst, hrest⟩ := h
    rcases Nat.lt_or_eq_of_le (hR p k hfirst) with hk | hk
    · exact ⟨k, n, hk, by omega, hfirst, hrest⟩
    · rw [← hk] at hrest
      obtain ⟨k, m, hk, hm, hfirst, hrest⟩ := ih hrest
      exact ⟨k, m, hk, by omega, hfirst, hrest⟩

theorem exists_first {n : Nat} (h : Times (r.Spans text) n p q) (hlt : p < q) :
    ∃ k m, p < k ∧ m < n ∧ r.Spans text p k ∧ Times (r.Spans text) m k q :=
  h.exists_first (fun _ _ h => h.le.1) hlt

theorem Times.le_of_spans {n : Nat} (hp : p ≤ text.length) (h : Times (r.Spans text) n p q) :
    p ≤ q ∧ q ≤ text.length :=
  h.le (fun _ _ h => h.le) hp

theorem spans_upTo_split {a b : Nat} (ha : 0 < a) (h : (r.upTo (a + b)).Spans text p q)
    (hlt : p < q) :
    ∃ k, p < k ∧ (r.upTo a).Spans text p k ∧ (r.upTo b).Spans text k q := by
  have hq := h.le.2
  rw [spans_upTo] at h
  obtain ⟨hp, n, hn, htimes⟩ := h
  -- Without the iterations in front that match nothing, the first one moves on.
  obtain ⟨k, m, hk, hm, hfirst, hrest⟩ := exists_first htimes hlt
  rcases Nat.lt_or_ge m a with hma | hma
  · refine ⟨q, hlt, spans_upTo.2 ⟨hp, m + 1, hma, k, hfirst, hrest⟩, ?_⟩
    exact spans_upTo.2 ⟨hq, 0, Nat.zero_le b, rfl⟩
  · have hsplit : m = (a - 1) + (m - (a - 1)) := by omega
    rw [hsplit, times_add] at hrest
    obtain ⟨l, hrest, hlast⟩ := hrest
    have hl := hrest.le_of_spans hfirst.le.2
    refine ⟨l, by omega, spans_upTo.2 ⟨hp, a - 1 + 1, by omega, k, hfirst, hrest⟩, ?_⟩
    exact spans_upTo.2 ⟨hl.2, m - (a - 1), by omega, hlast⟩

theorem spans_loop_first (h : r.loop.Spans text p q) (hlt : p < q) :
    ∃ k, p < k ∧ r.Spans text p k ∧ (k = q ∨ r.loop.Spans text k q) := by
  rw [spans_loop] at h
  obtain ⟨_, n, _, htimes⟩ := h
  obtain ⟨k, m, hk, _, hfirst, hrest⟩ := exists_first htimes hlt
  refine ⟨k, hk, hfirst, ?_⟩
  cases m with
  | zero => exact .inl hrest
  | succ m => exact .inr (spans_loop.2 ⟨hfirst.le.2, m + 1, by omega, hrest⟩)

theorem spans_of_spans_upTo_one (h : (r.upTo 1).Spans text p q) (hlt : p < q) :
    r.Spans text p q := by
  rw [spans_upTo] at h
  obtain ⟨_, n, hn, htimes⟩ := h
  match n, hn with
  | 0, _ =>
    have : p = q := htimes
    omega
  | 1, _ => exact times_one.1 htimes

/--
A sequence of matches that gets nowhere has an empty one, if there are any.
-/
theorem spans_self_of_times {n : Nat} (hn : 0 < n) (h : Times (r.Spans text) n p p) :
    r.Spans text p p := by
  obtain ⟨n, rfl⟩ : ∃ m, n = m + 1 := ⟨n - 1, by omega⟩
  obtain ⟨k, hfirst, hrest⟩ := h
  have := hrest.le_of_spans hfirst.le.2
  have := hfirst.le
  have hk : k = p := by omega
  rwa [hk] at hfirst

theorem passes_of_spans (h : r.Spans text p p) : r.passes (before text p) text[p]? = true := by
  induction r with
  | empty => rfl
  | one ignoreCase set =>
    have := h.1
    omega
  | look condition => exact h.2.2
  | seq r s ihr ihs =>
    obtain ⟨k, hr, hs⟩ := h
    have := hr.le
    have := hs.le
    have hk : k = p := by omega
    rw [hk] at hr hs
    simp only [passes, ihr hr, ihs hs, Bool.and_true]
  | alt r s ihr ihs =>
    simp only [passes, Bool.or_eq_true]
    exact h.imp ihr ihs
  | repeated r least extra isLazy ih =>
    obtain ⟨_, n, hn, _, htimes⟩ := h
    simp only [passes, Bool.or_eq_true, decide_eq_true_eq]
    cases least with
    | zero => exact .inl rfl
    | succ least => exact .inr (ih (spans_self_of_times (by omega) htimes))
  | group captures r ih => exact ih h

namespace Marked

variable {m m' : Marked}

theorem Continues.ge (h : m.Continues text p q) : p ≤ q := by
  induction m generalizing q with
  | plain r => cases h
  | read ignoreCase set => exact Nat.le_of_eq h
  | seq r s ihr ihs =>
    cases h with
    | inl h =>
      obtain ⟨k, hr, hs⟩ := h
      exact Nat.le_trans (ihr hr) hs.le.1
    | inr h => exact ihs h
  | alt r s ihr ihs => exact h.elim ihr ihs
  | loop r ih =>
    obtain ⟨k, hr, hrest⟩ := h
    cases hrest with
    | inl heq =>
      rw [← heq]
      exact ih hr
    | inr hrest => exact Nat.le_trans (ih hr) hrest.le.1
  | optional r ih => exact ih h
  | upTo r n first second ihf ihs =>
    obtain h | ⟨k, hf, hs⟩ | h := h
    · exact ihf h
    · exact Nat.le_trans (ihf hf) hs.le.1
    · exact ihs h

/--
A part of a repetition, each time of which can be any match of `r`.
-/
def Repeats (text : List Char) (r : Regex) : Marked → Prop
  | .plain s => ∃ r' n, s = r'.upTo n ∧ Within text r r'
  | .optional m => Within text r m.erase
  | .upTo r' _ _ _ => Within text r r'
  | _ => False

/--
The halves of a repetition make up all of it.
-/
def Whole (text : List Char) : Marked → Prop
  | .plain _ => True
  | .read _ _ => True
  | .seq r s => r.Whole text ∧ s.Whole text
  | .alt r s => r.Whole text ∧ s.Whole text
  | .loop r => r.Whole text
  | .optional r => r.Whole text
  | .upTo r n first second =>
    (∃ a b, 0 < a ∧ 0 < b ∧ n = a + b ∧ Within text (r.upTo a) first.erase ∧
      Within text (r.upTo b) second.erase ∧ Within text second.erase (r.upTo b)) ∧
      first.Repeats text r ∧ second.Repeats text r ∧ first.Whole text ∧ second.Whole text

/--
A marked expression matches no less than another one does, from its marks on and anew.
-/
structure Covers (text : List Char) (m m' : Marked) : Prop where
  whole : m'.Whole text → m.Whole text
  within : Within text m'.erase m.erase
  continues : ∀ p q, m'.Continues text p q → m.Continues text p q
  repeats : ∀ r, m'.Repeats text r → m.Repeats text r

theorem covers_refl : Covers text m m :=
  ⟨id, within_refl, fun _ _ => id, fun _ => id⟩

theorem covers_mkSeq (m m' : Marked) : Covers text (mkSeq m m') (.seq m m') := by
  unfold mkSeq
  split
  · next s =>
    refine ⟨fun h => h.2, ?_, ?_, fun _ h => h.elim⟩
    · rintro i j ⟨k, ⟨hk, _⟩, h⟩
      rwa [hk]
    · rintro p q (⟨k, h, _⟩ | h)
      · exact h.elim
      · exact h
  · next r _ =>
    refine ⟨fun h => h.1, ?_, ?_, fun _ h => h.elim⟩
    · rintro i j ⟨k, h, ⟨hk, _⟩⟩
      rwa [← hk]
    · rintro p q (⟨k, h, ⟨hk, _⟩⟩ | h)
      · rwa [← hk]
      · exact h.elim
  · refine ⟨fun _ => trivial, within_refl, ?_, fun _ h => h.elim⟩
    rintro p q (⟨k, h, _⟩ | h) <;> exact h.elim
  · exact covers_refl

theorem covers_mkAlt (m m' : Marked) : Covers text (mkAlt m m') (.alt m m') := by
  unfold mkAlt
  split
  · exact ⟨fun _ => trivial, within_refl, fun _ _ h => h.elim id id, fun _ h => h.elim⟩
  · exact covers_refl

theorem covers_mkLoop (m : Marked) : Covers text (mkLoop m) (.loop m) := by
  unfold mkLoop
  split
  · refine ⟨fun _ => trivial, within_refl, ?_, fun _ h => h.elim⟩
    rintro p q ⟨k, h, _⟩
    exact h.elim
  · exact covers_refl

theorem covers_mkOptional (m : Marked) : Covers text (mkOptional m) (.optional m) := by
  unfold mkOptional
  split
  · next r => exact ⟨fun _ => trivial, within_refl, fun _ _ h => h, fun _ h => ⟨r, 1, rfl, h⟩⟩
  · exact covers_refl

theorem covers_mkUpTo (r : Regex) (n : Nat) (m m' : Marked) :
    Covers text (mkUpTo r n m m') (.upTo r n m m') := by
  unfold mkUpTo
  split
  · refine ⟨fun _ => trivial, within_refl, ?_, fun _ h => ⟨r, n, rfl, h⟩⟩
    rintro p q (h | ⟨k, h, _⟩ | h) <;> exact h.elim
  · exact covers_refl

/--
What an expression has become after the character at place `p`, where it was entered at that place,
has all the matches that read the character.
-/
structure Reaches (text : List Char) (p : Nat) (m : Marked) (r : Regex) : Prop where
  whole : m.Whole text
  within : Within text r m.erase
  continues : ∀ q, p < q → r.Spans text p q → m.Continues text (p + 1) q

theorem Reaches.of_covers (hcovers : Covers text m m') (h : m'.Reaches text p r) :
    m.Reaches text p r :=
  ⟨hcovers.whole h.whole, h.within.trans hcovers.within,
    fun q hlt hq => hcovers.continues _ q (h.continues q hlt hq)⟩

theorem Reaches.mono (h : m.Reaches text p r) (hsub : Within text s r) : m.Reaches text p s :=
  ⟨h.whole, hsub.trans h.within, fun q hlt hq => h.continues q hlt (hsub p q hq)⟩

theorem reaches_plain (h : ∀ q, p < q → ¬ r.Spans text p q) : (Marked.plain r).Reaches text p r :=
  ⟨trivial, within_refl, fun q hlt hq => (h q hlt hq).elim⟩

theorem Reaches.seq (hr : m.Reaches text p r) (hs : m'.Reaches text p s) :
    (Marked.seq m m').Reaches text p (.seq r s) := by
  refine ⟨⟨hr.whole, hs.whole⟩, hr.within.seq hs.within, ?_⟩
  rintro q hlt ⟨k, hfirst, hrest⟩
  rcases Nat.lt_or_eq_of_le hfirst.le.1 with hk | hk
  · exact .inl ⟨k, hr.continues k hk hfirst, hs.within k q hrest⟩
  · rw [← hk] at hrest
    exact .inr (hs.continues q hlt hrest)

theorem Reaches.seq_plain (hr : m.Reaches text p r) (h : ¬ r.Spans text p p) :
    (Marked.seq m (.plain s)).Reaches text p (.seq r s) := by
  refine ⟨⟨hr.whole, trivial⟩, hr.within.seq within_refl, ?_⟩
  rintro q hlt ⟨k, hfirst, hrest⟩
  rcases Nat.lt_or_eq_of_le hfirst.le.1 with hk | hk
  · exact .inl ⟨k, hr.continues k hk hfirst, hrest⟩
  · rw [← hk] at hfirst
    exact (h hfirst).elim

theorem Reaches.alt (hr : m.Reaches text p r) (hs : m'.Reaches text p s) :
    (Marked.alt m m').Reaches text p (.alt r s) :=
  ⟨⟨hr.whole, hs.whole⟩, hr.within.alt hs.within,
    fun q hlt hq => hq.imp (hr.continues q hlt) (hs.continues q hlt)⟩

theorem Reaches.loop (h : m.Reaches text p r) : (Marked.loop m).Reaches text p r.loop := by
  refine ⟨h.whole, h.within.loop, ?_⟩
  intro q hlt hq
  obtain ⟨k, hk, hfirst, hrest⟩ := spans_loop_first hq hlt
  exact ⟨k, h.continues k hk hfirst, hrest.imp_right (h.within.loop k q)⟩

theorem Reaches.optional (h : m.Reaches text p r) :
    (Marked.optional m).Reaches text p (r.upTo 1) :=
  ⟨h.whole, h.within.upTo, fun q hlt hq => h.continues q hlt (spans_of_spans_upTo_one hq hlt)⟩

theorem within_times_split (a b : Nat) :
    Within text (r.times (a + b)) (.seq (r.times a) (r.times b)) := by
  intro i j h
  rw [spans_times] at h
  obtain ⟨hi, h⟩ := h
  obtain ⟨k, hfirst, hrest⟩ := times_add.1 h
  have hk := hfirst.le_of_spans hi
  exact ⟨k, spans_times.2 ⟨hi, hfirst⟩, spans_times.2 ⟨hk.2, hrest⟩⟩

theorem spans_self_of_spans_times {n : Nat} (hn : 0 < n) (h : (r.times n).Spans text p p) :
    r.Spans text p p :=
  spans_self_of_times hn (spans_times.1 h).2

theorem reaches_startTimes {first : Marked} {again : Bool} (hfirst : first.Reaches text p r)
    (hagain : r.Spans text p p → again = true) (n : Nat) :
    (startTimes r first again n).Reaches text p (r.times n) := by
  fun_induction startTimes r first again n with
  | case1 =>
    refine ⟨trivial, ?_, ?_⟩
    · intro i j h
      rw [spans_times] at h
      exact ⟨h.2, h.1⟩
    · intro q hlt h
      have : p = q := (spans_times.1 h).2
      omega
  | case2 => simpa [times] using hfirst
  | case3 n hzero hone ihfirst ihsecond =>
    have hhalves : n / 2 + (n - n / 2) = n := by omega
    have hsplit : Within text (r.times (n / 2 + (n - n / 2)))
        (.seq (r.times (n / 2)) (r.times (n - n / 2))) := within_times_split _ _
    rw [hhalves] at hsplit
    apply Reaches.mono _ hsplit
    cases again with
    | true => exact ihfirst.seq ihsecond
    | false =>
      apply ihfirst.seq_plain
      intro h
      cases hagain (spans_self_of_spans_times (by omega) h)

theorem repeats_startUpTo {first : Marked} (hfirst : Within text r first.erase) (n : Nat) :
    (startUpTo r first n).Repeats text r := by
  unfold startUpTo
  split
  · exact ⟨r, 0, rfl, within_refl⟩
  · split
    · exact hfirst
    · exact within_refl

theorem reaches_startUpTo {first : Marked} (hfirst : first.Reaches text p r) (n : Nat) :
    (startUpTo r first n).Reaches text p (r.upTo n) := by
  fun_induction startUpTo r first n with
  | case1 => exact reaches_plain fun q hlt h => Nat.ne_of_lt hlt h.1
  | case2 => exact hfirst.optional
  | case3 n hzero hone ih =>
    have hhalves : n = n / 2 + (n - n / 2) := by omega
    refine ⟨⟨⟨n / 2, n - n / 2, by omega, by omega, hhalves, ih.within, within_refl, within_refl⟩,
      repeats_startUpTo hfirst.within _, ⟨r, _, rfl, within_refl⟩, ih.whole, trivial⟩,
      within_refl, ?_⟩
    intro q hlt hq
    rw [hhalves] at hq
    obtain ⟨k, hk, hleft, hright⟩ := spans_upTo_split (by omega) hq hlt
    exact .inr (.inl ⟨k, ih.continues k hk hleft, hright⟩)

theorem not_spans_of_isPlain (hplain : m.isPlain = true) (h : m.Reaches text p r) (hlt : p < q) :
    ¬ r.Spans text p q := by
  intro hq
  match m, hplain with
  | .plain _, _ => exact h.continues q hlt hq

theorem within_loop_of_repeated {least : Nat} {isLazy : Bool}
    (hpass : ∀ i, i ≤ text.length → r.Spans text i i) :
    Within text (.repeated r least none isLazy) r.loop := by
  rintro i j ⟨hi, n, _, _, h⟩
  have hj := h.le_of_spans hi
  exact spans_loop.2 ⟨hi, n + 1, by omega, times_pad hpass hj.2 h⟩

theorem within_upTo_of_repeated (least extra : Nat) (isLazy : Bool) :
    Within text (.repeated r least (some extra) isLazy) (r.upTo (least + extra)) := by
  rintro i j ⟨hi, n, _, hmost, h⟩
  exact spans_upTo.2 ⟨hi, n, hmost extra rfl, h⟩

theorem within_optional_loop_of_repeated (isLazy : Bool) :
    Within text (.repeated r 0 none isLazy) (r.loop.upTo 1) := by
  rintro i j ⟨hi, n, _, _, h⟩
  cases n with
  | zero => exact spans_upTo.2 ⟨hi, 0, Nat.zero_le 1, h⟩
  | succ n => exact spans_upTo_one (spans_loop.2 ⟨hi, n + 1, by omega, h⟩)

theorem within_times_loop_of_repeated (least : Nat) (isLazy : Bool) :
    Within text (.repeated r (least + 1) none isLazy) (.seq (r.times least) r.loop) := by
  rintro i j ⟨hi, n, hn, _, h⟩
  have hsplit : n = least + (n - least) := by omega
  rw [hsplit, times_add] at h
  obtain ⟨k, hfirst, hrest⟩ := h
  have hk := hfirst.le_of_spans hi
  exact ⟨k, spans_times.2 ⟨hi, hfirst⟩, spans_loop.2 ⟨hk.2, n - least, by omega, hrest⟩⟩

theorem within_times_upTo_of_repeated (least extra : Nat) (isLazy : Bool) :
    Within text (.repeated r least (some extra) isLazy) (.seq (r.times least) (r.upTo extra)) := by
  rintro i j ⟨hi, n, hn, hmost, h⟩
  have := hmost extra rfl
  have hsplit : n = least + (n - least) := by omega
  rw [hsplit, times_add] at h
  obtain ⟨k, hfirst, hrest⟩ := h
  have hk := hfirst.le_of_spans hi
  exact ⟨k, spans_times.2 ⟨hi, hfirst⟩, spans_upTo.2 ⟨hk.2, n - least, by omega, hrest⟩⟩

theorem reaches_start (text : List Char) (p : Nat) (r : Regex) :
    (start (before text p) text[p]? r).Reaches text p r := by
  induction r with
  | empty => exact reaches_plain fun q hlt h => Nat.ne_of_lt hlt h.1
  | one ignoreCase set =>
    unfold start
    split
    · exact ⟨trivial, within_refl, fun q _ h => h.1.symm⟩
    · next hmem =>
      apply reaches_plain
      intro q _ h
      exact hmem ((Option.any_eq_true _ _).2 h.2)
  | look condition => exact reaches_plain fun q hlt h => Nat.ne_of_lt hlt h.1
  | seq r s ihr ihs =>
    apply Reaches.of_covers (covers_mkSeq _ _)
    split
    · exact ihr.seq ihs
    · next hpasses =>
      apply ihr.seq_plain
      intro h
      exact (hpasses (passes_of_spans h)).elim
  | alt r s ihr ihs => exact Reaches.of_covers (covers_mkAlt _ _) (ihr.alt ihs)
  | repeated r least extra isLazy ih =>
    have hagain : r.Spans text p p → r.passes (before text p) text[p]? = true := passes_of_spans
    unfold start
    simp only
    split
    · next hplain =>
      apply reaches_plain
      rintro q hlt ⟨_, n, _, _, htimes⟩
      obtain ⟨k, _, hk, _, hfirst, _⟩ := exists_first htimes hlt
      exact not_spans_of_isPlain hplain ih hk hfirst
    · cases halways : r.alwaysPasses with
      | true =>
        cases extra with
        | none =>
          apply ih.loop.mono
          exact within_loop_of_repeated fun i hi => spans_of_alwaysPasses hi halways
        | some extra =>
          exact (reaches_startUpTo ih _).mono (within_upTo_of_repeated least extra isLazy)
      | false =>
        match least, extra with
        | 0, none => exact ih.loop.optional.mono (within_optional_loop_of_repeated isLazy)
        | 0, some extra =>
          apply (reaches_startUpTo ih extra).mono
          have hsub : Within text (.repeated r 0 (some extra) isLazy) (r.upTo (0 + extra)) :=
            within_upTo_of_repeated 0 extra isLazy
          rwa [Nat.zero_add] at hsub
        | least + 1, none =>
          apply Reaches.of_covers (covers_mkSeq _ _)
          apply Reaches.mono _ (within_times_loop_of_repeated least isLazy)
          have htimes := reaches_startTimes ih hagain least
          split
          · exact htimes.seq ih.loop
          · next hloop =>
            apply htimes.seq_plain
            intro h
            -- What stands before the loop would match the empty text, so the loop is entered.
            simp only [Bool.or_eq_true, decide_eq_true_eq, not_or] at hloop
            exact (hloop.2 (hagain (spans_self_of_spans_times (by omega) h))).elim
        | least + 1, some extra =>
          apply Reaches.of_covers (covers_mkSeq _ _)
          apply Reaches.mono _ (within_times_upTo_of_repeated (least + 1) extra isLazy)
          have htimes := reaches_startTimes ih hagain (least + 1)
          split
          · exact htimes.seq (reaches_startUpTo ih extra)
          · next hpasses =>
            apply htimes.seq_plain
            intro h
            exact (hpasses (hagain (spans_self_of_spans_times (by omega) h))).elim
  | group captures r ih =>
    unfold start
    exact ih.mono fun _ _ h => h

theorem Repeats.mono (h : m.Repeats text s) (hsub : Within text r s) : m.Repeats text r := by
  cases m with
  | plain t =>
    obtain ⟨r', n, ht, hs⟩ := h
    exact ⟨r', n, ht, hsub.trans hs⟩
  | optional m => exact hsub.trans h
  | upTo r' n first second => exact hsub.trans h
  | read => cases h
  | seq => cases h
  | alt => cases h
  | loop => cases h

theorem repeats_start (r : Regex) (n : Nat) :
    (start (before text p) text[p]? (r.upTo n)).Repeats text r := by
  unfold Regex.upTo
  split
  · exact ⟨r, 0, rfl, within_refl⟩
  · next hn =>
    unfold start
    simp only [Option.map_some, Nat.zero_add, ite_self]
    split
    · exact ⟨r, n, by rw [Regex.upTo, if_neg hn], within_refl⟩
    · exact repeats_startUpTo (reaches_start text p r).within n

/--
What a marked expression becomes after the character at place `p` keeps its matches, and those that
start at the place if it is entered there.
-/
structure Keeps (text : List Char) (p : Nat) (enter : Bool) (m m' : Marked) : Prop where
  whole : m'.Whole text
  within : Within text m.erase m'.erase
  continues : ∀ q, p < q → m.Continues text p q ∨ enter = true ∧ m.erase.Spans text p q →
    m'.Continues text (p + 1) q
  repeats : ∀ r, m.Repeats text r → m'.Repeats text r

variable {enter enter' : Bool} {n n' : Marked}

theorem Keeps.of_covers (hcovers : Covers text n' m') (h : m.Keeps text p enter m') :
    m.Keeps text p enter n' :=
  ⟨hcovers.whole h.whole, h.within.trans hcovers.within,
    fun q hlt hq => hcovers.continues _ q (h.continues q hlt hq),
    fun r hr => hcovers.repeats r (h.repeats r hr)⟩

theorem Reaches.keeps (h : m'.Reaches text p m.erase)
    (hread : ∀ q, p < q → ¬ m.Continues text p q)
    (hrepeats : ∀ r, m.Repeats text r → m'.Repeats text r) : m.Keeps text p true m' := by
  refine ⟨h.whole, h.within, fun q hlt hq => ?_, hrepeats⟩
  cases hq with
  | inl hq => exact (hread q hlt hq).elim
  | inr hq => exact h.continues q hlt hq.2

theorem keeps_plain (hm : m.erase = r) (hread : ∀ q, p < q → ¬ m.Continues text p q)
    (hrepeats : ∀ s, m.Repeats text s → (Marked.plain r).Repeats text s) :
    m.Keeps text p false (.plain r) := by
  refine ⟨trivial, ?_, fun q hlt hq => ?_, hrepeats⟩
  · rw [hm]
    exact within_refl
  · cases hq with
    | inl hq => exact (hread q hlt hq).elim
    | inr hq => cases hq.1

theorem Keeps.seq (hm : m.Keeps text p enter m') (hn : n.Keeps text p enter' n')
    (henter : m.Continues text p p ∨ enter = true ∧ m.erase.Spans text p p → enter' = true) :
    (Marked.seq m n).Keeps text p enter (.seq m' n') := by
  refine ⟨⟨hm.whole, hn.whole⟩, hm.within.seq hn.within, ?_, fun _ h => h.elim⟩
  have hsplit (k q : Nat) (hlt : p < q) (hpk : p ≤ k)
      (hk : m.Continues text p k ∨ enter = true ∧ m.erase.Spans text p k)
      (hrest : n.erase.Spans text k q) : (Marked.seq m' n').Continues text (p + 1) q := by
    rcases Nat.lt_or_eq_of_le hpk with hpk | hpk
    · exact .inl ⟨k, hm.continues k hpk hk, hn.within k q hrest⟩
    · rw [← hpk] at hk hrest
      exact .inr (hn.continues q hlt (.inr ⟨henter hk, hrest⟩))
  rintro q hlt ((⟨k, hk, hrest⟩ | hq) | ⟨he, k, hk, hrest⟩)
  · exact hsplit k q hlt hk.ge (.inl hk) hrest
  · exact .inr (hn.continues q hlt (.inl hq))
  · exact hsplit k q hlt hk.le.1 (.inr ⟨he, hk⟩) hrest

theorem Keeps.alt (hm : m.Keeps text p enter m') (hn : n.Keeps text p enter n') :
    (Marked.alt m n).Keeps text p enter (.alt m' n') := by
  refine ⟨⟨hm.whole, hn.whole⟩, hm.within.alt hn.within, ?_, fun _ h => h.elim⟩
  rintro q hlt ((hq | hq) | ⟨he, hq | hq⟩)
  · exact .inl (hm.continues q hlt (.inl hq))
  · exact .inr (hn.continues q hlt (.inl hq))
  · exact .inl (hm.continues q hlt (.inr ⟨he, hq⟩))
  · exact .inr (hn.continues q hlt (.inr ⟨he, hq⟩))

theorem Keeps.loop (hm : m.Keeps text p enter' m')
    (henter : enter = true ∨ m.Continues text p p → enter' = true) :
    (Marked.loop m).Keeps text p enter (.loop m') := by
  refine ⟨hm.whole, hm.within.loop, ?_, fun _ h => h.elim⟩
  have hanew (q : Nat) (hlt : p < q) (he : enter' = true) (hq : m.erase.loop.Spans text p q) :
      (Marked.loop m').Continues text (p + 1) q := by
    obtain ⟨k, hk, hfirst, hrest⟩ := spans_loop_first hq hlt
    exact ⟨k, hm.continues k hk (.inr ⟨he, hfirst⟩), hrest.imp_right (hm.within.loop k q)⟩
  rintro q hlt (⟨k, hk, hrest⟩ | ⟨he, hq⟩)
  · rcases Nat.lt_or_eq_of_le hk.ge with hpk | hpk
    · exact ⟨k, hm.continues k hpk (.inl hk), hrest.imp_right (hm.within.loop k q)⟩
    · rw [← hpk] at hk hrest
      cases hrest with
      | inl heq => omega
      | inr hrest => exact hanew q hlt (henter (.inr hk)) hrest
  · exact hanew q hlt (henter (.inl he)) hq

theorem Keeps.optional (hm : m.Keeps text p enter m') :
    (Marked.optional m).Keeps text p enter (.optional m') := by
  refine ⟨hm.whole, hm.within.upTo, ?_, fun _ h => h.trans hm.within⟩
  intro q hlt hq
  exact hm.continues q hlt (hq.imp_right fun h => ⟨h.1, spans_of_spans_upTo_one h.2 hlt⟩)

/--
Where the first half of a repetition ends, either the second one is entered, or the first one goes
on.
-/
theorem Keeps.upTo {times : Nat} (hm : m.Keeps text p enter m') (hn : n.Keeps text p enter' n')
    (hwithin : Within text n'.erase n.erase) (hwhole : (Marked.upTo r times m n).Whole text)
    (hagain : m.Continues text p p → enter' = false →
      ∀ k, p < k → r.Spans text p k → m'.Continues text (p + 1) k) :
    (Marked.upTo r times m n).Keeps text p enter (.upTo r times m' n') := by
  obtain ⟨⟨a, b, ha, hb, htimes, hleft, hright, hbound⟩, hmr, hnr, _, _⟩ := hwhole
  refine ⟨⟨⟨a, b, ha, hb, htimes, hleft.trans hm.within, hright.trans hn.within,
    hwithin.trans hbound⟩, hm.repeats r hmr, hn.repeats r hnr, hm.whole, hn.whole⟩, within_refl, ?_,
    fun _ h => h⟩
  rintro q hlt ((hq | ⟨k, hk, hrest⟩ | hq) | ⟨he, hq⟩)
  · exact .inl (hm.continues q hlt (.inl hq))
  · rcases Nat.lt_or_eq_of_le hk.ge with hpk | hpk
    · exact .inr (.inl ⟨k, hm.continues k hpk (.inl hk), hn.within k q hrest⟩)
    · rw [← hpk] at hk hrest
      cases henter : enter' with
      | true => exact .inr (.inr (hn.continues q hlt (.inr ⟨henter, hrest⟩)))
      | false =>
        -- The second half is not entered, so the first one takes over its first iteration.
        have hrest := hbound p q hrest
        obtain ⟨b, rfl⟩ : ∃ c, b = 1 + c := ⟨b - 1, by omega⟩
        obtain ⟨k, hpk, hfirst, hrest⟩ := spans_upTo_split (by omega) hrest hlt
        have hfirst := spans_of_spans_upTo_one hfirst hpk
        have hrest := hn.within k q (hright k q (within_upTo (by omega) k q hrest))
        exact .inr (.inl ⟨k, hagain hk henter k hpk hfirst, hrest⟩)
  · exact .inr (.inr (hn.continues q hlt (.inl hq)))
  · have hq : (r.upTo (a + b)).Spans text p q := by
      rw [← htimes]
      exact hq
    obtain ⟨k, hpk, hfirst, hrest⟩ := spans_upTo_split ha hq hlt
    have hfirst := hm.continues k hpk (.inr ⟨he, hleft p k hfirst⟩)
    exact .inr (.inl ⟨k, hfirst, hn.within k q (hright k q hrest)⟩)

/--
What a step of a marked expression at place `p` cannot leave out.
-/
structure Advances (text : List Char) (p : Nat) (m : Marked) (s : Step) : Prop where
  passes : m.erase.Spans text p p → s.passes = true
  ends : m.Continues text p p → s.ends = true
  /-- A repetition that has ended goes on, unless it has been repeated as often as it may be. -/
  again : ∀ r, m.Repeats text r → s.ends = true → s.full = false → ∀ enter k, p < k →
    r.Spans text p k → (s.next enter).Continues text (p + 1) k
  next : p < text.length → ∀ enter, m.Keeps text p enter (s.next enter)

theorem advances_step (hp : p ≤ text.length) (hbounded : m.Bounded text) (hm : m.Whole text) :
    m.Advances text p (m.step (before text p) text[p]?) := by
  induction m with
  | plain r =>
    refine ⟨passes_of_spans, fun h => h.elim, fun _ _ h => by simp [step] at h, ?_⟩
    intro _ enter
    have hread : ∀ q, p < q → ¬ (Marked.plain r).Continues text p q := fun _ _ h => h
    cases enter with
    | false => exact keeps_plain rfl hread fun _ h => h
    | true =>
      apply (reaches_start text p r).keeps hread
      rintro s ⟨r', n, rfl, hs⟩
      exact (repeats_start r' n).mono hs
  | read ignoreCase set =>
    have hempty : ¬ (Marked.read ignoreCase set).erase.Spans text p p := by
      intro h
      have := h.1
      omega
    refine ⟨fun h => (hempty h).elim, fun _ => rfl, fun _ h => h.elim, ?_⟩
    intro _ enter
    have hread : ∀ q, p < q → ¬ (Marked.read ignoreCase set).Continues text p q :=
      fun q hlt h => Nat.ne_of_lt hlt h
    cases enter with
    | false => exact keeps_plain rfl hread fun _ h => h.elim
    | true => exact (reaches_start text p (.one ignoreCase set)).keeps hread fun _ h => h.elim
  | seq m n ihm ihn =>
    have hsm := ihm hbounded.1 hm.1
    have hsn := ihn hbounded.2 hm.2
    refine ⟨?_, ?_, fun _ h => h.elim, ?_⟩
    · rintro ⟨k, hmk, hnk⟩
      have hk : k = p := Nat.le_antisymm hnk.le.1 hmk.le.1
      rw [hk] at hmk hnk
      simp only [step, hsm.passes hmk, hsn.passes hnk, Bool.and_self]
    · simp only [step, Bool.or_eq_true, Bool.and_eq_true]
      rintro (⟨k, hmk, hnk⟩ | h)
      · have hk : k = p := Nat.le_antisymm hnk.le.1 hmk.ge
        rw [hk] at hmk hnk
        exact .inl ⟨hsm.ends hmk, hsn.passes hnk⟩
      · exact .inr (hsn.ends h)
    · intro hlt enter
      apply Keeps.of_covers (covers_mkSeq _ _)
      apply (hsm.next hlt enter).seq (hsn.next hlt _)
      simp only [Bool.or_eq_true, Bool.and_eq_true]
      exact fun h => h.imp hsm.ends fun h => ⟨h.1, hsm.passes h.2⟩
  | alt m n ihm ihn =>
    have hsm := ihm hbounded.1 hm.1
    have hsn := ihn hbounded.2 hm.2
    refine ⟨?_, ?_, fun _ h => h.elim, ?_⟩
    · simp only [step, Bool.or_eq_true]
      exact fun h => h.imp hsm.passes hsn.passes
    · simp only [step, Bool.or_eq_true]
      exact fun h => h.imp hsm.ends hsn.ends
    · intro hlt enter
      exact Keeps.of_covers (covers_mkAlt _ _) ((hsm.next hlt enter).alt (hsn.next hlt enter))
  | loop m ih =>
    have hs := ih hbounded hm
    refine ⟨?_, ?_, fun _ h => h.elim, ?_⟩
    · intro h
      obtain ⟨_, n, hn, htimes⟩ := spans_loop.1 h
      exact hs.passes (spans_self_of_times hn htimes)
    · rintro ⟨k, hk, hrest⟩
      have hkp : k = p := hrest.elim id fun h => Nat.le_antisymm h.le.1 hk.ge
      rw [hkp] at hk
      exact hs.ends hk
    · intro hlt enter
      apply Keeps.of_covers (covers_mkLoop _)
      apply (hs.next hlt _).loop
      rw [Bool.or_eq_true]
      exact fun h => h.imp_right hs.ends
  | optional m ih =>
    have hs := ih hbounded hm
    refine ⟨fun _ => rfl, hs.ends, ?_, ?_⟩
    · intro r _ hends hfull
      have hfull : (m.step (before text p) text[p]?).ends = false := hfull
      have hends : (m.step (before text p) text[p]?).ends = true := hends
      rw [hends] at hfull
      cases hfull
    · intro hlt enter
      exact Keeps.of_covers (covers_mkOptional _) (hs.next hlt enter).optional
  | upTo r times m n ihm ihn =>
    have hsm := ihm hbounded.2.2.1 hm.2.2.2.1
    have hsn := ihn hbounded.2.2.2 hm.2.2.2.2
    obtain ⟨⟨a, b, ha, hb, htimes, hleft, hright, hbound⟩, hmr, hnr, _, _⟩ := id hm
    refine ⟨fun _ => rfl, ?_, ?_, ?_⟩
    · simp only [step, Bool.or_eq_true]
      rintro (h | ⟨k, hk, hrest⟩ | h)
      · exact .inl (hsm.ends h)
      · have hkp : k = p := Nat.le_antisymm hrest.le.1 hk.ge
        rw [hkp] at hk
        exact .inl (hsm.ends hk)
      · exact .inr (hsn.ends h)
    · intro s hs hends hfull enter k hlt hk
      have hlength : p < text.length := by
        have := hk.le.2
        omega
      have hk := hs p k hk
      apply (covers_mkUpTo _ _ _ _).continues
      simp only [step, Bool.or_eq_true] at hends hfull
      -- Behind a first half that is full the second one is entered. Otherwise one of them goes on.
      cases hmfull : (m.step (before text p) text[p]?).full with
      | true =>
        have hn := (hsn.next hlength true).continues k hlt
          (.inr ⟨rfl, hright p k (within_upTo hb p k (spans_upTo_one hk))⟩)
        exact .inr (.inr hn)
      | false =>
        cases hends with
        | inl hends => exact .inl (hsm.again r hmr hends hmfull enter k hlt hk)
        | inr hends => exact .inr (.inr (hsn.again r hnr hends hfull false k hlt hk))
    · intro hlt enter
      apply Keeps.of_covers (covers_mkUpTo _ _ _ _)
      have hnext := (steps_step hp hbounded.2.2.2).next hlt
      apply (hsm.next hlt enter).upTo (hsn.next hlt _) (hnext _).within hm
      intro hmp hfull k hpk hk
      exact hsm.again r hmr (hsm.ends hmp) hfull enter k hpk hk

/--
There is a match to be found from place `p` on, of what has been marked or of what can be entered.
-/
def Pending (text : List Char) (p : Nat) (m : Marked) (r : Regex) : Prop :=
  (∃ q, m.Continues text p q) ∨ ∃ i q, p ≤ i ∧ r.Spans text i q

theorem Pending.step {here : Step} (hp : p ≤ text.length) (hstep : m.Advances text p here)
    (hwithin : Within text r m.erase) (h : Pending text p m r) :
    here.passes = true ∨ here.ends = true ∨
      p < text.length ∧ Pending text (p + 1) (here.next true) r := by
  obtain ⟨q, hq⟩ | ⟨i, q, hi, hq⟩ := h
  · rcases Nat.lt_or_eq_of_le hq.ge with hpq | hpq
    · have hlt : p < text.length := Nat.lt_of_lt_of_le hpq (hq.le hp)
      exact .inr (.inr ⟨hlt, .inl ⟨q, (hstep.next hlt true).continues q hpq (.inl hq)⟩⟩)
    · rw [← hpq] at hq
      exact .inr (.inl (hstep.ends hq))
  · have hle := hq.le
    rcases Nat.lt_or_eq_of_le hi with hpi | hpi
    · exact .inr (.inr ⟨by omega, .inr ⟨i, q, hpi, hq⟩⟩)
    · rw [← hpi] at hq hle
      have hq := hwithin p q hq
      rcases Nat.lt_or_eq_of_le hle.1 with hpq | hpq
      · have hlt : p < text.length := by omega
        exact .inr (.inr ⟨hlt, .inl ⟨q, (hstep.next hlt true).continues q hpq (.inr ⟨rfl, hq⟩)⟩⟩)
      · rw [← hpq] at hq
        exact .inl (hstep.passes hq)

theorem search_of_pending (hp : p ≤ text.length) (hbounded : m.Bounded text)
    (hwhole : m.Whole text) (hwithin : Within text r m.erase) (hpending : Pending text p m r)
    {rest : List Char} (hrest : text.drop p = rest) : search (before text p) rest m = true := by
  have hhead : rest.head? = text[p]? := by
    rw [← hrest, List.head?_drop]
  have hstep := advances_step hp hbounded hwhole
  induction rest generalizing p m with
  | nil =>
    rw [search, hhead]
    obtain h | h | ⟨hlt, _⟩ := hpending.step hp hstep hwithin
    · simp [h]
    · simp [h]
    · rw [List.drop_eq_nil_iff] at hrest
      omega
  | cons c rest ih =>
    rw [search, hhead]
    obtain h | h | ⟨hlt, h⟩ := hpending.step hp hstep hwithin
    · simp [h]
    · simp [h]
    · have hrest' : text.drop (p + 1) = rest := by
        rw [← List.tail_drop, hrest]
        rfl
      have hbefore : before text (p + 1) = some c := by
        rw [before, if_neg (by omega), Nat.add_sub_cancel, ← hhead]
        rfl
      have hkeeps := hstep.next hlt true
      have hbounded := ((steps_step hp hbounded).next hlt true).bounded
      have hfound := ih hlt hbounded hkeeps.whole (hwithin.trans hkeeps.within) h hrest'
        (by rw [← hrest', List.head?_drop]) (advances_step hlt hbounded hkeeps.whole)
      rw [hbefore] at hfound
      simp [hfound]

end Marked

/--
The search decides whether an expression matches somewhere in the text.
-/
theorem isMatch_iff : r.isMatch text = true ↔ r.Matches text := by
  constructor
  · exact matches_of_isMatch
  · rintro ⟨i, q, h⟩
    exact Marked.search_of_pending (m := .plain r) (Nat.zero_le _) trivial trivial within_refl
      (.inr ⟨i, q, Nat.zero_le i, h⟩) rfl

end GramIndex.Regex
