import GramIndex.Proofs.Spans

/-!
This module contains why the search finds only what is there. What a marked expression can still
match from its marks on is given by a relation, and a step along the text keeps to it: marks come
from marks before them or from matches that are entered at the place.
-/

namespace GramIndex.Regex

variable {text : List Char} {p q : Nat} {r s : Regex}

namespace Marked

variable {m m' : Marked}

def erase : Marked → Regex
  | .plain r => r
  | .read ignoreCase set => .one ignoreCase set
  | .seq r s => .seq r.erase s.erase
  | .alt r s => .alt r.erase s.erase
  | .loop r => r.erase.loop
  | .optional r => r.erase.upTo 1
  | .upTo r n _ _ => r.upTo n

/--
From a mark at place `p`, the character before which has just been read, the expression can match up
to place `q`.
-/
def Continues (text : List Char) : Marked → Nat → Nat → Prop
  | .plain _, _, _ => False
  | .read _ _, p, q => p = q
  | .seq r s, p, q =>
    (∃ k, r.Continues text p k ∧ s.erase.Spans text k q) ∨ s.Continues text p q
  | .alt r s, p, q => r.Continues text p q ∨ s.Continues text p q
  | .loop r, p, q => ∃ k, r.Continues text p k ∧ (k = q ∨ r.erase.loop.Spans text k q)
  | .optional r, p, q => r.Continues text p q
  | .upTo _ _ first second, p, q =>
    first.Continues text p q ∨ (∃ k, first.Continues text p k ∧ second.erase.Spans text k q) ∨
      second.Continues text p q

/--
The halves of a repetition stay within it.
-/
def Bounded (text : List Char) : Marked → Prop
  | .plain _ => True
  | .read _ _ => True
  | .seq r s => r.Bounded text ∧ s.Bounded text
  | .alt r s => r.Bounded text ∧ s.Bounded text
  | .loop r => r.Bounded text
  | .optional r => r.Bounded text
  | .upTo r n first second =>
    Within text first.erase (r.upTo n) ∧ Within text (.seq first.erase second.erase) (r.upTo n) ∧
      first.Bounded text ∧ second.Bounded text

theorem Continues.le (hp : p ≤ text.length) (h : m.Continues text p q) : q ≤ text.length := by
  induction m generalizing q with
  | plain r => cases h
  | read ignoreCase set =>
    have : p = q := h
    omega
  | seq r s ihr ihs =>
    cases h with
    | inl h =>
      obtain ⟨k, _, hs⟩ := h
      exact hs.le.2
    | inr h => exact ihs h
  | alt r s ihr ihs => exact h.elim ihr ihs
  | loop r ih =>
    obtain ⟨k, hr, hrest⟩ := h
    cases hrest with
    | inl heq =>
      rw [← heq]
      exact ih hr
    | inr hrest => exact hrest.le.2
  | optional r ih => exact ih h
  | upTo r n first second ihf ihs =>
    obtain h | ⟨k, _, hs⟩ | h := h
    · exact ihf h
    · exact hs.le.2
    · exact ihs h

/--
A marked expression matches no more than another one does, from its marks on and anew.
-/
structure Refines (text : List Char) (m m' : Marked) : Prop where
  bounded : m'.Bounded text → m.Bounded text
  within : Within text m.erase m'.erase
  continues : ∀ p q, p ≤ text.length → m.Continues text p q → m'.Continues text p q

theorem refines_refl : Refines text m m :=
  ⟨id, within_refl, fun _ _ _ => id⟩

theorem refines_mkSeq (m m' : Marked) : Refines text (mkSeq m m') (.seq m m') := by
  unfold mkSeq
  split
  · next s =>
    refine ⟨fun h => h.2, ?_, fun _ _ _ => .inr⟩
    intro i j h
    exact ⟨i, ⟨rfl, h.le_length⟩, h⟩
  · next r _ =>
    refine ⟨fun h => h.1, ?_, ?_⟩
    · intro i j h
      exact ⟨j, h, rfl, h.le.2⟩
    · intro p q hp h
      exact .inl ⟨q, h, rfl, h.le hp⟩
  · exact ⟨fun _ => trivial, within_refl, fun _ _ _ h => h.elim⟩
  · exact refines_refl

theorem refines_mkAlt (m m' : Marked) : Refines text (mkAlt m m') (.alt m m') := by
  unfold mkAlt
  split
  · exact ⟨fun _ => trivial, within_refl, fun _ _ _ h => h.elim⟩
  · exact refines_refl

theorem refines_mkLoop (m : Marked) : Refines text (mkLoop m) (.loop m) := by
  unfold mkLoop
  split
  · exact ⟨fun _ => trivial, within_refl, fun _ _ _ h => h.elim⟩
  · exact refines_refl

theorem refines_mkOptional (m : Marked) : Refines text (mkOptional m) (.optional m) := by
  unfold mkOptional
  split
  · exact ⟨fun _ => trivial, within_refl, fun _ _ _ h => h.elim⟩
  · exact refines_refl

theorem refines_mkUpTo (r : Regex) (n : Nat) (m m' : Marked) :
    Refines text (mkUpTo r n m m') (.upTo r n m m') := by
  unfold mkUpTo
  split
  · exact ⟨fun _ => trivial, within_refl, fun _ _ _ h => h.elim⟩
  · exact refines_refl

/--
What an expression has become after the character at place `p`, where it was entered at that place.
-/
structure Starts (text : List Char) (p : Nat) (m : Marked) (r : Regex) : Prop where
  bounded : m.Bounded text
  within : Within text m.erase r
  spans : ∀ q, m.Continues text (p + 1) q → r.Spans text p q

theorem Starts.of_refines (hp : p < text.length) (hrefines : Refines text m m')
    (h : m'.Starts text p r) : m.Starts text p r := by
  refine ⟨hrefines.bounded h.bounded, hrefines.within.trans h.within, ?_⟩
  intro q hq
  exact h.spans q (hrefines.continues _ q hp hq)

theorem Starts.mono (h : m.Starts text p r) (hsub : Within text r s) : m.Starts text p s :=
  ⟨h.bounded, h.within.trans hsub, fun q hq => hsub p q (h.spans q hq)⟩

theorem starts_plain : (Marked.plain r).Starts text p r :=
  ⟨trivial, within_refl, fun _ h => h.elim⟩

theorem Starts.seq (hr : m.Starts text p r) (hpasses : r.Spans text p p)
    (hs : m'.Starts text p s) : (Marked.seq m m').Starts text p (.seq r s) := by
  refine ⟨⟨hr.bounded, hs.bounded⟩, hr.within.seq hs.within, ?_⟩
  intro q hq
  cases hq with
  | inl hq =>
    obtain ⟨k, hk, hrest⟩ := hq
    exact ⟨k, hr.spans k hk, hs.within k q hrest⟩
  | inr hq => exact ⟨p, hpasses, hs.spans q hq⟩

theorem Starts.seq_plain (hr : m.Starts text p r) :
    (Marked.seq m (.plain s)).Starts text p (.seq r s) := by
  refine ⟨⟨hr.bounded, trivial⟩, hr.within.seq within_refl, ?_⟩
  intro q hq
  cases hq with
  | inl hq =>
    obtain ⟨k, hk, hrest⟩ := hq
    exact ⟨k, hr.spans k hk, hrest⟩
  | inr hq => cases hq

theorem Starts.alt (hr : m.Starts text p r) (hs : m'.Starts text p s) :
    (Marked.alt m m').Starts text p (.alt r s) :=
  ⟨⟨hr.bounded, hs.bounded⟩, hr.within.alt hs.within,
    fun q hq => hq.imp (hr.spans q) (hs.spans q)⟩

theorem Starts.loop (h : m.Starts text p r) : (Marked.loop m).Starts text p r.loop := by
  refine ⟨h.bounded, h.within.loop, ?_⟩
  rintro q ⟨k, hk, hrest⟩
  cases hrest with
  | inl heq =>
    rw [← heq]
    exact spans_loop_of_spans (h.spans k hk)
  | inr hrest => exact spans_loop_cons (h.spans k hk) (h.within.loop k q hrest)

theorem spans_upTo_one (h : r.Spans text p q) : (r.upTo 1).Spans text p q := by
  rw [spans_upTo]
  exact ⟨h.le_length, 1, Nat.le_refl 1, times_one.2 h⟩

theorem Starts.optional (h : m.Starts text p r) :
    (Marked.optional m).Starts text p (r.upTo 1) :=
  ⟨h.bounded, h.within.upTo, fun q hq => spans_upTo_one (h.spans q hq)⟩

theorem within_times_add (m n : Nat) :
    Within text (.seq (r.times m) (r.times n)) (r.times (m + n)) := by
  rintro i j ⟨k, hfirst, hrest⟩
  exact spans_times_add hfirst hrest

theorem within_upTo_add (m n : Nat) :
    Within text (.seq (r.upTo m) (r.upTo n)) (r.upTo (m + n)) := by
  rintro i j ⟨k, hfirst, hrest⟩
  exact spans_upTo_add hfirst hrest

theorem spans_times_self (n : Nat) (h : r.Spans text p p) : (r.times n).Spans text p p := by
  rw [spans_times]
  exact ⟨h.le_length, times_self h⟩

theorem starts_startTimes {first : Marked} {again : Bool} (hfirst : first.Starts text p r)
    (hagain : again = true → r.Spans text p p) (n : Nat) :
    (startTimes r first again n).Starts text p (r.times n) := by
  fun_induction startTimes r first again n with
  | case1 =>
    apply starts_plain.mono
    rintro i j ⟨heq, hi⟩
    rw [spans_times]
    exact ⟨hi, heq⟩
  | case2 => simpa [times] using hfirst
  | case3 n hzero hone ihfirst ihsecond =>
    have hhalves : n / 2 + (n - n / 2) = n := by omega
    apply Starts.mono (r := .seq (r.times (n / 2)) (r.times (n - n / 2)))
    · cases again with
      | true => exact ihfirst.seq (spans_times_self _ (hagain rfl)) ihsecond
      | false => exact ihfirst.seq_plain
    · have hadd : Within text (.seq (r.times (n / 2)) (r.times (n - n / 2)))
          (r.times (n / 2 + (n - n / 2))) := within_times_add _ _
      rw [hhalves] at hadd
      exact hadd

theorem starts_startUpTo {first : Marked} (hfirst : first.Starts text p r) (n : Nat) :
    (startUpTo r first n).Starts text p (r.upTo n) := by
  fun_induction startUpTo r first n with
  | case1 => exact starts_plain
  | case2 => exact hfirst.optional
  | case3 n hzero hone ih =>
    have hhalves : n / 2 + (n - n / 2) = n := by omega
    have hadd : Within text (.seq (r.upTo (n / 2)) (r.upTo (n - n / 2)))
        (r.upTo (n / 2 + (n - n / 2))) := within_upTo_add _ _
    rw [hhalves] at hadd
    have hfirst : Within text (startUpTo r first (n / 2)).erase (r.upTo n) :=
      ih.within.trans (within_upTo (by omega))
    have hboth := (ih.within.seq within_refl).trans hadd
    refine ⟨⟨hfirst, hboth, ih.bounded, trivial⟩, within_refl, ?_⟩
    intro q hq
    obtain hq | ⟨k, hk, hrest⟩ | hq := hq
    · exact within_upTo (by omega) p q (ih.spans q hq)
    · exact hadd p q ⟨k, ih.spans k hk, hrest⟩
    · cases hq

theorem times_pad {i j n m : Nat} (hpass : ∀ i, i ≤ text.length → r.Spans text i i)
    (hj : j ≤ text.length) (h : Times (r.Spans text) n i j) :
    Times (r.Spans text) (n + m) i j :=
  times_add.2 ⟨j, h, times_self (hpass j hj)⟩

theorem within_repeated_of_upTo (hpass : ∀ i, i ≤ text.length → r.Spans text i i)
    (least extra : Nat) (isLazy : Bool) :
    Within text (r.upTo (least + extra)) (.repeated r least (some extra) isLazy) := by
  intro i j h
  have hj := h.le.2
  rw [spans_upTo] at h
  obtain ⟨hi, n, hn, htimes⟩ := h
  refine ⟨hi, n + (least - n), by omega, ?_, times_pad hpass hj htimes⟩
  intro m hm
  cases hm
  omega

theorem within_repeated_of_loop (hpass : ∀ i, i ≤ text.length → r.Spans text i i) (least : Nat)
    (isLazy : Bool) : Within text r.loop (.repeated r least none isLazy) := by
  intro i j h
  have hj := h.le.2
  rw [spans_loop] at h
  obtain ⟨hi, n, _, htimes⟩ := h
  exact ⟨hi, n + least, by omega, by simp, times_pad hpass hj htimes⟩

theorem within_repeated_of_optional_loop (isLazy : Bool) :
    Within text (r.loop.upTo 1) (.repeated r 0 none isLazy) := by
  intro i j h
  rw [spans_upTo] at h
  obtain ⟨hi, n, hn, htimes⟩ := h
  match n, hn with
  | 0, _ => exact ⟨hi, 0, by omega, by simp, htimes⟩
  | 1, _ =>
    rw [times_one, spans_loop] at htimes
    obtain ⟨_, n, _, htimes⟩ := htimes
    exact ⟨hi, n, by omega, by simp, htimes⟩

theorem within_repeated_of_times_loop (least : Nat) (isLazy : Bool) :
    Within text (.seq (r.times least) r.loop) (.repeated r (least + 1) none isLazy) := by
  rintro i j ⟨k, hfirst, hrest⟩
  rw [spans_times] at hfirst
  rw [spans_loop] at hrest
  obtain ⟨_, n, hn, hrest⟩ := hrest
  exact ⟨hfirst.1, least + n, by omega, by simp, times_add.2 ⟨k, hfirst.2, hrest⟩⟩

theorem within_repeated_of_times_upTo (least extra : Nat) (isLazy : Bool) :
    Within text (.seq (r.times least) (r.upTo extra)) (.repeated r least (some extra) isLazy) := by
  rintro i j ⟨k, hfirst, hrest⟩
  rw [spans_times] at hfirst
  rw [spans_upTo] at hrest
  obtain ⟨_, n, hn, hrest⟩ := hrest
  refine ⟨hfirst.1, least + n, by omega, ?_, times_add.2 ⟨k, hfirst.2, hrest⟩⟩
  intro m hm
  cases hm
  omega

theorem starts_start (hp : p < text.length) (r : Regex) :
    (start (before text p) text[p]? r).Starts text p r := by
  induction r with
  | empty => exact starts_plain
  | one ignoreCase set =>
    unfold start
    split
    · next hmem =>
      refine ⟨trivial, within_refl, ?_⟩
      intro q hq
      have : p + 1 = q := hq
      rw [Option.any_eq_true] at hmem
      exact ⟨this.symm, hmem⟩
    · exact starts_plain
  | look condition => exact starts_plain
  | seq r s ihr ihs =>
    apply Starts.of_refines hp (refines_mkSeq _ _)
    split
    · next hpasses => exact ihr.seq (spans_of_passes (Nat.le_of_lt hp) hpasses) ihs
    · exact ihr.seq_plain
  | alt r s ihr ihs => exact Starts.of_refines hp (refines_mkAlt _ _) (ihr.alt ihs)
  | repeated r least extra isLazy ih =>
    have hagain : r.passes (before text p) text[p]? = true → r.Spans text p p :=
      spans_of_passes (Nat.le_of_lt hp)
    unfold start
    simp only
    split
    · exact starts_plain
    · cases halways : r.alwaysPasses with
      | true =>
        have hpass (i : Nat) (hi : i ≤ text.length) : r.Spans text i i :=
          spans_of_alwaysPasses hi halways
        cases extra with
        | none => exact ih.loop.mono (within_repeated_of_loop hpass least isLazy)
        | some extra =>
          exact (starts_startUpTo ih _).mono (within_repeated_of_upTo hpass least extra isLazy)
      | false =>
        match least, extra with
        | 0, none => exact ih.loop.optional.mono (within_repeated_of_optional_loop isLazy)
        | 0, some extra =>
          apply (starts_startUpTo ih extra).mono
          intro i j h
          apply within_repeated_of_times_upTo 0 extra isLazy i j
          exact ⟨i, spans_times.2 ⟨h.le_length, rfl⟩, h⟩
        | least + 1, none =>
          apply Starts.of_refines hp (refines_mkSeq _ _)
          apply Starts.mono _ (within_repeated_of_times_loop least isLazy)
          have htimes := starts_startTimes ih hagain least
          split
          · next hloop =>
            apply htimes.seq _ ih.loop
            -- Nothing stands before the loop, or what does matches the empty text.
            simp only [Bool.or_eq_true, decide_eq_true_eq] at hloop
            cases hloop with
            | inl hzero =>
              rw [hzero, spans_times]
              exact ⟨Nat.le_of_lt hp, rfl⟩
            | inr hpasses => exact spans_times_self least (hagain hpasses)
          · exact htimes.seq_plain
        | least + 1, some extra =>
          apply Starts.of_refines hp (refines_mkSeq _ _)
          apply Starts.mono _ (within_repeated_of_times_upTo (least + 1) extra isLazy)
          have htimes := starts_startTimes ih hagain (least + 1)
          split
          · next hpasses =>
            exact htimes.seq (spans_times_self _ (hagain hpasses)) (starts_startUpTo ih extra)
          · exact htimes.seq_plain
  | group captures r ih =>
    unfold start
    exact ih.mono fun _ _ h => h

/--
What a marked expression may become after the character at place `p`, with matches that start at the
place or without them.
-/
structure Follows (text : List Char) (p : Nat) (enter : Bool) (m m' : Marked) : Prop where
  bounded : m'.Bounded text
  within : Within text m'.erase m.erase
  spans : ∀ q, m'.Continues text (p + 1) q →
    m.Continues text p q ∨ enter = true ∧ m.erase.Spans text p q

variable {enter enter' : Bool} {n n' : Marked}

theorem Follows.of_refines (hp : p < text.length) (hrefines : Refines text n' m')
    (h : m.Follows text p enter m') : m.Follows text p enter n' := by
  refine ⟨hrefines.bounded h.bounded, hrefines.within.trans h.within, ?_⟩
  intro q hq
  exact h.spans q (hrefines.continues _ q hp hq)

theorem Starts.follows (h : m'.Starts text p m.erase) : m.Follows text p true m' :=
  ⟨h.bounded, h.within, fun q hq => .inr ⟨rfl, h.spans q hq⟩⟩

theorem follows_plain (h : m.erase = r) : m.Follows text p enter (.plain r) := by
  refine ⟨trivial, ?_, fun _ hq => hq.elim⟩
  rw [h]
  exact within_refl

theorem Follows.seq (hm : m.Follows text p enter m') (hn : n.Follows text p enter' n')
    (henter : enter' = true → m.Continues text p p ∨ enter = true ∧ m.erase.Spans text p p) :
    (Marked.seq m n).Follows text p enter (.seq m' n') := by
  refine ⟨⟨hm.bounded, hn.bounded⟩, hm.within.seq hn.within, ?_⟩
  intro q hq
  cases hq with
  | inl hq =>
    obtain ⟨k, hk, hrest⟩ := hq
    have hrest := hn.within k q hrest
    cases hm.spans k hk with
    | inl hk => exact .inl (.inl ⟨k, hk, hrest⟩)
    | inr hk => exact .inr ⟨hk.1, k, hk.2, hrest⟩
  | inr hq =>
    cases hn.spans q hq with
    | inl hq => exact .inl (.inr hq)
    | inr hq =>
      cases henter hq.1 with
      | inl hp => exact .inl (.inl ⟨p, hp, hq.2⟩)
      | inr hp => exact .inr ⟨hp.1, p, hp.2, hq.2⟩

theorem Follows.alt (hm : m.Follows text p enter m') (hn : n.Follows text p enter n') :
    (Marked.alt m n).Follows text p enter (.alt m' n') := by
  refine ⟨⟨hm.bounded, hn.bounded⟩, hm.within.alt hn.within, ?_⟩
  intro q hq
  cases hq with
  | inl hq => exact (hm.spans q hq).imp .inl fun h => ⟨h.1, .inl h.2⟩
  | inr hq => exact (hn.spans q hq).imp .inr fun h => ⟨h.1, .inr h.2⟩

theorem Follows.loop (hm : m.Follows text p enter' m')
    (henter : enter' = true → enter = true ∨ m.Continues text p p) :
    (Marked.loop m).Follows text p enter (.loop m') := by
  refine ⟨hm.bounded, hm.within.loop, ?_⟩
  rintro q ⟨k, hk, hrest⟩
  have hrest : k = q ∨ m.erase.loop.Spans text k q := hrest.imp_right (hm.within.loop k q)
  cases hm.spans k hk with
  | inl hk => exact .inl ⟨k, hk, hrest⟩
  | inr hk =>
    have hloop : m.erase.loop.Spans text p q := by
      cases hrest with
      | inl heq =>
        rw [← heq]
        exact spans_loop_of_spans hk.2
      | inr hrest => exact spans_loop_cons hk.2 hrest
    cases henter hk.1 with
    | inl henter => exact .inr ⟨henter, hloop⟩
    | inr hp => exact .inl ⟨p, hp, .inr hloop⟩

theorem Follows.optional (hm : m.Follows text p enter m') :
    (Marked.optional m).Follows text p enter (.optional m') :=
  ⟨hm.bounded, hm.within.upTo, fun q hq =>
    (hm.spans q hq).imp_right fun h => ⟨h.1, spans_upTo_one h.2⟩⟩

theorem Follows.upTo {times : Nat} (hm : m.Follows text p enter m')
    (hn : n.Follows text p enter' n') (henter : enter' = true → m.Continues text p p)
    (hbounded : (Marked.upTo r times m n).Bounded text) :
    (Marked.upTo r times m n).Follows text p enter (.upTo r times m' n') := by
  obtain ⟨hfirst, hboth, _, _⟩ := hbounded
  refine ⟨⟨hm.within.trans hfirst, (hm.within.seq hn.within).trans hboth, hm.bounded,
    hn.bounded⟩, within_refl, ?_⟩
  intro q hq
  obtain hq | ⟨k, hk, hrest⟩ | hq := hq
  · cases hm.spans q hq with
    | inl hq => exact .inl (.inl hq)
    | inr hq => exact .inr ⟨hq.1, hfirst p q hq.2⟩
  · have hrest := hn.within k q hrest
    cases hm.spans k hk with
    | inl hk => exact .inl (.inr (.inl ⟨k, hk, hrest⟩))
    | inr hk => exact .inr ⟨hk.1, hboth p q ⟨k, hk.2, hrest⟩⟩
  · cases hn.spans q hq with
    | inl hq => exact .inl (.inr (.inr hq))
    | inr hq => exact .inl (.inr (.inl ⟨p, henter hq.1, hq.2⟩))

/--
What a step says of a marked expression at place `p`, and what it makes of it.
-/
structure Steps (text : List Char) (p : Nat) (m : Marked) (s : Step) : Prop where
  passes : s.passes = true → m.erase.Spans text p p
  ends : s.ends = true → m.Continues text p p
  full : s.full = true → m.Continues text p p
  next : p < text.length → ∀ enter, m.Follows text p enter (s.next enter)

theorem steps_step (hp : p ≤ text.length) (hm : m.Bounded text) :
    m.Steps text p (m.step (before text p) text[p]?) := by
  induction m with
  | plain r =>
    refine ⟨spans_of_passes hp, by simp [step], by simp [step], ?_⟩
    intro hlt enter
    cases enter with
    | true => exact (starts_start hlt r).follows
    | false => exact follows_plain rfl
  | read ignoreCase set =>
    refine ⟨by simp [step], fun _ => rfl, fun _ => rfl, ?_⟩
    intro hlt enter
    cases enter with
    | true => exact (starts_start hlt (.one ignoreCase set)).follows
    | false => exact follows_plain rfl
  | seq m n ihm ihn =>
    have hsm := ihm hm.1
    have hsn := ihn hm.2
    have hends : ((Marked.seq m n).step (before text p) text[p]?).ends = true →
        (Marked.seq m n).Continues text p p := by
      intro h
      simp only [step, Bool.or_eq_true, Bool.and_eq_true] at h
      cases h with
      | inl h => exact .inl ⟨p, hsm.ends h.1, hsn.passes h.2⟩
      | inr h => exact .inr (hsn.ends h)
    refine ⟨?_, hends, hends, ?_⟩
    · intro h
      simp only [step, Bool.and_eq_true] at h
      exact ⟨p, hsm.passes h.1, hsn.passes h.2⟩
    · intro hlt enter
      apply Follows.of_refines hlt (refines_mkSeq _ _)
      apply (hsm.next hlt enter).seq (hsn.next hlt _)
      intro henter
      simp only [Bool.or_eq_true, Bool.and_eq_true] at henter
      exact henter.imp hsm.ends fun h => ⟨h.1, hsm.passes h.2⟩
  | alt m n ihm ihn =>
    have hsm := ihm hm.1
    have hsn := ihn hm.2
    have hends : ((Marked.alt m n).step (before text p) text[p]?).ends = true →
        (Marked.alt m n).Continues text p p := by
      intro h
      simp only [step, Bool.or_eq_true] at h
      exact h.imp hsm.ends hsn.ends
    refine ⟨?_, hends, hends, ?_⟩
    · intro h
      simp only [step, Bool.or_eq_true] at h
      exact h.imp hsm.passes hsn.passes
    · intro hlt enter
      apply Follows.of_refines hlt (refines_mkAlt _ _)
      exact (hsm.next hlt enter).alt (hsn.next hlt enter)
  | loop m ih =>
    have hs := ih hm
    have hends : ((Marked.loop m).step (before text p) text[p]?).ends = true →
        (Marked.loop m).Continues text p p := by
      intro h
      exact ⟨p, hs.ends h, .inl rfl⟩
    refine ⟨fun h => spans_loop_of_spans (hs.passes h), hends, hends, ?_⟩
    intro hlt enter
    apply Follows.of_refines hlt (refines_mkLoop _)
    apply (hs.next hlt _).loop
    intro henter
    rw [Bool.or_eq_true] at henter
    exact henter.imp_right hs.ends
  | optional m ih =>
    have hs := ih hm
    refine ⟨?_, hs.ends, hs.ends, ?_⟩
    · intro _
      exact spans_upTo.2 ⟨hp, 0, Nat.zero_le 1, rfl⟩
    · intro hlt enter
      exact Follows.of_refines hlt (refines_mkOptional _) (hs.next hlt enter).optional
  | upTo r times m n ihm ihn =>
    have hsm := ihm hm.2.2.1
    have hsn := ihn hm.2.2.2
    refine ⟨?_, ?_, fun h => .inr (.inr (hsn.full h)), ?_⟩
    · intro _
      exact spans_upTo.2 ⟨hp, 0, Nat.zero_le times, rfl⟩
    · intro h
      simp only [step, Bool.or_eq_true] at h
      cases h with
      | inl h => exact .inl (hsm.ends h)
      | inr h => exact .inr (.inr (hsn.ends h))
    · intro hlt enter
      apply Follows.of_refines hlt (refines_mkUpTo _ _ _ _)
      exact (hsm.next hlt enter).upTo (hsn.next hlt _) hsm.full hm

/--
Marks come from matches that start somewhere before them, all along the search.
-/
theorem matches_of_search (hp : p ≤ text.length) (hm : m.Bounded text)
    (hwithin : Within text m.erase r)
    (hcontinues : ∀ q, m.Continues text p q → ∃ i, r.Spans text i q) {rest : List Char}
    (hrest : text.drop p = rest) (h : search (before text p) rest m = true) : r.Matches text := by
  induction rest generalizing p m with
  | nil =>
    have hhead : text[p]? = none := by
      rw [← List.head?_drop, hrest]
      rfl
    have hs := steps_step hp hm
    rw [hhead] at hs
    simp only [search, List.head?_nil, Bool.or_false, Bool.or_eq_true] at h
    cases h with
    | inl h => exact ⟨p, p, hwithin p p (hs.passes h)⟩
    | inr h =>
      obtain ⟨i, hi⟩ := hcontinues p (hs.ends h)
      exact ⟨i, p, hi⟩
  | cons c rest ih =>
    have hhead : text[p]? = some c := by
      rw [← List.head?_drop, hrest]
      rfl
    have hs := steps_step hp hm
    rw [hhead] at hs
    rw [search, Bool.or_eq_true, Bool.or_eq_true] at h
    obtain (h | h) | h := h
    · exact ⟨p, p, hwithin p p (hs.passes h)⟩
    · obtain ⟨i, hi⟩ := hcontinues p (hs.ends h)
      exact ⟨i, p, hi⟩
    · obtain ⟨hlt, _⟩ := List.getElem?_eq_some_iff.1 hhead
      have hnext := hs.next hlt true
      have hbefore : before text (p + 1) = some c := by
        simp [before, hhead]
      apply ih hlt hnext.bounded (hnext.within.trans hwithin)
      · intro q hq
        cases hnext.spans q hq with
        | inl hq => exact hcontinues q hq
        | inr hq => exact ⟨p, hwithin p q hq.2⟩
      · rw [← List.tail_drop, hrest]
        rfl
      · rw [hbefore]
        exact h

end Marked

theorem matches_of_isMatch (h : r.isMatch text = true) : r.Matches text := by
  apply Marked.matches_of_search (m := .plain r) (Nat.zero_le _) trivial within_refl _ rfl h
  intro q hq
  cases hq

end GramIndex.Regex
