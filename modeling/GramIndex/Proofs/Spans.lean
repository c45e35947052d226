import GramIndex.Regex.Marked

/-!
This module contains what is matched by repetitions and by the other forms that expressions take
while they are searched for.
-/

namespace GramIndex.Regex

section Times

variable {R S : Nat → Nat → Prop} {i j k m n : Nat}

theorem Times.mono (h : Times R n i j) (hsub : ∀ i j, R i j → S i j) : Times S n i j := by
  induction n generalizing i with
  | zero => exact h
  | succ n ih =>
    obtain ⟨k, hfirst, hrest⟩ := h
    exact ⟨k, hsub i k hfirst, ih hrest⟩

theorem times_one : Times R 1 i j ↔ R i j := by
  simp [Times]

theorem times_add : Times R (m + n) i j ↔ ∃ k, Times R m i k ∧ Times R n k j := by
  induction m generalizing i with
  | zero => simp [Times]
  | succ m ih =>
    rw [Nat.add_right_comm]
    simp only [Times, ih]
    constructor
    · rintro ⟨k, hfirst, l, hrest, hlast⟩
      exact ⟨l, ⟨k, hfirst, hrest⟩, hlast⟩
    · rintro ⟨l, ⟨k, hfirst, hrest⟩, hlast⟩
      exact ⟨k, hfirst, l, hrest, hlast⟩

theorem times_self (h : R i i) : Times R n i i := by
  induction n with
  | zero => rfl
  | succ n ih => exact ⟨i, h, ih⟩

theorem Times.le {bound : Nat} (hR : ∀ i j, R i j → i ≤ j ∧ j ≤ bound) (hi : i ≤ bound)
    (h : Times R n i j) : i ≤ j ∧ j ≤ bound := by
  induction n generalizing i with
  | zero =>
    have : i = j := h
    omega
  | succ n ih =>
    obtain ⟨k, hfirst, hrest⟩ := h
    have := hR i k hfirst
    have := ih (by omega) hrest
    omega

end Times

variable {text : List Char} {r s : Regex} {i j k m n : Nat}

theorem Spans.le (h : r.Spans text i j) : i ≤ j ∧ j ≤ text.length := by
  induction r generalizing i j with
  | empty =>
    have := h.1
    have := h.2
    omega
  | one ignoreCase set =>
    obtain ⟨hj, c, hc, _⟩ := h
    obtain ⟨hi, _⟩ := List.getElem?_eq_some_iff.1 hc
    omega
  | look condition =>
    have := h.1
    have := h.2.1
    omega
  | seq r s ihr ihs =>
    obtain ⟨k, hr, hs⟩ := h
    have := ihr hr
    have := ihs hs
    omega
  | alt r s ihr ihs => exact h.elim ihr ihs
  | repeated r least extra isLazy ih =>
    obtain ⟨hi, n, _, _, htimes⟩ := h
    exact htimes.le (fun _ _ => ih) hi
  | group captures r ih => exact ih h

theorem Spans.le_length (h : r.Spans text i j) : i ≤ text.length := by
  have := h.le
  omega

theorem spans_times :
    (r.times n).Spans text i j ↔ i ≤ text.length ∧ Times (r.Spans text) n i j := by
  unfold times
  split
  · next hn =>
    rw [hn, times_one]
    constructor
    · intro h
      exact ⟨h.le_length, h⟩
    · intro h
      exact h.2
  · constructor
    · rintro ⟨hi, m, hleast, hmost, h⟩
      have : m = n := by
        have := hmost 0 rfl
        omega
      rw [← this]
      exact ⟨hi, h⟩
    · rintro ⟨hi, h⟩
      refine ⟨hi, n, Nat.le_refl n, ?_, h⟩
      intro m hm
      omega

theorem spans_upTo :
    (r.upTo n).Spans text i j ↔ i ≤ text.length ∧ ∃ m ≤ n, Times (r.Spans text) m i j := by
  unfold upTo
  split
  · next hn =>
    rw [hn]
    simp only [Spans, Nat.le_zero, exists_eq_left, Times]
    exact and_comm
  · simp [Spans]

theorem spans_loop :
    r.loop.Spans text i j ↔ i ≤ text.length ∧ ∃ n, 1 ≤ n ∧ Times (r.Spans text) n i j := by
  simp [loop, Spans]

theorem spans_loop_of_spans (h : r.Spans text i j) : r.loop.Spans text i j := by
  rw [spans_loop]
  exact ⟨h.le_length, 1, Nat.le_refl 1, times_one.2 h⟩

theorem spans_loop_cons (hfirst : r.Spans text i k) (hrest : r.loop.Spans text k j) :
    r.loop.Spans text i j := by
  rw [spans_loop] at hrest ⊢
  obtain ⟨_, n, _, htimes⟩ := hrest
  exact ⟨hfirst.le_length, n + 1, by omega, k, hfirst, htimes⟩

/--
Every match of one expression in a text is a match of the other.
-/
def Within (text : List Char) (r s : Regex) : Prop :=
  ∀ i j, r.Spans text i j → s.Spans text i j

theorem within_refl : Within text r r := by
  intro i j h
  exact h

theorem Within.trans {t : Regex} (hrs : Within text r s) (hst : Within text s t) :
    Within text r t := by
  intro i j h
  exact hst i j (hrs i j h)

theorem Within.seq {r' s' : Regex} (hr : Within text r r') (hs : Within text s s') :
    Within text (.seq r s) (.seq r' s') := by
  rintro i j ⟨k, hik, hkj⟩
  exact ⟨k, hr i k hik, hs k j hkj⟩

theorem Within.alt {r' s' : Regex} (hr : Within text r r') (hs : Within text s s') :
    Within text (.alt r s) (.alt r' s') := by
  intro i j h
  exact h.imp (hr i j) (hs i j)

theorem Within.loop (h : Within text r s) : Within text r.loop s.loop := by
  intro i j hr
  rw [spans_loop] at hr ⊢
  obtain ⟨hi, n, hn, htimes⟩ := hr
  exact ⟨hi, n, hn, htimes.mono h⟩

theorem Within.upTo (h : Within text r s) : Within text (r.upTo n) (s.upTo n) := by
  intro i j hr
  rw [spans_upTo] at hr ⊢
  obtain ⟨hi, m, hm, htimes⟩ := hr
  exact ⟨hi, m, hm, htimes.mono h⟩

theorem within_upTo (h : m ≤ n) : Within text (r.upTo m) (r.upTo n) := by
  intro i j hr
  rw [spans_upTo] at hr ⊢
  obtain ⟨hi, k, hk, htimes⟩ := hr
  exact ⟨hi, k, by omega, htimes⟩

theorem spans_upTo_add (hfirst : (r.upTo m).Spans text i k) (hrest : (r.upTo n).Spans text k j) :
    (r.upTo (m + n)).Spans text i j := by
  rw [spans_upTo] at hfirst hrest ⊢
  obtain ⟨hi, a, ha, hfirst⟩ := hfirst
  obtain ⟨_, b, hb, hrest⟩ := hrest
  exact ⟨hi, a + b, by omega, times_add.2 ⟨k, hfirst, hrest⟩⟩

theorem spans_times_add (hfirst : (r.times m).Spans text i k)
    (hrest : (r.times n).Spans text k j) : (r.times (m + n)).Spans text i j := by
  rw [spans_times] at hfirst hrest ⊢
  exact ⟨hfirst.1, times_add.2 ⟨k, hfirst.2, hrest.2⟩⟩

theorem spans_of_passes (hi : i ≤ text.length) (h : r.passes (before text i) text[i]? = true) :
    r.Spans text i i := by
  induction r with
  | empty => exact ⟨rfl, hi⟩
  | one ignoreCase set => simp [passes] at h
  | look condition => exact ⟨rfl, hi, h⟩
  | seq r s ihr ihs =>
    simp only [passes, Bool.and_eq_true] at h
    exact ⟨i, ihr h.1, ihs h.2⟩
  | alt r s ihr ihs =>
    simp only [passes, Bool.or_eq_true] at h
    exact h.imp ihr ihs
  | repeated r least extra isLazy ih =>
    refine ⟨hi, least, Nat.le_refl least, fun _ _ => Nat.le_add_right least _, ?_⟩
    simp only [passes, Bool.or_eq_true, decide_eq_true_eq] at h
    cases h with
    | inl h => rw [h, Times]
    | inr h => exact times_self (ih h)
  | group captures r ih => exact ih h

theorem passes_of_alwaysPasses (h : r.alwaysPasses = true) (before after : Option Char) :
    r.passes before after = true := by
  induction r with
  | empty => rfl
  | one ignoreCase set => simp [alwaysPasses] at h
  | look condition => simp [alwaysPasses] at h
  | seq r s ihr ihs =>
    simp only [alwaysPasses, Bool.and_eq_true] at h
    simp only [passes, ihr h.1, ihs h.2, Bool.and_true]
  | alt r s ihr ihs =>
    simp only [alwaysPasses, Bool.or_eq_true] at h
    simp only [passes, Bool.or_eq_true]
    exact h.imp ihr ihs
  | repeated r least extra isLazy ih =>
    simp only [alwaysPasses, Bool.or_eq_true] at h
    simp only [passes, Bool.or_eq_true]
    exact h.imp_right ih
  | group captures r ih => exact ih h

theorem spans_of_alwaysPasses (hi : i ≤ text.length) (h : r.alwaysPasses = true) :
    r.Spans text i i :=
  spans_of_passes hi (passes_of_alwaysPasses h _ _)

end GramIndex.Regex
