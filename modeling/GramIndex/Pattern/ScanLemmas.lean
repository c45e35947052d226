import GramIndex.Pattern.Scan

/-!
This module contains what the scanners keep of the bytes they split: the parts and the bytes between
them make up the pattern, and the parts are in its order.
-/

namespace GramIndex.Pattern

/--
Parts with one bar between each two of them.
-/
def joinBars (first : Gram) (parts : List Gram) : Gram :=
  first ++ parts.flatMap (byte '|' :: ·)

theorem joinBars_splitBars (bytes : Gram) :
    joinBars (splitBars bytes).1 (splitBars bytes).2 = bytes := by
  have hgo (place : Place) (depth : Nat) :
      joinBars (splitBars.go place depth bytes).1 (splitBars.go place depth bytes).2 = bytes := by
    induction bytes generalizing place depth with
    | nil => rfl
    | cons b rest ih =>
      have := ih (place.next b) (place.groups depth b)
      simp only [splitBars.go]
      split
      · rename_i hb
        rw [hb.2.2]
        simp_all [joinBars]
      · simp_all [joinBars]
  exact hgo _ _

theorem length_le_of_mem_splitBars {bytes part : Gram}
    (h : part ∈ (splitBars bytes).1 :: (splitBars bytes).2) : part.length ≤ bytes.length := by
  have hj := congrArg List.length (joinBars_splitBars bytes)
  rw [joinBars, List.length_append] at hj
  rcases List.mem_cons.1 h with rfl | h
  · omega
  · obtain ⟨before, after, h⟩ := List.append_of_mem h
    rw [h] at hj
    simp at hj
    omega

theorem splitOpen_append {bytes before after : Gram} (h : splitOpen bytes = (before, some after)) :
    before ++ byte '(' :: after = bytes := by
  have hgo (place : Place) (bytes before : Gram)
      (h : splitOpen.go place bytes = (before, some after)) :
      before ++ byte '(' :: after = bytes := by
    induction bytes generalizing place before with
    | nil => simp [splitOpen.go] at h
    | cons b rest ih =>
      unfold splitOpen.go at h
      split at h
      · rename_i hb
        simp_all
      · simp only [Prod.mk.injEq] at h
        rw [← h.1, List.cons_append]
        rw [ih (place.next b) (splitOpen.go (place.next b) rest).1 (Prod.ext rfl h.2)]
  exact hgo _ _ _ h

theorem splitClose_append {bytes inside after : Gram}
    (h : splitClose bytes = some (inside, after)) :
    inside ++ byte ')' :: after = bytes := by
  have hgo (place : Place) (depth : Nat) (bytes inside : Gram)
      (h : splitClose.go place depth bytes = some (inside, after)) :
      inside ++ byte ')' :: after = bytes := by
    induction bytes generalizing place depth inside with
    | nil => simp [splitClose.go] at h
    | cons b rest ih =>
      unfold splitClose.go at h
      split at h
      · rename_i hb
        simp_all
      · split at h
        · rename_i hrest
          simp only [Option.some.injEq, Prod.mk.injEq] at h
          obtain ⟨rfl, rfl⟩ := h
          rw [List.cons_append, ih _ _ _ hrest]
        · simp at h
  exact hgo _ _ _ _ h

theorem splitOpen_none {bytes span : Gram} (h : splitOpen bytes = (span, none)) : span = bytes := by
  have hgo (place : Place) (bytes span : Gram) (h : splitOpen.go place bytes = (span, none)) :
      span = bytes := by
    induction bytes generalizing place span with
    | nil =>
      cases h
      rfl
    | cons b rest ih =>
      unfold splitOpen.go at h
      split at h
      · simp at h
      · simp only [Prod.mk.injEq] at h
        rw [← h.1, ih (place.next b) (splitOpen.go (place.next b) rest).1 (Prod.ext rfl h.2)]
  exact hgo _ _ _ h

/--
The bytes from a place on where the scanners go on: the start, or a place after an ASCII byte.
-/
def Resumes (bytes rest : Gram) : Prop :=
  rest = bytes ∨ ∃ before b, b.toNat < 128 ∧ before ++ b :: rest = bytes

namespace Resumes

variable {bytes rest more : Gram}

theorem refl : Resumes bytes bytes :=
  .inl rfl

theorem suffix (h : Resumes bytes rest) : rest <:+ bytes := by
  cases h with
  | inl h => exact h ▸ List.suffix_rfl
  | inr h =>
    obtain ⟨before, b, _, rfl⟩ := h
    exact (List.suffix_cons b rest).trans (List.suffix_append before _)

theorem prepend (h : Resumes bytes rest) (before : Gram) {b : UInt8} (hb : b.toNat < 128) :
    Resumes (before ++ b :: bytes) rest := by
  cases h with
  | inl h =>
    rw [h]
    exact .inr ⟨before, b, hb, rfl⟩
  | inr h =>
    obtain ⟨before', b', hb', rfl⟩ := h
    exact .inr ⟨before ++ b :: before', b', hb', by simp⟩

theorem cons (h : Resumes bytes rest) {b : UInt8} (hb : b.toNat < 128) :
    Resumes (b :: bytes) rest :=
  h.prepend [] hb

theorem trans (h : Resumes bytes rest) (hrest : Resumes rest more) : Resumes bytes more := by
  cases h with
  | inl h =>
    rw [← h]
    exact hrest
  | inr h =>
    obtain ⟨before, b, hb, rfl⟩ := h
    exact hrest.prepend before hb

theorem dropWhile {b first : UInt8} (hb : b.toNat < 128)
    (h : bytes.dropWhile (· ≠ b) = first :: rest) : Resumes bytes rest := by
  have hfirst : first = b := by
    have hnot := List.head?_dropWhile_not (· ≠ b) bytes
    rw [h] at hnot
    simpa using hnot
  rw [← List.takeWhile_append_dropWhile (p := (· ≠ b)) (l := bytes), h, hfirst]
  exact refl.prepend _ hb

end Resumes

theorem quantifiers_resumes (bytes : Gram) : Resumes bytes (quantifiers bytes).2 := by
  have hgo (required lazy : Bool) (bytes : Gram) :
      Resumes bytes (quantifiers.go required lazy bytes).2 := by
    fun_induction quantifiers.go required lazy bytes with
    | case1 => exact .refl
    | case2 required lazy b rest h ih =>
      simp only [Bool.and_eq_true, decide_eq_true_eq] at h
      rw [h.1]
      exact ih.cons (by decide)
    | case3 required lazy b rest _ h ih =>
      simp only [Bool.or_eq_true, decide_eq_true_eq] at h
      obtain rfl | rfl := h
      · exact ih.cons (by decide)
      · exact ih.cons (by decide)
    | case4 required lazy rest _ _ ih =>
      exact ih.cons (by decide)
    | case5 => exact .refl
    | case6 required lazy rest first after hafter _ _ _ ih =>
      apply Resumes.cons _ (by decide)
      have hrest : Resumes rest after := .dropWhile (b := byte '\x7d') (by decide) hafter
      exact hrest.trans ih
    | case7 => exact .refl
  exact hgo true false bytes

theorem quantifiers_suffix (bytes : Gram) : (quantifiers bytes).2 <:+ bytes :=
  (quantifiers_resumes bytes).suffix

theorem groupBody?_resumes {inside body : Gram} (h : groupBody? inside = some body) :
    Resumes inside body := by
  have hn {bytes body : Gram} (h : groupBody?.named bytes = some body) : Resumes bytes body := by
    unfold groupBody?.named at h
    split at h
    · simp at h
    · split at h
      · simp at h
      · next hdrop =>
        rw [← Option.some.inj h]
        exact .dropWhile (by decide) hdrop
  unfold groupBody? at h
  split at h
  · rw [← Option.some.inj h]
    exact .refl
  · next b rest =>
    split at h
    · rw [← Option.some.inj h]
      exact .refl
    · next hb =>
      rw [Decidable.not_not.1 hb]
      apply Resumes.cons _ (by decide)
      split at h
      · simp at h
      · next c rest =>
        split at h
        · next hc =>
          rw [hc, ← Option.some.inj h]
          exact Resumes.refl.cons (by decide)
        · split at h
          · next hc =>
            rw [hc]
            exact (hn h).cons (by decide)
          · split at h
            · next hc =>
              simp only [Bool.and_eq_true, decide_eq_true_eq] at hc
              obtain ⟨name, rfl⟩ := List.head?_eq_some_iff.1 hc.2
              rw [hc.1]
              exact ((hn h).cons (by decide)).cons (by decide)
            · simp at h

theorem groupBody?_suffix {inside body : Gram} (h : groupBody? inside = some body) :
    body <:+ inside :=
  (groupBody?_resumes h).suffix

end GramIndex.Pattern
