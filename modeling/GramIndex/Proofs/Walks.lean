import GramIndex.Pattern.Cursor
import GramIndex.Proofs.ClassGrammar

/-!
This module contains how a position moves over the bytes of a pattern: it passes over a class up to
where the scanners are outside of it again, and a walk past escapes and classes visits the bytes in
step with the scanners.
-/

namespace GramIndex.Pattern.Cursor

variable {bytes rest : Gram} {pos : Nat} {b : UInt8}

@[simp]
theorem ok_bind {α β : Type} (a : α) (f : α → Except Fault β) : (Except.ok a >>= f) = f a := rfl

theorem cut_take {n : Nat} (h : pos + n ≤ bytes.length) :
    cut bytes pos (pos + n) = .ok ((bytes.drop pos).take n) := by
  rw [cut, if_pos ⟨Nat.le_add_right pos n, h⟩, List.extract, Nat.add_sub_cancel_left]

theorem cut_append {piece : Gram} (hpos : pos ≤ bytes.length)
    (hdrop : bytes.drop pos = piece ++ rest) :
    cut bytes pos (pos + piece.length) = .ok piece := by
  have hlength := congrArg List.length hdrop
  rw [List.length_drop, List.length_append] at hlength
  rw [cut_take (by omega), hdrop, List.take_left]

theorem cut_length (hpos : pos ≤ bytes.length) :
    cut bytes pos bytes.length = .ok (bytes.drop pos) := by
  rw [cut, if_pos ⟨hpos, Nat.le_refl _⟩, List.extract, ← List.length_drop, List.take_length]

section Loops

variable {σ α : Type} {round : Nat → σ → Except Fault (Round σ α)} {stop : Nat} {state : σ}

theorem loop_done (result : α) (h : round pos state = .ok (.done result)) :
    loop stop round pos state = .ok result := by
  rw [loop, h]

theorem loop_next {pos' : Nat} {state' : σ} (h : round pos state = .ok (.next pos' state'))
    (hnext : pos < pos') (hstop : pos < stop) :
    loop stop round pos state = loop stop round pos' state' := by
  rw [loop, h]
  simp only
  rw [dif_pos ⟨hnext, hstop⟩]

end Loops

theorem drop_eq_cons (h : bytes.drop pos = b :: rest) :
    pos < bytes.length ∧ bytes[pos]? = some b ∧ bytes.drop (pos + 1) = rest := by
  refine ⟨?_, ?_, ?_⟩
  · apply Decidable.byContradiction
    intro hle
    rw [List.drop_eq_nil_of_le (Nat.not_lt.1 hle)] at h
    cases h
  · rw [← List.head?_drop, h, List.head?_cons]
  · rw [← List.tail_drop, h, List.tail_cons]

theorem drop_eq_nil (h : bytes.drop pos = []) : bytes.length ≤ pos ∧ bytes[pos]? = none := by
  rw [List.drop_eq_nil_iff] at h
  exact ⟨h, List.getElem?_eq_none h⟩

theorem drop_of_getElem? (h : bytes[pos]? = some b) :
    bytes.drop pos = b :: bytes.drop (pos + 1) := by
  obtain ⟨hpos, rfl⟩ := List.getElem?_eq_some_iff.1 h
  exact List.drop_eq_getElem_cons hpos

section Classes

variable {state : ClassState} {depth : Nat}

theorem next_settled (hstate : state ≠ .escaped) (hcaret : b = byte '^' → state ≠ .opened)
    (hclose : b ≠ byte ']') :
    Place.next (.bracket state depth) b = Place.next (.bracket .inside depth) b := by
  cases state with
  | escaped => exact absurd rfl hstate
  | opened =>
    have hne : b ≠ byte '^' := fun hb => hcaret hb rfl
    simp [Place.next, hne, hclose]
  | first => simp [Place.next, hclose]
  | inside => rfl

/--
A closing bracket that stands for itself is passed over, and then the class goes on as after any of
its members.
-/
theorem go_closing (bytes : Gram) (pos depth : Nat) (hstate : state = .opened ∨ state = .first)
    (hcaret : bytes[pos]? = some (byte '^') → state ≠ .opened) :
    let after := if bytes[pos]? = some (byte ']') then pos + 1 else pos
    pos + Pattern.skipClass.go (.bracket state depth) (bytes.drop pos) =
      after + Pattern.skipClass.go (.bracket .inside depth) (bytes.drop after) := by
  intro after
  by_cases hclose : bytes[pos]? = some (byte ']')
  · have hafter : after = pos + 1 := if_pos hclose
    have hinside : Place.next (.bracket state depth) (byte ']') = .bracket .inside depth := by
      obtain rfl | rfl := hstate <;> rfl
    rw [hafter, drop_of_getElem? hclose, Pattern.skipClass.go, hinside, if_neg (by simp)]
    omega
  · have hafter : after = pos := if_neg hclose
    rw [hafter]
    cases hdrop : bytes.drop pos with
    | nil => rfl
    | cons b rest =>
      have hb := (drop_eq_cons hdrop).2.1
      rw [hb] at hclose hcaret
      have hstate : state ≠ .escaped := by
        obtain rfl | rfl := hstate <;> decide
      rw [Pattern.skipClass.go, Pattern.skipClass.go,
        next_settled hstate (fun heq => hcaret (heq ▸ rfl)) fun heq => hclose (heq ▸ rfl)]

theorem go_afterHead (bytes : Gram) (pos depth : Nat) :
    pos + Pattern.skipClass.go (.bracket .opened depth) (bytes.drop pos) =
      afterHead bytes pos +
        Pattern.skipClass.go (.bracket .inside depth) (bytes.drop (afterHead bytes pos)) := by
  unfold afterHead
  by_cases hcaret : bytes[pos]? = some (byte '^')
  · have hfirst : Place.next (.bracket .opened depth) (byte '^') = .bracket .first depth := rfl
    have hclosing := go_closing bytes (pos + 1) depth (.inr rfl) (by simp)
    rw [if_pos hcaret, drop_of_getElem? hcaret, Pattern.skipClass.go, hfirst, if_neg (by simp),
      ← hclosing]
    omega
  · rw [if_neg hcaret]
    exact go_closing bytes pos depth (.inl rfl) fun h => absurd h hcaret

theorem le_afterHead (bytes : Gram) (pos : Nat) : pos ≤ afterHead bytes pos := by
  unfold afterHead
  grind

/--
Inside of a class a round either comes to where the scanners are outside again, or to a later
position from which they come to the same one.
-/
theorem round_skipClass (bytes : Gram) (pos depth : Nat) :
    skipClass.round bytes pos (depth + 1) =
        .ok (.done (min bytes.length
          (pos + Pattern.skipClass.go (.bracket .inside depth) (bytes.drop pos)))) ∨
      ∃ pos' depth', skipClass.round bytes pos (depth + 1) = .ok (.next pos' (depth' + 1)) ∧
        pos < pos' ∧ pos < bytes.length ∧
        min bytes.length (pos' + Pattern.skipClass.go (.bracket .inside depth') (bytes.drop pos')) =
          min bytes.length
            (pos + Pattern.skipClass.go (.bracket .inside depth) (bytes.drop pos)) := by
  cases hdrop : bytes.drop pos with
  | nil =>
    obtain ⟨hend, hnone⟩ := drop_eq_nil hdrop
    have hmin : min bytes.length (pos + Pattern.skipClass.go (.bracket .inside depth) []) =
        bytes.length := Nat.min_eq_left hend
    left
    rw [hmin]
    simp only [skipClass.round, hnone]
  | cons b rest =>
    obtain ⟨hpos, hb, hrest⟩ := drop_eq_cons hdrop
    by_cases hopen : b = byte '['
    · have hnext : Place.next (.bracket .inside depth) b = .bracket .opened (depth + 1) := by
        rw [hopen]
        rfl
      right
      refine ⟨afterHead bytes (pos + 1), depth + 1, ?_, le_afterHead bytes (pos + 1), hpos, ?_⟩
      · simp only [skipClass.round, hb, if_pos hopen]
      · rw [← go_afterHead, Pattern.skipClass.go, hnext, if_neg (by simp), hrest]
        congr 1
        omega
    by_cases hslash : b = byte '\\'
    · have hnext : Place.next (.bracket .inside depth) b = .bracket .escaped depth := by
        rw [hslash]
        rfl
      right
      refine ⟨pos + 2, depth, ?_, by omega, hpos, ?_⟩
      · simp only [skipClass.round, hb, if_neg hopen, if_pos hslash]
      · rw [Pattern.skipClass.go, hnext, if_neg (by simp), ← List.tail_drop, hrest]
        cases rest with
        | nil =>
          -- The backslash is the last byte, so the position is one past the end.
          have hend : bytes.length ≤ pos + 1 := (drop_eq_nil hrest).1
          simp [Pattern.skipClass.go]
          omega
        | cons x rest =>
          have hinside : Place.next (.bracket .escaped depth) x = .bracket .inside depth := rfl
          rw [Pattern.skipClass.go, hinside, if_neg (by simp)]
          simp
          omega
    by_cases hclose : b = byte ']'
    · cases depth with
      | zero =>
        have hnext : Place.next (.bracket .inside 0) b = .outside := by
          rw [hclose]
          rfl
        left
        rw [Pattern.skipClass.go, if_pos hnext, Nat.min_eq_right hpos]
        simp only [skipClass.round, hb, if_neg hopen, if_neg hslash, if_pos hclose]
        rfl
      | succ depth =>
        have hnext :
            Place.next (.bracket .inside (depth + 1)) b = .bracket .inside depth := by
          rw [hclose]
          rfl
        right
        refine ⟨pos + 1, depth, ?_, by omega, hpos, ?_⟩
        · simp only [skipClass.round, hb, if_neg hopen, if_neg hslash, if_pos hclose]
          rfl
        · rw [Pattern.skipClass.go, hnext, if_neg (by simp), hrest]
          congr 1
          omega
    · have hnext : Place.next (.bracket .inside depth) b = .bracket .inside depth := by
        simp [Place.next, hopen, hslash, hclose]
      right
      refine ⟨pos + 1, depth, ?_, by omega, hpos, ?_⟩
      · simp only [skipClass.round, hb, if_neg hopen, if_neg hslash, if_neg hclose]
      · rw [Pattern.skipClass.go, hnext, if_neg (by simp), hrest]
        congr 1
        omega

/--
Inside of a class the position comes to where the scanners are outside again.
-/
theorem loop_skipClass (bytes : Gram) (pos depth : Nat) :
    loop bytes.length (skipClass.round bytes) pos (depth + 1) =
      .ok (min bytes.length
        (pos + Pattern.skipClass.go (.bracket .inside depth) (bytes.drop pos))) := by
  generalize hleft : bytes.length - pos = left
  induction left using Nat.strongRecOn generalizing pos depth with
  | ind left ih =>
    cases round_skipClass bytes pos depth with
    | inl hdone => rw [loop_done _ hdone]
    | inr hnext =>
      obtain ⟨pos', depth', hround, hlt, hpos, hgo⟩ := hnext
      rw [loop_next hround hlt hpos, ih _ (by omega) pos' depth' rfl, hgo]

theorem go_le_length (place : Place) (rest : Gram) :
    Pattern.skipClass.go place rest ≤ rest.length := by
  induction rest generalizing place with
  | nil => exact Nat.le_refl 0
  | cons b rest ih =>
    rw [Pattern.skipClass.go]
    split
    · exact Nat.succ_le_succ (Nat.zero_le _)
    · exact Nat.succ_le_succ (ih _)

theorem skipClass_eq_of_drop (hdrop : bytes.drop pos = byte '[' :: rest) :
    skipClass bytes pos =
      .ok (pos + 1 + Pattern.skipClass.go (.bracket .opened 0) rest) := by
  obtain ⟨hpos, hb, hrest⟩ := drop_eq_cons hdrop
  have hround : skipClass.round bytes pos 0 = .ok (.next (afterHead bytes (pos + 1)) 1) := by
    simp only [skipClass.round, hb, if_pos]
  have hle := le_afterHead bytes (pos + 1)
  have hgo := go_le_length (.bracket .opened 0) rest
  have hlength : bytes.length = pos + 1 + rest.length := by
    rw [← hrest, List.length_drop]
    omega
  rw [skipClass, loop_next hround (by omega) hpos, loop_skipClass, ← go_afterHead, hrest,
    Nat.min_eq_right (by omega)]

/--
A class that opens at a position is passed over up to a later position, which is no later than the
end of the bytes.
-/
theorem skipClass_eq (h : bytes[pos]? = some (byte '[')) :
    skipClass bytes pos = .ok (Pattern.skipClass bytes pos) ∧
      pos < Pattern.skipClass bytes pos ∧ Pattern.skipClass bytes pos ≤ bytes.length := by
  have hdrop := drop_of_getElem? h
  have hgo : Pattern.skipClass bytes pos =
      pos + 1 + Pattern.skipClass.go (.bracket .opened 0) (bytes.drop (pos + 1)) := by
    have hnext : Place.next .outside (byte '[') = .bracket .opened 0 := rfl
    rw [Pattern.skipClass, hdrop, Pattern.skipClass.go, hnext, if_neg (by simp)]
    omega
  have hle := go_le_length (.bracket .opened 0) (bytes.drop (pos + 1))
  have hpos := (drop_eq_cons hdrop).1
  rw [List.length_drop] at hle
  rw [hgo]
  exact ⟨skipClass_eq_of_drop hdrop, by omega, by omega⟩

end Classes

section Walks

variable {σ α : Type} {visit : Nat → UInt8 → σ → Except Fault (σ ⊕ α)} {finish : σ → α} {state : σ}
  {place : Place}

/--
A byte that carries structure or stands for itself outside of escapes and classes.
-/
def Visited (place : Place) (b : UInt8) : Prop :=
  place = .outside ∧ b ≠ byte '\\' ∧ b ≠ byte '['

instance : Decidable (Visited place b) := inferInstanceAs (Decidable (_ ∧ _))

theorem Visited.next_eq (h : Visited place b) : place.next b = .outside := by
  obtain ⟨rfl, hslash, hopen⟩ := h
  simp [Place.next, hslash, hopen]

theorem groups_of_not_visited {depth : Nat} (h : ¬ Visited place b) :
    place.groups depth b = depth := by
  unfold Visited at h
  unfold Place.groups
  split
  · next hplace =>
    have hb : b = byte '\\' ∨ b = byte '[' := by
      simp only [hplace, true_and, not_and, Classical.not_not] at h
      exact Decidable.or_iff_not_imp_left.2 h
    obtain rfl | rfl := hb <;> rfl
  · rfl

/--
Where a walk passes over a byte, the scanners do not take it for structure either.
-/
theorem not_structure_of_not_visited {mark : UInt8} (h : ¬ Visited place b)
    (hmark : mark ≠ byte '\\' ∧ mark ≠ byte '[') :
    ¬ (place = .outside ∧ b = mark) := by
  rintro ⟨hplace, rfl⟩
  exact h ⟨hplace, hmark⟩

/--
A walk that takes one byte after the other, in step with the scanners.
-/
def follow (visit : Nat → UInt8 → σ → Except Fault (σ ⊕ α)) (finish : σ → α) :
    Place → Nat → σ → Gram → Except Fault α
  | _, _, state, [] => .ok (finish state)
  | place, pos, state, b :: rest =>
    if Visited place b then do
      match ← visit pos b state with
      | .inl state => follow visit finish .outside (pos + 1) state rest
      | .inr result => return result
    else
      follow visit finish (place.next b) (pos + 1) state rest

theorem follow_visited {state' : σ} (h : Visited place b)
    (hvisit : visit pos b state = .ok (.inl state')) :
    follow visit finish place pos state (b :: rest) =
      follow visit finish (place.next b) (pos + 1) state' rest := by
  rw [follow, if_pos h, hvisit, h.next_eq]
  rfl

theorem follow_result {result : α} (h : Visited place b)
    (hvisit : visit pos b state = .ok (.inr result)) :
    follow visit finish place pos state (b :: rest) = .ok result := by
  rw [follow, if_pos h, hvisit]
  rfl

theorem follow_passed (h : ¬ Visited place b) :
    follow visit finish place pos state (b :: rest) =
      follow visit finish (place.next b) (pos + 1) state rest := by
  rw [follow, if_neg h]

theorem follow_skipClass (pos : Nat) (state : σ) (rest : Gram) (hplace : place ≠ .outside) :
    follow visit finish place pos state rest =
      follow visit finish .outside (pos + Pattern.skipClass.go place rest) state
        (rest.drop (Pattern.skipClass.go place rest)) := by
  induction rest generalizing place pos with
  | nil => rfl
  | cons b rest ih =>
    rw [follow_passed fun h => hplace h.1, Pattern.skipClass.go]
    by_cases hnext : place.next b = .outside
    · rw [if_pos hnext, hnext]
      rfl
    · rw [if_neg hnext, ih _ hnext, List.drop_succ_cons]
      congr 1
      omega

theorem walk_eq_follow (bytes : Gram) (pos : Nat) (state : σ) :
    walk bytes visit finish pos state =
      follow visit finish .outside pos state (bytes.drop pos) := by
  unfold walk
  generalize hleft : bytes.length - pos = left
  induction left using Nat.strongRecOn generalizing pos state with
  | ind left ih =>
    cases hdrop : bytes.drop pos with
    | nil =>
      rw [loop_done (finish state)]
      · rfl
      · simp only [walk.round, (drop_eq_nil hdrop).2]
    | cons b rest =>
      obtain ⟨hpos, hb, hrest⟩ := drop_eq_cons hdrop
      by_cases hslash : b = byte '\\'
      · have hround : walk.round bytes visit finish pos state = .ok (.next (pos + 2) state) := by
          simp only [walk.round, hb, if_pos hslash]
        have hnext : Place.next .outside b = .escaped := by
          rw [hslash]
          rfl
        rw [loop_next hround (by omega) hpos, ih _ (by omega) _ _ rfl,
          follow_passed fun h => h.2.1 hslash, hnext, ← List.tail_drop, hrest]
        cases rest with
        | nil => rfl
        | cons x rest =>
          have hescaped : ¬ Visited .escaped x := by
            rintro ⟨hplace, _⟩
            cases hplace
          rw [follow_passed hescaped]
          rfl
      · by_cases hopen : b = byte '['
        · subst hopen
          have hskip := skipClass_eq_of_drop hdrop
          have hround : walk.round bytes visit finish pos state =
              .ok (.next (pos + 1 + Pattern.skipClass.go (.bracket .opened 0) rest) state) := by
            simp only [walk.round, hb, if_neg hslash, hskip]
            rfl
          have hnext : Place.next .outside (byte '[') = .bracket .opened 0 := rfl
          rw [loop_next hround (by omega) hpos, ih _ (by omega) _ _ rfl,
            follow_passed fun h => h.2.2 rfl, hnext,
            follow_skipClass (pos + 1) state rest (by simp), ← hrest, List.drop_drop]
        · have hvisited : Visited .outside b := ⟨rfl, hslash, hopen⟩
          cases hvisit : visit pos b state with
          | error fault =>
            rw [loop, follow, if_pos hvisited, hvisit]
            simp only [walk.round, hb, if_neg hslash, if_neg hopen, hvisit]
            rfl
          | ok outcome =>
            cases outcome with
            | inl state' =>
              have hround : walk.round bytes visit finish pos state =
                  .ok (.next (pos + 1) state') := by
                simp only [walk.round, hb, if_neg hslash, if_neg hopen, hvisit]
                rfl
              rw [loop_next hround (by omega) hpos, ih _ (by omega) _ _ rfl, hrest,
                follow_visited hvisited hvisit, hvisited.next_eq]
            | inr result =>
              rw [loop_done result, follow_result hvisited hvisit]
              simp only [walk.round, hb, if_neg hslash, if_neg hopen, hvisit]
              rfl

end Walks

end GramIndex.Pattern.Cursor
