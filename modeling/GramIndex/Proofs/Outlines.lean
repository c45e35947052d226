import GramIndex.Pattern.Outline

/-!
This module contains the outline of patterns that are printed from trees. The scanners take the
print of a tree apart as it was put together, provided that each piece between the structure of the
tree looks quiet to them.
-/

namespace GramIndex.Pattern

variable {place : Place} {depth : Nat} {a b rest : Gram}

def Place.after (place : Place) (bytes : Gram) : Place :=
  bytes.foldl next place

theorem Place.after_append (place : Place) (a b : Gram) :
    place.after (a ++ b) = (place.after a).after b := by
  apply List.foldl_append

theorem next_open : Place.next .outside (byte '(') = .outside := rfl

theorem next_close : Place.next .outside (byte ')') = .outside := rfl

theorem next_bar : Place.next .outside (byte '|') = .outside := rfl

theorem groups_open : Place.groups .outside depth (byte '(') = depth + 1 := rfl

theorem groups_close : Place.groups .outside depth (byte ')') = depth - 1 := rfl

theorem groups_bar : Place.groups .outside depth (byte '|') = depth := rfl

/--
Bytes in which the scanners see no structure, from a place on, and that leave them outside.
-/
def Quiet : Place → Gram → Prop
  | place, [] => place = .outside
  | place, b :: rest =>
    (place = .outside → b ≠ byte '(' ∧ b ≠ byte ')' ∧ b ≠ byte '|') ∧ Quiet (place.next b) rest

theorem quiet_nil : Quiet .outside [] := rfl

theorem Quiet.append (ha : Quiet place a) (hb : Quiet .outside b) :
    Quiet place (a ++ b) := by
  induction a generalizing place with
  | nil =>
    have : place = .outside := ha
    rw [this]
    exact hb
  | cons first a ih => exact ⟨ha.1, ih ha.2⟩

theorem Quiet.flatMap {α : Type} {f : α → Gram} {as : List α}
    (h : ∀ a ∈ as, Quiet .outside (f a)) : Quiet .outside (as.flatMap f) := by
  induction as with
  | nil => exact quiet_nil
  | cons a as ih =>
    rw [List.flatMap_cons]
    apply (h a List.mem_cons_self).append
    apply ih
    intro b hb
    exact h b (List.mem_cons_of_mem a hb)

theorem groups_of_quiet {b : UInt8}
    (h : place = .outside → b ≠ byte '(' ∧ b ≠ byte ')' ∧ b ≠ byte '|') :
    place.groups depth b = depth := by
  unfold Place.groups
  split
  · next hplace =>
    have := h hplace
    simp [this]
  · rfl

theorem splitBars_go_quiet (h : Quiet place a) :
    splitBars.go place depth (a ++ rest) =
      (a ++ (splitBars.go .outside depth rest).1, (splitBars.go .outside depth rest).2) := by
  induction a generalizing place with
  | nil =>
    have : place = .outside := h
    rw [this]
    rfl
  | cons b a ih =>
    rw [List.cons_append, splitBars.go, groups_of_quiet h.1, ih h.2]
    have hbar : ¬ (place = .outside ∧ depth = 0 ∧ b = byte '|') := by
      rintro ⟨hplace, _, hb⟩
      exact (h.1 hplace).2.2 hb
    simp only [if_neg hbar, List.cons_append]

theorem splitOpen_go_quiet (h : Quiet place a) :
    splitOpen.go place (a ++ rest) =
      (a ++ (splitOpen.go .outside rest).1, (splitOpen.go .outside rest).2) := by
  induction a generalizing place with
  | nil =>
    have : place = .outside := h
    rw [this]
    rfl
  | cons b a ih =>
    rw [List.cons_append, splitOpen.go, ih h.2]
    have hopen : ¬ (place = .outside ∧ b = byte '(') := by
      rintro ⟨hplace, hb⟩
      exact (h.1 hplace).1 hb
    simp only [if_neg hopen, List.cons_append]

theorem splitClose_go_quiet (h : Quiet place a) :
    splitClose.go place depth (a ++ rest) =
      (splitClose.go .outside depth rest).map fun (inside, after) => (a ++ inside, after) := by
  induction a generalizing place with
  | nil =>
    have : place = .outside := h
    rw [this]
    simp
  | cons b a ih =>
    rw [List.cons_append, splitClose.go, groups_of_quiet h.1, ih h.2]
    have hclose : ¬ (place = .outside ∧ depth = 0 ∧ b = byte ')') := by
      rintro ⟨hplace, _, hb⟩
      exact (h.1 hplace).2.1 hb
    rw [if_neg hclose]
    cases splitClose.go .outside depth rest with
    | none => rfl
    | some split => rfl

theorem hasInlineFlags_go_quiet (h : Quiet place a) :
    hasInlineFlags.go place (a ++ rest) = hasInlineFlags.go .outside rest := by
  induction a generalizing place with
  | nil =>
    have : place = .outside := h
    rw [this]
    rfl
  | cons b a ih =>
    have hopen : ¬ (place = .outside ∧ b = byte '(') := by
      rintro ⟨hplace, hb⟩
      exact (h.1 hplace).1 hb
    rw [List.cons_append, hasInlineFlags.go, ih h.2]
    simp [hopen]

theorem Quiet.after (h : Quiet place a) : place.after a = .outside := by
  induction a generalizing place with
  | nil => exact h
  | cons b a ih => exact ih h.2

theorem hasInlineFlags_go_append (hafter : place.after a = .outside)
    (h : hasInlineFlags.go .outside rest = true) : hasInlineFlags.go place (a ++ rest) = true := by
  induction a generalizing place with
  | nil =>
    have : place = .outside := hafter
    rw [this]
    exact h
  | cons b a ih =>
    rw [List.cons_append, hasInlineFlags.go, Bool.or_eq_true]
    exact .inr (ih hafter)

/--
Bytes that the scanners cross as a whole inside of a group: they leave all groups in them.
-/
structure Passed (a : Gram) : Prop where
  after : Place.after .outside a = .outside
  bars : ∀ depth rest, splitBars.go .outside (depth + 1) (a ++ rest) =
    (a ++ (splitBars.go .outside (depth + 1) rest).1, (splitBars.go .outside (depth + 1) rest).2)
  close : ∀ depth rest, splitClose.go .outside depth (a ++ rest) =
    (splitClose.go .outside depth rest).map fun (inside, after) => (a ++ inside, after)

theorem Quiet.passed (h : Quiet .outside a) : Passed a where
  after := h.after
  bars _ _ := splitBars_go_quiet h
  close _ _ := splitClose_go_quiet h

theorem Passed.append (ha : Passed a) (hb : Passed b) : Passed (a ++ b) where
  after := by
    rw [Place.after_append, ha.after, hb.after]
  bars depth rest := by
    rw [List.append_assoc, ha.bars, hb.bars, List.append_assoc]
  close depth rest := by
    rw [List.append_assoc, ha.close, hb.close, Option.map_map]
    simp [Function.comp_def]

theorem passed_bar : Passed [byte '|'] where
  after := rfl
  bars depth rest := by
    rw [List.singleton_append, splitBars.go, next_bar, groups_bar]
    simp
  close depth rest := by
    have hbar : byte '|' ≠ byte ')' := by decide
    rw [List.singleton_append, splitClose.go, next_bar, groups_bar]
    simp only [hbar, and_false, if_false]
    cases splitClose.go .outside depth rest with
    | none => rfl
    | some split => rfl

theorem Passed.group (h : Passed a) : Passed (byte '(' :: a ++ [byte ')']) where
  after := by
    rw [Place.after_append]
    have hopen : Place.after .outside (byte '(' :: a) = Place.after .outside a := rfl
    rw [hopen, h.after]
    rfl
  bars depth rest := by
    have hbar : byte '(' ≠ byte '|' := by decide
    simp only [List.cons_append, List.append_assoc, List.nil_append]
    rw [splitBars.go, next_open, groups_open, h.bars, splitBars.go, next_close, groups_close,
      Nat.add_sub_cancel]
    simp
  close depth rest := by
    have hparen : byte '(' ≠ byte ')' := by decide
    simp only [List.cons_append, List.append_assoc, List.nil_append]
    rw [splitClose.go, next_open, groups_open, h.close, splitClose.go, next_close, groups_close,
      Nat.add_sub_cancel]
    simp only [hparen, and_false, if_false]
    cases splitClose.go .outside depth rest with
    | none => rfl
    | some split => simp

def startsQuantifier (b : UInt8) : Prop :=
  b = byte '*' ∨ b = byte '?' ∨ b = byte '+' ∨ b = byte '\x7b'

instance : DecidablePred startsQuantifier := fun _ => inferInstanceAs (Decidable (_ ∨ _))

/--
Bytes after which no quantifier can go on.
-/
def Ends (tail : Gram) : Prop :=
  ∀ b, tail.head? = some b → ¬ startsQuantifier b

theorem ends_nil : Ends [] := by
  intro b hb
  simp at hb

theorem quantifiers_go_ends {required lazy : Bool} (h : Ends a) :
    quantifiers.go required lazy a = (required, a) := by
  cases a with
  | nil => rw [quantifiers.go]
  | cons b rest =>
    have hb := h b rfl
    simp only [startsQuantifier, not_or] at hb
    rw [quantifiers.go]
    simp [hb]

/--
Whole quantifiers, which are read up to their end whatever comes after them.
-/
structure Quantifies (quantifying : Gram) : Prop where
  quiet : Quiet .outside quantifying
  read : ∀ tail, Ends tail →
    quantifiers (quantifying ++ tail) = ((quantifiers quantifying).1, tail)

/--
The outline of a pattern with the operands of each part between its bars.
-/
theorem outline_eq (bytes : Gram) :
    outline bytes =
      .any (((splitBars bytes).1 :: (splitBars bytes).2).map fun part => .all (operands part)) := by
  rw [outline]
  congr 1
  exact List.attach_map_val (f := fun part => Plan.all (operands part))

theorem operands_of_splitOpen_none {bytes span : Gram} (h : splitOpen bytes = (span, none)) :
    operands bytes = spanOperand bytes := by
  rw [operands]
  split
  · next heq =>
    rw [h] at heq
    cases heq
    rw [splitOpen_none h]
  · next heq =>
    rw [h] at heq
    cases heq

theorem operands_of_splitClose_none {bytes span after : Gram}
    (hopen : splitOpen bytes = (span, some after)) (hclose : splitClose after = none) :
    operands bytes = spanOperand span ++ [.literal (byte '(' :: after)] := by
  rw [operands]
  split
  · next heq =>
    rw [hopen] at heq
    cases heq
  · next heq =>
    rw [hopen] at heq
    cases heq
    split
    · rfl
    · next heq =>
      rw [hclose] at heq
      cases heq

theorem operands_of_splitClose_some {bytes span after inside behind : Gram}
    (hopen : splitOpen bytes = (span, some after))
    (hclose : splitClose after = some (inside, behind)) :
    operands bytes =
      spanOperand span ++
        ((groupBody? inside).elim .null fun body =>
          if (quantifiers behind).1 then outline body else .null) ::
          operands (quantifiers behind).2 := by
  rw [operands]
  split
  · next heq =>
    rw [hopen] at heq
    cases heq
  · next heq =>
    rw [hopen] at heq
    cases heq
    split
    · next heq =>
      rw [hclose] at heq
      cases heq
    · next heq =>
      rw [hclose] at heq
      cases heq
      split
      · next hbody =>
        rw [hbody]
        rfl
      · next hbody =>
        rw [hbody]
        rfl

/--
The structure of a pattern: pieces of it, bars between alternatives, and groups with a head, a body
and quantifiers.
-/
inductive Skeleton (α : Type) where
  | nil
  | atom (a : α) (rest : Skeleton α)
  | bar (rest : Skeleton α)
  | group (head : α) (body : Skeleton α) (quantifying : List α) (rest : Skeleton α)

namespace Skeleton

variable {α : Type} {bytes : α → Gram} {t : Skeleton α} {span : Gram}

/--
The bytes of a tree as they stand in a pattern. The head of a group has its opening parenthesis.
-/
def print (bytes : α → Gram) : Skeleton α → Gram
  | .nil => []
  | .atom a rest => bytes a ++ rest.print bytes
  | .bar rest => byte '|' :: rest.print bytes
  | .group head body quantifying rest =>
    bytes head ++ body.print bytes ++
      byte ')' :: (quantifying.flatMap bytes ++ rest.print bytes)

/--
The bytes after the opening parenthesis of a group, up to its body. If the scanners find a body, it
is that of the group.
-/
structure Heads (mark body : Gram) : Prop where
  passed : Passed (mark ++ body)
  body : ∀ inside, groupBody? (mark ++ body) = some inside → inside = body

/--
Each part of the tree looks to the scanners like what it is. They do not look into a group without a
body.
-/
def WellFormed (bytes : α → Gram) : Skeleton α → Prop
  | .nil => True
  | .atom a rest => Quiet .outside (bytes a) ∧ rest.WellFormed bytes
  | .bar rest => rest.WellFormed bytes
  | .group head body quantifying rest =>
    (∃ mark, bytes head = byte '(' :: mark ∧ Heads mark (body.print bytes) ∧
      ((groupBody? (mark ++ body.print bytes)).isSome = true → body.WellFormed bytes)) ∧
      Quantifies (quantifying.flatMap bytes) ∧ Ends (rest.print bytes) ∧ rest.WellFormed bytes

def alternation (alternatives : List (Plan Gram) × List (List (Plan Gram))) : Plan Gram :=
  .any ((alternatives.1 :: alternatives.2).map .all)

/--
Whether a group says something: the scanners find its body, and its quantifiers ask for it.
-/
def speaks (mark body quantifying : Gram) : Bool :=
  (groupBody? (mark ++ body)).isSome && (quantifiers quantifying).1

/--
The operands of the alternatives of a tree, the first of which goes on from a span.
-/
def alternatives (bytes : α → Gram) : Gram → Skeleton α →
    List (Plan Gram) × List (List (Plan Gram))
  | span, .nil => (spanOperand span, [])
  | span, .atom a rest => rest.alternatives bytes (span ++ bytes a)
  | span, .bar rest =>
    let others := rest.alternatives bytes []
    (spanOperand span, others.1 :: others.2)
  | span, .group head body quantifying rest =>
    let others := rest.alternatives bytes []
    let group :=
      if speaks (bytes head).tail (body.print bytes) (quantifying.flatMap bytes) then
        alternation (body.alternatives bytes [])
      else
        .null
    (spanOperand span ++ group :: others.1, others.2)

theorem passed_print (h : t.WellFormed bytes) : Passed (t.print bytes) := by
  induction t with
  | nil => exact quiet_nil.passed
  | atom a rest ih => exact h.1.passed.append (ih h.2)
  | bar rest ih => exact passed_bar.append (ih h)
  | group head body quantifying rest _ ih =>
    obtain ⟨⟨mark, hhead, hmark, _⟩, hquantifying, _, hrest⟩ := h
    have hprint : (Skeleton.group head body quantifying rest).print bytes =
        (byte '(' :: (mark ++ body.print bytes) ++ [byte ')']) ++
          (quantifying.flatMap bytes ++ rest.print bytes) := by
      simp [print, hhead]
    rw [hprint]
    exact hmark.passed.group.append (hquantifying.quiet.passed.append (ih hrest))

theorem outline_eq_alternation (pattern : Gram) :
    outline pattern =
      alternation (operands (splitBars pattern).1, (splitBars pattern).2.map operands) := by
  rw [outline_eq, alternation, List.map_cons, List.map_cons, List.map_map]
  rfl

theorem operands_of_quiet (h : Quiet .outside span) : operands span = spanOperand span := by
  have hopen : splitOpen span = (span, none) := by
    have hgo : splitOpen.go .outside (span ++ []) =
        (span ++ (splitOpen.go .outside []).1, (splitOpen.go .outside []).2) :=
      splitOpen_go_quiet h
    rw [List.append_nil] at hgo
    rw [splitOpen, hgo]
    simp [splitOpen.go]
  exact operands_of_splitOpen_none hopen

theorem operands_group {mark quantifying tail : Gram} (hspan : Quiet .outside span)
    (hmark : Heads mark (t.print bytes)) (hquantifying : Quantifies quantifying)
    (htail : Ends tail) :
    operands
        (span ++ byte '(' :: (mark ++ t.print bytes ++ byte ')' :: (quantifying ++ tail))) =
      spanOperand span ++
        (if speaks mark (t.print bytes) quantifying then outline (t.print bytes) else .null) ::
          operands tail := by
  have hopen : splitOpen
      (span ++ byte '(' :: (mark ++ t.print bytes ++ byte ')' :: (quantifying ++ tail))) =
        (span, some (mark ++ t.print bytes ++ byte ')' :: (quantifying ++ tail))) := by
    rw [splitOpen, splitOpen_go_quiet hspan]
    simp [splitOpen.go]
  have hclose : splitClose (mark ++ t.print bytes ++ byte ')' :: (quantifying ++ tail)) =
      some (mark ++ t.print bytes, quantifying ++ tail) := by
    rw [splitClose, hmark.passed.close]
    simp [splitClose.go]
  have hread := hquantifying.read tail htail
  rw [operands_of_splitClose_some hopen hclose, hread, speaks]
  cases hbody : groupBody? (mark ++ t.print bytes) with
  | none => rfl
  | some inside =>
    rw [hmark.body inside hbody]
    simp

theorem ends_splitBars (h : Ends a) : Ends (splitBars a).1 := by
  cases a with
  | nil => exact h
  | cons b rest =>
    intro first hfirst
    apply h first
    rw [splitBars, splitBars.go] at hfirst
    simp only at hfirst
    split at hfirst
    · simp at hfirst
    · simpa using hfirst

theorem operands_splitBars_print (h : t.WellFormed bytes) (hspan : Quiet .outside span) :
    (operands (splitBars (span ++ t.print bytes)).1,
      (splitBars (span ++ t.print bytes)).2.map operands) = t.alternatives bytes span := by
  induction t generalizing span with
  | nil =>
    rw [print, splitBars, splitBars_go_quiet hspan]
    simp only [splitBars.go, List.append_nil, List.map_nil]
    rw [operands_of_quiet hspan]
    rfl
  | atom a rest ih =>
    rw [print, ← List.append_assoc, alternatives]
    exact ih h.2 (hspan.append h.1)
  | bar rest ih =>
    have hrest := ih h quiet_nil
    rw [List.nil_append] at hrest
    rw [print, splitBars, splitBars_go_quiet hspan, splitBars.go, next_bar, groups_bar]
    simp only [and_self, if_true, List.append_nil, List.map_cons]
    rw [operands_of_quiet hspan, alternatives, ← hrest]
    rfl
  | group head body quantifying rest ihbody ihrest =>
    obtain ⟨⟨mark, hhead, hmark, hbody⟩, hquantifying, hends, hrest⟩ := h
    have hothers := ihrest hrest quiet_nil
    rw [List.nil_append] at hothers
    have hsplit : splitBars (span ++ (Skeleton.group head body quantifying rest).print bytes) =
        (span ++ byte '(' :: (mark ++ body.print bytes ++
          byte ')' :: (quantifying.flatMap bytes ++ (splitBars (rest.print bytes)).1)),
          (splitBars (rest.print bytes)).2) := by
      rw [print, hhead, splitBars, splitBars_go_quiet hspan]
      simp only [List.cons_append]
      rw [splitBars.go, next_open, groups_open, hmark.passed.bars, splitBars.go, next_close,
        groups_close, Nat.add_sub_cancel, splitBars_go_quiet hquantifying.quiet]
      have hbar : byte '(' ≠ byte '|' := by decide
      simp [splitBars, hbar]
    have hgroup : (if speaks mark (body.print bytes) (quantifying.flatMap bytes) then
          outline (body.print bytes) else .null) =
        if speaks mark (body.print bytes) (quantifying.flatMap bytes) then
          alternation (body.alternatives bytes []) else .null := by
      split
      · next hspeaks =>
        rw [speaks, Bool.and_eq_true] at hspeaks
        rw [outline_eq_alternation, ← ihbody (hbody hspeaks.1) quiet_nil]
        rfl
      · rfl
    rw [hsplit]
    simp only
    rw [operands_group hspan hmark hquantifying (ends_splitBars hends), hgroup, alternatives,
      ← hothers, hhead]
    rfl

theorem outline_print (h : t.WellFormed bytes) :
    outline (t.print bytes) = alternation (t.alternatives bytes []) := by
  rw [outline_eq_alternation]
  congr 1
  exact operands_splitBars_print h quiet_nil

end Skeleton

end GramIndex.Pattern
