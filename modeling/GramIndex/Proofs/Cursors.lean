import GramIndex.Proofs.Outlines
import GramIndex.Proofs.Plans
import GramIndex.Proofs.Walks

/-!
This module contains why the compilation of a pattern by positions comes to no fault: at each
position the scanners by positions do what the scanners over the rest of the bytes do, so that they
find the same places, and the spans between them are those of the pattern's outline.
-/

namespace GramIndex.Pattern.Cursor

variable {bytes rest : Gram} {pos : Nat} {b : UInt8}

section Scanners

variable {place : Place} {depth : Nat}

/--
The positions of the bars between parts of which the first one starts at `pos`.
-/
def barsBetween (pos : Nat) (first : Gram) : List Gram → List Nat
  | [] => []
  | part :: parts => (pos + first.length) :: barsBetween (pos + first.length + 1) part parts

theorem barsBetween_cons (pos : Nat) (b : UInt8) (first : Gram) (parts : List Gram) :
    barsBetween pos (b :: first) parts = barsBetween (pos + 1) first parts := by
  have hlength : pos + (b :: first).length = pos + 1 + first.length := by
    rw [List.length_cons]
    omega
  cases parts with
  | nil => rfl
  | cons part parts => rw [barsBetween, barsBetween, hlength]

theorem visit_topLevelBars (h : Visited place b) (pos depth : Nat) (bars : List Nat) :
    topLevelBars.visit pos b (depth, bars) =
      .ok (.inl (place.groups depth b,
        if place = .outside ∧ depth = 0 ∧ b = byte '|' then bars ++ [pos] else bars)) := by
  obtain ⟨rfl, _, _⟩ := h
  by_cases hopen : b = byte '('
  · subst hopen
    have hbar : byte '(' ≠ byte '|' := by decide
    simp [topLevelBars.visit, Place.groups, hbar]
  · by_cases hclose : b = byte ')'
    · subst hclose
      have hbar : byte ')' ≠ byte '|' := by decide
      simp [topLevelBars.visit, Place.groups, hopen, hbar]
    · simp only [topLevelBars.visit, Place.groups, if_neg hopen, if_neg hclose, if_true, true_and,
        and_comm]
      split
      · rfl
      · rfl

theorem follow_topLevelBars (place : Place) (depth pos : Nat) (bars : List Nat) (rest : Gram) :
    follow topLevelBars.visit Prod.snd place pos (depth, bars) rest =
      .ok (bars ++ barsBetween pos (splitBars.go place depth rest).1
        (splitBars.go place depth rest).2) := by
  induction rest generalizing place depth pos bars with
  | nil => simp [follow, splitBars.go, barsBetween]
  | cons b rest ih =>
    by_cases hvisited : Visited place b
    · rw [follow_visited hvisited (visit_topLevelBars hvisited pos depth bars), ih, splitBars.go]
      simp only
      split
      · simp [barsBetween]
      · rw [barsBetween_cons]
    · have hnone : ¬ (place = .outside ∧ b = byte '|') :=
        not_structure_of_not_visited hvisited (by decide)
      have hbar : ¬ (place = .outside ∧ depth = 0 ∧ b = byte '|') :=
        fun hbar => hnone ⟨hbar.1, hbar.2.2⟩
      rw [follow_passed hvisited, ih, splitBars.go, groups_of_not_visited hvisited]
      simp only [if_neg hbar]
      rw [barsBetween_cons]

theorem topLevelBars_eq (bytes : Gram) :
    topLevelBars bytes = .ok (barsBetween 0 (splitBars bytes).1 (splitBars bytes).2) := by
  rw [topLevelBars, walk_eq_follow, follow_topLevelBars, List.drop_zero, List.nil_append]
  rfl

theorem follow_nextOpen (place : Place) (pos : Nat) (rest : Gram) :
    follow (fun pos b () => .ok (if b = byte '(' then .inr (some pos) else .inl ()))
        (fun () => none) place pos () rest =
      .ok ((splitOpen.go place rest).2.map fun _ => pos + (splitOpen.go place rest).1.length) := by
  induction rest generalizing place pos with
  | nil => rfl
  | cons b rest ih =>
    rw [splitOpen.go]
    by_cases hvisited : Visited place b
    · by_cases hopen : b = byte '('
      · rw [follow, if_pos hvisited, if_pos hopen, if_pos ⟨hvisited.1, hopen⟩]
        rfl
      · rw [follow, if_pos hvisited, if_neg hopen, if_neg fun h => hopen h.2, ← hvisited.next_eq]
        simp [ih, Nat.add_assoc, Nat.add_comm 1]
    · have hopen : ¬ (place = .outside ∧ b = byte '(') :=
        not_structure_of_not_visited hvisited (by decide)
      rw [follow_passed hvisited, ih, if_neg hopen]
      simp [Nat.add_assoc, Nat.add_comm 1]

theorem nextOpen_eq (bytes : Gram) (pos : Nat) :
    nextOpen bytes pos =
      .ok ((splitOpen (bytes.drop pos)).2.map
        fun _ => pos + (splitOpen (bytes.drop pos)).1.length) := by
  rw [nextOpen, walk_eq_follow, follow_nextOpen]
  rfl

theorem splitClose_go_cons (place : Place) (depth : Nat) (b : UInt8) (rest : Gram) :
    splitClose.go place depth (b :: rest) =
      if place = .outside ∧ depth = 0 ∧ b = byte ')' then
        some ([], rest)
      else
        (splitClose.go (place.next b) (place.groups depth b) rest).map
          fun split => (b :: split.1, split.2) := by
  rw [splitClose.go]
  cases splitClose.go (place.next b) (place.groups depth b) rest with
  | none => rfl
  | some split => rfl

theorem visit_matchingParen (h : Visited place b) (hclose : ¬ (depth = 0 ∧ b = byte ')'))
    (pos : Nat) :
    matchingParen.visit pos b (depth + 1) = .ok (.inl (place.groups depth b + 1)) := by
  obtain ⟨rfl, _, _⟩ := h
  unfold matchingParen.visit Place.groups
  by_cases hopen : b = byte '('
  · simp only [if_pos hopen, if_true]
  · by_cases hparen : b = byte ')'
    · cases depth with
      | zero => exact absurd ⟨rfl, hparen⟩ hclose
      | succ depth =>
        simp only [if_neg hopen, if_pos hparen, if_true]
        rfl
    · simp only [if_neg hopen, if_neg hparen, if_true]

/--
From inside of a group on, the depth also counts the group itself, so that there is always one to
count down.
-/
theorem follow_matchingParen (place : Place) (depth pos : Nat) (rest : Gram) :
    follow matchingParen.visit (fun _ => none) place pos (depth + 1) rest =
      .ok ((splitClose.go place depth rest).map fun split => pos + split.1.length) := by
  induction rest generalizing place depth pos with
  | nil => rfl
  | cons b rest ih =>
    have hlength (split : Gram × Gram) :
        pos + (b :: split.1).length = pos + 1 + split.1.length := by
      rw [List.length_cons]
      omega
    rw [splitClose_go_cons]
    by_cases hvisited : Visited place b
    · have hplace := hvisited.1
      by_cases hclose : depth = 0 ∧ b = byte ')'
      · obtain ⟨rfl, rfl⟩ := hclose
        rw [follow, if_pos hvisited, if_pos ⟨hplace, rfl, rfl⟩]
        rfl
      · have hvisit := visit_matchingParen hvisited hclose pos
        rw [follow_visited hvisited hvisit, ih, if_neg fun h => hclose h.2, Option.map_map]
        simp only [Function.comp_def, hlength]
    · have hnone : ¬ (place = .outside ∧ b = byte ')') :=
        not_structure_of_not_visited hvisited (by decide)
      have hclose : ¬ (place = .outside ∧ depth = 0 ∧ b = byte ')') :=
        fun hclose => hnone ⟨hclose.1, hclose.2.2⟩
      rw [follow_passed hvisited, ih, groups_of_not_visited hvisited, if_neg hclose,
        Option.map_map]
      simp only [Function.comp_def, hlength]

theorem matchingParen_eq (h : bytes[pos]? = some (byte '(')) :
    matchingParen bytes pos =
      .ok ((splitClose (bytes.drop (pos + 1))).map fun split => pos + 1 + split.1.length) := by
  have hvisited : Visited .outside (byte '(') := ⟨rfl, by decide, by decide⟩
  have hvisit : matchingParen.visit pos (byte '(') 0 = .ok (.inl 1) := rfl
  rw [matchingParen, walk_eq_follow, drop_of_getElem? h, follow_visited hvisited hvisit,
    follow_matchingParen]
  rfl

theorem closesFlags_eq (rest : Gram) :
    opensFlags.closesFlags rest =
      decide ((rest.dropWhile opensFlags.isFlag).head? = some (byte ')')) := by
  induction rest with
  | nil => rfl
  | cons b rest ih =>
    rw [opensFlags.closesFlags, ih, List.dropWhile_cons]
    by_cases hflag : opensFlags.isFlag b = true
    · have hclose : b ≠ byte ')' := by
        rintro rfl
        exact absurd hflag (by decide)
      simp [hflag, hclose]
    · simp [hflag]

theorem drop_takeWhile {p : UInt8 → Bool} (rest : Gram) :
    rest.drop (rest.takeWhile p).length = rest.dropWhile p := by
  conv => lhs; arg 2; rw [← List.takeWhile_append_dropWhile (p := p) (l := rest)]
  rw [List.drop_left]

theorem take_takeWhile {p : UInt8 → Bool} (rest : Gram) :
    rest.take (rest.takeWhile p).length = rest.takeWhile p :=
  (List.prefix_iff_eq_take.1 (List.takeWhile_prefix p)).symm

theorem opensFlags_eq (q : UInt8) (rest : Gram) :
    opensFlags (q :: rest) =
      decide (q = byte '?' ∧ 0 < (rest.takeWhile opensFlags.isFlag).length ∧
        (rest.dropWhile opensFlags.isFlag).head? = some (byte ')')) := by
  cases rest with
  | nil => simp [opensFlags]
  | cons f rest =>
    rw [opensFlags, closesFlags_eq]
    cases hflag : opensFlags.isFlag f with
    | false => simp [hflag]
    | true => simp [hflag]

theorem visit_hasInlineFlags (hdrop : bytes.drop pos = b :: rest) :
    hasInlineFlags.visit bytes pos b () =
      .ok (if b = byte '(' ∧ opensFlags rest = true then .inr true else .inl ()) := by
  have hrest := (drop_eq_cons hdrop).2.2
  unfold hasInlineFlags.visit
  cases rest with
  | nil =>
    rw [(drop_eq_nil hrest).2]
    simp [opensFlags]
  | cons q rest =>
    obtain ⟨hpos, hq, hbehind⟩ := drop_eq_cons hrest
    by_cases hhead : b = byte '(' ∧ q = byte '?'
    · have hcut : cut bytes (pos + 2) bytes.length = .ok rest := by
        rw [cut_length hpos, hbehind]
      have hget (flags : Nat) : bytes[pos + 2 + flags]? = (rest.drop flags).head? := by
        rw [← hbehind, List.drop_drop, List.head?_drop]
      obtain ⟨rfl, rfl⟩ := hhead
      simp only [hq, hcut, ok_bind, hget, drop_takeWhile, opensFlags_eq]
      simp only [true_and, decide_eq_true_eq, and_self, if_true]
      split
      · rfl
      · rfl
    · have hflags : ¬ (b = byte '(' ∧ opensFlags (q :: rest) = true) := by
        rw [opensFlags_eq]
        rintro ⟨hb, hq⟩
        exact hhead ⟨hb, (of_decide_eq_true hq).1⟩
      have hvisit : ¬ (b = byte '(' ∧ some q = some (byte '?')) :=
        fun h => hhead ⟨h.1, Option.some.inj h.2⟩
      rw [hq, if_neg hvisit, if_neg hflags]

theorem follow_hasInlineFlags (place : Place) (hdrop : bytes.drop pos = rest) :
    follow (hasInlineFlags.visit bytes) (fun () => false) place pos () rest =
      .ok (Pattern.hasInlineFlags.go place rest) := by
  induction rest generalizing place pos with
  | nil => rfl
  | cons b rest ih =>
    have hrest := (drop_eq_cons hdrop).2.2
    rw [Pattern.hasInlineFlags.go]
    by_cases hvisited : Visited place b
    · by_cases hflags : b = byte '(' ∧ opensFlags rest = true
      · have hvisit := visit_hasInlineFlags hdrop
        rw [if_pos hflags] at hvisit
        rw [follow_result hvisited hvisit]
        simp [hvisited.1, hflags]
      · have hvisit := visit_hasInlineFlags hdrop
        rw [if_neg hflags] at hvisit
        rw [follow_visited hvisited hvisit, ih _ hrest]
        simp [hvisited.1, hflags]
    · have hopen : ¬ (place = .outside ∧ b = byte '(') :=
        not_structure_of_not_visited hvisited (by decide)
      rw [follow_passed hvisited, ih _ hrest]
      simp [hopen]

theorem hasInlineFlags_eq (bytes : Gram) :
    hasInlineFlags bytes = .ok (Pattern.hasInlineFlags bytes) := by
  rw [hasInlineFlags, walk_eq_follow, follow_hasInlineFlags _ rfl]
  rfl

theorem findIdx?_eq (stop : UInt8) (rest : Gram) :
    rest.findIdx? (· = stop) =
      match rest.dropWhile (· ≠ stop) with
      | [] => none
      | _ :: _ => some (rest.takeWhile (· ≠ stop)).length := by
  induction rest with
  | nil => rfl
  | cons b rest ih =>
    by_cases hb : b = stop
    · simp [List.findIdx?_cons, hb]
    · simp only [List.findIdx?_cons, List.dropWhile_cons, List.takeWhile_cons, hb, ih,
        ne_eq, not_false_eq_true, decide_true, decide_false, if_true, Bool.false_eq_true, if_false]
      cases rest.dropWhile fun b => decide ¬ b = stop with
      | nil => rfl
      | cons _ after => rfl

theorem quantifiers_go_brace (required lazy : Bool) (rest : Gram) :
    quantifiers.go required lazy (byte '\x7b' :: rest) =
      match rest.dropWhile (· ≠ byte '\x7d') with
      | [] => (required, byte '\x7b' :: rest)
      | _ :: after =>
        quantifiers.go (required && atLeastOnce (rest.takeWhile (· ≠ byte '\x7d'))) true after := by
  have hplus : byte '\x7b' ≠ byte '+' := by decide
  have hoptional : byte '\x7b' ≠ byte '*' ∧ byte '\x7b' ≠ byte '?' := by decide
  rw [quantifiers.go]
  simp only [hplus, hoptional, decide_false, Bool.false_and, Bool.or_self, Bool.false_eq_true,
    if_false, if_true]
  split
  · next hafter => rw [hafter]
  · next hafter => rw [hafter]

theorem drop_closing {after : Gram} {opening closing : UInt8} {p : UInt8 → Bool}
    (hdrop : bytes.drop pos = opening :: rest) (hafter : rest.dropWhile p = closing :: after) :
    pos + 1 + (rest.takeWhile p).length < bytes.length ∧
      bytes.drop (pos + 1 + (rest.takeWhile p).length + 1) = after := by
  have hclosing : bytes.drop (pos + 1 + (rest.takeWhile p).length) = closing :: after := by
    rw [← List.drop_drop, (drop_eq_cons hdrop).2.2, drop_takeWhile, hafter]
  exact ⟨(drop_eq_cons hclosing).1, (drop_eq_cons hclosing).2.2⟩

theorem round_brace (hdrop : bytes.drop pos = byte '\x7b' :: rest) (required lazy : Bool) :
    groupQuantifier.round bytes pos (required, lazy) =
      match rest.dropWhile (· ≠ byte '\x7d') with
      | [] => .ok (.done (required, pos))
      | _ :: _ =>
        .ok (.next (pos + 1 + (rest.takeWhile (· ≠ byte '\x7d')).length + 1)
          (required && atLeastOnce (rest.takeWhile (· ≠ byte '\x7d')), true)) := by
  obtain ⟨hpos, hb, hrest⟩ := drop_eq_cons hdrop
  have hplus : byte '\x7b' ≠ byte '+' := by decide
  have hoptional : byte '\x7b' ≠ byte '*' ∧ byte '\x7b' ≠ byte '?' := by decide
  have hfind : (byte '\x7b' :: rest).findIdx? (· = byte '\x7d') =
      (rest.findIdx? (· = byte '\x7d')).map (· + 1) := by
    rw [List.findIdx?_cons, if_neg (by decide)]
  have hcut : cut bytes pos bytes.length = .ok (byte '\x7b' :: rest) := by
    rw [cut_length (Nat.le_of_lt hpos), hdrop]
  simp only [groupQuantifier.round, hb, hplus, hoptional, decide_false, Bool.false_and,
    Bool.or_self, Bool.false_eq_true, if_false, if_true, hcut, ok_bind, hfind]
  rw [findIdx?_eq]
  cases hafter : rest.dropWhile (· ≠ byte '\x7d') with
  | nil => rfl
  | cons c after =>
    have hoffset : pos + ((rest.takeWhile (· ≠ byte '\x7d')).length + 1) =
        pos + 1 + (rest.takeWhile (· ≠ byte '\x7d')).length := by
      omega
    have hstop := (drop_closing hdrop hafter).1
    simp only [Option.map_some, hoffset, cut_take (Nat.le_of_lt hstop), hrest, take_takeWhile,
      ok_bind]
    rfl

/--
A round either comes to the end of the quantifiers, or it goes on behind the first one of the rest.
-/
theorem round_groupQuantifier (pos : Nat) (required lazy : Bool) :
    groupQuantifier.round bytes pos (required, lazy) = .ok (.done (required, pos)) ∧
        quantifiers.go required lazy (bytes.drop pos) = (required, bytes.drop pos) ∨
      ∃ pos' required' lazy',
        groupQuantifier.round bytes pos (required, lazy) = .ok (.next pos' (required', lazy')) ∧
        pos < pos' ∧ pos' ≤ bytes.length ∧
        quantifiers.go required lazy (bytes.drop pos) =
          quantifiers.go required' lazy' (bytes.drop pos') := by
  cases hdrop : bytes.drop pos with
  | nil =>
    left
    constructor
    · simp only [groupQuantifier.round, (drop_eq_nil hdrop).2]
    · rw [quantifiers.go]
  | cons b rest =>
    obtain ⟨hlt, hb, hrest⟩ := drop_eq_cons hdrop
    -- The cases are those of `quantifiers.go`, in its order.
    by_cases hlazy : (b = byte '?' && lazy) = true
    · right
      refine ⟨pos + 1, required, false, ?_, by omega, hlt, ?_⟩
      · simp only [groupQuantifier.round, hb, if_pos hlazy]
      · rw [hrest, quantifiers.go, if_pos hlazy]
    by_cases hoptional : (b = byte '*' || b = byte '?') = true
    · right
      refine ⟨pos + 1, false, true, ?_, by omega, hlt, ?_⟩
      · simp only [groupQuantifier.round, hb, if_neg hlazy, if_pos hoptional]
      · rw [hrest, quantifiers.go, if_neg hlazy, if_pos hoptional]
    by_cases hplus : b = byte '+'
    · right
      refine ⟨pos + 1, required, true, ?_, by omega, hlt, ?_⟩
      · simp only [groupQuantifier.round, hb, if_neg hlazy, if_neg hoptional, if_pos hplus]
      · rw [hrest, quantifiers.go, if_neg hlazy, if_neg hoptional, if_pos hplus]
    by_cases hbrace : b = byte '\x7b'
    · subst hbrace
      have hround := round_brace hdrop required lazy
      rw [quantifiers_go_brace]
      cases hafter : rest.dropWhile (· ≠ byte '\x7d') with
      | nil =>
        rw [hafter] at hround
        exact .inl ⟨hround, rfl⟩
      | cons c after =>
        obtain ⟨hstop, hbehind⟩ := drop_closing hdrop hafter
        rw [hafter] at hround
        right
        refine ⟨_, _, _, hround, by omega, hstop, ?_⟩
        rw [hbehind]
    · left
      constructor
      · simp only [groupQuantifier.round, hb, if_neg hlazy, if_neg hoptional, if_neg hplus,
          if_neg hbrace]
      · rw [quantifiers.go, if_neg hlazy, if_neg hoptional, if_neg hplus, if_neg hbrace]

/--
The quantifiers from a position on are those at the head of the rest.
-/
theorem loop_groupQuantifier (pos : Nat) (required lazy : Bool) (hpos : pos ≤ bytes.length) :
    loop bytes.length (groupQuantifier.round bytes) pos (required, lazy) =
      .ok ((quantifiers.go required lazy (bytes.drop pos)).1,
        bytes.length - (quantifiers.go required lazy (bytes.drop pos)).2.length) := by
  generalize hleft : bytes.length - pos = left
  induction left using Nat.strongRecOn generalizing pos required lazy with
  | ind left ih =>
    cases round_groupQuantifier pos required lazy with
    | inl hdone =>
      obtain ⟨hround, hgo⟩ := hdone
      rw [loop_done _ hround, hgo, List.length_drop, Nat.sub_sub_self hpos]
    | inr hnext =>
      obtain ⟨pos', required', lazy', hround, hlt, hle, hgo⟩ := hnext
      rw [loop_next hround hlt (by omega), ih _ (by omega) pos' required' lazy' hle rfl, hgo]

theorem groupQuantifier_eq (hpos : pos ≤ bytes.length) :
    ∃ stop, groupQuantifier bytes pos = .ok ((quantifiers (bytes.drop pos)).1, stop) ∧
      pos ≤ stop ∧ stop ≤ bytes.length ∧
        bytes.drop stop = (quantifiers (bytes.drop pos)).2 := by
  have hsuffix := quantifiers_suffix (bytes.drop pos)
  have hle := hsuffix.length_le
  rw [List.length_drop] at hle
  refine ⟨_, loop_groupQuantifier pos true false hpos, ?_, Nat.sub_le _ _, ?_⟩
  · unfold quantifiers at hle
    omega
  · exact (List.suffix_iff_eq_drop.1 (hsuffix.trans (List.drop_suffix pos bytes))).symm

theorem named_eq (rest : Gram) : groupBody?.named rest = .ok (Pattern.groupBody?.named rest) := by
  unfold groupBody?.named Pattern.groupBody?.named
  simp only [Bool.or_eq_true, decide_eq_true_eq]
  split
  · rfl
  · rw [findIdx?_eq]
    cases hbody : rest.dropWhile (· ≠ byte '>') with
    | nil => rfl
    | cons b body =>
      have hdrop : rest.drop (rest.takeWhile (· ≠ byte '>')).length = b :: body := by
        rw [drop_takeWhile, hbody]
      obtain ⟨hstop, _, hbody⟩ := drop_eq_cons hdrop
      simp only [cut_length hstop, hbody, ok_bind]
      rfl

theorem groupBody?_eq (inside : Gram) : groupBody? inside = .ok (Pattern.groupBody? inside) := by
  unfold groupBody? Pattern.groupBody?
  cases inside with
  | nil => rfl
  | cons b rest =>
    by_cases hb : b = byte '?'
    · simp only [ne_eq, hb, not_true_eq_false, if_false]
      cases rest with
      | nil => rfl
      | cons c rest =>
        simp only [named_eq]
        split
        · rfl
        · split
          · rfl
          · split
            · rfl
            · rfl
    · simp only [ne_eq, hb, not_false_eq_true, if_true]

end Scanners

section Plans

variable {c : Compiler} {planOf : Gram → Except Fault (Plan Gram)} {span : Gram} {start : Nat}

theorem leaf_eq {piece : Gram} (hstart : start ≤ span.length)
    (hdrop : span.drop start = piece ++ rest) :
    concatenation.leaf c span start (start + piece.length) =
      .ok ((spanOperand piece).map (Plan.expand c.leaf)) := by
  unfold concatenation.leaf
  rw [cut_append hstart hdrop]
  cases piece with
  | nil =>
    rw [List.length_nil, Nat.add_zero, if_neg (Nat.lt_irrefl start)]
    rfl
  | cons b piece =>
    rw [if_pos (by simp)]
    rfl

theorem leaf_length (hstart : start ≤ span.length) :
    concatenation.leaf c span start span.length =
      .ok ((spanOperand (span.drop start)).map (Plan.expand c.leaf)) := by
  have hleaf := leaf_eq (c := c) hstart (List.append_nil (span.drop start)).symm
  rw [List.length_drop, Nat.add_sub_cancel' hstart] at hleaf
  exact hleaf

variable (hplan : ∀ inner : Gram, inner.length < span.length →
  planOf inner = .ok ((outline inner).expand c.leaf))
include hplan

theorem group_eq {stop : Nat} {inside : Gram} (hcut : cut span start stop = .ok inside)
    (hinside : inside.length < span.length) :
    concatenation.group planOf span start stop =
      .ok (((Pattern.groupBody? inside).elim .null outline).expand c.leaf) := by
  rw [concatenation.group, hcut, ok_bind, groupBody?_eq, ok_bind]
  cases hbody : Pattern.groupBody? inside with
  | none => rfl
  | some body =>
    have hle := (groupBody?_suffix hbody).length_le
    exact hplan body (by omega)

/--
A round that comes to a whole group adds what is before the group and the group itself.
-/
theorem round_group {piece after inside behind : Gram} (before : List (Plan Gram))
    (hstart : start ≤ span.length) (hopen : splitOpen (span.drop start) = (piece, some after))
    (hclose : splitClose after = some (inside, behind)) :
    ∃ stop, concatenation.round c planOf span start before =
        .ok (.next stop (before ++ (spanOperand piece).map (Plan.expand c.leaf) ++
          [(Option.elim (Pattern.groupBody? inside) .null fun body =>
            if (quantifiers behind).1 then outline body else .null).expand c.leaf])) ∧
      start < stop ∧ stop ≤ span.length ∧ span.drop stop = (quantifiers behind).2 := by
  have hdrop := (splitOpen_append hopen).symm
  have hopening : span.drop (start + piece.length) = byte '(' :: after := by
    rw [← List.drop_drop, hdrop, List.drop_left]
  obtain ⟨hlt, hparen, hafter⟩ := drop_eq_cons hopening
  have hinside : span.drop (start + piece.length + 1) = inside ++ byte ')' :: behind := by
    rw [hafter, splitClose_append hclose]
  have hcut := cut_append hlt hinside
  have hclosing : span.drop (start + piece.length + 1 + inside.length) = byte ')' :: behind := by
    rw [← List.drop_drop, hinside, List.drop_left]
  obtain ⟨hend, _, hbehind⟩ := drop_eq_cons hclosing
  have hquantifier := groupQuantifier_eq hend
  rw [hbehind] at hquantifier
  obtain ⟨stop, hquantifier, hle, hstop, hrest⟩ := hquantifier
  have hnext := nextOpen_eq span start
  have hmatching := matchingParen_eq hparen
  rw [hopen] at hnext
  rw [hafter, hclose] at hmatching
  refine ⟨stop, ?_, by omega, hstop, hrest⟩
  simp only [concatenation.round, hnext, Option.map_some, ok_bind, leaf_eq hstart hdrop, hmatching,
    hquantifier]
  have hgroup := group_eq hplan hcut (by omega)
  cases (quantifiers behind).1 with
  | true =>
    simp only [if_true, hgroup, ok_bind]
    rfl
  | false =>
    cases Pattern.groupBody? inside with
    | none => rfl
    | some body => rfl

/--
From each position on, the operands of the rest follow those that are already there.
-/
theorem loop_concatenation (start : Nat) (before : List (Plan Gram))
    (hstart : start ≤ span.length) :
    loop span.length (concatenation.round c planOf span) start before =
      .ok (before ++ (operands (span.drop start)).map (Plan.expand c.leaf)) := by
  generalize hleft : span.length - start = left
  induction left using Nat.strongRecOn generalizing start before with
  | ind left ih =>
    cases hopen : splitOpen (span.drop start) with
    | mk piece after? =>
      have hnext := nextOpen_eq span start
      rw [hopen] at hnext
      cases after? with
      | none =>
        rw [operands_of_splitOpen_none hopen]
        apply loop_done
        simp only [concatenation.round, hnext, ok_bind, Option.map_none, leaf_length hstart]
        rfl
      | some after =>
        cases hclose : splitClose after with
        | none =>
          have hdrop := (splitOpen_append hopen).symm
          have hopening : span.drop (start + piece.length) = byte '(' :: after := by
            rw [← List.drop_drop, hdrop, List.drop_left]
          obtain ⟨hlt, hparen, hafter⟩ := drop_eq_cons hopening
          have hmatching := matchingParen_eq hparen
          rw [hafter, hclose] at hmatching
          rw [operands_of_splitClose_none hopen hclose]
          apply loop_done
          simp only [concatenation.round, hnext, ok_bind, leaf_eq hstart hdrop, hmatching,
            Option.map_some, Option.map_none, leaf_length (Nat.le_of_lt hlt), hopening]
          rw [List.map_append, ← List.append_assoc]
          rfl
        | some split =>
          obtain ⟨stop, hround, hlt, hstop, hrest⟩ := round_group hplan before hstart hopen hclose
          rw [loop_next hround hlt (by omega), ih _ (by omega) _ _ hstop rfl, hrest,
            operands_of_splitClose_some hopen hclose]
          simp

theorem concatenation_eq :
    concatenation c planOf span = .ok ((Plan.all (operands span)).expand c.leaf) := by
  rw [concatenation, loop_concatenation hplan 0 [] (Nat.zero_le _), ok_bind, Plan.expand_all,
    List.drop_zero]
  rfl

omit hplan

/--
A part between bars has no bars of its own.
-/
theorem splitBars_go_parts (place : Place) (depth : Nat) (bytes : Gram) :
    splitBars.go place depth (splitBars.go place depth bytes).1 =
        ((splitBars.go place depth bytes).1, []) ∧
      ∀ part ∈ (splitBars.go place depth bytes).2, splitBars part = (part, []) := by
  induction bytes generalizing place depth with
  | nil => exact ⟨rfl, by simp [splitBars.go]⟩
  | cons b bytes ih =>
    obtain ⟨hfirst, hparts⟩ := ih (place.next b) (place.groups depth b)
    rw [splitBars.go]
    by_cases hbar : place = .outside ∧ depth = 0 ∧ b = byte '|'
    · obtain ⟨rfl, rfl, rfl⟩ := hbar
      refine ⟨rfl, ?_⟩
      intro part hpart
      cases List.mem_cons.1 hpart with
      | inl hpart =>
        rw [hpart]
        exact hfirst
      | inr hpart => exact hparts part hpart
    · simp only [if_neg hbar]
      refine ⟨?_, hparts⟩
      rw [splitBars.go, hfirst]
      simp only [if_neg hbar]

theorem splitBars_part {part : Gram} (h : part ∈ (splitBars span).1 :: (splitBars span).2) :
    splitBars part = (part, []) := by
  obtain ⟨hfirst, hparts⟩ := splitBars_go_parts .outside 0 span
  cases List.mem_cons.1 h with
  | inl hpart =>
    rw [hpart]
    exact hfirst
  | inr hpart => exact hparts part hpart

theorem outline_of_splitBars_nil (h : (splitBars span).2 = []) :
    outline span = .all (operands span) := by
  have hjoin := joinBars_splitBars span
  rw [h, joinBars, List.flatMap_nil, List.append_nil] at hjoin
  rw [outline_eq, h, hjoin]
  rfl

theorem length_lt_joinBars {first part : Gram} {parts : List Gram} (hparts : parts ≠ [])
    (h : part ∈ first :: parts) : part.length < (joinBars first parts).length := by
  rw [joinBars, List.length_append]
  cases List.mem_cons.1 h with
  | inl hpart =>
    cases parts with
    | nil => exact absurd rfl hparts
    | cons second parts =>
      rw [hpart, List.flatMap_cons, List.length_append, List.length_cons]
      omega
  | inr hpart =>
    obtain ⟨before, after, rfl⟩ := List.append_of_mem hpart
    simp only [List.flatMap_append, List.flatMap_cons, List.length_append, List.length_cons]
    omega

theorem between_eq (start : Nat) (first : Gram) (parts : List Gram) (hstart : start ≤ span.length)
    (hdrop : span.drop start = joinBars first parts) :
    between span start (barsBetween start first parts) = .ok (first :: parts) := by
  induction parts generalizing start first with
  | nil =>
    rw [joinBars, List.flatMap_nil, List.append_nil] at hdrop
    rw [barsBetween, between, cut_length hstart, hdrop]
    rfl
  | cons part parts ih =>
    rw [joinBars, List.flatMap_cons, List.cons_append] at hdrop
    have hbar : span.drop (start + first.length) = byte '|' :: joinBars part parts := by
      rw [← List.drop_drop, hdrop, List.drop_left]
      rfl
    obtain ⟨hlt, _, hrest⟩ := drop_eq_cons hbar
    rw [barsBetween, between, cut_append hstart hdrop, ok_bind, ih _ _ hlt hrest]
    rfl

theorem mapM_eq {f : Gram → Except Fault (Plan Gram)} {g : Gram → Plan Gram} {parts : List Gram}
    (h : ∀ part ∈ parts, f part = .ok (g part)) : parts.mapM f = .ok (parts.map g) := by
  induction parts with
  | nil => rfl
  | cons part parts ih =>
    rw [List.mapM_cons, h part List.mem_cons_self, ok_bind,
      ih fun part hpart => h part (List.mem_cons_of_mem _ hpart)]
    rfl

include hplan

theorem spanPlan_eq : spanPlan c planOf span = .ok ((outline span).expand c.leaf) := by
  unfold spanPlan
  cases hempty : span.isEmpty with
  | true =>
    rw [List.isEmpty_iff.1 hempty, outline_of_splitBars_nil rfl, operands_of_splitOpen_none rfl]
    rfl
  | false =>
    simp only [Bool.false_eq_true, if_false, topLevelBars_eq, ok_bind]
    cases hparts : (splitBars span).2 with
    | nil => rw [barsBetween, concatenation_eq hplan, outline_of_splitBars_nil hparts]
    | cons second parts =>
      have hjoin := joinBars_splitBars span
      have hbetween := between_eq 0 _ _ (Nat.zero_le _) hjoin.symm
      have hmapM : ((splitBars span).1 :: (splitBars span).2).mapM planOf =
          .ok (((splitBars span).1 :: (splitBars span).2).map
            fun part => (Plan.all (operands part)).expand c.leaf) := by
        apply mapM_eq
        intro part hpart
        have hlt := length_lt_joinBars (by simp [hparts]) hpart
        rw [hjoin] at hlt
        rw [hplan part hlt, outline_of_splitBars_nil]
        rw [splitBars_part hpart]
      rw [hparts] at hmapM
      rw [hparts, barsBetween] at hbetween
      simp only [barsBetween]
      rw [hbetween, ok_bind, hmapM, ok_bind, outline_eq, Plan.expand_any, hparts, List.map_map]
      rfl

omit hplan

/--
What is compiled by positions comes to no fault, and its plan is that of the span's outline.
-/
theorem compileSpan_eq (c : Compiler) (span : Gram) :
    compileSpan c span = .ok ((outline span).expand c.leaf) := by
  generalize hlength : span.length = length
  induction length using Nat.strongRecOn generalizing span with
  | ind length ih =>
    rw [compileSpan]
    apply spanPlan_eq
    intro inner hlt
    rw [dif_pos hlt]
    exact ih _ (by omega) inner rfl

end Plans

/--
What the compilation of a pattern by positions relies on holds for any bytes: it comes to no fault,
and to the plan of the pattern. A class is passed over up to a later position in the bytes.
-/
theorem compile_safe (c : Compiler) (bytes : Gram) :
    hasInlineFlags bytes = .ok (Pattern.hasInlineFlags bytes) ∧
      compileSpan c bytes = .ok ((outline bytes).expand c.leaf) ∧
      compile c bytes = .ok (c.compileBytes bytes) ∧
      ∀ start, bytes[start]? = some (byte '[') →
        ∃ stop, skipClass bytes start = .ok stop ∧ start < stop ∧ stop ≤ bytes.length := by
  refine ⟨hasInlineFlags_eq bytes, compileSpan_eq c bytes, ?_, ?_⟩
  · rw [compile, hasInlineFlags_eq, ok_bind, Compiler.compileBytes]
    split
    · rfl
    · exact compileSpan_eq c bytes
  · intro start h
    exact ⟨_, skipClass_eq h⟩

theorem compile_safe_unclosed :
    let bytes := "([^]|x\\".toList.map byte
    bytes[1]? = some (byte '[') ∧
      ∃ stop, skipClass bytes 1 = .ok stop ∧ 1 < stop ∧ stop ≤ bytes.length :=
  ⟨by decide, (compile_safe default ("([^]|x\\".toList.map byte)).2.2.2 1 (by decide)⟩

end GramIndex.Pattern.Cursor
