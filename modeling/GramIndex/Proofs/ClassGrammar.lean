import GramIndex.Proofs.Classes

/-!
This module contains the grammar of bracket classes and where a class ends for the scanners: at its
closing bracket, exactly if no range in it ends with a bare opening bracket, which the scanners take
for the start of another class.
-/

namespace GramIndex

open Pattern (byte Place ClassState Enclosed after_bracket)

namespace Regex.Bracket

def caret (negated : Bool) : List Symbol :=
  if negated then [.plain '^'] else []

/--
What the head of a class takes before the symbol `next`: a caret that negates, and then all hyphens,
or one closing bracket, which stand for themselves.
-/
inductive Opening : List Symbol → Symbol → Prop where
  | hyphens {next : Symbol} (negated : Bool) (n : Nat) (hhyphen : next ≠ .plain '-')
    (hnone : n = 0 → next ≠ .plain ']' ∧ (negated = false → next ≠ .plain '^')) :
    Opening (caret negated ++ List.replicate n (.plain '-')) next
  | bracket {next : Symbol} (negated : Bool) : Opening (caret negated ++ [.plain ']']) next

/--
Whether what follows a symbol makes it the lower end of a range.
-/
def continuesRange : List Symbol → Bool
  | .plain '-' :: last :: _ => last ≠ .plain ']' && last ≠ .plain '-'
  | _ => false

def operators : List Symbol :=
  [.plain '&', .plain '-', .plain '~']

/--
What stands in a class between its head and its closing bracket. `opens` tells whether the upper end
of a range is an opening bracket without a backslash. The order of the ends makes no difference.
-/
inductive Members : (opens : Bool) → List Symbol → Prop where
  | nil : Members false []
  | symbol {opens : Bool} {s : Symbol} {rest : List Symbol} (hs : IsMember s)
    (hrange : continuesRange rest = false) (hoperation : s ∈ operators → rest.head? ≠ some s)
    (h : Members opens rest) : Members opens (s :: rest)
  | range {opens : Bool} {first last : Symbol} {rest : List Symbol} (hfirst : IsMember first)
    (hhyphen : first ≠ .plain '-') (hslash : last ≠ .plain '\\')
    (hlast : last ≠ .plain ']' ∧ last ≠ .plain '-') (h : Members opens rest) :
    Members (decide (last = .plain '[') || opens) (first :: .plain '-' :: last :: rest)
  | operation {opens : Bool} {s : Symbol} {rest : List Symbol} (hs : s ∈ operators)
    (h : Members opens rest) : Members opens (s :: s :: rest)
  | nested {within opens : Bool} {lead inner rest : List Symbol}
    (hlead : Opening lead (inner.headD (.plain ']'))) (hinner : Members within inner)
    (h : Members opens rest) :
    Members (within || opens) (.plain '[' :: lead ++ inner ++ .plain ']' :: rest)

/--
A class from its opening bracket to its closing one.
-/
inductive IsClass : (opens : Bool) → List Symbol → Prop where
  | mk {opens : Bool} {lead inner : List Symbol} (hlead : Opening lead (inner.headD (.plain ']')))
    (hinner : Members opens inner) :
    IsClass opens (.plain '[' :: (lead ++ inner ++ [.plain ']']))

section Scan

variable {s next : Symbol} {lead members rest symbols : List Symbol} {place : Place} {depth : Nat}
  {ahead opens : Bool}

theorem bytes_hyphens (n : Nat) :
    Symbol.bytes (List.replicate n (.plain '-')) = List.replicate n (byte '-') := by
  induction n with
  | zero => rfl
  | succ n ih =>
    rw [List.replicate_succ, Symbol.bytes_cons, ih, Symbol.bytes_ascii (by decide)]
    rfl

theorem enclosed_caret (negated : Bool) (depth : Nat) :
    Enclosed (.bracket .opened depth) (Symbol.bytes (caret negated)) ∧
      Place.after (.bracket .opened depth) (Symbol.bytes (caret negated)) =
        .bracket (if negated then .first else .opened) depth := by
  cases negated with
  | false => exact ⟨trivial, rfl⟩
  | true => exact ⟨enclosed_ascii '^' (by decide), rfl⟩

theorem Opening.settled (h : Opening lead next) (depth : Nat) :
    Enclosed (.bracket .opened depth) (Symbol.bytes lead) ∧
      ∃ state, Place.after (.bracket .opened depth) (Symbol.bytes lead) = .bracket state depth ∧
        state ≠ .escaped ∧ Settled state next := by
  cases h with
  | hyphens negated n hhyphen hnone =>
    obtain ⟨hcaret, hafter⟩ := enclosed_caret negated depth
    have hstate : (if negated then ClassState.first else .opened) ≠ .escaped := by
      cases negated <;> decide
    have hquiet : ∀ b ∈ List.replicate n (byte '-'),
        b ≠ byte '^' ∧ b ≠ byte '[' ∧ b ≠ byte ']' ∧ b ≠ byte '\\' := by
      intro b hb
      rw [List.eq_of_mem_replicate hb]
      decide
    obtain ⟨hhyphens, hinside⟩ := after_bracket depth hstate hquiet
    rw [Symbol.bytes_append, Place.after_append, hafter, bytes_hyphens]
    constructor
    · apply hcaret.append
      rw [hafter]
      exact hhyphens
    · cases hinside with
      | inr hinside => exact ⟨.inside, hinside, by decide, .inl rfl⟩
      | inl hnil =>
        rw [hnil]
        rw [List.replicate_eq_nil_iff] at hnil
        refine ⟨_, rfl, hstate, .inr ⟨(hnone hnil).1, ?_⟩⟩
        cases negated with
        | true => exact .inl (by decide)
        | false => exact .inr ((hnone hnil).2 rfl)
  | bracket negated =>
    obtain ⟨hcaret, hafter⟩ := enclosed_caret negated depth
    rw [Symbol.bytes_append, Place.after_append, hafter]
    refine ⟨?_, .inside, ?_, by decide, .inl rfl⟩
    · apply hcaret.append
      rw [hafter]
      exact enclosed_ascii ']' (by decide)
    · cases negated <;> rfl

theorem Tracks.opening (h : Tracks place depth ahead s) (hlead : Opening lead next) :
    Crosses place (.plain '[' :: lead) (depth + 1) ahead next := by
  obtain ⟨state, depth', rfl, hstate, hdepth⟩ := h
  obtain ⟨henclosed, state', hafter, hstate', hsettled⟩ := hlead.settled (depth' + 1)
  unfold Crosses
  rw [Symbol.bytes_cons, Place.after_append, after_opening hstate]
  constructor
  · apply (enclosed_ascii '[' (by decide)).append
    rw [after_opening hstate]
    exact henclosed
  · refine ⟨state', depth' + 1, hafter, hstate', ?_⟩
    cases ahead with
    | true => exact Nat.succ_lt_succ hdepth
    | false => exact ⟨congrArg (· + 1) hdepth.1, hsettled⟩

theorem isMember_of_mem_operators (h : s ∈ operators) : IsMember s := by
  unfold operators at h
  simp only [List.mem_cons, List.not_mem_nil, or_false] at h
  obtain rfl | rfl | rfl := h <;> simp [IsMember]

/--
The members of a class keep the scan in step with the class, or ahead of it if a range ends with an
opening bracket or if it has been ahead before.
-/
theorem Members.crosses (h : Members opens members)
    (htracks : Tracks place depth ahead (members.headD next)) :
    Crosses place members depth (ahead || opens) next := by
  induction h generalizing place depth ahead next with
  | nil =>
    rw [Bool.or_false]
    exact ⟨trivial, htracks⟩
  | @symbol _ s rest hs _ _ _ ih =>
    apply (htracks.symbol hs (rest.headD next)).append
    intro place htracks
    apply ih htracks
  | @range _ first last rest hfirst _ hslash hlast _ ih =>
    rw [← Bool.or_assoc]
    apply (htracks.symbol hfirst (.plain '-')).append
    intro place htracks
    apply (htracks.symbol (by simp [IsMember]) last).append
    intro place htracks
    apply (htracks.rangeEnd hslash hlast.1 (rest.headD next)).append
    intro place htracks
    apply ih htracks
  | @operation _ s rest hs _ ih =>
    apply (htracks.symbol (isMember_of_mem_operators hs) s).append
    intro place htracks
    apply (htracks.symbol (isMember_of_mem_operators hs) (rest.headD next)).append
    intro place htracks
    apply ih htracks
  | @nested _ _ lead inner rest hlead _ _ ihinner ih =>
    rw [← Bool.or_assoc, List.append_assoc]
    apply (htracks.opening hlead).append
    intro place htracks
    apply (ihinner htracks).append
    intro place htracks
    apply (htracks.closing (rest.headD next)).append
    intro place htracks
    apply ih htracks

theorem IsClass.enclosed {own : List Symbol} (h : IsClass opens (.plain '[' :: own)) :
    Enclosed (.bracket .opened 0) (Symbol.bytes own) ∧
      (Place.after (.bracket .opened 0) (Symbol.bytes own) = .outside ↔ opens = false) := by
  cases h with
  | @mk lead inner hlead hinner =>
    obtain ⟨hopening, state, hafter, hstate, hsettled⟩ := hlead.settled 0
    have htracks : Tracks (.bracket state 0) 0 false (inner.headD (.plain ']')) :=
      ⟨state, 0, rfl, hstate, rfl, hsettled⟩
    obtain ⟨hmembers, htracks⟩ := hinner.crosses htracks
    obtain ⟨hclosing, houtside⟩ := htracks.after_closing
    rw [Symbol.bytes_append, Symbol.bytes_append, Place.after_append, Place.after_append, hafter,
      houtside, Bool.false_or]
    refine ⟨?_, Iff.rfl⟩
    apply (hopening.append _).append
    · rw [Place.after_append, hafter]
      exact hclosing
    · rw [hafter]
      exact hmembers

end Scan

section Read

variable {o : Open} {around : List Open} {symbols members rest : List Symbol}
  {set : Nested CharSet}

/--
The members of classes around another one, each with its closing bracket, from the inside out.
-/
inductive Closings : Nat → List Symbol → Prop where
  | nil : Closings 0 []
  | cons {opens : Bool} {depth : Nat} {members outer : List Symbol} (h : Members opens members)
    (houter : Closings depth outer) : Closings (depth + 1) (members ++ .plain ']' :: outer)

theorem exists_hyphens (symbols : List Symbol) :
    ∃ n, symbols = List.replicate n (.plain '-') ++ symbols.dropWhile (· = .plain '-') := by
  have hhyphens : symbols.takeWhile (· = .plain '-') =
      List.replicate (symbols.takeWhile (· = .plain '-')).length (.plain '-') := by
    apply List.eq_replicate_of_mem
    intro s hs
    exact of_decide_eq_true (List.all_eq_true.1 List.all_takeWhile s hs)
  refine ⟨(symbols.takeWhile (· = .plain '-')).length, ?_⟩
  rw [← hhyphens, List.takeWhile_append_dropWhile]

theorem exists_opening_hyphens {negated : Bool} (hclose : ∀ rest, symbols ≠ .plain ']' :: rest)
    (hcaret : negated = false → ∀ rest, symbols ≠ .plain '^' :: rest) :
    ∃ lead, caret negated ++ symbols = lead ++ symbols.dropWhile (· = .plain '-') ∧
      ∀ next rest, symbols.dropWhile (· = .plain '-') = next :: rest → Opening lead next := by
  obtain ⟨n, hn⟩ := exists_hyphens symbols
  refine ⟨caret negated ++ List.replicate n (.plain '-'), ?_, ?_⟩
  · rw [List.append_assoc, ← hn]
  · intro next rest hrest
    apply Opening.hyphens negated n
    · intro heq
      have hfirst := List.head_dropWhile_not (· = Symbol.plain '-') (l := symbols) (by simp [hrest])
      simp [hrest, heq] at hfirst
    · rintro rfl
      -- Without hyphens, what follows is where the class starts.
      rw [hrest] at hn
      constructor
      · rintro rfl
        exact hclose rest hn
      · rintro hnegated rfl
        exact hcaret hnegated rest hn

theorem exists_opening (symbols : List Symbol) :
    ∃ lead, symbols = lead ++ (head symbols).2 ∧
      ∀ next rest, (head symbols).2 = next :: rest → Opening lead next := by
  unfold head
  split
  next negated after hmatch =>
    have hafter : symbols = caret negated ++ after ∧
        (negated = false → ∀ rest, after ≠ .plain '^' :: rest) := by
      split at hmatch
      · cases hmatch
        exact ⟨rfl, by simp⟩
      · next hnone =>
        cases hmatch
        exact ⟨rfl, fun _ => hnone⟩
    obtain ⟨rfl, hcaret⟩ := hafter
    split
    · next rest =>
      refine ⟨caret negated ++ [.plain ']'], by simp, ?_⟩
      intro next rest _
      exact .bracket negated
    · next hclose => exact exists_opening_hyphens hclose hcaret

theorem exists_opening_inner {inner after : List Symbol}
    (h : (head symbols).2 = inner ++ .plain ']' :: after) :
    ∃ lead, symbols = lead ++ inner ++ .plain ']' :: after ∧
      Opening lead (inner.headD (.plain ']')) := by
  obtain ⟨lead, hsymbols, hopening⟩ := exists_opening symbols
  refine ⟨lead, ?_, ?_⟩
  · rw [List.append_assoc, ← h]
    exact hsymbols
  · cases inner with
    | nil => exact hopening _ _ h
    | cons s inner => exact hopening _ _ h

theorem mem_of_mem_head {s : Symbol} (h : s ∈ (head symbols).2) : s ∈ symbols := by
  obtain ⟨lead, hsymbols, _⟩ := exists_opening symbols
  rw [hsymbols]
  exact List.mem_append_right lead h

theorem continuesRange_append (h : continuesRange members = true) (after : List Symbol) :
    continuesRange (members ++ after) = true := by
  unfold continuesRange at h ⊢
  split at h
  · exact h
  · cases h

theorem isMember_of_not_mem {first : Symbol} (hslash : .plain '\\' ∉ first :: symbols)
    (hopen : first ≠ .plain '[') (hclose : first ≠ .plain ']') : IsMember first := by
  refine ⟨?_, hopen, hclose⟩
  rintro rfl
  exact hslash List.mem_cons_self

theorem Members.cons_of_append {opens : Bool} {s : Symbol} {after : List Symbol}
    (h : Members opens members) (hs : IsMember s)
    (hrange : continuesRange (members ++ after) = false)
    (hoperation : s ∈ operators → (members ++ after).head? ≠ some s) :
    Members opens (s :: members) := by
  apply h.symbol hs
  · cases hmembers : continuesRange members with
    | false => rfl
    | true =>
      rw [continuesRange_append hmembers] at hrange
      cases hrange
  · intro hs hhead
    apply hoperation hs
    rw [List.head?_append, hhead]
    rfl

theorem members_plain {cs : List Char} (h : ∀ c ∈ cs, c.isAlpha = true ∨ c = ':' ∨ c = '^') :
    Members false (cs.map .plain) := by
  induction cs with
  | nil => exact .nil
  | cons c cs ih =>
    obtain ⟨hc, hcs⟩ := List.forall_mem_cons.1 h
    have hne {d : Char} (halpha : d.isAlpha = false) (hcolon : d ≠ ':') (hcaret : d ≠ '^') :
        c ≠ d := by
      rintro rfl
      rw [halpha] at hc
      simp [hcolon, hcaret] at hc
    have hrange : continuesRange (cs.map .plain) = false := by
      cases cs with
      | nil => rfl
      | cons d cs =>
        unfold continuesRange
        split
        · next heq =>
          rw [List.map_cons, List.cons.injEq, Symbol.plain.injEq] at heq
          have hd := hcs d List.mem_cons_self
          rw [heq.1] at hd
          exact absurd hd (by decide)
        · rfl
    refine .symbol ?_ hrange ?_ (ih hcs)
    · exact ⟨fun heq => hne (by decide) (by decide) (by decide) (Symbol.plain.inj heq),
        fun heq => hne (by decide) (by decide) (by decide) (Symbol.plain.inj heq),
        fun heq => hne (by decide) (by decide) (by decide) (Symbol.plain.inj heq)⟩
    · intro hoperator
      simp only [operators, List.mem_cons, Symbol.plain.injEq, List.not_mem_nil, or_false]
        at hoperator
      obtain rfl | rfl | rfl := hoperator
      all_goals exact absurd hc (by decide)

theorem exists_name {set : CharSet} (h : name? symbols = some (set, rest)) :
    ∃ name : List Char, symbols = name.map .plain ++ .plain ':' :: .plain ']' :: rest ∧
      ∀ c ∈ name, c.isAlpha = true := by
  obtain ⟨⟨name, ranges⟩, hname, h⟩ := List.exists_of_findSome?_eq_some h
  simp only at h
  split at h
  · next hprefix =>
    obtain ⟨others, rfl⟩ := List.isPrefixOf_iff_prefix.1 hprefix
    rw [List.drop_left] at h
    cases h
    refine ⟨name.toList, by simp, ?_⟩
    have hletters : (namedRanges.all fun named => named.1.toList.all Char.isAlpha) = true := by
      decide
    exact List.all_eq_true.1 (List.all_eq_true.1 hletters _ hname)
  · cases h

/--
A class that is given by its name is a nested class of letters.
-/
theorem exists_nested_of_named? {set : CharSet} (h : named? symbols = some (set, rest)) :
    ∃ inner, symbols = inner ++ .plain ']' :: rest ∧ Members false inner ∧
      Opening [] (inner.headD (.plain ']')) := by
  have hnested {cs : List Char} (hcs : ∀ c ∈ cs, c.isAlpha = true ∨ c = ':' ∨ c = '^') :
      Members false ((':' :: cs).map .plain) ∧
        Opening [] (((':' :: cs).map Symbol.plain).headD (.plain ']')) :=
    ⟨members_plain (List.forall_mem_cons.2 ⟨by decide, hcs⟩),
      .hyphens false 0 (by simp) (by simp)⟩
  unfold named? at h
  split at h
  · obtain ⟨⟨_, others⟩, hname, heq⟩ := Option.map_eq_some_iff.1 h
    cases heq
    obtain ⟨name, rfl, hletters⟩ := exists_name hname
    refine ⟨(':' :: '^' :: (name ++ [':'])).map .plain, by simp, hnested ?_⟩
    intro c hc
    simp only [List.mem_cons, List.mem_append, List.not_mem_nil, or_false] at hc
    obtain rfl | hc | rfl := hc
    · decide
    · exact .inl (hletters c hc)
    · decide
  · obtain ⟨name, rfl, hletters⟩ := exists_name h
    refine ⟨(':' :: (name ++ [':'])).map .plain, by simp, hnested ?_⟩
    intro c hc
    simp only [List.mem_append, List.mem_cons, List.not_mem_nil, or_false] at hc
    exact hc.imp (hletters c) .inl
  · cases h

/--
The symbols up to the closing bracket of the outermost class are members of the innermost class, its
closing bracket and what the classes around it have left.
-/
theorem exists_members_of_body? (h : body? o around symbols = some (set, rest))
    (hslash : .plain '\\' ∉ symbols) :
    ∃ opens members outer, symbols = members ++ .plain ']' :: (outer ++ rest) ∧
      Members opens members ∧ Closings around.length outer := by
  fun_induction body? o around symbols with
  | case1 => simp at h
  | case2 o around symbols set others hnamed ih =>
    obtain ⟨inner, rfl, hinner, hlead⟩ := exists_nested_of_named? hnamed
    have hmem : .plain '\\' ∉ others := fun hmem => hslash (by simp [hmem])
    obtain ⟨opens, members, outer, rfl, hmembers, houter⟩ := ih h hmem
    refine ⟨_, _, outer, ?_, .nested hlead hinner hmembers, houter⟩
    simp
  | case3 o around symbols _ ih =>
    obtain ⟨within, inner, outer, heq, hinner, houter⟩ :=
      ih h fun hmem => hslash (List.mem_cons_of_mem _ (mem_of_mem_head hmem))
    obtain ⟨lead, rfl, hlead⟩ := exists_opening_inner heq
    -- What the first of the classes around has left goes on with the members of this one.
    cases houter with
    | @cons opens _ members outer hmembers houter =>
      refine ⟨_, _, outer, ?_, .nested hlead hinner hmembers, houter⟩
      simp
  | case4 o symbols =>
    cases h
    exact ⟨false, [], [], rfl, .nil, .nil⟩
  | case5 o symbols outer around ih =>
    obtain ⟨opens, members, outer, rfl, hmembers, houter⟩ :=
      ih h (List.not_mem_of_not_mem_cons hslash)
    refine ⟨false, [], members ++ .plain ']' :: outer, ?_, .nil, .cons hmembers houter⟩
    simp
  | case6 o around symbols ih | case7 o around symbols ih | case8 o around symbols ih =>
    obtain ⟨opens, members, outer, rfl, hmembers, houter⟩ :=
      ih h (List.not_mem_of_not_mem_cons (List.not_mem_of_not_mem_cons hslash))
    refine ⟨opens, _, outer, rfl, .operation (by simp [operators]) hmembers, houter⟩
  | case9 o around first last symbols hopen hclose hminus hlast set hset ih =>
    obtain ⟨opens, members, outer, heq, hmembers, houter⟩ :=
      ih h (List.not_mem_of_not_mem_cons hslash)
    have hfirst := isMember_of_not_mem hslash hopen hclose
    refine ⟨opens, first :: members, outer, by rw [heq]; rfl, ?_, houter⟩
    -- The hyphen ends the members or starts an operation, so it makes no range.
    apply hmembers.cons_of_append hfirst
    · rw [← heq]
      simp only [Bool.or_eq_true, decide_eq_true_eq] at hlast
      obtain rfl | rfl := hlast <;> simp [continuesRange]
    · rw [← heq]
      rintro _ hhead
      cases hhead
      exact hminus rfl
  | case11 o around first last symbols hopen hclose hminus hlast set hset ih =>
    obtain ⟨opens, members, outer, rfl, hmembers, houter⟩ :=
      ih h fun hmem => hslash (by simp [hmem])
    have hfirst := isMember_of_not_mem hslash hopen hclose
    refine ⟨_, _, outer, rfl, .range hfirst hminus ?_ ?_ hmembers, houter⟩
    · rintro rfl
      simp at hslash
    · simpa using hlast
  | case13 o around first symbols hopen hclose hand hminus htilde hrange set hset ih =>
    obtain ⟨opens, members, outer, rfl, hmembers, houter⟩ :=
      ih h (List.not_mem_of_not_mem_cons hslash)
    have hfirst := isMember_of_not_mem hslash hopen hclose
    refine ⟨opens, first :: members, outer, rfl, ?_, houter⟩
    apply hmembers.cons_of_append hfirst
    · unfold continuesRange
      split
      · next last rest hrest => exact (hrange last rest hrest).elim
      · rfl
    · intro hoperator hhead
      obtain ⟨others, hothers⟩ := List.head?_eq_some_iff.1 hhead
      unfold operators at hoperator
      simp only [List.mem_cons, List.not_mem_nil, or_false] at hoperator
      obtain rfl | rfl | rfl := hoperator
      · exact hand others rfl hothers
      · exact hminus others rfl hothers
      · exact htilde others rfl hothers
  | case10 | case12 | case14 => simp at h

theorem exists_isClass_of_read? (h : read? symbols = some (set, rest))
    (hslash : .plain '\\' ∉ symbols) :
    ∃ opens own, symbols = own ++ rest ∧ IsClass opens (.plain '[' :: own) := by
  obtain ⟨opens, inner, outer, heq, hinner, houter⟩ :=
    exists_members_of_body? h fun hmem => hslash (mem_of_mem_head hmem)
  obtain ⟨lead, rfl, hlead⟩ := exists_opening_inner heq
  cases houter with
  | nil =>
    refine ⟨opens, lead ++ inner ++ [.plain ']'], ?_, .mk hlead hinner⟩
    simp

end Read

end Regex.Bracket

namespace Pattern

/--
The position after the class that opens at `start`, or the end of the bytes if it is never closed.
-/
def skipClass (bytes : Gram) (start : Nat) : Nat :=
  start + go .outside (bytes.drop start)
where
  /-- The number of bytes up to and with the one that leads outside. -/
  go (place : Place) : Gram → Nat
    | [] => 0
    | b :: rest => if place.next b = .outside then 1 else go (place.next b) rest + 1

variable {place : Place} {depth : Nat} {a rest : Gram}

theorem skipClass_go_eq_zero_iff (place : Place) : skipClass.go place rest = 0 ↔ rest = [] := by
  cases rest with
  | nil => simp [skipClass.go]
  | cons b rest =>
    rw [skipClass.go]
    split <;> simp

theorem skipClass_go_append (h : Enclosed place a) (hplace : place ≠ .outside) :
    skipClass.go place (a ++ rest) =
      a.length + if place.after a = .outside then 0 else skipClass.go (place.after a) rest := by
  induction a generalizing place with
  | nil =>
    rw [if_neg]
    · simp [Place.after]
    · exact hplace
  | cons b a ih =>
    rw [List.cons_append, skipClass.go]
    by_cases hnext : place.next b = .outside
    · have hnil : a = [] := by
        cases a with
        | nil => rfl
        | cons c a => exact absurd hnext h.2.1
      rw [if_pos hnext, hnil, Place.after, List.foldl_cons, List.foldl_nil, if_pos hnext]
      rfl
    · rw [if_neg hnext, ih h.2 hnext, List.length_cons, Place.after, Place.after, List.foldl_cons]
      omega

end Pattern

namespace Regex.Bracket

open Pattern (skipClass skipClass_go_append skipClass_go_eq_zero_iff)

theorem skipClass_class {opens : Bool} {cls : List Symbol} (h : IsClass opens cls)
    (before behind : Gram) :
    skipClass (before ++ Symbol.bytes cls ++ behind) before.length =
        (before ++ Symbol.bytes cls).length ↔ opens = false ∨ behind = [] := by
  obtain ⟨own, rfl⟩ : ∃ own, cls = .plain '[' :: own := by
    cases h
    exact ⟨_, rfl⟩
  obtain ⟨henclosed, houtside⟩ := h.enclosed
  have hgo : skipClass.go .outside (Symbol.bytes (.plain '[' :: own) ++ behind) =
      skipClass.go (.bracket .opened 0) (Symbol.bytes own ++ behind) + 1 := by
    rw [Symbol.bytes_cons, Symbol.bytes_ascii (by decide)]
    rfl
  have hlength : (Symbol.bytes (.plain '[' :: own)).length = (Symbol.bytes own).length + 1 := by
    rw [Symbol.bytes_cons, Symbol.bytes_ascii (by decide)]
    simp [Nat.add_comm]
  rw [skipClass, List.append_assoc, List.drop_left, hgo, skipClass_go_append henclosed (by simp),
    List.length_append, hlength, ← houtside]
  by_cases hafter : Place.after (.bracket .opened 0) (Symbol.bytes own) = .outside
  · simp [hafter]
  · rw [if_neg hafter, or_iff_right hafter,
      ← skipClass_go_eq_zero_iff (Place.after (.bracket .opened 0) (Symbol.bytes own))]
    omega

theorem skipClass_class_nested :
    let cls : List Symbol :=
      [.plain '[', .plain '^', .plain ']', .plain 'a', .plain '-', .plain 'z',
        .plain '[', .plain '-', .plain ']', .escaped ']', .plain ']']
    IsClass false cls ∧
      skipClass ([byte '('] ++ Symbol.bytes cls ++ [byte '|', byte ']']) 1 =
        ([byte '('] ++ Symbol.bytes cls).length := by
  intro cls
  have hescaped : Members false [.escaped ']'] :=
    .symbol (by simp [IsMember]) rfl (by simp [operators]) .nil
  have hnested : Members false [.plain '[', .plain '-', .plain ']', .escaped ']'] :=
    .nested (.hyphens false 1 (by simp) (by simp)) .nil hescaped
  have hinner : Members (decide (Symbol.plain 'z' = .plain '[') || false)
      [.plain 'a', .plain '-', .plain 'z', .plain '[', .plain '-', .plain ']', .escaped ']'] :=
    .range (by simp [IsMember]) (by simp) (by simp) (by simp) hnested
  have hclass : IsClass false cls := IsClass.mk (.bracket true) hinner
  exact ⟨hclass, (skipClass_class hclass [byte '('] [byte '|', byte ']']).2 (.inl rfl)⟩

theorem skipClass_bracket_range :
    IsClass true [.plain '[', .plain 'A', .plain '-', .plain '[', .plain ']'] ∧
      (∃ set, read? [.plain 'A', .plain '-', .plain '[', .plain ']', .plain '|', .plain 'b'] =
        some (set, [.plain '|', .plain 'b'])) ∧
      skipClass (utf8 ['[', 'A', '-', '[', ']', '|', 'b']) 0 = 7 := by
  refine ⟨?_, ?_, by decide⟩
  · have hinner : Members (decide (Symbol.plain '[' = .plain '[') || false)
        [.plain 'A', .plain '-', .plain '['] :=
      .range (by simp [IsMember]) (by simp) (by simp) (by simp) .nil
    exact IsClass.mk (.hyphens false 0 (by simp) (by simp)) hinner
  · have hrange : range? (.plain 'A') (.plain '[') = some (.range 'A' '[') := rfl
    simp [read?, body?, head, hrange]

end Regex.Bracket

end GramIndex
