import GramIndex.Proofs.Bytes
import GramIndex.Proofs.Outlines
import GramIndex.Regex.Bracket

/-!
This module contains how the scanners cross bracket classes. A class that is read to its closing
bracket keeps the scanners inside of it up to that bracket at least, since they open every class
that is opened.
-/

namespace GramIndex

open Pattern (byte Place ClassState Quiet)

def Regex.Symbol.bytes (symbols : List Symbol) : Gram :=
  utf8 (symbols.flatMap chars)

namespace Pattern

/--
A place from which the bytes do not lead outside before their end.
-/
def Enclosed : Place → Gram → Prop
  | _, [] => True
  | place, b :: rest => place ≠ .outside ∧ Enclosed (place.next b) rest

variable {place : Place} {a b : Gram}

theorem Enclosed.append (ha : Enclosed place a) (hb : Enclosed (place.after a) b) :
    Enclosed place (a ++ b) := by
  induction a generalizing place with
  | nil => exact hb
  | cons first a ih => exact ⟨ha.1, ih ha.2 hb⟩

theorem Enclosed.quiet (h : Enclosed place a) (hafter : place.after a = .outside) :
    Quiet place a := by
  induction a generalizing place with
  | nil => exact hafter
  | cons first a ih => exact ⟨fun houtside => absurd houtside h.1, ih h.2 hafter⟩

theorem next_bracket {state : ClassState} {b : UInt8} (depth : Nat) (hstate : state ≠ .escaped)
    (h : b ≠ byte '^' ∧ b ≠ byte '[' ∧ b ≠ byte ']' ∧ b ≠ byte '\\') :
    Place.next (.bracket state depth) b = .bracket .inside depth := by
  cases state with
  | escaped => exact absurd rfl hstate
  | _ => simp [Place.next, h]

theorem after_bracket {state : ClassState} (depth : Nat) (hstate : state ≠ .escaped)
    (h : ∀ b ∈ a, b ≠ byte '^' ∧ b ≠ byte '[' ∧ b ≠ byte ']' ∧ b ≠ byte '\\') :
    Enclosed (.bracket state depth) a ∧
      (a = [] ∨ Place.after (.bracket state depth) a = .bracket .inside depth) := by
  induction a generalizing state with
  | nil => exact ⟨trivial, .inl rfl⟩
  | cons b a ih =>
    have hnext := next_bracket depth hstate (h b List.mem_cons_self)
    have hinside : ClassState.inside ≠ .escaped := by decide
    obtain ⟨henclosed, hafter⟩ := ih hinside fun b hb => h b (List.mem_cons_of_mem _ hb)
    constructor
    · refine ⟨by simp, ?_⟩
      rw [hnext]
      exact henclosed
    · right
      rw [Place.after, List.foldl_cons, hnext]
      cases hafter with
      | inl hnil => rw [hnil, List.foldl_nil]
      | inr hafter => exact hafter

end Pattern

namespace Regex

open Pattern

variable {s : Symbol} {symbols rest : List Symbol} {state : ClassState} {depth : Nat}

theorem Symbol.bytes_append (symbols rest : List Symbol) :
    Symbol.bytes (symbols ++ rest) = Symbol.bytes symbols ++ Symbol.bytes rest := by
  simp [Symbol.bytes]

theorem Symbol.bytes_cons (s : Symbol) (rest : List Symbol) :
    Symbol.bytes (s :: rest) = Symbol.bytes [s] ++ Symbol.bytes rest :=
  Symbol.bytes_append [s] rest

theorem Symbol.bytes_plain (c : Char) :
    Symbol.bytes [.plain c] = String.utf8EncodeChar c := by
  simp [Symbol.bytes, Symbol.chars, utf8]

theorem Symbol.bytes_ascii {c : Char} (hc : c.toNat < 128) :
    Symbol.bytes [.plain c] = [byte c] := by
  rw [Symbol.bytes_plain, utf8EncodeChar_of_lt hc]

theorem Symbol.bytes_escaped (c : Char) :
    Symbol.bytes [.escaped c] = byte '\\' :: String.utf8EncodeChar c := by
  rw [Symbol.bytes]
  simp only [Symbol.chars, List.flatMap_cons, List.flatMap_nil, List.append_nil, utf8]
  rw [utf8EncodeChar_of_lt (by decide)]
  rfl

theorem Symbol.bytes_eq_nil_iff : Symbol.bytes symbols = [] ↔ symbols = [] := by
  cases symbols with
  | nil => exact iff_of_true rfl rfl
  | cons s rest =>
    rw [Symbol.bytes_cons]
    cases s with
    | plain c => simp [Symbol.bytes_plain]
    | escaped c => simp [Symbol.bytes_escaped]

theorem ne_of_mem_utf8EncodeChar {c : Char} (h : c ∉ ['^', '[', ']', '\\']) :
    ∀ b ∈ String.utf8EncodeChar c,
      b ≠ byte '^' ∧ b ≠ byte '[' ∧ b ≠ byte ']' ∧ b ≠ byte '\\' := by
  intro b hb
  have hne (d : Char) (hd : d.toNat < 128) (hmem : d ∈ ['^', '[', ']', '\\']) : b ≠ byte d := by
    intro heq
    rw [heq, mem_utf8EncodeChar_iff hd] at hb
    rw [hb] at h
    exact h hmem
  refine ⟨?_, ?_, ?_, ?_⟩
  · exact hne '^' (by decide) (by simp)
  · exact hne '[' (by decide) (by simp)
  · exact hne ']' (by decide) (by simp)
  · exact hne '\\' (by decide) (by simp)

theorem next_bracket_escape (hstate : state ≠ .escaped) :
    Place.next (.bracket state depth) (byte '\\') = .bracket .escaped depth := by
  cases state with
  | escaped => exact absurd rfl hstate
  | _ => rfl

theorem enclosed_escaped (depth : Nat) (c : Char) :
    Enclosed (.bracket .escaped depth) (String.utf8EncodeChar c) ∧
      Place.after (.bracket .escaped depth) (String.utf8EncodeChar c) =
        .bracket .inside depth := by
  by_cases hc : c.toNat < 128
  · rw [utf8EncodeChar_of_lt hc]
    exact ⟨⟨by simp, trivial⟩, rfl⟩
  · have hnot : c ∉ ['^', '[', ']', '\\'] := by
      intro hmem
      have hascii : ∀ d ∈ ['^', '[', ']', '\\'], d.toNat < 128 := by simp
      exact hc (hascii c hmem)
    have hquiet := ne_of_mem_utf8EncodeChar hnot
    cases hbytes : String.utf8EncodeChar c with
    | nil => exact absurd hbytes String.utf8EncodeChar_ne_nil
    | cons first others =>
      rw [hbytes] at hquiet
      have hinside : ClassState.inside ≠ .escaped := by decide
      obtain ⟨henclosed, hafter⟩ := after_bracket depth hinside fun b hb =>
        hquiet b (List.mem_cons_of_mem _ hb)
      refine ⟨⟨by simp, henclosed⟩, ?_⟩
      cases hafter with
      | inl hnil =>
        rw [hnil]
        rfl
      | inr hafter => exact hafter

theorem enclosed_symbol (depth : Nat) (hstate : state ≠ .escaped) (hslash : s ≠ .plain '\\')
    (hopen : s ≠ .plain '[') (hclose : s ≠ .plain ']') :
    Enclosed (.bracket state depth) (Symbol.bytes [s]) ∧
      ∃ state', state' ≠ .escaped ∧
        Place.after (.bracket state depth) (Symbol.bytes [s]) = .bracket state' depth ∧
        (state ≠ .opened ∨ s ≠ .plain '^' → state' = .inside) := by
  cases s with
  | plain c =>
    rw [Symbol.bytes_plain]
    by_cases hcaret : c = '^'
    · rw [hcaret, utf8EncodeChar_of_lt (by decide)]
      refine ⟨⟨by simp, trivial⟩, ?_⟩
      cases state with
      | opened => exact ⟨.first, by decide, rfl, by simp⟩
      | first => exact ⟨.inside, by decide, rfl, fun _ => rfl⟩
      | inside => exact ⟨.inside, by decide, rfl, fun _ => rfl⟩
      | escaped => exact absurd rfl hstate
    · have hnot : c ∉ ['^', '[', ']', '\\'] := by simp_all
      obtain ⟨henclosed, hafter⟩ := after_bracket depth hstate (ne_of_mem_utf8EncodeChar hnot)
      exact ⟨henclosed, .inside, by decide, hafter.resolve_left String.utf8EncodeChar_ne_nil,
        fun _ => rfl⟩
  | escaped c =>
    rw [Symbol.bytes_escaped]
    obtain ⟨henclosed, hafter⟩ := enclosed_escaped depth c
    refine ⟨⟨by simp, ?_⟩, .inside, by decide, ?_, fun _ => rfl⟩
    · rw [next_bracket_escape hstate]
      exact henclosed
    · rw [Place.after, List.foldl_cons, next_bracket_escape hstate]
      exact hafter

namespace Bracket

variable {place : Place} {ahead : Bool}

def IsMember (s : Symbol) : Prop :=
  s ≠ .plain '\\' ∧ s ≠ .plain '[' ∧ s ≠ .plain ']'

/--
A state in which the next symbol is read as a member is, unless it is a bracket.
-/
def Settled (state : ClassState) (next : Symbol) : Prop :=
  state = .inside ∨ next ≠ .plain ']' ∧ (state ≠ .opened ∨ next ≠ .plain '^')

/--
The scan stands in a class with `depth` classes around it, or, if it is ahead, with more of them.
-/
def Tracks (place : Place) (depth : Nat) (ahead : Bool) (next : Symbol) : Prop :=
  ∃ state depth', place = .bracket state depth' ∧ state ≠ .escaped ∧
    if ahead then depth < depth' else depth = depth' ∧ Settled state next

/--
The scan crosses the symbols without leaving the class that it stands in.
-/
def Crosses (place : Place) (symbols : List Symbol) (depth : Nat) (ahead : Bool) (next : Symbol) :
    Prop :=
  Enclosed place (Symbol.bytes symbols) ∧
    Tracks (place.after (Symbol.bytes symbols)) depth ahead next

theorem Crosses.append {depth' : Nat} {ahead' : Bool} {next : Symbol}
    (h : Crosses place symbols depth ahead s)
    (hrest : ∀ place, Tracks place depth ahead s → Crosses place rest depth' ahead' next) :
    Crosses place (symbols ++ rest) depth' ahead' next := by
  obtain ⟨henclosed, htracks⟩ := h
  obtain ⟨hrest, htracks⟩ := hrest _ htracks
  unfold Crosses
  rw [Symbol.bytes_append, Place.after_append]
  exact ⟨henclosed.append hrest, htracks⟩

theorem Tracks.symbol (h : Tracks place depth ahead s) (hs : IsMember s) (next : Symbol) :
    Crosses place [s] depth ahead next := by
  obtain ⟨state, depth', rfl, hstate, hdepth⟩ := h
  obtain ⟨henclosed, state', hstate', hafter, hinside⟩ :=
    enclosed_symbol depth' hstate hs.1 hs.2.1 hs.2.2
  refine ⟨henclosed, state', depth', hafter, hstate', ?_⟩
  cases ahead with
  | true => exact hdepth
  | false =>
    refine ⟨hdepth.1, .inl (hinside ?_)⟩
    cases hdepth.2 with
    | inl hin => simp [hin]
    | inr hmember => exact hmember.2

theorem enclosed_ascii (c : Char) (hc : c.toNat < 128) :
    Enclosed (.bracket state depth) (Symbol.bytes [.plain c]) := by
  rw [Symbol.bytes_ascii hc]
  exact ⟨by simp, trivial⟩

theorem after_opening (hstate : state ≠ .escaped) :
    Place.after (.bracket state depth) (Symbol.bytes [.plain '[']) =
      .bracket .opened (depth + 1) := by
  rw [Symbol.bytes_ascii (by decide)]
  cases state with
  | escaped => exact absurd rfl hstate
  | _ => rfl

/--
A bare opening bracket at the end of a range looks like the start of another class, which leaves the
scan ahead.
-/
theorem Tracks.rangeEnd (h : Tracks place depth ahead s) (hslash : s ≠ .plain '\\')
    (hclose : s ≠ .plain ']') (next : Symbol) :
    Crosses place [s] depth (ahead || decide (s = .plain '[')) next := by
  by_cases hopen : s = .plain '['
  · obtain ⟨state, depth', rfl, hstate, hdepth⟩ := h
    rw [hopen]
    refine ⟨enclosed_ascii '[' (by decide), .opened, depth' + 1, after_opening hstate, by decide,
      ?_⟩
    rw [decide_eq_true rfl, Bool.or_true]
    cases ahead with
    | true => exact Nat.lt_succ_of_lt hdepth
    | false => exact Nat.lt_succ_of_le (Nat.le_of_eq hdepth.1)
  · rw [decide_eq_false hopen, Bool.or_false]
    exact h.symbol ⟨hslash, hopen, hclose⟩ next

theorem Tracks.closing (h : Tracks place (depth + 1) ahead (.plain ']')) (next : Symbol) :
    Crosses place [.plain ']'] depth ahead next := by
  obtain ⟨state, depth', rfl, hstate, hdepth⟩ := h
  refine ⟨enclosed_ascii ']' (by decide), ?_⟩
  rw [Symbol.bytes_ascii (by decide)]
  cases ahead with
  | true =>
    have hdepth : depth + 1 < depth' := hdepth
    obtain ⟨below, rfl⟩ := Nat.exists_eq_succ_of_ne_zero (Nat.ne_zero_of_lt hdepth)
    cases state with
    | inside => exact ⟨.inside, below, rfl, by decide, Nat.lt_of_succ_lt_succ hdepth⟩
    | escaped => exact absurd rfl hstate
    | opened | first => exact ⟨.inside, below + 1, rfl, by decide, Nat.lt_of_succ_lt hdepth⟩
  | false =>
    obtain ⟨rfl, hsettled⟩ := hdepth
    cases hsettled with
    | inl hinside =>
      rw [hinside]
      exact ⟨.inside, depth, rfl, by decide, rfl, .inl rfl⟩
    | inr hmember => exact absurd rfl hmember.1

/--
The closing bracket of the outermost class leads outside, unless the scan is ahead.
-/
theorem Tracks.after_closing (h : Tracks place 0 ahead (.plain ']')) :
    Enclosed place (Symbol.bytes [.plain ']']) ∧
      (place.after (Symbol.bytes [.plain ']']) = .outside ↔ ahead = false) := by
  obtain ⟨state, depth', rfl, hstate, hdepth⟩ := h
  refine ⟨enclosed_ascii ']' (by decide), ?_⟩
  rw [Symbol.bytes_ascii (by decide)]
  cases ahead with
  | true =>
    obtain ⟨below, rfl⟩ := Nat.exists_eq_succ_of_ne_zero (Nat.ne_zero_of_lt hdepth)
    apply iff_of_false _ (by simp)
    cases state with
    | inside =>
      change Place.bracket .inside below ≠ .outside
      simp
    | escaped => exact absurd rfl hstate
    | opened | first =>
      change Place.bracket .inside (below + 1) ≠ .outside
      simp
  | false =>
    obtain ⟨rfl, hsettled⟩ := hdepth
    cases hsettled with
    | inl hinside =>
      rw [hinside]
      exact iff_of_true rfl rfl
    | inr hmember => exact absurd rfl hmember.1

end Bracket

end Regex

end GramIndex
