import GramIndex.Proofs.Escapes
import GramIndex.Proofs.Readings

/-!
This module contains what the scanners make of the parts that patterns are read in: characters and
escapes, classes and balanced texts, heads of groups, and quantifiers.
-/

namespace GramIndex.Pattern

open Regex (Symbol)

variable {place : Place} {a : Gram} {cs : List Char}

section Quiet

theorem quiet_of_after (h : ∀ b ∈ a, b ≠ byte '(' ∧ b ≠ byte ')' ∧ b ≠ byte '|')
    (hafter : place.after a = .outside) : Quiet place a := by
  induction a generalizing place with
  | nil => exact hafter
  | cons b a ih =>
    refine ⟨fun _ => h b List.mem_cons_self, ?_⟩
    apply ih _ hafter
    intro d hd
    exact h d (List.mem_cons_of_mem b hd)

theorem after_outside (h : ∀ b ∈ a, b ≠ byte '\\' ∧ b ≠ byte '[') :
    Place.after .outside a = .outside := by
  induction a with
  | nil => rfl
  | cons b a ih =>
    have hb := h b List.mem_cons_self
    have hnext : Place.next .outside b = .outside := by
      simp [Place.next, hb]
    rw [Place.after, List.foldl_cons, hnext]
    apply ih
    intro d hd
    exact h d (List.mem_cons_of_mem b hd)

theorem forall_mem_utf8 (h : ∀ d ∈ ['(', ')', '|'], d ∉ cs) :
    ∀ b ∈ utf8 cs, b ≠ byte '(' ∧ b ≠ byte ')' ∧ b ≠ byte '|' := by
  intro b hb
  refine ⟨?_, ?_, ?_⟩
  · exact ne_byte_of_mem_utf8 (by decide) (h '(' (by simp)) hb
  · exact ne_byte_of_mem_utf8 (by decide) (h ')' (by simp)) hb
  · exact ne_byte_of_mem_utf8 (by decide) (h '|' (by simp)) hb

theorem quiet_utf8 (h : ∀ d ∈ scanned, d ∉ cs) : Quiet .outside (utf8 cs) := by
  apply quiet_of_after
  · apply forall_mem_utf8
    intro d hd
    exact h d (List.mem_append_left ['\\', '['] hd)
  · apply after_outside
    intro b hb
    exact ⟨ne_byte_of_mem_utf8 (by decide) (h '\\' (by simp [scanned])) hb,
      ne_byte_of_mem_utf8 (by decide) (h '[' (by simp [scanned])) hb⟩

/--
Whatever character a backslash stands before, its bytes are not looked at.
-/
theorem quiet_escaped (c : Char) : Quiet .outside (Symbol.bytes [.escaped c]) := by
  obtain ⟨b, tail, hbytes, htail⟩ := exists_utf8EncodeChar_cons c
  rw [Symbol.bytes_escaped, hbytes]
  refine ⟨fun _ => by decide, fun h => absurd h (by decide), ?_⟩
  apply quiet_of_after
  · intro d hd
    have hd := htail d hd
    exact ⟨ne_byte_of_le (by decide) hd, ne_byte_of_le (by decide) hd,
      ne_byte_of_le (by decide) hd⟩
  · apply after_outside
    intro d hd
    have hd := htail d hd
    exact ⟨ne_byte_of_le (by decide) hd, ne_byte_of_le (by decide) hd⟩

theorem quiet_plain {c : Char} (h : c ∉ scanned) : Quiet .outside (Symbol.bytes [.plain c]) := by
  have hbytes : Symbol.bytes [.plain c] = utf8 [c] := by
    simp [Symbol.bytes_plain]
  rw [hbytes]
  apply quiet_utf8
  intro d hd hmem
  rw [List.mem_singleton.1 hmem] at hd
  exact h hd

theorem utf8_open (cs : List Char) : utf8 ('(' :: cs) = byte '(' :: utf8 cs := rfl

theorem utf8_close (cs : List Char) : utf8 (')' :: cs) = byte ')' :: utf8 cs := rfl

theorem utf8_bar (cs : List Char) : utf8 ('|' :: cs) = byte '|' :: utf8 cs := rfl

theorem Ends.head?_ne (h : Ends a) : a.head? ≠ some (byte '?') := by
  intro hhead
  exact h _ hhead (.inr (.inl rfl))

theorem ends_utf8_cons {c : Char} (h : c ∉ ['*', '?', '+', '\x7b']) (cs : List Char)
    (tail : Gram) : Ends (utf8 (c :: cs) ++ tail) := by
  intro b hb hstarts
  rw [utf8_cons, List.append_assoc] at hb
  apply h
  obtain rfl | rfl | rfl | rfl := hstarts
  all_goals
    rw [eq_of_head? (by decide) hb]
    simp

end Quiet

section Balanced

open Regex.Bracket (Crosses IsClass IsMember Members Tracks isMember_of_mem_operators)

variable {symbols members : List Symbol} {next : Symbol} {depth : Nat}

/--
The members of a class nest if no range in it ends with a bare opening bracket.
-/
theorem nests_of_members {opens : Bool} (h : Members opens members) (hopens : opens = false) :
    Nests members := by
  induction h with
  | nil => exact .nil
  | symbol hs _ _ _ ih => exact .symbol hs (ih hopens)
  | range hfirst _ hslash hlast _ ih =>
    obtain ⟨hopening, hopens⟩ := Bool.or_eq_false_iff.1 hopens
    have hmember : IsMember _ := ⟨hslash, of_decide_eq_false hopening, hlast.1⟩
    exact .symbol hfirst (.symbol (by simp [IsMember]) (.symbol hmember (ih hopens)))
  | operation hs _ ih =>
    have hmember := isMember_of_mem_operators hs
    exact .symbol hmember (.symbol hmember (ih hopens))
  | nested hlead _ _ ihinner ih =>
    obtain ⟨hwithin, hopens⟩ := Bool.or_eq_false_iff.1 hopens
    exact .nested hlead (ihinner hwithin) (ih hopens)

theorem isNested_of_isClass (h : IsClass false symbols) : IsNested symbols := by
  cases h with
  | mk hlead hinner => exact .mk hlead (nests_of_members hinner rfl)

theorem Nests.crosses (h : Nests members)
    (htracks : Tracks place depth false (members.headD next)) :
    Crosses place members depth false next := by
  induction h generalizing place depth next with
  | nil => exact ⟨trivial, htracks⟩
  | @symbol s rest hs _ ih =>
    apply (htracks.symbol hs (rest.headD next)).append
    intro place htracks
    exact ih htracks
  | @nested lead inner rest hlead _ _ ihinner ih =>
    rw [List.append_assoc]
    apply (htracks.opening hlead).append
    intro place htracks
    apply (ihinner htracks).append
    intro place htracks
    apply (htracks.closing (rest.headD next)).append
    intro place htracks
    exact ih htracks

theorem IsNested.quiet (h : IsNested symbols) : Quiet .outside (Symbol.bytes symbols) := by
  cases h with
  | @mk lead inner hlead hinner =>
    obtain ⟨hopening, state, hafter, hstate, hsettled⟩ := hlead.settled 0
    have htracks : Tracks (.bracket state 0) 0 false (inner.headD (.plain ']')) :=
      ⟨state, 0, rfl, hstate, rfl, hsettled⟩
    obtain ⟨hmembers, htracks⟩ := hinner.crosses htracks
    obtain ⟨hclosing, houtside⟩ := htracks.after_closing
    rw [List.cons_append, List.cons_append, Symbol.bytes_cons, Symbol.bytes_ascii (by decide),
      Symbol.bytes_append, Symbol.bytes_append]
    refine ⟨fun _ => by decide, ?_⟩
    have henclosed : Enclosed (.bracket .opened 0)
        (Symbol.bytes lead ++ Symbol.bytes inner ++ Symbol.bytes [.plain ']']) := by
      apply (hopening.append _).append
      · rw [Place.after_append, hafter]
        exact hclosing
      · rw [hafter]
        exact hmembers
    apply henclosed.quiet
    rw [Place.after_append, Place.after_append, hafter]
    exact houtside.2 rfl

/--
The scanners cross a balanced text as a whole.
-/
theorem Balanced.passed (h : Balanced symbols) : Passed (Symbol.bytes symbols) := by
  induction h with
  | nil => exact quiet_nil.passed
  | @symbol s rest hs _ ih =>
    rw [Symbol.bytes_cons]
    refine Passed.append ?_ ih
    simp only [List.mem_cons, List.not_mem_nil, or_false, not_or] at hs
    cases s with
    | escaped c => exact (quiet_escaped c).passed
    | plain c =>
      by_cases hbar : c = '|'
      · rw [hbar, Symbol.bytes_ascii (by decide)]
        exact passed_bar
      · apply Quiet.passed
        apply quiet_plain
        simpa [scanned, hbar] using hs
  | bracket hcls _ ih =>
    rw [Symbol.bytes_append]
    exact hcls.quiet.passed.append ih
  | @group inner rest _ _ ihinner ih =>
    have hbytes : Symbol.bytes (.plain '(' :: inner ++ .plain ')' :: rest) =
        (byte '(' :: Symbol.bytes inner ++ [byte ')']) ++ Symbol.bytes rest := by
      rw [List.cons_append, Symbol.bytes_cons, Symbol.bytes_append, Symbol.bytes_cons _ rest,
        Symbol.bytes_ascii (by decide), Symbol.bytes_ascii (by decide)]
      simp
    rw [hbytes]
    exact ihinner.group.append ih

end Balanced

section Heads

variable {name flags : List Char} {body : Gram}

theorem IsName.not_mem (h : IsName name) {d : Char} (hlt : d.toNat < 128)
    (hd : d.isAlphanum = false) (hother : d ∉ ['_', '.', '[', ']']) : d ∉ name := by
  intro hmem
  cases h d hmem hlt with
  | inl halphanum =>
    rw [hd] at halphanum
    cases halphanum
  | inr hmem => exact hother hmem

theorem named_utf8 (h : IsName name) (body : Gram) :
    groupBody?.named (utf8 name ++ byte '>' :: body) = some body := by
  have hbytes : ∀ b ∈ utf8 name, decide (b ≠ byte '>') = true := by
    intro b hb
    rw [decide_eq_true_iff]
    exact ne_byte_of_mem_utf8 (by decide) (h.not_mem (by decide) (by decide) (by decide)) hb
  have hhead (d : Char) (hlt : d.toNat < 128) (hd : d ∉ name) (hend : byte '>' ≠ byte d) :
      (utf8 name ++ byte '>' :: body).head? ≠ some (byte d) := by
    intro heq
    cases name with
    | nil => exact hend (Option.some.inj heq)
    | cons c others =>
      rw [utf8_cons, List.append_assoc] at heq
      rw [eq_of_head? hlt heq] at hd
      exact hd List.mem_cons_self
  unfold groupBody?.named
  rw [if_neg]
  · rw [List.dropWhile_append_of_pos hbytes]
    simp
  · simp only [Bool.or_eq_true, decide_eq_true_eq, not_or]
    exact ⟨hhead '=' (by decide) (h.not_mem (by decide) (by decide) (by decide)) (by decide),
      hhead '!' (by decide) (h.not_mem (by decide) (by decide) (by decide)) (by decide)⟩

/--
The scanners find the body of a group that keeps the flags.
-/
theorem Head.groupBody?_mark {head : Head} (h : head.Fits) (hbody : body.head? ≠ some (byte '?')) :
    groupBody? (utf8 head.mark ++ body) = some body := by
  cases head with
  | capture =>
    cases body with
    | nil => rfl
    | cons b body =>
      have hb : b ≠ byte '?' := by
        intro heq
        rw [heq] at hbody
        exact hbody rfl
      simp [Head.mark, groupBody?, hb]
  | plain => rfl
  | named withLetter name =>
    have hnamed := named_utf8 h body
    have hend : utf8 ['>'] = [byte '>'] := rfl
    cases withLetter with
    | true =>
      have hbytes : utf8 ['?', 'P', '<'] = [byte '?', byte 'P', byte '<'] := rfl
      have hother : byte 'P' ≠ byte ':' ∧ byte 'P' ≠ byte '<' := by decide
      have hmark : (Head.named true name).mark = ['?', 'P', '<'] ++ name ++ ['>'] := rfl
      rw [hmark, utf8_append, utf8_append, hbytes, hend]
      simpa [groupBody?, hother] using hnamed
    | false =>
      have hbytes : utf8 ['?', '<'] = [byte '?', byte '<'] := rfl
      have hcolon : byte '<' ≠ byte ':' := by decide
      have hmark : (Head.named false name).mark = ['?', '<'] ++ name ++ ['>'] := rfl
      rw [hmark, utf8_append, utf8_append, hbytes, hend]
      simpa [groupBody?, hcolon] using hnamed

theorem Head.quiet_mark {head : Head} (h : head.Fits) (haligned : head.Aligned) :
    Quiet .outside (utf8 head.mark) := by
  cases head with
  | capture => exact quiet_nil
  | plain => exact quiet_utf8 (by simp [scanned, Head.mark])
  | named withLetter name =>
    obtain ⟨symbols, rfl, hbalanced⟩ := haligned
    have hname : Quiet .outside (utf8 (symbols.flatMap Symbol.chars)) := by
      apply quiet_of_after _ hbalanced.passed.after
      apply forall_mem_utf8
      intro d hd
      have hother : ∀ d ∈ ['(', ')', '|'],
          d.toNat < 128 ∧ d.isAlphanum = false ∧ d ∉ ['_', '.', '[', ']'] := by simp
      obtain ⟨hlt, halphanum, hother⟩ := hother d hd
      exact IsName.not_mem h hlt halphanum hother
    have hmark : (Head.named withLetter (symbols.flatMap Symbol.chars)).mark =
        ('?' :: if withLetter then ['P', '<'] else ['<']) ++ symbols.flatMap Symbol.chars ++
          ['>'] := rfl
    rw [hmark, utf8_append, utf8_append]
    apply Quiet.append (Quiet.append _ hname)
    · exact quiet_utf8 (by simp [scanned])
    · cases withLetter with
      | true => exact quiet_utf8 (by simp [scanned])
      | false => exact quiet_utf8 (by simp [scanned])

theorem lt_of_mem_flagChars {c : Char} (h : c ∈ flagChars) : c.toNat < 128 := by
  have hlt : ∀ c ∈ flagChars, c.toNat < 128 := by simp [flagChars]
  exact hlt c h

theorem byte_ne_of_mem_flagChars {c d : Char} (h : c ∈ flagChars) (hd : d.toNat < 128)
    (hnot : d ∉ flagChars) : byte c ≠ byte d := by
  intro heq
  apply hnot
  rw [← byte_inj (lt_of_mem_flagChars h) hd heq]
  exact h

theorem isFlag_of_mem_flagChars {c : Char} (h : c ∈ flagChars) :
    opensFlags.isFlag (byte c) = true := by
  have hflag : ∀ c ∈ flagChars, opensFlags.isFlag (byte c) = true := List.all_eq_true.1 (by decide)
  exact hflag c h

/--
The scanners do not look into a group with flags of its own.
-/
theorem AreFlags.groupBody?_eq_none (h : AreFlags flags) (body : Gram) :
    groupBody? (utf8 ('?' :: flags) ++ body) = none := by
  obtain ⟨hne, hchars⟩ := h
  cases flags with
  | nil => exact absurd rfl hne
  | cons f flags =>
    have hf := hchars f List.mem_cons_self
    have hcolon : byte f ≠ byte ':' := byte_ne_of_mem_flagChars hf (by decide) (by decide)
    have hangle : byte f ≠ byte '<' := byte_ne_of_mem_flagChars hf (by decide) (by decide)
    have hP : byte f ≠ byte 'P' := byte_ne_of_mem_flagChars hf (by decide) (by decide)
    have hquestion : String.utf8EncodeChar '?' = [byte '?'] := rfl
    rw [utf8_cons, utf8_cons, hquestion, utf8EncodeChar_of_lt (lt_of_mem_flagChars hf)]
    simp [groupBody?, hcolon, hangle, hP]

theorem AreFlags.quiet (h : AreFlags flags) : Quiet .outside (utf8 ('?' :: flags)) := by
  apply quiet_utf8
  intro d hd
  have hother : ∀ d ∈ scanned, d ≠ '?' ∧ d ∉ flagChars := by simp [scanned, flagChars]
  have hnot : d ∉ flags := fun hmem => (hother d hd).2 (h.chars d hmem)
  simp [hother d hd, hnot]

theorem closesFlags_flags (h : ∀ c ∈ flags, c ∈ flagChars) (more : Gram) :
    opensFlags.closesFlags (utf8 flags ++ byte ')' :: more) = true := by
  induction flags with
  | nil => rfl
  | cons f flags ih =>
    have hf := h f List.mem_cons_self
    have hrest := ih fun c hc => h c (List.mem_cons_of_mem f hc)
    rw [utf8_cons, utf8EncodeChar_of_lt (lt_of_mem_flagChars hf), List.append_assoc]
    simp [opensFlags.closesFlags, isFlag_of_mem_flagChars hf, hrest]

theorem AreFlags.opensFlags (h : AreFlags flags) (more : Gram) :
    opensFlags (utf8 ('?' :: flags) ++ byte ')' :: more) = true := by
  obtain ⟨hne, hchars⟩ := h
  cases flags with
  | nil => exact absurd rfl hne
  | cons f flags =>
    have hf := hchars f List.mem_cons_self
    have hquestion : String.utf8EncodeChar '?' = [byte '?'] := rfl
    have hclose := closesFlags_flags (fun c hc => hchars c (List.mem_cons_of_mem f hc)) more
    rw [utf8_cons, utf8_cons, hquestion, utf8EncodeChar_of_lt (lt_of_mem_flagChars hf)]
    simpa [Pattern.opensFlags, isFlag_of_mem_flagChars hf] using hclose

end Heads

section Bounds

theorem range_of_isDigit {c : Char} (h : c.isDigit = true) : 48 ≤ c.toNat ∧ c.toNat ≤ 57 := by
  simp only [Char.isDigit, Bool.and_eq_true, decide_eq_true_eq, UInt32.le_iff_toNat_le] at h
  exact h

theorem isBlank_of_isDigit {c : Char} (h : c.isDigit = true) : Unicode.isBlank c = false := by
  have hrange := range_of_isDigit h
  have hcontrol : ¬ c.toNat ≤ 0x0D := by omega
  have hspace : ¬ c.toNat ≤ 0x20 := by omega
  have hother : ¬ 0x85 ≤ c.toNat := by omega
  simp [Unicode.isBlank, Unicode.blank, Unicode.Ranges.contains, hcontrol, hspace, hother]

theorem le_foldl_of_mem (digits : List Nat) (n : Nat) (h : 1 ≤ n ∨ ∃ d ∈ digits, d ≠ 0) :
    1 ≤ digits.foldl (fun n d => 10 * n + d) n := by
  induction digits generalizing n with
  | nil => simpa using h
  | cons d digits ih =>
    rw [List.foldl_cons]
    apply ih
    cases h with
    | inl h =>
      left
      omega
    | inr h =>
      obtain ⟨e, he, hne⟩ := h
      cases List.mem_cons.1 he with
      | inl he =>
        left
        omega
      | inr he => exact .inr ⟨e, he, hne⟩

theorem Numeral.one_le_value_iff (m : Numeral) : 1 ≤ m.value ↔ ∃ c ∈ m.digits, c ≠ '0' := by
  have hfold (digits : List Char) (h : ∀ c ∈ digits, c = '0') :
      digits.foldl (fun value c => 10 * value + (c.toNat - '0'.toNat)) 0 = 0 := by
    induction digits with
    | nil => rfl
    | cons c digits ih =>
      rw [List.foldl_cons, h c List.mem_cons_self]
      exact ih fun d hd => h d (List.mem_cons_of_mem c hd)
  constructor
  · intro h
    apply Decidable.byContradiction
    intro hnone
    have hzero : m.value = 0 := by
      apply hfold
      intro c hc
      apply Decidable.byContradiction
      intro hne
      exact hnone ⟨c, hc, hne⟩
    omega
  · rintro ⟨c, hc, hne⟩
    have hrange := range_of_isDigit (m.digits_valid c hc)
    unfold value
    rw [← List.foldl_map (f := fun c : Char => c.toNat - '0'.toNat)
      (g := fun value digit => 10 * value + digit)]
    apply le_foldl_of_mem
    refine .inr ⟨_, List.mem_map_of_mem hc, ?_⟩
    have hzero : '0'.toNat = 48 := rfl
    have : c.toNat ≠ 48 := fun heq => hne (Char.toNat_inj.1 heq)
    omega

theorem isDigit_of_byte {c : Char} {b : UInt8} (hb : b ∈ String.utf8EncodeChar c)
    (h : isDigit b = true) : c.isDigit = true ∧ b = byte c := by
  simp only [isDigit, Bool.and_eq_true, decide_eq_true_eq, UInt8.le_iff_toNat_le] at h
  have hlow : (byte '0').toNat = 48 := rfl
  have hhigh : (byte '9').toNat = 57 := rfl
  by_cases hc : c.toNat < 128
  · rw [utf8EncodeChar_of_lt hc, List.mem_singleton] at hb
    rw [hb, toNat_byte hc] at h
    refine ⟨?_, hb⟩
    simp only [Char.isDigit, Bool.and_eq_true, decide_eq_true_eq, UInt32.le_iff_toNat_le]
    have hval : c.toNat = c.val.toNat := rfl
    have hzero : '0'.val.toNat = 48 := rfl
    have hnine : '9'.val.toNat = 57 := rfl
    omega
  · have := le_of_mem_utf8EncodeChar (Nat.le_of_not_lt hc) hb
    omega

theorem takeWhile_utf8_comma {tail : List Char} (hcs : ',' ∉ cs)
    (htail : tail = [] ∨ tail.head? = some ',') :
    (utf8 (cs ++ tail)).takeWhile (· ≠ byte ',') = utf8 cs := by
  have hbytes : ∀ b ∈ utf8 cs, decide (b ≠ byte ',') = true := by
    intro b hb
    rw [decide_eq_true_iff]
    exact ne_byte_of_mem_utf8 (by decide) hcs hb
  have hstop : (utf8 tail).takeWhile (· ≠ byte ',') = [] := by
    cases htail with
    | inl hnil =>
      rw [hnil]
      rfl
    | inr hhead =>
      obtain ⟨rest, rfl⟩ := List.head?_eq_some_iff.1 hhead
      rw [utf8_cons, utf8EncodeChar_of_lt (by decide)]
      simp
  rw [utf8_append, List.takeWhile_append_of_pos hbytes, hstop, List.append_nil]

variable {n : Nat}

theorem IsBound.not_mem (h : IsBound n cs) {d : Char} (hdigit : d.isDigit = false)
    (hblank : Unicode.isBlank d = false) : d ∉ cs := by
  obtain ⟨before, behind, numeral, rfl, _, hblanks⟩ := h
  intro hmem
  rw [List.mem_append, List.mem_append] at hmem
  obtain (hmem | hmem) | hmem := hmem
  · rw [hblanks d (List.mem_append_left behind hmem)] at hblank
    cases hblank
  · rw [numeral.digits_valid d hmem] at hdigit
    cases hdigit
  · rw [hblanks d (List.mem_append_right before hmem)] at hblank
    cases hblank

/--
The scanners take a bound for positive only if it is. They do not know blanks.
-/
theorem IsBound.one_le (h : IsBound n cs) {tail : List Char}
    (htail : tail = [] ∨ tail.head? = some ',') (honce : atLeastOnce (utf8 (cs ++ tail)) = true) :
    1 ≤ n := by
  have hcomma := h.not_mem (d := ',') (by decide) (by decide)
  obtain ⟨before, behind, numeral, rfl, rfl, hblanks⟩ := h
  unfold atLeastOnce at honce
  rw [takeWhile_utf8_comma hcomma htail] at honce
  simp only [Bool.and_eq_true, List.all_eq_true, List.any_eq_true, decide_eq_true_eq] at honce
  obtain ⟨⟨_, hdigits⟩, b, hb, hzero⟩ := honce
  have hdigit := hdigits b hb
  simp only [utf8, List.mem_flatMap] at hb
  obtain ⟨c, hc, hb⟩ := hb
  obtain ⟨hisDigit, hbyte⟩ := isDigit_of_byte hb hdigit
  have hnot := isBlank_of_isDigit hisDigit
  apply numeral.one_le_value_iff.2
  refine ⟨c, ?_, fun heq => hzero (by rw [hbyte, heq])⟩
  -- A digit is no blank, so it is one of those of the number.
  rw [List.mem_append, List.mem_append] at hc
  obtain (hc | hc) | hc := hc
  · rw [hblanks c (List.mem_append_left behind hc)] at hnot
    cases hnot
  · exact hc
  · rw [hblanks c (List.mem_append_right before hc)] at hnot
    cases hnot

theorem IsBounds.one_le {least : Nat} (h : IsBounds least cs)
    (honce : atLeastOnce (utf8 cs) = true) : 1 ≤ least := by
  cases h with
  | exactly h =>
    rw [← List.append_nil cs] at honce
    exact h.one_le (.inl rfl) honce
  | atLeast h => exact h.one_le (.inr rfl) honce
  | between h => exact h.one_le (.inr rfl) honce

theorem IsBounds.not_mem {least : Nat} (h : IsBounds least cs) {d : Char}
    (hdigit : d.isDigit = false) (hblank : Unicode.isBlank d = false) (hcomma : d ≠ ',') :
    d ∉ cs := by
  cases h with
  | exactly h => exact h.not_mem hdigit hblank
  | atLeast h => simp [h.not_mem hdigit hblank, hcomma]
  | between h hmost => simp [h.not_mem hdigit hblank, hmost.not_mem hdigit hblank, hcomma]

end Bounds

section Quantifiers

variable {required isLazy : Bool} {tail : Gram}

theorem quantifiers_go_lazy (h : tail.head? ≠ some (byte '?')) :
    quantifiers.go required isLazy tail = quantifiers.go required false tail := by
  cases tail with
  | nil => rw [quantifiers.go, quantifiers.go]
  | cons b rest =>
    have hb : b ≠ byte '?' := by
      intro heq
      rw [heq] at h
      exact h rfl
    rw [quantifiers.go, quantifiers.go]
    simp [hb]

theorem quantifiers_go_question :
    quantifiers.go required true (byte '?' :: tail) = quantifiers.go required false tail := by
  rw [quantifiers.go]
  simp

theorem quantifiers_go_any :
    quantifiers.go required isLazy (byte '*' :: tail) = quantifiers.go false true tail := by
  have hother : byte '*' ≠ byte '?' := by decide
  rw [quantifiers.go]
  simp [hother]

theorem quantifiers_go_some :
    quantifiers.go required isLazy (byte '+' :: tail) = quantifiers.go required true tail := by
  have hother : byte '+' ≠ byte '*' ∧ byte '+' ≠ byte '?' := by decide
  rw [quantifiers.go]
  simp [hother]

theorem quantifiers_go_optional :
    quantifiers.go required false (byte '?' :: tail) = quantifiers.go false true tail := by
  rw [quantifiers.go]
  simp

theorem quantifiers_go_counted (h : '\x7d' ∉ cs) :
    quantifiers.go required isLazy (utf8 ('\x7b' :: cs ++ ['\x7d']) ++ tail) =
      quantifiers.go (required && atLeastOnce (utf8 cs)) true tail := by
  have hopen : String.utf8EncodeChar '\x7b' = [byte '\x7b'] := rfl
  have hclose : utf8 ['\x7d'] = [byte '\x7d'] := rfl
  have hbytes : ∀ b ∈ utf8 cs, decide (b ≠ byte '\x7d') = true := by
    intro b hb
    rw [decide_eq_true_iff]
    exact ne_byte_of_mem_utf8 (by decide) h hb
  have hdrop : (utf8 cs ++ byte '\x7d' :: tail).dropWhile (· ≠ byte '\x7d') =
      byte '\x7d' :: tail := by
    rw [List.dropWhile_append_of_pos hbytes]
    simp
  have htake : (utf8 cs ++ byte '\x7d' :: tail).takeWhile (· ≠ byte '\x7d') = utf8 cs := by
    rw [List.takeWhile_append_of_pos hbytes]
    simp
  have hother : byte '\x7b' ≠ byte '*' ∧ byte '\x7b' ≠ byte '?' ∧ byte '\x7b' ≠ byte '+' := by
    decide
  rw [utf8_append, utf8_cons, hopen, hclose]
  simp only [List.append_assoc, List.cons_append, List.nil_append]
  rw [quantifiers.go]
  simp only [hother, decide_false, Bool.false_and, Bool.or_false, Bool.false_eq_true, if_false,
    if_true]
  split
  · next heq =>
    rw [hdrop] at heq
    cases heq
  · next heq =>
    rw [hdrop] at heq
    cases heq
    rw [htake]

theorem IsMark.exists_need {least : Nat} {sign : List Char} (h : IsMark least sign) :
    ∃ need, (need = true → 1 ≤ least) ∧ ∀ required tail,
      quantifiers.go required false (utf8 sign ++ tail) =
        quantifiers.go (required && need) true tail := by
  cases h with
  | any =>
    refine ⟨false, by simp, ?_⟩
    intro required tail
    rw [Bool.and_false]
    exact quantifiers_go_any
  | some =>
    refine ⟨true, fun _ => Nat.le_refl 1, ?_⟩
    intro required tail
    rw [Bool.and_true]
    exact quantifiers_go_some
  | optional =>
    refine ⟨false, by simp, ?_⟩
    intro required tail
    rw [Bool.and_false]
    exact quantifiers_go_optional
  | @counted least cs h =>
    refine ⟨atLeastOnce (utf8 cs), h.one_le, ?_⟩
    intro required tail
    exact quantifiers_go_counted (h.not_mem (by decide) (by decide) (by decide))

theorem IsMark.not_mem {least : Nat} {sign : List Char} (h : IsMark least sign) :
    ∀ d ∈ scanned, d ∉ sign := by
  cases h with
  | any | some | optional => simp [scanned]
  | counted h =>
    intro d hd
    have hblanks : (scanned.all fun d => Unicode.isBlank d == false) = true := by decide
    have hblank := eq_of_beq (List.all_eq_true.1 hblanks d hd)
    have hother : ∀ d ∈ scanned, d.isDigit = false ∧ d ≠ ',' ∧ d ≠ '\x7b' ∧ d ≠ '\x7d' := by
      simp [scanned]
    obtain ⟨hdigit, hcomma, hopen, hclose⟩ := hother d hd
    simp [h.not_mem hdigit hblank hcomma, hopen, hclose]

theorem IsMark.exists_cons {least : Nat} {sign : List Char} (h : IsMark least sign) :
    ∃ c cs, sign = c :: cs ∧ c ∈ ['*', '?', '+', '\x7b'] := by
  cases h with
  | any | some | optional | counted => exact ⟨_, _, rfl, by simp⟩

theorem IsMark.eq_question {least : Nat} {sign : List Char} (h : IsMark least sign)
    (hhead : sign.head? = Option.some '?') : sign = ['?'] := by
  cases h with
  | optional => rfl
  | any | some | counted => cases hhead

theorem Mark.quiet {m : Mark} (h : IsMark m.least m.sign) : Quiet .outside (utf8 m.chars) := by
  apply quiet_utf8
  intro d hd
  have hother : ∀ d ∈ scanned, d ≠ '?' := by simp [scanned]
  unfold Mark.chars
  cases m.isLazy with
  | true => simp [h.not_mem d hd, hother d hd]
  | false => simp [h.not_mem d hd]

theorem Mark.exists_need {m : Mark} (h : IsMark m.least m.sign) :
    ∃ need, (need = true → 1 ≤ m.least) ∧ ∀ required tail,
      (m.isLazy = false → tail.head? ≠ some (byte '?')) →
        quantifiers.go required false (utf8 m.chars ++ tail) =
          quantifiers.go (required && need) false tail := by
  obtain ⟨need, hneed, hread⟩ := h.exists_need
  refine ⟨need, hneed, ?_⟩
  intro required tail htail
  unfold Mark.chars
  cases hlazy : m.isLazy with
  | true =>
    have hquestion : utf8 ['?'] = [byte '?'] := rfl
    simp only [if_true]
    rw [utf8_append, List.append_assoc, hread, hquestion, List.singleton_append,
      quantifiers_go_question]
  | false =>
    simp only [Bool.false_eq_true, if_false, List.append_nil]
    rw [hread, quantifiers_go_lazy (htail hlazy)]

end Quantifiers

end GramIndex.Pattern
