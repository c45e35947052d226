import GramIndex.Json.Value

/-!
This module contains the texts of JSON numbers, and of objects whose members are numbers, truth
values or nulls, and that they are read as what they are the texts of.
-/

namespace GramIndex.Json

variable {c : Char} {cs after : List Char}

/--
At least one decimal digit, and nothing else.
-/
structure Digits (ds : List Char) : Prop where
  nonempty : ds ≠ []
  digits : ∀ c ∈ ds, c.isDigit = true

namespace Number

def fractionText : Option (List Char) → List Char
  | none => []
  | some ds => '.' :: ds

/--
An exponent with its sign, which is written also where it is a plus.
-/
def exponentText : Option (Bool × List Char) → List Char
  | none => []
  | some (negative, ds) => 'e' :: (if negative then '-' else '+') :: ds

def text (n : Number) : List Char :=
  (if n.negative then ['-'] else []) ++
    (n.whole ++ (fractionText n.fraction ++ exponentText n.exponent))

/--
A number that can be written: each of its parts has digits, and the whole part no leading zeros.
-/
structure WellFormed (n : Number) : Prop where
  whole : Digits n.whole
  leading : ∀ rest, n.whole = '0' :: rest → rest = []
  fraction : ∀ ds, n.fraction = some ds → Digits ds
  exponent : ∀ negative ds, n.exponent = some (negative, ds) → Digits ds

end Number

namespace Token

open Number (fractionText exponentText)

/--
A text at whose start a number does not go on.
-/
def EndsNumber (after : List Char) : Prop :=
  ∀ c, after.head? = some c → c.isDigit = false ∧ c ≠ '.' ∧ c ≠ 'e' ∧ c ≠ 'E'

theorem digits_append {ds : List Char} (hds : ∀ c ∈ ds, c.isDigit = true)
    (hafter : ∀ c, after.head? = some c → c.isDigit = false) :
    digits (ds ++ after) = (ds, after) := by
  unfold digits
  rw [List.takeWhile_append_of_pos hds, List.dropWhile_append_of_pos hds]
  cases after with
  | nil => simp
  | cons c after =>
    have hc := hafter c rfl
    simp [hc]

theorem whole?_append {whole : List Char} (hwhole : Digits whole)
    (hleading : ∀ rest, whole = '0' :: rest → rest = [])
    (hafter : ∀ c, after.head? = some c → c.isDigit = false) :
    whole? (whole ++ after) = some (whole, after) := by
  unfold whole?
  rw [digits_append hwhole.digits hafter]
  split
  · next heq =>
    cases heq
    exact absurd rfl hwhole.nonempty
  · next heq =>
    cases heq
    cases hleading _ rfl
  · next heq =>
    cases heq
    rfl

theorem fraction?_append {fraction : Option (List Char)}
    (hfraction : ∀ ds, fraction = some ds → Digits ds)
    (hafter : ∀ c, after.head? = some c → c.isDigit = false ∧ c ≠ '.') :
    fraction? (fractionText fraction ++ after) = some (fraction, after) := by
  cases fraction with
  | none =>
    unfold fraction?
    split
    · next heq =>
      rw [fractionText, List.nil_append] at heq
      exact absurd rfl (hafter '.' (by rw [heq]; rfl)).2
    · rfl
  | some ds =>
    have hds := hfraction ds rfl
    rw [fractionText, List.cons_append, fraction?,
      digits_append hds.digits fun c hc => (hafter c hc).1]
    split
    · next heq =>
      cases heq
      exact absurd rfl hds.nonempty
    · next heq =>
      cases heq
      rfl

theorem minus_digits {ds : List Char} (hds : Digits ds) (after : List Char) :
    minus (ds ++ after) = (false, ds ++ after) := by
  unfold minus
  split
  · next heq =>
    cases ds with
    | nil => exact absurd rfl hds.nonempty
    | cons d ds =>
      cases heq
      exact absurd (hds.digits '-' List.mem_cons_self) (by decide)
  · rfl

theorem exponent?_append {exponent : Option (Bool × List Char)}
    (hexponent : ∀ negative ds, exponent = some (negative, ds) → Digits ds)
    (hafter : EndsNumber after) :
    exponent? (exponentText exponent ++ after) = some (exponent, after) := by
  cases exponent with
  | none =>
    rw [exponentText, List.nil_append]
    cases after with
    | nil => rfl
    | cons c after =>
      obtain ⟨_, _, he, hE⟩ := hafter c rfl
      simp [exponent?, he, hE]
  | some exponent =>
    obtain ⟨negative, ds⟩ := exponent
    have hds := hexponent negative ds rfl
    have hsign : plusMinus ((if negative then '-' else '+') :: (ds ++ after)) =
        (negative, ds ++ after) := by
      cases negative with
      | true => rfl
      | false => rfl
    rw [exponentText, List.cons_append, List.cons_append, exponent?, hsign,
      digits_append hds.digits fun c hc => (hafter c hc).1]
    simp only [decide_true, Bool.true_or, if_true]
    split
    · next heq =>
      cases heq
      exact absurd rfl hds.nonempty
    · next heq =>
      cases heq
      rfl

theorem number?_text {n : Number} (hn : n.WellFormed) (hafter : EndsNumber after) :
    number? (n.text ++ after) = some (n, after) := by
  have hexponent (c : Char) (hc : (exponentText n.exponent ++ after).head? = some c) :
      c.isDigit = false ∧ c ≠ '.' := by
    cases hn : n.exponent with
    | none =>
      rw [hn] at hc
      obtain ⟨hdigit, hpoint, _⟩ := hafter c hc
      exact ⟨hdigit, hpoint⟩
    | some exponent =>
      rw [hn] at hc
      cases hc
      decide
  have hfraction (c : Char)
      (hc : (fractionText n.fraction ++ (exponentText n.exponent ++ after)).head? = some c) :
      c.isDigit = false := by
    cases hn : n.fraction with
    | none =>
      rw [hn] at hc
      exact (hexponent c hc).1
    | some fraction =>
      rw [hn] at hc
      cases hc
      decide
  have hminus : minus (n.text ++ after) = (n.negative,
      n.whole ++ (fractionText n.fraction ++ (exponentText n.exponent ++ after))) := by
    rw [Number.text, List.append_assoc, List.append_assoc, List.append_assoc]
    cases n.negative with
    | true => rfl
    | false =>
      apply minus_digits hn.whole
  unfold number?
  rw [hminus]
  simp only [whole?_append hn.whole hn.leading hfraction,
    fraction?_append hn.fraction hexponent, exponent?_append hn.exponent hafter]

theorem isSpace_of_startsNumber (hc : c = '-' ∨ c.isDigit = true) : isSpace c = false := by
  cases hspace : isSpace c with
  | false => rfl
  | true =>
    simp only [isSpace, Bool.or_eq_true, decide_eq_true_eq] at hspace
    obtain ((rfl | rfl) | rfl) | rfl := hspace <;> exact absurd hc (by decide)

/--
What starts with a minus sign or a digit can only be a number.
-/
theorem lex_number {n : Number} (hc : c = '-' ∨ c.isDigit = true)
    (h : number? (c :: cs) = some (n, after)) :
    lex (c :: cs) = (lex after).map (.number n :: ·) := by
  rw [lex, if_neg (by simp [isSpace_of_startsNumber hc])]
  · split
    · next heq =>
      rw [h] at heq
      cases heq
    · next heq =>
      rw [h] at heq
      cases heq
      rfl
  all_goals
    rintro rfl
    exact absurd hc (by decide)

theorem exists_start {n : Number} (hn : n.WellFormed) (after : List Char) :
    ∃ c cs, n.text ++ after = c :: cs ∧ (c = '-' ∨ c.isDigit = true) := by
  rw [Number.text]
  cases n.negative with
  | true => exact ⟨'-', _, rfl, .inl rfl⟩
  | false =>
    cases hwhole : n.whole with
    | nil => exact absurd hwhole hn.whole.nonempty
    | cons d ds =>
      have hd := hn.whole.digits d (by simp [hwhole])
      exact ⟨d, _, rfl, .inr hd⟩

theorem lex_text {n : Number} (hn : n.WellFormed) (hafter : EndsNumber after) :
    lex (n.text ++ after) = (lex after).map (.number n :: ·) := by
  have hnumber := number?_text hn hafter
  obtain ⟨c, cs, htext, hc⟩ := exists_start hn after
  rw [htext] at hnumber ⊢
  exact lex_number hc hnumber

theorem lex_null (after : List Char) :
    lex ("null".toList ++ after) = (lex after).map (.null :: ·) := by
  have hspace : isSpace 'n' = false := rfl
  rw [show "null".toList ++ after = 'n' :: 'u' :: 'l' :: 'l' :: after from rfl, lex, hspace]
  rfl

theorem lex_true (after : List Char) :
    lex ("true".toList ++ after) = (lex after).map (.bool true :: ·) := by
  have hspace : isSpace 't' = false := rfl
  rw [show "true".toList ++ after = 't' :: 'r' :: 'u' :: 'e' :: after from rfl, lex, hspace]
  rfl

theorem lex_false (after : List Char) :
    lex ("false".toList ++ after) = (lex after).map (.bool false :: ·) := by
  have hspace : isSpace 'f' = false := rfl
  rw [show "false".toList ++ after = 'f' :: 'a' :: 'l' :: 's' :: 'e' :: after from rfl, lex, hspace]
  rfl

/--
A character that stands for itself in a string.
-/
def Plain (c : Char) : Prop :=
  c ≠ '"' ∧ c ≠ '\\' ∧ 0x20 ≤ c.toNat

instance : DecidablePred Plain := fun _ => inferInstanceAs (Decidable (_ ∧ _))

theorem string?_plain {name : List Char} (hname : ∀ c ∈ name, Plain c) (after : List Char) :
    string? (name ++ '"' :: after) = some (name.map .char, after) := by
  induction name with
  | nil => simp [string?]
  | cons c name ih =>
    obtain ⟨hquote, hslash, hcontrol⟩ := hname c List.mem_cons_self
    have hrest := ih fun c hc => hname c (List.mem_cons_of_mem _ hc)
    rw [List.cons_append, string?]
    · rw [if_neg (by simp [hslash, hcontrol]), hrest]
      rfl
    · exact hquote
    · intro _ _ _ _ _ hc
      exact absurd hc hslash
    · intro _ _ hc
      exact absurd hc hslash

theorem lex_string {name : List Char} (hname : ∀ c ∈ name, Plain c) (after : List Char) :
    lex ('"' :: (name ++ '"' :: after)) = (lex after).map (.string (name.map .char) :: ·) := by
  have hspace : isSpace '"' = false := rfl
  rw [lex, hspace]
  simp only [Bool.false_eq_true, if_false]
  split
  · next heq =>
    rw [string?_plain hname] at heq
    cases heq
  · next heq =>
    rw [string?_plain hname] at heq
    cases heq
    rfl

theorem lex_punctuation (c : Char) (token : Token) (after : List Char)
    (h : (c, token) ∈ [('\x7b', Token.openObject), ('\x7d', .closeObject), (':', .colon),
      (',', .comma)]) :
    lex (c :: after) = (lex after).map (token :: ·) := by
  simp only [List.mem_cons, Prod.mk.injEq, List.not_mem_nil, or_false] at h
  obtain ⟨rfl, rfl⟩ | ⟨rfl, rfl⟩ | ⟨rfl, rfl⟩ | ⟨rfl, rfl⟩ := h
  all_goals
    rw [lex, if_neg (by decide)]

end Token

theorem StringPart.decode?_plain (name : List Char) : decode? (name.map .char) = some name := by
  induction name with
  | nil => rfl
  | cons c name ih =>
    rw [List.map_cons, decode?, ih]
    rfl

namespace Value

open Token (lex EndsNumber Plain)

variable {expect expect' : Expect} {frames frames' : List Frame} {token : Token} {name : List Char}
  {v : Value} {members : List (List StringPart × Value)}

/--
Read the value that the rest of a text completes.
-/
def readFrom (expect : Expect) (frames : List Frame) (cs : List Char) : Option Value :=
  (lex cs).bind (readTokens expect frames)

theorem read?_eq (text : String) : read? text = readFrom .value [] text.toList := rfl

theorem readFrom_token (hlex : lex cs = (lex after).map (token :: ·))
    (hstep : step expect frames token = some (expect', frames')) :
    readFrom expect frames cs = readFrom expect' frames' after := by
  unfold readFrom
  rw [hlex]
  cases lex after with
  | none => rfl
  | some tokens =>
    rw [Option.map_some, Option.bind_some, readTokens, hstep]
    rfl

theorem readFrom_after (v : Value) : readFrom (.after v) [] [] = some v := by
  simp [readFrom, lex, readTokens]

/--
A value that is written as one token.
-/
structure Scalar (text : List Char) (v : Value) : Prop where
  exists_token : ∃ token, (∀ frames, start frames token = some (.after v, frames)) ∧
    ∀ after, EndsNumber after → lex (text ++ after) = (lex after).map (token :: ·)

theorem readFrom_scalar {text : List Char} (h : Scalar text v) :
    readFrom .value [] text = some v := by
  obtain ⟨token, hstart, hlex⟩ := h.exists_token
  have hlex := hlex [] (by simp [EndsNumber])
  have hvalue : step .value [] token = some (.after v, []) := hstart []
  rw [List.append_nil] at hlex
  rw [readFrom_token hlex hvalue, readFrom_after]

theorem scalar_number {n : Number} (hn : n.WellFormed) : Scalar n.text (.number n) :=
  ⟨.number n, fun _ => rfl, fun _ => Token.lex_text hn⟩

theorem scalar_null : Scalar "null".toList .null :=
  ⟨.null, fun _ => rfl, fun after _ => Token.lex_null after⟩

theorem scalar_true : Scalar "true".toList (.bool true) :=
  ⟨.bool true, fun _ => rfl, fun after _ => Token.lex_true after⟩

theorem scalar_false : Scalar "false".toList (.bool false) :=
  ⟨.bool false, fun _ => rfl, fun after _ => Token.lex_false after⟩

/--
A member of an object, with the text of its value.
-/
structure Entry where
  name : List Char
  text : List Char
  value : Value

namespace Entry

structure Valid (e : Entry) : Prop where
  name : ∀ c ∈ e.name, Plain c
  value : Scalar e.text e.value

def print (e : Entry) : List Char :=
  '"' :: (e.name ++ '"' :: ':' :: e.text)

def member (e : Entry) : List StringPart × Value :=
  (e.name.map .char, e.value)

end Entry

theorem readFrom_entry {e : Entry} (he : e.Valid) (hafter : EndsNumber after)
    (hstep : step expect [] (.string (e.name.map .char)) =
      some (.colon members (e.name.map .char), [])) :
    readFrom expect [] (e.print ++ after) =
      readFrom (.after e.value) [.object members (e.name.map .char)] after := by
  obtain ⟨token, hstart, hlex⟩ := he.value.exists_token
  have hprint : e.print ++ after = '"' :: (e.name ++ '"' :: ':' :: (e.text ++ after)) := by
    simp [Entry.print]
  have hcolon := Token.lex_punctuation ':' .colon (e.text ++ after) (by simp)
  have hvalue : step .value [.object members (e.name.map .char)] token =
      some (.after e.value, [.object members (e.name.map .char)]) := hstart _
  rw [hprint, readFrom_token (Token.lex_string he.name _) hstep, readFrom_token hcolon rfl,
    readFrom_token (hlex after hafter) hvalue]

def restText (entries : List Entry) : List Char :=
  entries.flatMap (fun e => ',' :: e.print) ++ ['\x7d']

theorem endsNumber_restText (entries : List Entry) : EndsNumber (restText entries) := by
  intro c hc
  cases entries with
  | nil =>
    cases hc
    decide
  | cons e entries =>
    cases hc
    decide

/--
The members that follow the first one are read up to the end of the object.
-/
theorem readFrom_restText (entries : List Entry) (h : ∀ e ∈ entries, e.Valid)
    (name : List StringPart) :
    readFrom (.after v) [.object members name] (restText entries) =
      some (.object (((name, v) :: members).reverse ++ entries.map Entry.member)) := by
  induction entries generalizing members name v with
  | nil =>
    have hclose := Token.lex_punctuation '\x7d' .closeObject [] (by simp)
    rw [restText, List.flatMap_nil, List.nil_append, readFrom_token hclose rfl, readFrom_after]
    simp
  | cons e entries ih =>
    have hrest : restText (e :: entries) = ',' :: (e.print ++ restText entries) := by
      simp [restText]
    have hcomma := Token.lex_punctuation ',' .comma (e.print ++ restText entries) (by simp)
    rw [hrest, readFrom_token hcomma rfl,
      readFrom_entry (h e List.mem_cons_self) (endsNumber_restText entries) rfl,
      ih fun f hf => h f (List.mem_cons_of_mem e hf)]
    simp [Entry.member]

/--
An object without blanks.
-/
def objectText (entries : List Entry) : List Char :=
  '\x7b' :: ([','].intercalate (entries.map Entry.print) ++ ['\x7d'])

theorem objectText_cons (e : Entry) (entries : List Entry) :
    objectText (e :: entries) = '\x7b' :: (e.print ++ restText entries) := by
  have hintercalate : [','].intercalate ((e :: entries).map Entry.print) =
      e.print ++ entries.flatMap (fun e => ',' :: e.print) := by
    induction entries generalizing e with
    | nil => simp
    | cons f entries ih =>
      rw [List.map_cons, List.map_cons, List.intercalate_cons_cons, ← List.map_cons, ih]
      simp
  rw [objectText, hintercalate, restText, List.append_assoc]

theorem readFrom_objectText (entries : List Entry) (h : ∀ e ∈ entries, e.Valid) :
    readFrom .value [] (objectText entries) = some (.object (entries.map Entry.member)) := by
  cases entries with
  | nil =>
    have hopen := Token.lex_punctuation '\x7b' .openObject ['\x7d'] (by simp)
    have hclose := Token.lex_punctuation '\x7d' .closeObject [] (by simp)
    exact (readFrom_token hopen rfl).trans ((readFrom_token hclose rfl).trans (readFrom_after _))
  | cons e entries =>
    have hopen := Token.lex_punctuation '\x7b' .openObject (e.print ++ restText entries)
      (by simp)
    rw [objectText_cons, readFrom_token hopen rfl,
      readFrom_entry (h e List.mem_cons_self) (endsNumber_restText entries) rfl,
      readFrom_restText entries fun f hf => h f (List.mem_cons_of_mem e hf)]
    rfl

end Value

end GramIndex.Json
