import GramIndex.Pattern.Compiler

/-!
This module contains the compilation of patterns by positions: scanners move a position over the
bytes, open brackets are counted up and down, and spans are cut out between two positions. Whatever
such a compilation relies on but does not look at is checked here, and a fault where it fails.
-/

namespace GramIndex.Pattern.Cursor

/--
What must not happen, whatever the bytes are.
-/
inductive Fault where
  /-- A span does not begin before its end, or does not end before the bytes do. -/
  | span (start stop : Nat)
  /-- There is no open bracket to count down. -/
  | depth
  /-- A round of a loop begins behind the last byte and is not the last one, or does not move on. -/
  | stuck (pos : Nat)
  /-- The plan of a span asks for that of a span that is not shorter. -/
  | notShorter (span : Gram)
  deriving DecidableEq, Repr

/--
The bytes from `start` up to but not including `stop`.
-/
def cut (bytes : Gram) (start stop : Nat) : Except Fault Gram :=
  if start ≤ stop ∧ stop ≤ bytes.length then
    .ok (bytes.extract start stop)
  else
    .error (.span start stop)

def countDown : Nat → Except Fault Nat
  | 0 => .error .depth
  | depth + 1 => .ok depth

/--
What a round of a loop comes to.
-/
inductive Round (σ α : Type) where
  | next (pos : Nat) (state : σ)
  | done (result : α)

section Loops

variable {σ α : Type}

/--
Do rounds over the positions below `stop` until one of them is done.
-/
def loop (stop : Nat) (round : Nat → σ → Except Fault (Round σ α)) (pos : Nat) (state : σ) :
    Except Fault α :=
  match round pos state with
  | .error fault => .error fault
  | .ok (.done result) => .ok result
  | .ok (.next pos' state') =>
    if _h : pos < pos' ∧ pos < stop then
      loop stop round pos' state'
    else
      .error (.stuck pos)
termination_by stop - pos

/--
The position after what an opening bracket may have next to it: a caret, and a closing bracket that
stands for itself.
-/
def afterHead (bytes : Gram) (pos : Nat) : Nat :=
  let pos := if bytes[pos]? = some (byte '^') then pos + 1 else pos
  if bytes[pos]? = some (byte ']') then pos + 1 else pos

/--
The position after the class that opens at `start`, or the end of the bytes if it is never closed.
-/
def skipClass (bytes : Gram) (start : Nat) : Except Fault Nat :=
  loop bytes.length round start 0
where
  /-- `depth` counts the classes that are open. -/
  round (pos depth : Nat) : Except Fault (Round Nat Nat) :=
    match bytes[pos]? with
    | none => .ok (.done bytes.length)
    | some b =>
      if b = byte '[' then
        .ok (.next (afterHead bytes (pos + 1)) (depth + 1))
      else if b = byte '\\' then
        .ok (.next (pos + 2) depth)
      else if b = byte ']' then do
        match ← countDown depth with
        | 0 => return .done (pos + 1)
        | depth => return .next (pos + 1) depth
      else
        .ok (.next (pos + 1) depth)

/--
Visit the bytes outside of escapes and classes from `pos` on, each with its position, until a visit
gives a result.
-/
def walk (bytes : Gram) (visit : Nat → UInt8 → σ → Except Fault (σ ⊕ α)) (finish : σ → α)
    (pos : Nat) (state : σ) : Except Fault α :=
  loop bytes.length round pos state
where
  round (pos : Nat) (state : σ) : Except Fault (Round σ α) :=
    match bytes[pos]? with
    | none => .ok (.done (finish state))
    | some b =>
      if b = byte '\\' then
        .ok (.next (pos + 2) state)
      else if b = byte '[' then do
        return .next (← skipClass bytes pos) state
      else do
        match ← visit pos b state with
        | .inl state => return .next (pos + 1) state
        | .inr result => return .done result

end Loops

/--
The positions of the bars that stand inside no group.
-/
def topLevelBars (bytes : Gram) : Except Fault (List Nat) :=
  walk bytes visit Prod.snd 0 (0, [])
where
  visit (pos : Nat) (b : UInt8) : Nat × List Nat → Except Fault (Nat × List Nat ⊕ List Nat)
    | (depth, bars) =>
      if b = byte '(' then .ok (.inl (depth + 1, bars))
      else if b = byte ')' then .ok (.inl (depth - 1, bars))
      else if b = byte '|' ∧ depth = 0 then .ok (.inl (depth, bars ++ [pos]))
      else .ok (.inl (depth, bars))

/--
The position of the first opening parenthesis from `pos` on.
-/
def nextOpen (bytes : Gram) (pos : Nat) : Except Fault (Option Nat) :=
  walk bytes (fun pos b () => .ok (if b = byte '(' then .inr (some pos) else .inl ()))
    (fun () => none) pos ()

/--
The position of the parenthesis that closes the group opened at `opening`.
-/
def matchingParen (bytes : Gram) (opening : Nat) : Except Fault (Option Nat) :=
  walk bytes visit (fun _ => none) opening 0
where
  visit (pos : Nat) (b : UInt8) (depth : Nat) : Except Fault (Nat ⊕ Option Nat) :=
    if b = byte '(' then
      .ok (.inl (depth + 1))
    else if b = byte ')' then do
      match ← countDown depth with
      | 0 => return .inr (some pos)
      | depth => return .inl depth
    else
      .ok (.inl depth)

/--
Whether a pattern sets flags outside the head of a group.
-/
def hasInlineFlags (bytes : Gram) : Except Fault Bool :=
  walk bytes visit (fun () => false) 0 ()
where
  visit (pos : Nat) (b : UInt8) : Unit → Except Fault (Unit ⊕ Bool)
    | () =>
      if b = byte '(' ∧ bytes[pos + 1]? = some (byte '?') then do
        let behind ← cut bytes (pos + 2) bytes.length
        let flags := (behind.takeWhile opensFlags.isFlag).length
        if 0 < flags ∧ bytes[pos + 2 + flags]? = some (byte ')') then
          return .inr true
        else
          return .inl ()
      else
        .ok (.inl ())

/--
Read the quantifiers from `pos` on: whether the group before them must occur, and the position after
the last one.
-/
def groupQuantifier (bytes : Gram) (pos : Nat) : Except Fault (Bool × Nat) :=
  loop bytes.length round pos (true, false)
where
  round (pos : Nat) : Bool × Bool → Except Fault (Round (Bool × Bool) (Bool × Nat))
    | (required, lazy) =>
      match bytes[pos]? with
      | none => .ok (.done (required, pos))
      | some b =>
        if b = byte '?' && lazy then
          .ok (.next (pos + 1) (required, false))
        else if b = byte '*' || b = byte '?' then
          .ok (.next (pos + 1) (false, true))
        else if b = byte '+' then
          .ok (.next (pos + 1) (required, true))
        else if b = byte '\x7b' then do
          match (← cut bytes pos bytes.length).findIdx? (· = byte '\x7d') with
          | none => return .done (required, pos)
          | some offset =>
            let bounds ← cut bytes (pos + 1) (pos + offset)
            return .next (pos + offset + 1) (required && atLeastOnce bounds, true)
        else
          .ok (.done (required, pos))

/--
The part of a group that is a pattern of its own.
-/
def groupBody? (inside : Gram) : Except Fault (Option Gram) :=
  match inside with
  | [] => .ok (some [])
  | b :: rest =>
    if b ≠ byte '?' then
      .ok (some inside)
    else
      match rest with
      | [] => .ok none
      | c :: rest =>
        if c = byte ':' then
          .ok (some rest)
        else if c = byte '<' then
          named rest
        else if c = byte 'P' && rest.head? = some (byte '<') then
          named (rest.drop 1)
        else
          .ok none
where
  named (bytes : Gram) : Except Fault (Option Gram) :=
    if bytes.head? = some (byte '=') || bytes.head? = some (byte '!') then
      .ok none
    else
      match bytes.findIdx? (· = byte '>') with
      | none => .ok none
      | some stop => do return some (← cut bytes (stop + 1) bytes.length)

section Plans

variable (c : Compiler) (planOf : Gram → Except Fault (Plan Gram))

/--
The plan of a pattern without bars, by the plans of the bodies of its groups.
-/
def concatenation (span : Gram) : Except Fault (Plan Gram) := do
  return .all (← loop span.length round 0 [])
where
  /-- The operands from the next group on, after those of what is before `start`. -/
  round (start : Nat) (operands : List (Plan Gram)) :
      Except Fault (Round (List (Plan Gram)) (List (Plan Gram))) := do
    match ← nextOpen span start with
    | none => return .done (operands ++ (← leaf start span.length))
    | some opening =>
      let before ← leaf start opening
      match ← matchingParen span opening with
      | none => return .done (operands ++ before ++ (← leaf opening span.length))
      | some close =>
        let (required, stop) ← groupQuantifier span (close + 1)
        let operand ← if required then group (opening + 1) close else .ok .null
        return .next stop (operands ++ before ++ [operand])
  /-- The operand of what is between two positions, if anything is. -/
  leaf (start stop : Nat) : Except Fault (List (Plan Gram)) :=
    if start < stop then do
      return [c.leaf (← cut span start stop)]
    else
      .ok []
  /-- The plan of the group whose inside is between two positions. -/
  group (start stop : Nat) : Except Fault (Plan Gram) := do
    match ← groupBody? (← cut span start stop) with
    | none => return .null
    | some body => planOf body

/--
The spans between the given positions, from `start` on.
-/
def between (span : Gram) (start : Nat) : List Nat → Except Fault (List Gram)
  | [] => do return [← cut span start span.length]
  | bar :: bars => do
    let first ← cut span start bar
    return first :: (← between span (bar + 1) bars)

/--
The plan of a span, by the plans of its alternatives or of the bodies of its groups.
-/
def spanPlan (span : Gram) : Except Fault (Plan Gram) :=
  if span.isEmpty then
    .ok .null
  else do
    match ← topLevelBars span with
    | [] => concatenation c planOf span
    | bars => return .any (← (← between span 0 bars).mapM planOf)

end Plans

def compileSpan (c : Compiler) (span : Gram) : Except Fault (Plan Gram) :=
  spanPlan c (fun inner =>
    if _h : inner.length < span.length then
      compileSpan c inner
    else
      .error (.notShorter inner)) span
termination_by span.length

/--
The plan of the bytes of a pattern.
-/
def compile (c : Compiler) (bytes : Gram) : Except Fault (Plan Gram) := do
  if ← hasInlineFlags bytes then return .null else compileSpan c bytes

end GramIndex.Pattern.Cursor
