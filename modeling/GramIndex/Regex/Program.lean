import GramIndex.Regex.ByteRanges
import GramIndex.Regex.Reduced
import Std.Data.HashMap

/-!
This module contains the size of the program that is run to search for a regular expression. A
program is a graph of states, which read texts byte by byte. There is one to search forward and one
to search backward, and each of them must fit a limit. Only what takes space is kept here: how many
states there are and how long the lists in them are.
-/

namespace GramIndex.Regex

structure Builder where
  /-- The greatest size of the program in bytes. -/
  limit : Nat
  backward : Bool
  states : Nat
  /-- The bytes of the lists in states. -/
  listed : Nat

/--
A step of building, which fails if the program grows too large.
-/
abbrev Build := StateT Builder Option

namespace Builder

/--
The bytes of a state without its lists.
-/
def stateSize : Nat := 32

/--
The bytes that a list of states takes for each of them.
-/
def branchSize : Nat := 4

/--
The bytes that a list of byte ranges takes for each of them.
-/
def rangeSize : Nat := 8

def start (limit : Nat) (backward : Bool) : Builder :=
  ⟨limit, backward, 0, 0⟩

def size (b : Builder) : Nat :=
  stateSize * b.states + b.listed

def grow (bytes : Nat) : Build Unit := fun b =>
  let b := { b with listed := b.listed + bytes }
  if b.size ≤ b.limit then some ((), b) else none

/--
Add a state with lists of the given length in bytes. States are numbered in the order in which they
are added.
-/
def addState (bytes : Nat) : Build Nat := fun b =>
  let next := { b with states := b.states + 1, listed := b.listed + bytes }
  if next.size ≤ next.limit then some (b.states, next) else none

def addPlain : Build Unit := do
  let _ ← addState 0

/--
Link the last state of a part to another one, which takes space if it is a branch.
-/
def link (isBranch : Bool) : Build Unit :=
  if isBranch then grow branchSize else pure ()

end Builder

open Builder

/--
The states of a part that can be used once more. Each has the numbers that describe it as its key,
and a slot that the key decides. Of two states with one slot the last one is kept.
-/
structure SharedStates where
  slots : Nat
  states : Std.HashMap Nat (List Nat × Nat)

namespace SharedStates

def slot (shared : SharedStates) (key : List Nat) : Nat :=
  let hash : UInt64 := key.foldl (fun hash n => (hash ^^^ n.toUInt64) * 1099511628211)
    14695981039346656037
  hash.toNat % shared.slots

/--
The state for a key. Adds one with lists of the given length if there is none.
-/
def state (key : List Nat) (bytes : Nat) : StateT SharedStates Build Nat := fun shared => do
  let slot := shared.slot key
  match shared.states[slot]? with
  | some (other, state) => if other = key then return (state, shared)
  | none => pure ()
  let state ← addState bytes
  return (state, { shared with states := shared.states.insert slot (key, state) })

end SharedStates

/--
A state for the next byte of several sequences of byte ranges.
-/
structure ByteNode where
  /-- The ranges that are complete, each with the state after it, last first. -/
  edges : List (Nat × Nat × Nat)
  /-- The range of the sequence that was added last. -/
  current : Option (Nat × Nat)

namespace ByteNode

def close (node : ByteNode) (next : Nat) : List (Nat × Nat × Nat) :=
  match node.current with
  | some (first, last) => (first, last, next) :: node.edges
  | none => node.edges

/--
Add the states for nodes that follow each other, the last one first. Returns the first state.
-/
def freeze (target : Nat) : List ByteNode → StateT SharedStates Build Nat
  | [] => return target
  | node :: deeper => do
    let next ← freeze target deeper
    let edges := (node.close next).reverse
    SharedStates.state (edges.flatMap fun (first, last, next) => [first, last, next])
      (rangeSize * edges.length)

/--
Add a sequence, which is greater than all that were added before it. `nodes` are those of the
sequence before it.
-/
def add (target : Nat) : List ByteNode → ByteRanges → StateT SharedStates Build (List ByteNode)
  | node :: deeper, range :: ranges =>
    if node.current = some range then
      return node :: (← add target deeper ranges)
    else do
      let next ← freeze target deeper
      return ⟨node.close next, some range⟩ :: ranges.map fun range => ⟨[], some range⟩
  | nodes, _ => return nodes

end ByteNode

namespace Builder

/--
States for sequences of byte ranges read forward. Equal ends of sequences share states.
-/
def sequencesForward (sequences : List ByteRanges) : StateT SharedStates Build Unit := do
  let target ← addState 0
  let nodes ← sequences.foldlM (ByteNode.add target) [⟨[], none⟩]
  let _ ← ByteNode.freeze target nodes

/--
States for one sequence of byte ranges, the last one read first.
-/
def sequenceBackward (next : Nat) : ByteRanges → StateT SharedStates Build Unit
  | [] => pure ()
  | (first, last) :: ranges => do
    sequenceBackward (← SharedStates.state [next, first, last] 0) ranges

/--
States for sequences of byte ranges read backward. Equal starts of sequences share states.
-/
def sequencesBackward (sequences : List ByteRanges) : StateT SharedStates Build Unit := do
  let _ ← addState 0
  let target ← addState 0
  for ranges in sequences do
    sequenceBackward target ranges
    grow branchSize

def addSet (s : Switches) : Build Unit := do
  if s.isAscii then
    addPlain
    let _ ← addState (rangeSize * s.intervals.length)
  else if (← get).backward then
    let _ ← (sequencesBackward s.byteRanges).run ⟨1000, ∅⟩
  else
    let _ ← (sequencesForward s.byteRanges).run ⟨10000, ∅⟩

/--
States for a choice between byte strings, of which those with the same first byte share a state for
it. No byte string is longer than `length`. A byte string that is empty stands between those that
are preferred to it and the others.
-/
def addWords : Nat → List Gram → Build Unit
  | 0, _ => pure ()
  | length + 1, words => do
    let ends := (words.dropWhile List.isEmpty).countP List.isEmpty
    let mut branches := if words.head?.any List.isEmpty then ends + 1 else ends
    for words in words.splitBy fun v w => !v.isEmpty && !w.isEmpty do
      let first := (words.filterMap List.head?).eraseDups
      for b in first do
        addWords length (words.filterMap fun
          | c :: rest => if c = b then some rest else none
          | [] => none)
      unless first.isEmpty do
        let _ ← addState (if first.length = 1 then 0 else rangeSize * first.length)
        branches := branches + 1
    unless branches = 1 do
      let _ ← addState (branchSize * branches)

/--
A part several times in a row. Returns whether its last state is a branch.
-/
def times (part : Build Bool) : Nat → Build Bool
  | 0 => do
    addPlain
    return false
  | 1 => part
  | n + 2 => do
    link (← part)
    times part (n + 1)

/--
A part up to so many times more, each time with a branch before it that leaves.
-/
def upTo (part : Build Bool) (isBranch : Bool) : Nat → Build Unit
  | 0 => link isBranch
  | n + 1 => do
    addPlain
    let last ← part
    link isBranch
    grow (2 * branchSize)
    upTo part last n

/--
A repetition. Returns whether its last state is a branch.
-/
def repeated (part : Build Bool) (consumes : Bool) : Nat → Option Nat → Build Bool
  | least, some 0 => times part least
  | 0, some 1 => do
    addPlain
    link (← part)
    addPlain
    grow (2 * branchSize)
    return false
  | least, some extra => do
    let last ← times part least
    addPlain
    upTo part last extra
    return false
  | 0, none => do
    if consumes then
      addPlain
      link (← part)
      grow branchSize
    else
      link (← part)
      addPlain
      addPlain
      addPlain
      grow (4 * branchSize)
    return consumes
  | least + 1, none => do
    link (← times part (least + 1))
    addPlain
    grow branchSize
    return true

mutual

/--
Add the states for an expression. Returns whether the last one is a branch.
-/
def add : Reduced → Build Bool
  | .empty => do
    addPlain
    return false
  | .literal cs => times (do addPlain; return false) (utf8 cs).length
  | .set s => do
    addSet s
    return false
  | .look _ => do
    addPlain
    return false
  | .repeated r least extra _ => repeated (add r) (r.minLength.any (0 < ·)) least extra
  | .capture r => do
    if (← get).backward then
      add r
    else
      addPlain
      link (← add r)
      addPlain
      return false
  | .seq rs => addSeq rs
  | .alt rs => do
    if rs.all Reduced.isLiteral then
      addPlain
      let words := rs.filterMap Reduced.bytes?
      let words := if (← get).backward then words.map List.reverse else words
      addWords ((words.map List.length).foldl max 0) words
    else
      addAlternatives 0 rs
    return false

def addSeq : List Reduced → Build Bool
  | [] => return false
  | [r] => add r
  | r :: rs => do
    if (← get).backward then
      link (← addSeq rs)
      add r
    else
      link (← add r)
      addSeq rs

/--
Add the states for alternatives. The states around them come after the second one.
-/
def addAlternatives (count : Nat) : List Reduced → Build Unit
  | [] => pure ()
  | r :: rs => do
    let last ← add r
    if count = 1 then
      addPlain
      addPlain
    link last
    grow branchSize
    addAlternatives (count + 1) rs

end

/--
Add the states of a whole program. A search that may start anywhere has a loop in front.
-/
def addProgram (r : Reduced) : Build Unit := do
  let backward := (← get).backward
  if r.demands (if backward then .textEnd else .textStart) backward then
    addPlain
  else
    addPlain
    addPlain
    let _ ← addState rangeSize
    grow (2 * branchSize)
  link (← add (.capture r))
  addPlain

end Builder

namespace Reduced

/--
Whether the programs for an expression are no larger than the limit.
-/
def fits (r : Reduced) (limit : Nat) : Bool :=
  ((addProgram r).run (.start limit false)).isSome &&
    ((addProgram r).run (.start limit true)).isSome

end Reduced

end GramIndex.Regex
