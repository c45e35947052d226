import GramIndex.Tally
import Mathlib.Data.List.Nodup

/-!
This module contains counters that several workers add to at the same time. They stand behind one
lock, which a worker takes for reading to add to a counter that is there, and for writing to insert
one that is not. What is done under the lock at one time is one step, so that other workers may come
in between the two.
-/

namespace GramIndex

/--
Counters of 32 bits, one for each gram that was seen, in no order.
-/
structure Counters where
  entries : List (Gram × UInt32)
  nodup : (entries.map Prod.fst).Nodup

namespace Counters

def empty : Counters :=
  ⟨[], List.nodup_nil⟩

def grams (c : Counters) : List Gram :=
  c.entries.map Prod.fst

def bumpEntry (gram : Gram) (entry : Gram × UInt32) : Gram × UInt32 :=
  if entry.1 = gram then (entry.1, entry.2 + 1) else entry

theorem map_fst_bumpEntry (gram : Gram) (entries : List (Gram × UInt32)) :
    (entries.map (bumpEntry gram)).map Prod.fst = entries.map Prod.fst := by
  rw [List.map_map]
  apply List.map_congr_left
  intro entry _
  simp only [Function.comp_apply, bumpEntry]
  split
  · rfl
  · rfl

/--
Add one to the counter of a gram. As any sum of 32 bits it starts at zero again after the last one.
-/
def add (c : Counters) (gram : Gram) : Counters where
  entries := c.entries.map (bumpEntry gram)
  nodup := by
    rw [map_fst_bumpEntry]
    exact c.nodup

/--
A new counter for a gram that has none.
-/
def insert (c : Counters) (gram : Gram) (hnew : gram ∉ c.grams) : Counters where
  entries := c.entries ++ [(gram, 1)]
  nodup := by
    rw [List.map_append, List.map_singleton, ← List.concat_eq_append]
    exact c.nodup.concat hnew

/--
What is done under the lock for reading: add to the counter of a gram if there is one.
-/
def probe? (c : Counters) (gram : Gram) : Option Counters :=
  if c.grams.contains gram then some (c.add gram) else none

/--
What is done under the lock for writing. Another worker may have inserted the counter in between.
-/
def settle (c : Counters) (gram : Gram) : Counters :=
  if h : c.grams.contains gram then
    c.add gram
  else
    c.insert gram fun hmem => h (List.contains_iff_mem.2 hmem)

/--
Count a gram once, with nobody else in between.
-/
def increment (c : Counters) (gram : Gram) : Counters :=
  (c.probe? gram).getD (c.settle gram)

/--
Count every gram of a list, one after the other.
-/
def incrementAll (c : Counters) (grams : List Gram) : Counters :=
  grams.foldl increment c

/--
The counters in byte order of their grams.
-/
def intoSorted (c : Counters) : List (Gram × UInt32) :=
  c.entries.mergeSort fun a b => a.1 ≤ b.1

end Counters

/--
A worker that counts grams.
-/
inductive Worker where
  /-- Before the first of the grams that are left. -/
  | ready (left : List Gram)
  /-- The counter of a gram was looked for under the lock for reading, and was not there. -/
  | missed (gram : Gram) (left : List Gram)
  deriving DecidableEq, Repr

namespace Worker

/--
The grams that are not counted yet.
-/
def left : Worker → List Gram
  | .ready left => left
  | .missed gram left => gram :: left

/--
What a worker does the next time that it has the lock, unless it is done.
-/
def step (c : Counters) : Worker → Option (Counters × Worker)
  | .ready [] => none
  | .ready (gram :: left) =>
    match c.probe? gram with
    | some c => some (c, .ready left)
    | none => some (c, .missed gram left)
  | .missed gram left => some (c.settle gram, .ready left)

end Worker

/--
Counters with the workers that count into them.
-/
structure Counting where
  counters : Counters
  workers : List Worker

namespace Counting

/--
A worker for each list of grams, and nothing counted yet.
-/
def start (queues : List (List Gram)) : Counting :=
  ⟨.empty, queues.map .ready⟩

/--
The worker number `i` takes its next step, if it has one.
-/
def step (s : Counting) (i : Nat) : Option Counting := do
  let (counters, worker) ← (← s.workers[i]?).step s.counters
  return ⟨counters, s.workers.set i worker⟩

/--
Workers take steps in the given order.
-/
def run (s : Counting) : List Nat → Option Counting
  | [] => some s
  | i :: order => (s.step i).bind fun s => s.run order

/--
No worker has a gram left.
-/
def Done (s : Counting) : Prop :=
  ∀ worker ∈ s.workers, worker.left = []

end Counting

end GramIndex
