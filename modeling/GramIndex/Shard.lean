import GramIndex.Config.Error

/-!
This module contains the static division of work: `shards` cuts `0 .. len` into contiguous ranges of
nearly equal length, `shardRanges` does so after it has asked for the room that they take, and a
`Pool` runs a job on each of them.
-/

namespace GramIndex

/--
The indices from `start` up to but not including `stop`.
-/
structure Shard where
  start : Nat
  stop : Nat
  deriving DecidableEq, Repr

namespace Shard

def size (s : Shard) : Nat :=
  s.stop - s.start

/--
The items of a list whose positions lie in the shard.
-/
def slice (s : Shard) (items : List α) : List α :=
  (items.drop s.start).take s.size

end Shard

/--
How many ranges `len` items are cut into when `wanted` are asked for: at least one, and no more than
there are items.
-/
def shardCount (len wanted : Nat) : Nat :=
  min (max wanted 1) (max len 1)

/--
Cut `len` items into at most `wanted` contiguous ranges, none of them empty unless `len` is zero.
The first `len % shardCount len wanted` ranges get one extra item.
-/
def shards (len wanted : Nat) : List Shard :=
  go (shardCount len wanted) 0 (len % shardCount len wanted)
where
  /-- The next `count` ranges from `start` on, of which `extra` are one item longer. -/
  go (count start extra : Nat) : List Shard :=
    match count with
    | 0 => []
    | count + 1 =>
      let stop := start + len / shardCount len wanted + (if 0 < extra then 1 else 0)
      ⟨start, stop⟩ :: go count stop (extra - 1)

/--
Why there are no shards.
-/
inductive ShardError where
  /-- The shards take more bytes than one allocation may have. -/
  | capacityOverflow
  deriving DecidableEq, Repr

def ShardError.message : ShardError → String
  | .capacityOverflow => "capacity overflow"

/--
The number of bytes that a shard takes, which is two positions of 64 bits.
-/
def Shard.width : Nat :=
  16

/--
The largest number of bytes of one allocation.
-/
def maxAllocation : Nat :=
  0x7fffffffffffffff

/--
The shards of `0 .. len`. The room for all of them is asked for before the first one is made.
Whether the machine has so much memory is left out: the allocator ends the program where it has not.
-/
def shardRanges (len wanted : Nat) : Except ShardError (List Shard) :=
  if shardCount len wanted * Shard.width ≤ maxAllocation then
    .ok (shards len wanted)
  else
    .error .capacityOverflow

/--
The slots of the shards after the runs of `job` on the shards numbered `finished`, which ended in
that order: a run puts what it gives into the slot of its shard.
-/
def collect (ranges : List Shard) (job : Shard → α) (finished : List Nat) : List (Option α) :=
  finished.foldl (fun slots i => slots.set i (ranges[i]?.map job))
    (List.replicate ranges.length none)

/--
A fixed number of workers, at least one.
-/
structure Pool where
  threads : Nat
  threads_pos : 0 < threads

namespace Pool

def ofThreads? (threads : Nat) : Except ConfigError Pool :=
  if h : 0 < threads then
    .ok ⟨threads, h⟩
  else
    .error .noThreads

/--
Run `job` once per shard of `0 .. len`, where the runs end in the order `finished`.
-/
def runShards (pool : Pool) (len : Nat) (job : Shard → α) (finished : List Nat) :
    Except ShardError (List (Option α)) := do
  let ranges ← shardRanges len pool.threads
  return collect ranges job finished

/--
What `runShards` gives when all runs have ended, in shard order. It is for a `len` that is the
length of a list in memory, so that the shards have room.
-/
def mapShards (pool : Pool) (len : Nat) (job : Shard → α) : List α :=
  (shards len pool.threads).map job

def describe (pool : Pool) : String :=
  "WorkerPool \x7b threads: " ++ toString pool.threads ++ " \x7d"

end Pool

end GramIndex
