import GramIndex.Dataset
import GramIndex.KeySet
import GramIndex.Shard

/-!
This module contains posting lists: for each key the ascending ids of the records that contain it. A
record is scanned from left to right, and at each byte the shortest key that starts there is a hit,
so that in a prefix-free set no occurrence of a key is missed.
-/

namespace GramIndex

namespace KeySet

/--
The shortest non-empty key of at most `bound` bytes that the given bytes start with. Lengths are
tried in order.
-/
def starting? (keys : KeySet) (bound : Nat) (bytes : Gram) : Option Gram :=
  ((List.range' 1 (min bound bytes.length)).find? fun k => bytes.take k ∈ keys).map bytes.take

/--
The hits of a scan, one for each byte at which a key starts, from left to right.
-/
def hits (keys : KeySet) (bound : Nat) : Gram → List Gram
  | [] => []
  | b :: rest =>
    match keys.starting? bound (b :: rest) with
    | some key => key :: keys.hits bound rest
    | none => keys.hits bound rest

end KeySet

/--
Keys with their posting lists, in byte order of the keys.
-/
structure Postings where
  entries : List (Gram × List RecordId)
  deriving DecidableEq, Repr

namespace Postings

/--
Posting lists that are being built: keys with the ids of their records so far.
-/
abbrev Lists := List (Gram × Array RecordId)

namespace Lists

/--
The list of a key, empty if there is none.
-/
def ids (lists : Lists) (key : Gram) : List RecordId :=
  ((lists.lookup key).getD #[]).toList

/--
An empty list for every key.
-/
def empties (keys : KeySet) : Lists :=
  keys.toList.map fun key => (key, #[])

/--
Add a record to the list of a key, unless it is the last one there already. A key without a list
gets one.
-/
def add (key : Gram) (id : RecordId) : Lists → Lists
  | [] => [(key, #[id])]
  | (g, ids) :: rest =>
    if key = g then
      (g, if ids.back?.all (· < id) then ids.push id else ids) :: rest
    else
      (g, ids) :: add key id rest

/--
Add each record to the lists of the keys that are its hits. The first record has the id `first`.
-/
def scan (lists : Lists) (keys : KeySet) (bound first : Nat) (records : List Gram) : Lists :=
  (records.zipIdx first).foldl (fun lists (record, id) =>
    (keys.hits bound record).foldl (fun lists key => lists.add key id) lists) lists

end Lists

/--
Scan the records for keys of at most `bound` bytes and list the records of every key. Keys that are
longer, or empty, or that start with another key have no hits.
-/
def build (keys : KeySet) (bound : Nat) (records : List Gram) : Postings :=
  let lists := (Lists.empties keys).scan keys (min keys.longest bound) 0 records
  ⟨lists.map fun (key, ids) => (key, ids.toList)⟩

/--
Build posting lists with a pool of workers: each scans one shard of the records, and then each puts
together the lists of one shard of the keys. Shards have ascending ids, so shard order is id order.
-/
def buildParallel (keys : KeySet) (bound : Nat) (records : List Gram) (pool : Pool) : Postings :=
  let locals := pool.mapShards records.length fun shard =>
    Lists.scan [] keys (min keys.longest bound) shard.start (shard.slice records)
  ⟨(pool.mapShards keys.size fun shard =>
    (shard.slice keys.toList).map fun key => (key, locals.flatMap (·.ids key))).flatten⟩

def find? (p : Postings) (key : Gram) : Option (List RecordId) :=
  p.entries.lookup key

def total (p : Postings) : Nat :=
  p.entries.foldl (fun n (_, ids) => n + ids.length) 0

end Postings

end GramIndex
