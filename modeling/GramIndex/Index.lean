import GramIndex.Postings
import GramIndex.Selection.Parallel

/-!
This module contains the index of a dataset: its keys with their posting lists, and the ways to
build one, by selecting keys or from keys chosen elsewhere.
-/

namespace GramIndex

/--
Why no index can be built.
-/
inductive BuildError where
  | config (e : ConfigError)
  /-- There is an empty key, or a key that is a prefix of another one. -/
  | keysNotPrefixFree
  /-- A key of `length` bytes is longer than `upperK`. -/
  | keyTooLong (length upperK : Nat)
  /-- There are more records than record ids can count. -/
  | datasetTooLarge (size : Nat)
  /-- The workers cannot be started. -/
  | workerPool (reason : String)

def BuildError.message : BuildError → String
  | .config e => e.message
  | .keysNotPrefixFree => "index keys must be non-empty and prefix-free"
  | .keyTooLong length upperK =>
    "index key of " ++ toString length ++ " bytes exceeds the upper gram length " ++ toString upperK
  | .datasetTooLarge size =>
    "dataset of " ++ toString size ++ " records exceeds the record id range"
  | .workerPool reason => "failed to start worker pool: " ++ reason

/--
An immutable index. The keys of the posting lists are the members of `keys`.
-/
structure Index where
  keys : KeySet
  postings : Postings
  recordCount : Nat
  config : Config

/--
What an index holds, counted. How much memory it takes is left out: that depends on how tables and
lists are laid out.
-/
structure IndexStats where
  records : Nat
  keys : Nat
  /-- The total number of ids in all posting lists. -/
  postings : Nat
  deriving DecidableEq, Repr

namespace Index

/--
The index over the given records with the given keys. A pool, if there is one, builds the posting
lists.
-/
def ofSelected (data : Dataset) (config : Config) (keys : KeySet) (pool : Option Pool) : Index :=
  let postings := match pool with
    | some pool => Postings.buildParallel keys config.upperK.toNat data.records pool
    | none => Postings.build keys config.upperK.toNat data.records
  ⟨keys, postings, data.size, config⟩

/--
What the machine has to do with a build: why it does not start a number of workers, if it does not,
and the order in which the counts of the workers arrive in the pass for each length.
-/
structure Machine where
  startFailure : Nat → Option String
  arrivals : Nat → Arrival

/--
Workers always start, and their counts arrive in turn.
-/
def Machine.inTurn : Machine :=
  ⟨fun _ => none, fun _ => .inTurn⟩

/--
Select keys and build posting lists for a dataset, with a pool of workers if more than one is asked
for. The configuration is validated before any work is done.
-/
def buildOn (machine : Machine) (data : Dataset) (config : Config) : Except BuildError Index :=
  match Selector.ofConfig config with
  | .error e => .error (.config e)
  | .ok selector =>
    if Dataset.maxSize < data.size then
      .error (.datasetTooLarge data.size)
    else if h : 1 < config.threads.toNat then
      match machine.startFailure config.threads.toNat with
      | some reason => .error (.workerPool reason)
      | none =>
        let pool : Pool := ⟨config.threads.toNat, by omega⟩
        let keys := selector.selectParallel data.records pool machine.arrivals
        .ok (ofSelected data config keys (some pool))
    else
      .ok (ofSelected data config (selector.select data.records) none)

/--
What `buildOn` gives wherever the workers can be started.
-/
def build (data : Dataset) (config : Config) : Except BuildError Index :=
  buildOn .inTurn data config

/--
Build posting lists for keys chosen elsewhere. They must be non-empty, prefix-free and at most
`upperK` bytes long.
-/
def fromKeys (data : Dataset) (keys : KeySet) (upperK : UInt64) : Except BuildError Index :=
  if upperK = 0 then
    .error (.config .noGramLength)
  else if keys.toList.any List.isEmpty || !keys.isPrefixFree then
    .error .keysNotPrefixFree
  else
    match keys.toList.find? fun key => upperK.toNat < key.length with
    | some key => .error (.keyTooLong key.length upperK.toNat)
    | none =>
      if Dataset.maxSize < data.size then
        .error (.datasetTooLarge data.size)
      else
        .ok (ofSelected data { upperK, threshold := 1 } keys none)

/--
The ascending ids of the records that contain a key, and none for a gram that is not a key.
-/
def postingList (index : Index) (key : Gram) : List RecordId :=
  (index.postings.find? key).getD []

def maxKeyLength (index : Index) : Nat :=
  index.keys.longest

/--
The keys that occur in the given bytes, in order of their first occurrence. Every record with these
bytes in it contains all of them.
-/
def coveringKeys (index : Index) (bytes : Gram) : List Gram :=
  (index.keys.hits index.maxKeyLength bytes).eraseDups

def stats (index : Index) : IndexStats :=
  ⟨index.recordCount, index.keys.size, index.postings.total⟩

end Index

end GramIndex
