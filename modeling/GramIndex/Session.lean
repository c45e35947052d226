import GramIndex.Query

/-!
This module contains match sessions: an index with its dataset and a matcher, which answer queries
by testing candidates only and keep what they have compiled. Every operation also lists the calls it
made of the matcher.
-/

namespace GramIndex

/--
A dataset that an index was not built over.
-/
structure DatasetMismatch where
  index : Nat
  dataset : Nat
  deriving DecidableEq, Repr

def DatasetMismatch.message (e : DatasetMismatch) : String :=
  "dataset has " ++ toString e.dataset ++ " records but the index was built over " ++
    toString e.index

/--
A query compiled for the index and for the matcher.
-/
structure PreparedQuery (Compiled : Type) where
  query : Query
  candidates : Option (List RecordId)
  compiled : Compiled

/--
A session. Its cache has the queries that were compiled, each pattern once, in order.
-/
structure Session (Compiled : Type) where
  index : Index
  dataset : Dataset
  matcher : Matcher Compiled
  cache : List (String × PreparedQuery Compiled)

inductive MatcherCall where
  | compile (pattern : String)
  | test (pattern : String) (id : RecordId)
  deriving DecidableEq, Repr

/--
The result of an operation, the session after it, and the calls it made, in order.
-/
structure Reply (Compiled α : Type) where
  result : Except PatternError α
  session : Session Compiled
  calls : List MatcherCall

namespace Session

variable {Compiled : Type}

/--
Open a session. The dataset must have the size of the one that the index was built over.
-/
def start (index : Index) (dataset : Dataset) (matcher : Matcher Compiled) :
    Except DatasetMismatch (Session Compiled) :=
  if index.recordCount = dataset.size then
    .ok ⟨index, dataset, matcher, []⟩
  else
    .error ⟨index.recordCount, dataset.size⟩

/--
The compiled query for a pattern, from the cache if it is there. A pattern that the matcher does not
accept leaves the cache as it is.
-/
def prepare (s : Session Compiled) (pattern : String) : Reply Compiled (PreparedQuery Compiled) :=
  match s.cache.lookup pattern with
  | some prepared => ⟨.ok prepared, s, []⟩
  | none =>
    match s.matcher.compile pattern with
    | .error e => ⟨.error e, s, [.compile pattern]⟩
    | .ok compiled =>
      let query := Query.compile pattern
      let prepared := ⟨query, query.candidates s.index, compiled⟩
      ⟨.ok prepared, { s with cache := s.cache ++ [(pattern, prepared)] }, [.compile pattern]⟩

/--
Compile a pattern without running it.
-/
def addQuery (s : Session Compiled) (pattern : String) : Reply Compiled Unit :=
  let reply := s.prepare pattern
  ⟨reply.result.map fun _ => (), reply.session, reply.calls⟩

/--
The query for a pattern that was compiled before.
-/
def plan (s : Session Compiled) (pattern : String) : Option Query :=
  (s.cache.lookup pattern).map PreparedQuery.query

def cachedQueries (s : Session Compiled) : Nat :=
  s.cache.length

def accepts (s : Session Compiled) (compiled : Compiled) (id : RecordId) : Bool :=
  (s.dataset.text? id).any (s.matcher.accepts compiled)

/--
The ascending ids of the records that match a pattern. Only candidates are tested, or all records if
the index gives no help.
-/
def matchingIds (s : Session Compiled) (pattern : String) : Reply Compiled (List RecordId) :=
  let reply := s.prepare pattern
  match reply.result with
  | .error e => ⟨.error e, reply.session, reply.calls⟩
  | .ok prepared =>
    let ids := prepared.candidates.getD (List.range s.dataset.size)
    ⟨.ok (ids.filter (s.accepts prepared.compiled)), reply.session,
      reply.calls ++ ids.map (.test pattern)⟩

/--
The number of records that match a pattern.
-/
def matchOne (s : Session Compiled) (pattern : String) : Reply Compiled Nat :=
  let reply := s.matchingIds pattern
  ⟨reply.result.map List.length, reply.session, reply.calls⟩

/--
The number of records that match each pattern, up to the first pattern that the matcher does not
accept.
-/
def matchAll (s : Session Compiled) : List String → Reply Compiled (List (String × Nat))
  | [] => ⟨.ok [], s, []⟩
  | pattern :: patterns =>
    let first := s.matchOne pattern
    match first.result with
    | .error e => ⟨.error e, first.session, first.calls⟩
    | .ok count =>
      let others := first.session.matchAll patterns
      ⟨others.result.map ((pattern, count) :: ·), others.session, first.calls ++ others.calls⟩

end Session

end GramIndex
