import GramIndex.Proofs.MatcherCalls
import GramIndex.Proofs.Sessions

/-!
This module contains what sessions ask of their matcher, whatever it answers: which patterns they
keep, how often they compile a pattern, and which records they test.
-/

namespace GramIndex

namespace LiveSession

variable {Compiled : Type} {index : Index} {data : Dataset} {matcher : ChangingMatcher Compiled}
  {s : LiveSession Compiled} {tried : List String} {pattern : String}

def after (s : LiveSession Compiled) : Session.Call → LiveSession Compiled
  | .addQuery pattern => (s.addQuery pattern).2
  | .plan _ => s
  | .matchingIds pattern => (s.matchingIds pattern).2
  | .matchOne pattern => (s.matchOne pattern).2
  | .matchAll patterns => (s.matchAll patterns).2

def run (s : LiveSession Compiled) (calls : List Session.Call) : LiveSession Compiled :=
  calls.foldl after s

/--
The patterns that are attempted of a list: those up to the first one that fails.
-/
def attemptsOfAll (s : LiveSession Compiled) : List String → List String
  | [] => []
  | pattern :: patterns =>
    let first := s.matchOne pattern
    match first.1 with
    | .error _ => [pattern]
    | .ok _ => pattern :: first.2.attemptsOfAll patterns

def attemptsOf (s : LiveSession Compiled) : Session.Call → List String
  | .addQuery pattern | .matchingIds pattern | .matchOne pattern => [pattern]
  | .plan _ => []
  | .matchAll patterns => s.attemptsOfAll patterns

/--
The patterns that are attempted in a run, in order, each as often as it is attempted.
-/
def attempts (s : LiveSession Compiled) : List Session.Call → List String
  | [] => []
  | call :: calls => s.attemptsOf call ++ (s.after call).attempts calls

/--
What is prepared of a pattern that the matcher accepts.
-/
def fresh (s : LiveSession Compiled) (pattern : String) (compiled : Compiled) :
    PreparedQuery Compiled :=
  ⟨Query.compile pattern, (Query.compile pattern).candidates s.index, compiled⟩

/--
The session after the matcher accepted a pattern.
-/
def keep (s : LiveSession Compiled) (pattern : String) (compiled : Compiled) :
    LiveSession Compiled :=
  { s.tell [.compile pattern] with cache := s.cache ++ [(pattern, s.fresh pattern compiled)] }

theorem prepare_cached {prepared : PreparedQuery Compiled}
    (h : s.cache.lookup pattern = some prepared) : s.prepare pattern = (.ok prepared, s) := by
  simp [prepare, Session.prepare, now, h, tell]

theorem prepare_rejected {e : PatternError} (hnew : s.cache.lookup pattern = none)
    (h : (s.matcher s.history).compile pattern = .error e) :
    s.prepare pattern = (.error e, s.tell [.compile pattern]) := by
  simp [prepare, Session.prepare, now, hnew, h, tell]

theorem prepare_accepted {compiled : Compiled} (hnew : s.cache.lookup pattern = none)
    (h : (s.matcher s.history).compile pattern = .ok compiled) :
    s.prepare pattern = (.ok (s.fresh pattern compiled), s.keep pattern compiled) := by
  simp [prepare, Session.prepare, now, hnew, h, keep, fresh]

/--
A session whose cache, history and attempts agree, and which keeps of each pattern what is prepared
from it.
-/
structure Orderly (index : Index) (data : Dataset) (matcher : ChangingMatcher Compiled)
    (tried : List String) (s : LiveSession Compiled) : Prop where
  index_eq : s.index = index
  dataset_eq : s.dataset = data
  matcher_eq : s.matcher = matcher
  accounts : matcher.Accounts (s.cache.map Prod.fst) s.history tried
  prepared : ∀ pattern prepared, (pattern, prepared) ∈ s.cache →
    prepared.query = Query.compile pattern ∧
      prepared.candidates = (Query.compile pattern).candidates index

theorem lookup_eq_none_iff {cache : List (String × PreparedQuery Compiled)} :
    cache.lookup pattern = none ↔ pattern ∉ cache.map Prod.fst := by
  rw [List.lookup_eq_none_iff, List.mem_map, not_exists]
  simp only [bne_iff_ne, not_and]
  exact forall₂_congr fun entry _ => ne_comm

namespace Orderly

theorem tell_tests (h : s.Orderly index data matcher tried) (ids : List RecordId) :
    (s.tell (ids.map (.test pattern))).Orderly index data matcher tried := by
  induction ids generalizing s with
  | nil => simpa [tell] using h
  | cons id ids ih =>
    have hone : (s.tell [.test pattern id]).Orderly index data matcher tried :=
      { h with accounts := h.accounts.test pattern id }
    simpa [tell] using ih hone

theorem prepare (h : s.Orderly index data matcher tried) (pattern : String) :
    (s.prepare pattern).2.Orderly index data matcher (tried ++ [pattern]) := by
  cases hlookup : s.cache.lookup pattern with
  | some prepared =>
    rw [prepare_cached hlookup]
    have hkept := List.mem_map_of_mem (f := Prod.fst) (Session.mem_of_lookup hlookup)
    exact { h with accounts := h.accounts.cached hkept }
  | none =>
    have hnew := lookup_eq_none_iff.1 hlookup
    cases hcompile : (s.matcher s.history).compile pattern with
    | error e =>
      rw [prepare_rejected hlookup hcompile]
      rw [h.matcher_eq] at hcompile
      exact { h with accounts := h.accounts.rejected hnew hcompile }
    | ok compiled =>
      rw [prepare_accepted hlookup hcompile]
      rw [h.matcher_eq] at hcompile
      exact {
        index_eq := h.index_eq
        dataset_eq := h.dataset_eq
        matcher_eq := h.matcher_eq
        accounts := by
          rw [keep, List.map_append]
          exact h.accounts.accepted hnew hcompile
        prepared := by
          intro other entry hmem
          rcases List.mem_append.1 hmem with hmem | hmem
          · exact h.prepared other entry hmem
          · cases List.mem_singleton.1 hmem
            rw [← h.index_eq]
            exact ⟨rfl, rfl⟩
      }

theorem matchingIds (h : s.Orderly index data matcher tried) (pattern : String) :
    (s.matchingIds pattern).2.Orderly index data matcher (tried ++ [pattern]) := by
  have hprepare := h.prepare pattern
  cases hresult : (s.prepare pattern).1 with
  | error e =>
    rw [matchingIds_error hresult]
    exact hprepare
  | ok prepared =>
    obtain ⟨found, hfound⟩ := exists_matchingIds_ok hresult
    rw [hfound]
    exact hprepare.tell_tests _

theorem matchAll (h : s.Orderly index data matcher tried) (patterns : List String) :
    (s.matchAll patterns).2.Orderly index data matcher (tried ++ s.attemptsOfAll patterns) := by
  induction patterns generalizing s tried with
  | nil => simpa [LiveSession.matchAll, attemptsOfAll] using h
  | cons pattern patterns ih =>
    have hone : (s.matchOne pattern).2.Orderly index data matcher (tried ++ [pattern]) :=
      h.matchingIds pattern
    cases hresult : (s.matchOne pattern).1 with
    | error e =>
      rw [matchAll_cons_error hresult]
      simpa only [attemptsOfAll, hresult] using hone
    | ok count =>
      rw [matchAll_cons_ok hresult]
      simpa only [attemptsOfAll, hresult, List.append_assoc, List.singleton_append] using ih hone

theorem after (h : s.Orderly index data matcher tried) (call : Session.Call) :
    (s.after call).Orderly index data matcher (tried ++ s.attemptsOf call) := by
  cases call with
  | addQuery pattern => exact h.prepare pattern
  | plan pattern => simpa [LiveSession.after, attemptsOf] using h
  | matchingIds pattern => exact h.matchingIds pattern
  | matchOne pattern => exact h.matchingIds pattern
  | matchAll patterns => exact h.matchAll patterns

theorem run (h : s.Orderly index data matcher tried) (calls : List Session.Call) :
    (s.run calls).Orderly index data matcher (tried ++ s.attempts calls) := by
  induction calls generalizing s tried with
  | nil => simpa [LiveSession.run, attempts] using h
  | cons call calls ih =>
    have hothers := ih (h.after call)
    rw [List.append_assoc] at hothers
    exact hothers

end Orderly

/--
The records that a pattern is tested on: its candidates, or all records if the index gives no help.
-/
def scanned (s : LiveSession Compiled) (pattern : String) : List RecordId :=
  ((Query.compile pattern).candidates s.index).getD (List.range s.dataset.size)

/--
A pattern that is answered. Preparing it takes the given calls of the matcher, and finding its
records takes one test of each record that is to be scanned.
-/
structure Answers (s : LiveSession Compiled) (pattern : String) (asked : List MatcherCall) :
    Prop where
  addQuery_result : (s.addQuery pattern).1 = .ok ()
  addQuery_history : (s.addQuery pattern).2.history = s.history ++ asked
  results : ∃ found, (s.matchingIds pattern).1 = .ok found ∧
    (s.matchOne pattern).1 = .ok found.length
  matchingIds_history : (s.matchingIds pattern).2.history =
    s.history ++ asked ++ (s.scanned pattern).map (.test pattern)
  matchOne_history : (s.matchOne pattern).2.history =
    s.history ++ asked ++ (s.scanned pattern).map (.test pattern)

namespace Orderly

variable (h : s.Orderly index data matcher tried)
include h

end Orderly

/--
No pattern of a list fails when they are matched one by one.
-/
def AllAnswer (s : LiveSession Compiled) (patterns : List String) : Prop :=
  ∀ before pattern behind, patterns = before ++ pattern :: behind →
    ∃ count, ((s.run (before.map .matchOne)).matchOne pattern).1 = .ok count

theorem AllAnswer.head {patterns : List String} (h : s.AllAnswer (pattern :: patterns)) :
    ∃ count, (s.matchOne pattern).1 = .ok count :=
  h [] pattern patterns rfl

theorem AllAnswer.tail {patterns : List String} (h : s.AllAnswer (pattern :: patterns)) :
    (s.matchOne pattern).2.AllAnswer patterns := by
  intro before other behind heq
  apply h (pattern :: before) other behind
  rw [heq, List.cons_append]

end LiveSession

end GramIndex
