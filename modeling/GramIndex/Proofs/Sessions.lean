import GramIndex.Proofs.Evaluation
import GramIndex.Session

/-!
This module contains why sessions can be trusted: whatever calls a session has answered before, it
answers the next one like a scan of the whole dataset, as a new session over any other index of the
dataset does.
-/

namespace GramIndex

/--
The records that a compiled pattern matches, found by testing all of them.
-/
def Dataset.matching {Compiled : Type} (data : Dataset) (matcher : Matcher Compiled)
    (compiled : Compiled) : List RecordId :=
  (List.range data.size).filter fun id => (data.text? id).any (matcher.accepts compiled)

theorem Dataset.text?_eq_some_iff {data : Dataset} {id : RecordId} {text : String} :
    data.text? id = some text ↔ ∃ h : id < data.size, data.text ⟨id, h⟩ = text := by
  unfold text?
  split
  · next h => simp [h]
  · next h => simp [h]

theorem Dataset.mem_matching {Compiled : Type} {data : Dataset} {matcher : Matcher Compiled}
    {compiled : Compiled} {id : RecordId} :
    id ∈ data.matching matcher compiled ↔
      ∃ text, data.text? id = some text ∧ matcher.accepts compiled text = true := by
  unfold matching
  rw [List.mem_filter, List.mem_range, Option.any_eq_true]
  constructor
  · rintro ⟨_, h⟩
    exact h
  · rintro ⟨text, htext, haccepts⟩
    obtain ⟨hlt, _⟩ := text?_eq_some_iff.1 htext
    exact ⟨hlt, text, htext, haccepts⟩

theorem Dataset.getElem?_records {data : Dataset} {id : RecordId} {text : String}
    (h : data.text? id = some text) : data.records[id]? = some (textBytes text) := by
  obtain ⟨hlt, htext⟩ := text?_eq_some_iff.1 h
  simp [records, hlt, htext]

/--
A matcher for which the plan of a pattern says only what holds of every text that the pattern
matches.
-/
def Matcher.RespectsPlans {Compiled : Type} (matcher : Matcher Compiled) : Prop :=
  ∀ pattern compiled text, matcher.compile pattern = .ok compiled →
    matcher.accepts compiled text = true →
    (Query.compile pattern).root.Satisfies (textBytes text)

namespace Session

variable {Compiled : Type} {data : Dataset} {index : Index} {matcher : Matcher Compiled}

inductive Call where
  | addQuery (pattern : String)
  | plan (pattern : String)
  | matchingIds (pattern : String)
  | matchOne (pattern : String)
  | matchAll (patterns : List String)
  deriving DecidableEq, Repr

def after (s : Session Compiled) : Call → Session Compiled
  | .addQuery pattern => (s.addQuery pattern).session
  | .plan _ => s
  | .matchingIds pattern => (s.matchingIds pattern).session
  | .matchOne pattern => (s.matchOne pattern).session
  | .matchAll patterns => (s.matchAll patterns).session

def run (s : Session Compiled) (calls : List Call) : Session Compiled :=
  calls.foldl after s

theorem session_matchingIds (s : Session Compiled) (pattern : String) :
    (s.matchingIds pattern).session = (s.prepare pattern).session := by
  unfold matchingIds
  cases hprepared : (s.prepare pattern).result with
  | error e => simp only [hprepared]
  | ok prepared => simp only [hprepared]

section Keeps

variable {P : Session Compiled → Prop} {s : Session Compiled}
  (hprepare : ∀ s pattern, P s → P (s.prepare pattern).session)

include hprepare

theorem keeps_matchAll (h : P s) (patterns : List String) : P (s.matchAll patterns).session := by
  induction patterns generalizing s with
  | nil => exact h
  | cons pattern patterns ih =>
    have hfirst : P (s.matchOne pattern).session := by
      rw [matchOne, session_matchingIds]
      exact hprepare s pattern h
    unfold matchAll
    cases hone : (s.matchOne pattern).result with
    | error e =>
      simp only [hone]
      exact hfirst
    | ok count =>
      simp only [hone]
      exact ih hfirst

theorem keeps_after (h : P s) (call : Call) : P (s.after call) := by
  cases call with
  | addQuery pattern => exact hprepare s pattern h
  | plan pattern => exact h
  | matchingIds pattern =>
    rw [after, session_matchingIds]
    exact hprepare s pattern h
  | matchOne pattern =>
    rw [after, matchOne, session_matchingIds]
    exact hprepare s pattern h
  | matchAll patterns => exact keeps_matchAll hprepare h patterns

/--
Calls change a session only by preparing patterns, so they keep whatever this keeps.
-/
theorem keeps_run (h : P s) (calls : List Call) : P (s.run calls) := by
  induction calls generalizing s with
  | nil => exact h
  | cons call calls ih => exact ih (keeps_after hprepare h call)

end Keeps

/--
What a pattern is prepared to where nothing is cached.
-/
def prepareAnew (index : Index) (matcher : Matcher Compiled) (pattern : String) :
    Except PatternError (PreparedQuery Compiled) :=
  (matcher.compile pattern).map fun compiled =>
    ⟨Query.compile pattern, (Query.compile pattern).candidates index, compiled⟩

/--
A session over the given index, dataset and matcher whose cache has nothing in it that would be
prepared in another way now.
-/
structure Faithful (index : Index) (data : Dataset) (matcher : Matcher Compiled)
    (s : Session Compiled) : Prop where
  index_eq : s.index = index
  dataset_eq : s.dataset = data
  matcher_eq : s.matcher = matcher
  cached : ∀ pattern prepared, (pattern, prepared) ∈ s.cache →
    prepareAnew index matcher pattern = .ok prepared

theorem prepareAnew_ok {pattern : String} {compiled : Compiled}
    (h : matcher.compile pattern = .ok compiled) :
    prepareAnew index matcher pattern =
      .ok ⟨Query.compile pattern, (Query.compile pattern).candidates index, compiled⟩ := by
  unfold prepareAnew
  rw [h]
  rfl

theorem prepareAnew_error {pattern : String} {e : PatternError}
    (h : matcher.compile pattern = .error e) : prepareAnew index matcher pattern = .error e := by
  unfold prepareAnew
  rw [h]
  rfl

theorem mem_of_lookup {β : Type} {key : String} {value : β} {entries : List (String × β)}
    (h : entries.lookup key = some value) : (key, value) ∈ entries := by
  rw [List.lookup_eq_some_iff] at h
  obtain ⟨before, behind, heq, _⟩ := h
  rw [heq]
  simp

theorem filter_candidates (hscans : index.Scans data) {pattern : String} {compiled : Compiled}
    (hrespects : ∀ text, matcher.accepts compiled text = true →
      (Query.compile pattern).root.Satisfies (textBytes text)) :
    (((Query.compile pattern).candidates index).getD (List.range data.size)).filter
        (fun id => (data.text? id).any (matcher.accepts compiled)) =
      data.matching matcher compiled := by
  unfold Dataset.matching
  cases hids : (Query.compile pattern).candidates index with
  | none => rfl
  | some ids =>
    rw [Option.getD_some]
    have hsorted : ids.Pairwise (· < ·) :=
      (Plan.answers_evaluate (fun _ => hscans.postingList_sorted) _).sorted ids hids
    apply (hsorted.filter _).eq_of_mem_iff (List.pairwise_lt_range.filter _)
    intro id
    rw [List.mem_filter, List.mem_filter, List.mem_range]
    apply and_congr_left
    intro haccepts
    -- Only candidates are left to compare, and a record that is accepted is one.
    rw [Option.any_eq_true] at haccepts
    obtain ⟨text, htext, haccepts⟩ := haccepts
    have hsatisfies := hrespects text haccepts
    constructor
    · intro hid
      exact Plan.lt_size_of_mem_evaluate hscans hids hid
    · intro _
      exact hsatisfies.mem_evaluate hscans hids (Dataset.getElem?_records htext)

namespace Faithful

variable {s : Session Compiled} {pattern : String}

theorem prepare (h : s.Faithful index data matcher) (pattern : String) :
    (s.prepare pattern).result = prepareAnew index matcher pattern ∧
      (s.prepare pattern).session.Faithful index data matcher := by
  unfold Session.prepare
  cases hlookup : s.cache.lookup pattern with
  | some prepared => exact ⟨(h.cached pattern prepared (mem_of_lookup hlookup)).symm, h⟩
  | none =>
    simp only [h.matcher_eq, h.index_eq]
    cases hcompile : matcher.compile pattern with
    | error e => exact ⟨(prepareAnew_error hcompile).symm, h⟩
    | ok compiled =>
      refine ⟨(prepareAnew_ok hcompile).symm, rfl, h.dataset_eq, rfl, ?_⟩
      intro other prepared hmem
      rw [List.mem_append, List.mem_singleton] at hmem
      cases hmem with
      | inl hmem => exact h.cached other prepared hmem
      | inr heq =>
        cases heq
        exact prepareAnew_ok hcompile

theorem matchingIds_ok (h : s.Faithful index data matcher) (hscans : index.Scans data)
    {compiled : Compiled} (hcompile : matcher.compile pattern = .ok compiled)
    (hrespects : ∀ text, matcher.accepts compiled text = true →
      (Query.compile pattern).root.Satisfies (textBytes text)) :
    (s.matchingIds pattern).result = .ok (data.matching matcher compiled) := by
  obtain ⟨hresult, _⟩ := h.prepare pattern
  rw [prepareAnew_ok hcompile] at hresult
  have haccepts : s.accepts compiled = fun id =>
      (data.text? id).any (matcher.accepts compiled) := by
    unfold accepts
    rw [h.dataset_eq, h.matcher_eq]
  unfold Session.matchingIds
  simp only [hresult, h.dataset_eq, haccepts, filter_candidates hscans hrespects]

theorem matchingIds (h : s.Faithful index data matcher) (hscans : index.Scans data)
    (hmatcher : matcher.RespectsPlans) (pattern : String) :
    (s.matchingIds pattern).result = (matcher.compile pattern).map (data.matching matcher) ∧
      (s.matchingIds pattern).session.Faithful index data matcher := by
  obtain ⟨hresult, hsession⟩ := h.prepare pattern
  refine ⟨?_, by rwa [session_matchingIds]⟩
  cases hcompile : matcher.compile pattern with
  | error e =>
    rw [prepareAnew_error hcompile] at hresult
    unfold Session.matchingIds
    simp only [hresult]
    rfl
  | ok compiled =>
    exact h.matchingIds_ok hscans hcompile fun text => hmatcher pattern compiled text hcompile

theorem matchOne (h : s.Faithful index data matcher) (hscans : index.Scans data)
    (hmatcher : matcher.RespectsPlans) (pattern : String) :
    (s.matchOne pattern).result =
        (matcher.compile pattern).map (fun compiled => (data.matching matcher compiled).length) ∧
      (s.matchOne pattern).session.Faithful index data matcher := by
  obtain ⟨hresult, hsession⟩ := h.matchingIds hscans hmatcher pattern
  refine ⟨?_, hsession⟩
  unfold Session.matchOne
  simp only [hresult]
  cases matcher.compile pattern with
  | error e => rfl
  | ok compiled => rfl

theorem matchAll (h : s.Faithful index data matcher) (hscans : index.Scans data)
    (hmatcher : matcher.RespectsPlans) (patterns : List String) :
    (s.matchAll patterns).result = patterns.mapM (fun pattern =>
        (matcher.compile pattern).map fun compiled =>
          (pattern, (data.matching matcher compiled).length)) ∧
      (s.matchAll patterns).session.Faithful index data matcher := by
  induction patterns generalizing s with
  | nil => exact ⟨rfl, h⟩
  | cons pattern patterns ih =>
    obtain ⟨hresult, hsession⟩ := h.matchOne hscans hmatcher pattern
    obtain ⟨hothers, hlast⟩ := ih hsession
    rw [List.mapM_cons, ← hothers]
    rw [Session.matchAll]
    cases hcompile : matcher.compile pattern with
    | error e =>
      have herror : (s.matchOne pattern).result = .error e := by
        rw [hresult, hcompile]
        rfl
      simp only [herror]
      exact ⟨rfl, hsession⟩
    | ok compiled =>
      have hcount : (s.matchOne pattern).result =
          .ok (data.matching matcher compiled).length := by
        rw [hresult, hcompile]
        rfl
      simp only [hcount]
      refine ⟨?_, hlast⟩
      cases ((s.matchOne pattern).session.matchAll patterns).result with
      | error e => rfl
      | ok counts => rfl

theorem after (h : s.Faithful index data matcher) (hscans : index.Scans data)
    (hmatcher : matcher.RespectsPlans) (call : Call) :
    (s.after call).Faithful index data matcher := by
  cases call with
  | addQuery pattern => exact (h.prepare pattern).2
  | plan pattern => exact h
  | matchingIds pattern => exact (h.matchingIds hscans hmatcher pattern).2
  | matchOne pattern => exact (h.matchOne hscans hmatcher pattern).2
  | matchAll patterns => exact (h.matchAll hscans hmatcher patterns).2

theorem run (h : s.Faithful index data matcher) (hscans : index.Scans data)
    (hmatcher : matcher.RespectsPlans) (calls : List Call) :
    (s.run calls).Faithful index data matcher := by
  induction calls generalizing s with
  | nil => exact h
  | cons call calls ih => exact ih (h.after hscans hmatcher call)

end Faithful

theorem start_eq_ok (hscans : index.Scans data) :
    start index data matcher = .ok ⟨index, data, matcher, []⟩ := by
  unfold start
  rw [if_pos hscans.recordCount_eq]

theorem faithful_new :
    (⟨index, data, matcher, []⟩ : Session Compiled).Faithful index data matcher :=
  ⟨rfl, rfl, rfl, by simp⟩

/--
Whatever calls a session has had, each pattern that compiles gets the ascending ids of the records
that it matches, and their number, alone or among others; a new session over any index of the same
dataset answers alike.
-/
theorem answers_like_scan (hmatcher : matcher.RespectsPlans) (hindex : index.BuiltOver data) :
    ∃ opened, start index data matcher = .ok opened ∧ ∀ calls,
      (∀ pattern compiled, matcher.compile pattern = .ok compiled →
        ∃ ids, ((opened.run calls).matchingIds pattern).result = .ok ids ∧
          ids.Pairwise (· < ·) ∧
          (∀ id, id ∈ ids ↔
            ∃ text, data.text? id = some text ∧ matcher.accepts compiled text = true) ∧
          ids = data.matching matcher compiled ∧
          ((opened.run calls).matchOne pattern).result = .ok ids.length) ∧
      (∀ patterns, ((opened.run calls).matchAll patterns).result = patterns.mapM (fun pattern =>
        (matcher.compile pattern).map fun compiled =>
          (pattern, (data.matching matcher compiled).length))) ∧
      ∀ other : Index, other.BuiltOver data →
        ∃ fresh, start other data matcher = .ok fresh ∧
          (∀ pattern,
            ((opened.run calls).matchingIds pattern).result = (fresh.matchingIds pattern).result ∧
            ((opened.run calls).matchOne pattern).result = (fresh.matchOne pattern).result) ∧
          ∀ patterns,
            ((opened.run calls).matchAll patterns).result = (fresh.matchAll patterns).result := by
  have hscans := hindex.scans
  refine ⟨_, start_eq_ok hscans, ?_⟩
  intro calls
  have hrun := faithful_new.run hscans hmatcher calls
  refine ⟨?_, ?_, ?_⟩
  · intro pattern compiled hcompile
    refine ⟨data.matching matcher compiled, ?_, List.pairwise_lt_range.filter _, ?_, ?_, ?_⟩
    · rw [(hrun.matchingIds hscans hmatcher pattern).1, hcompile]
      rfl
    · intro id
      exact Dataset.mem_matching
    · rfl
    · rw [(hrun.matchOne hscans hmatcher pattern).1, hcompile]
      rfl
  · intro patterns
    exact (hrun.matchAll hscans hmatcher patterns).1
  · intro other hother
    have hothers := hother.scans
    have hfresh : (⟨other, data, matcher, []⟩ : Session Compiled).Faithful other data matcher :=
      faithful_new
    refine ⟨_, start_eq_ok hothers, ?_, ?_⟩
    · intro pattern
      rw [(hrun.matchingIds hscans hmatcher pattern).1, (hrun.matchOne hscans hmatcher pattern).1,
        (hfresh.matchingIds hothers hmatcher pattern).1,
        (hfresh.matchOne hothers hmatcher pattern).1]
      exact ⟨rfl, rfl⟩
    · intro patterns
      rw [(hrun.matchAll hscans hmatcher patterns).1, (hfresh.matchAll hothers hmatcher patterns).1]

theorem answers_like_scan_ab :
    let matcher : Matcher Unit :=
      ⟨fun pattern => if pattern = "ab" then .ok () else .error ⟨pattern, "unknown"⟩,
        fun _ text => Gram.occursIn [97, 98] (textBytes text)⟩
    let data := Dataset.ofList ["abc", "b", "cab"]
    matcher.RespectsPlans ∧ ∃ index, Index.fromKeys data ⟨[[97]], by decide⟩ 1 = .ok index ∧
      ∃ opened, start index data matcher = .ok opened ∧
        ∀ calls, ((opened.run calls).matchOne "ab").result = .ok 2 := by
  intro matcher data
  have hrespects : matcher.RespectsPlans := by
    intro pattern compiled text hcompile haccepts
    have hpattern : pattern = "ab" := by
      apply Decidable.byContradiction
      intro hne
      simp [matcher, hne] at hcompile
    have hroot : (Query.compile "ab").root = .literal [97, 98] := by with_unfolding_all rfl
    rw [hpattern, hroot]
    exact Gram.occursIn_iff.1 haccepts
  refine ⟨hrespects, _, rfl, ?_⟩
  have hindex := @Index.BuiltOver.given data _ ⟨[[97]], by decide⟩ 1 rfl
  obtain ⟨opened, hopened, hanswers⟩ := answers_like_scan hrespects hindex
  refine ⟨opened, hopened, ?_⟩
  intro calls
  obtain ⟨ids, _, _, _, hids, hone⟩ := (hanswers calls).1 "ab" () rfl
  have hcount : (data.matching matcher ()).length = 2 := by decide
  rw [hone, hids, hcount]

end Session

end GramIndex
