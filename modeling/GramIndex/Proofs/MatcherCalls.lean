import GramIndex.Session.Live
import Mathlib.Data.List.Nodup

/-!
This module contains the accounts of a matcher that may change: which patterns it accepted in its
calls so far, and what keeping those patterns saves of its calls.
-/

namespace GramIndex

namespace ChangingMatcher

variable {Compiled : Type} {matcher : ChangingMatcher Compiled} {history : List MatcherCall}
  {pattern : String}

/--
A pattern that the matcher compiled in one of the given calls.
-/
def Accepted (matcher : ChangingMatcher Compiled) (history : List MatcherCall)
    (pattern : String) : Prop :=
  ∃ before compiled, before ++ [.compile pattern] <+: history ∧
    (matcher before).compile pattern = .ok compiled

theorem accepted_concat {call : MatcherCall} :
    matcher.Accepted (history ++ [call]) pattern ↔
      matcher.Accepted history pattern ∨
        call = .compile pattern ∧ ∃ compiled, (matcher history).compile pattern = .ok compiled := by
  constructor
  · rintro ⟨before, compiled, hpre, hcompiled⟩
    rcases List.prefix_concat_iff.1 hpre with heq | hpre
    · obtain ⟨rfl, hcall⟩ := List.append_inj' heq rfl
      cases hcall
      exact .inr ⟨rfl, compiled, hcompiled⟩
    · exact .inl ⟨before, compiled, hpre, hcompiled⟩
  · rintro (⟨before, compiled, hpre, hcompiled⟩ | ⟨rfl, compiled, hcompiled⟩)
    · exact ⟨before, compiled, hpre.trans (List.prefix_append ..), hcompiled⟩
    · exact ⟨history, compiled, List.prefix_rfl, hcompiled⟩

theorem accepted_test {other : String} {id : RecordId} :
    matcher.Accepted (history ++ [.test other id]) pattern ↔ matcher.Accepted history pattern := by
  simp [accepted_concat]

theorem accepted_rejected {e : PatternError} {other : String}
    (h : (matcher history).compile other = .error e) :
    matcher.Accepted (history ++ [.compile other]) pattern ↔ matcher.Accepted history pattern := by
  rw [accepted_concat]
  apply or_iff_left
  rintro ⟨hcall, compiled, hcompiled⟩
  cases hcall
  rw [h] at hcompiled
  cases hcompiled

theorem accepted_accepted {compiled : Compiled} {other : String}
    (h : (matcher history).compile other = .ok compiled) :
    matcher.Accepted (history ++ [.compile other]) pattern ↔
      matcher.Accepted history pattern ∨ pattern = other := by
  rw [accepted_concat]
  apply or_congr_right
  constructor
  · rintro ⟨hcall, _⟩
    cases hcall
    rfl
  · rintro rfl
    exact ⟨rfl, compiled, h⟩

/--
What the patterns that are kept, the calls of the matcher and the attempts so far have to do with
each other. A pattern is kept once the matcher accepts it. The matcher is not asked again about a
pattern that it accepted, and it is asked about any other one each time that it is attempted.
-/
structure Accounts (matcher : ChangingMatcher Compiled) (kept : List String)
    (history : List MatcherCall) (tried : List String) : Prop where
  nodup : kept.Nodup
  mem_iff : ∀ pattern, pattern ∈ kept ↔ matcher.Accepted history pattern
  not_accepted : ∀ before pattern, before ++ [.compile pattern] <+: history →
    ¬ matcher.Accepted before pattern
  attempted : ∀ pattern, .compile pattern ∈ history → pattern ∈ tried
  count_eq : ∀ pattern, ¬ matcher.Accepted history pattern →
    history.count (.compile pattern) = tried.count pattern

namespace Accounts

variable {kept tried : List String}

theorem test (h : Accounts matcher kept history tried) (other : String) (id : RecordId) :
    Accounts matcher kept (history ++ [.test other id]) tried where
  nodup := h.nodup
  mem_iff pattern := by
    rw [accepted_test]
    exact h.mem_iff pattern
  not_accepted before pattern hpre := by
    rcases List.prefix_concat_iff.1 hpre with heq | hpre
    · simp at heq
    · exact h.not_accepted before pattern hpre
  attempted pattern hpattern := by
    apply h.attempted
    simpa using hpattern
  count_eq pattern hpattern := by
    rw [accepted_test] at hpattern
    simp [h.count_eq pattern hpattern]

/--
An attempt of a pattern that is kept asks nothing.
-/
theorem cached (h : Accounts matcher kept history tried) (hkept : pattern ∈ kept) :
    Accounts matcher kept history (tried ++ [pattern]) where
  nodup := h.nodup
  mem_iff := h.mem_iff
  not_accepted := h.not_accepted
  attempted other hother := List.mem_append_left _ (h.attempted other hother)
  count_eq other hother := by
    have hne : pattern ≠ other := by
      rintro rfl
      exact hother ((h.mem_iff pattern).1 hkept)
    simp [h.count_eq other hother, hne]

theorem count_concat (h : Accounts matcher kept history tried) {other : String}
    (hother : ¬ matcher.Accepted history other) :
    (history ++ [MatcherCall.compile pattern]).count (.compile other) =
      (tried ++ [pattern]).count other := by
  rw [List.count_append, List.count_append, h.count_eq other hother]
  simp [List.count_singleton]

/-
The matcher is asked only about patterns that it did not accept before, whether it accepts them now
or not.
-/
section Compile

variable (h : Accounts matcher kept history tried) (hnew : pattern ∉ kept)
include h hnew

theorem not_accepted_concat (before : List MatcherCall) (other : String)
    (hpre : before ++ [.compile other] <+: history ++ [.compile pattern]) :
    ¬ matcher.Accepted before other := by
  rcases List.prefix_concat_iff.1 hpre with heq | hpre
  · obtain ⟨rfl, hcall⟩ := List.append_inj' heq rfl
    cases hcall
    rw [← h.mem_iff]
    exact hnew
  · exact h.not_accepted before other hpre

theorem rejected {e : PatternError} (hcompile : (matcher history).compile pattern = .error e) :
    Accounts matcher kept (history ++ [.compile pattern]) (tried ++ [pattern]) where
  nodup := h.nodup
  mem_iff other := by
    rw [accepted_rejected hcompile]
    exact h.mem_iff other
  not_accepted := h.not_accepted_concat hnew
  attempted other hother := by
    simp only [List.mem_append, List.mem_singleton, MatcherCall.compile.injEq] at hother ⊢
    exact hother.imp_left (h.attempted other)
  count_eq other hother := by
    rw [accepted_rejected hcompile] at hother
    exact h.count_concat hother

theorem accepted {compiled : Compiled}
    (hcompile : (matcher history).compile pattern = .ok compiled) :
    Accounts matcher (kept ++ [pattern]) (history ++ [.compile pattern])
      (tried ++ [pattern]) where
  nodup := by
    rw [← List.concat_eq_append]
    exact h.nodup.concat hnew
  mem_iff other := by
    rw [accepted_accepted hcompile, List.mem_append, List.mem_singleton, h.mem_iff]
  not_accepted := h.not_accepted_concat hnew
  attempted other hother := by
    simp only [List.mem_append, List.mem_singleton, MatcherCall.compile.injEq] at hother ⊢
    exact hother.imp_left (h.attempted other)
  count_eq other hother := by
    rw [accepted_accepted hcompile, not_or] at hother
    exact h.count_concat hother.1

end Compile

end Accounts

end ChangingMatcher

end GramIndex
