import GramIndex.Proofs.Tallies
import GramIndex.Tally.Shared
import Mathlib.Data.List.Perm.Basic

/-!
This module contains why workers that share their counters lose no count and make none twice: at
every moment each gram is either counted or still left to some worker, also between the look-up that
missed it and the insertion.
-/

namespace GramIndex

namespace Counters

variable {c : Counters} {counted : List Gram} {gram : Gram}

/--
The entries are the counted grams with how often each of them was counted, as far as 32 bits tell.
-/
def Counts (c : Counters) (counted : List Gram) : Prop :=
  ∀ g n, (g, n) ∈ c.entries ↔ g ∈ counted ∧ n = .ofNat (counted.count g)

theorem counts_empty : empty.Counts [] := by
  intro g n
  simp [empty]

theorem Counts.perm {others : List Gram} (h : c.Counts counted) (hperm : counted.Perm others) :
    c.Counts others := by
  intro g n
  rw [h, hperm.mem_iff, hperm.count_eq]

theorem Counts.mem_grams (h : c.Counts counted) : gram ∈ c.grams ↔ gram ∈ counted := by
  constructor
  · intro hmem
    obtain ⟨⟨g, n⟩, hentry, rfl⟩ := List.mem_map.1 hmem
    exact ((h g n).1 hentry).1
  · intro hmem
    exact List.mem_map_of_mem (f := Prod.fst) ((h gram _).2 ⟨hmem, rfl⟩)

theorem mem_map_bumpEntry {g : Gram} {n : UInt32} {entries : List (Gram × UInt32)} :
    (g, n) ∈ entries.map (bumpEntry gram) ↔
      g ≠ gram ∧ (g, n) ∈ entries ∨ g = gram ∧ ∃ m, (gram, m) ∈ entries ∧ n = m + 1 := by
  unfold bumpEntry
  rw [List.mem_map]
  constructor
  · rintro ⟨⟨h, m⟩, hentry, heq⟩
    split at heq
    · next hgram =>
      cases heq
      exact .inr ⟨hgram, m, hgram ▸ hentry, rfl⟩
    · next hgram =>
      cases heq
      exact .inl ⟨hgram, hentry⟩
  · rintro (⟨hne, hentry⟩ | ⟨rfl, m, hentry, rfl⟩)
    · exact ⟨(g, n), hentry, if_neg hne⟩
    · exact ⟨(g, m), hentry, if_pos rfl⟩

theorem ofNat_count_cons (gram : Gram) (counted : List Gram) :
    UInt32.ofNat ((gram :: counted).count gram) = .ofNat (counted.count gram) + 1 := by
  rw [List.count_cons_self, UInt32.ofNat_add]
  rfl

theorem Counts.add (h : c.Counts counted) (hmem : gram ∈ counted) :
    (c.add gram).Counts (gram :: counted) := by
  intro g n
  unfold Counters.add
  rw [mem_map_bumpEntry]
  by_cases heq : g = gram
  · subst heq
    rw [ofNat_count_cons]
    simp [h g, hmem]
  · rw [List.count_cons_of_ne (Ne.symm heq), List.mem_cons, or_iff_right heq]
    simp [heq, h g]

theorem Counts.insert (h : c.Counts counted) (hnew : gram ∉ c.grams) :
    (c.insert gram hnew).Counts (gram :: counted) := by
  have hnot : gram ∉ counted := by
    rw [← h.mem_grams]
    exact hnew
  intro g n
  unfold Counters.insert
  rw [List.mem_append, List.mem_singleton, Prod.mk.injEq, h]
  by_cases heq : g = gram
  · subst heq
    rw [ofNat_count_cons, List.count_eq_zero_of_not_mem hnot]
    simp [hnot]
  · rw [List.count_cons_of_ne (Ne.symm heq), List.mem_cons, or_iff_right heq]
    simp [heq]

theorem Counts.settle (h : c.Counts counted) (gram : Gram) :
    (c.settle gram).Counts (gram :: counted) := by
  unfold Counters.settle
  split
  · next hmem => exact h.add (h.mem_grams.1 (List.contains_iff_mem.1 hmem))
  · exact h.insert _

theorem Counts.probe? {after : Counters} (h : c.Counts counted)
    (hprobe : c.probe? gram = some after) : after.Counts (gram :: counted) := by
  unfold Counters.probe? at hprobe
  split at hprobe
  · next hmem =>
    rw [← Option.some.inj hprobe]
    exact h.add (h.mem_grams.1 (List.contains_iff_mem.1 hmem))
  · cases hprobe

theorem Counts.increment (h : c.Counts counted) (gram : Gram) :
    (c.increment gram).Counts (gram :: counted) := by
  unfold Counters.increment
  cases hprobe : c.probe? gram with
  | none => exact h.settle gram
  | some after => exact h.probe? hprobe

theorem Counts.incrementAll (h : c.Counts counted) (grams : List Gram) :
    (c.incrementAll grams).Counts (grams ++ counted) := by
  unfold Counters.incrementAll
  induction grams generalizing c counted with
  | nil => exact h
  | cons gram grams ih =>
    rw [List.foldl_cons]
    apply (ih (h.increment gram)).perm
    exact List.perm_middle

theorem mem_intoSorted {entry : Gram × UInt32} : entry ∈ c.intoSorted ↔ entry ∈ c.entries :=
  (List.mergeSort_perm ..).mem_iff

theorem sorted_intoSorted (c : Counters) : c.intoSorted.Pairwise fun a b => a.1 < b.1 := by
  have trans (a b d : Gram × UInt32) (hab : decide (a.1 ≤ b.1)) (hbd : decide (b.1 ≤ d.1)) :
      decide (a.1 ≤ d.1) :=
    decide_eq_true (List.le_trans (of_decide_eq_true hab) (of_decide_eq_true hbd))
  have total (a b : Gram × UInt32) : (decide (a.1 ≤ b.1) || decide (b.1 ≤ a.1)) = true := by
    simpa using List.le_total a.1 b.1
  have hsorted := (List.pairwise_mergeSort trans total c.entries).imp of_decide_eq_true
  have hperm : (c.intoSorted.map Prod.fst).Perm (c.entries.map Prod.fst) :=
    (List.mergeSort_perm ..).map Prod.fst
  have hdistinct := List.pairwise_map.1 (hperm.nodup_iff.2 c.nodup)
  apply (hsorted.and hdistinct).imp
  intro a b hab
  exact Decidable.byContradiction fun hlt => hab.2 (List.le_antisymm hab.1 (List.not_lt.1 hlt))

section Sorted

variable (hfew : ∀ g, counted.count g < UInt32.size)

include hfew

theorem Counts.mem_intoSorted_iff (h : c.Counts counted) (g : Gram) (n : UInt32) :
    (g, n) ∈ c.intoSorted ↔ g ∈ counted ∧ n.toNat = counted.count g := by
  rw [mem_intoSorted, h, ← UInt32.toNat_inj, UInt32.toNat_ofNat_of_lt' (hfew g)]

/--
As long as no counter is full, the counters are the tally of the same grams.
-/
theorem Counts.map_intoSorted (h : c.Counts counted) :
    c.intoSorted.map (fun (g, n) => (g, n.toNat)) = (Tally.empty.bumpAll counted).entries := by
  apply Tally.entries_unique
  · rw [List.pairwise_map]
    exact c.sorted_intoSorted
  · exact List.pairwise_map.1 (Tally.sorted _)
  · intro (g, n)
    rw [Tally.counts_bumpAll_empty, List.mem_map]
    constructor
    · rintro ⟨⟨g, n⟩, hentry, heq⟩
      cases heq
      rw [h.mem_intoSorted_iff hfew] at hentry
      exact ⟨hentry.2 ▸ List.count_pos_iff.2 hentry.1, hentry.2⟩
    · rintro ⟨hpos, rfl⟩
      have hn := UInt32.toNat_ofNat_of_lt' (hfew g)
      refine ⟨(g, .ofNat (counted.count g)), ?_, Prod.ext rfl hn⟩
      rw [h.mem_intoSorted_iff hfew]
      exact ⟨List.count_pos_iff.1 hpos, hn⟩

end Sorted

theorem Counts.intoSorted_eq {other : Counters} (h : c.Counts counted)
    (hother : other.Counts counted) : c.intoSorted = other.intoSorted := by
  apply Tally.entries_unique c.sorted_intoSorted other.sorted_intoSorted
  intro (g, n)
  rw [mem_intoSorted, mem_intoSorted, h, hother]

end Counters

section Steps

variable {c after : Counters} {worker next : Worker} {s t : Counting} {counted total : List Gram}
  {i : Nat}

/--
A step of a worker counts one of the grams that are left to it, or none.
-/
theorem Worker.step_counts (h : c.Counts counted) (hstep : worker.step c = some (after, next)) :
    ∃ now, after.Counts now ∧ (now ++ next.left).Perm (counted ++ worker.left) := by
  unfold Worker.step at hstep
  split at hstep
  · cases hstep
  · next gram left =>
    split at hstep
    · next hprobe =>
      cases hstep
      exact ⟨gram :: counted, h.probe? hprobe, List.perm_middle.symm⟩
    · cases hstep
      exact ⟨counted, h, .refl _⟩
  · next gram left =>
    cases hstep
    exact ⟨gram :: counted, h.settle gram, List.perm_middle.symm⟩

/--
The number of steps that a worker takes at most until it is done.
-/
def Worker.work : Worker → Nat
  | .ready left => 2 * left.length
  | .missed _ left => 2 * left.length + 1

theorem Worker.work_lt (hstep : worker.step c = some (after, next)) : next.work < worker.work := by
  unfold Worker.step at hstep
  split at hstep
  · cases hstep
  · split at hstep
    · cases hstep
      simp [Worker.work]
    · cases hstep
      simp [Worker.work]
      omega
  · cases hstep
    simp [Worker.work]

theorem Worker.exists_step (c : Counters) (h : worker.left ≠ []) :
    ∃ after next, worker.step c = some (after, next) := by
  cases worker with
  | missed gram left => exact ⟨_, _, rfl⟩
  | ready left =>
    cases left with
    | nil => exact absurd rfl h
    | cons gram left =>
      cases hprobe : c.probe? gram with
      | some after => exact ⟨after, .ready left, by simp [Worker.step, hprobe]⟩
      | none => exact ⟨c, .missed gram left, by simp [Worker.step, hprobe]⟩

namespace Counting

/--
The grams that are left to some worker.
-/
def left (s : Counting) : List Gram :=
  s.workers.flatMap Worker.left

/--
Each of the grams is either counted or left to a worker.
-/
structure Accounts (total : List Gram) (s : Counting) (counted : List Gram) : Prop where
  counts : s.counters.Counts counted
  all : (counted ++ s.left).Perm total

theorem exists_worker (hstep : s.step i = some t) :
    ∃ worker after next others, worker.step s.counters = some (after, next) ∧
      t.counters = after ∧ s.workers.Perm (worker :: others) ∧ t.workers.Perm (next :: others) := by
  unfold step at hstep
  cases hworker : s.workers[i]? with
  | none => simp [hworker] at hstep
  | some worker =>
    cases hnext : worker.step s.counters with
    | none => simp [hworker, hnext] at hstep
    | some result =>
      obtain ⟨after, next⟩ := result
      obtain ⟨hi, rfl⟩ := List.getElem?_eq_some_iff.1 hworker
      simp only [hworker, hnext, Option.bind_eq_bind, Option.bind_some, Option.pure_def,
        Option.some.injEq] at hstep
      subst hstep
      exact ⟨_, after, next, s.workers.eraseIdx i, hnext, rfl,
        (List.getElem_cons_eraseIdx_perm hi).symm, List.set_perm_cons_eraseIdx hi next⟩

theorem Accounts.step (h : Accounts total s counted) (hstep : s.step i = some t) :
    ∃ now, Accounts total t now := by
  obtain ⟨worker, after, next, others, hworker, rfl, hs, ht⟩ := exists_worker hstep
  obtain ⟨now, hnow, hperm⟩ := Worker.step_counts h.counts hworker
  refine ⟨now, hnow, ?_⟩
  have hleft : (counted ++ s.left).Perm (counted ++ worker.left ++ others.flatMap Worker.left) := by
    rw [List.append_assoc, ← List.flatMap_cons]
    exact (hs.flatMap_right _).append_left counted
  have hnext : (now ++ t.left).Perm (now ++ next.left ++ others.flatMap Worker.left) := by
    rw [List.append_assoc, ← List.flatMap_cons]
    exact (ht.flatMap_right _).append_left now
  exact hnext.trans ((hperm.append_right _).trans (hleft.symm.trans h.all))

theorem Accounts.run (h : Accounts total s counted) {order : List Nat}
    (hrun : s.run order = some t) : ∃ now, Accounts total t now := by
  induction order generalizing s counted with
  | nil =>
    cases hrun
    exact ⟨counted, h⟩
  | cons i order ih =>
    obtain ⟨middle, hstep, hrest⟩ := Option.bind_eq_some_iff.1 hrun
    obtain ⟨now, hnow⟩ := h.step hstep
    exact ih hnow hrest

theorem accounts_start (queues : List (List Gram)) : Accounts queues.flatten (start queues) [] := by
  refine ⟨Counters.counts_empty, ?_⟩
  rw [List.nil_append, left, start, List.flatMap_map]
  exact List.Perm.of_eq List.flatMap_id

theorem counts_of_run {queues : List (List Gram)} {order : List Nat}
    (hrun : (start queues).run order = some s) (hdone : s.Done) :
    s.counters.Counts queues.flatten := by
  obtain ⟨counted, hcounts, hall⟩ := (accounts_start queues).run hrun
  have hleft : s.left = [] := List.flatMap_eq_nil_iff.2 hdone
  rw [hleft, List.append_nil] at hall
  exact hcounts.perm hall

/--
A worker that is not done can take its next step whatever the others do, so every run can be brought
to an end.
-/
theorem exists_run_done (s : Counting) : ∃ order t, s.run order = some t ∧ t.Done := by
  generalize hwork : (s.workers.map Worker.work).sum = work
  induction work using Nat.strongRecOn generalizing s with
  | ind work ih =>
    by_cases hdone : s.Done
    · exact ⟨[], s, rfl, hdone⟩
    · simp only [Done, not_forall] at hdone
      obtain ⟨worker, hmem, hleft⟩ := hdone
      obtain ⟨i, hi, rfl⟩ := List.getElem_of_mem hmem
      obtain ⟨after, next, hnext⟩ := Worker.exists_step s.counters hleft
      have hstep : s.step i = some ⟨after, s.workers.set i next⟩ := by
        simp [step, hi, hnext]
      have hs := ((List.getElem_cons_eraseIdx_perm hi).map Worker.work).sum_nat
      have ht := ((List.set_perm_cons_eraseIdx hi next).map Worker.work).sum_nat
      have hlt := Worker.work_lt hnext
      rw [List.map_cons, List.sum_cons] at hs ht
      have hless : ((s.workers.set i next).map Worker.work).sum < work := by omega
      obtain ⟨order, t, hrun, hdone⟩ := ih _ hless ⟨after, s.workers.set i next⟩ rfl
      refine ⟨i :: order, t, ?_, hdone⟩
      rw [run, hstep]
      exact hrun

/--
However the steps of the workers come one after the other, every run can be brought to an end, and
what was counted at its end is what one worker counts: each gram once, in byte order, with all that
was to be counted of it.
-/
theorem run_counts (queues : List (List Gram)) (hfew : ∀ g, queues.flatten.count g < UInt32.size)
    {order : List Nat} (hrun : (start queues).run order = some s) :
    (∃ rest t, s.run rest = some t ∧ t.Done) ∧
    (s.Done →
      s.counters.intoSorted.Pairwise (fun a b => a.1 < b.1) ∧
      (∀ g n, (g, n) ∈ s.counters.intoSorted ↔
        g ∈ queues.flatten ∧ n.toNat = queues.flatten.count g) ∧
      s.counters.intoSorted = (Counters.empty.incrementAll queues.flatten).intoSorted ∧
      s.counters.intoSorted.map (fun (g, n) => (g, n.toNat)) =
        (Tally.empty.bumpAll queues.flatten).entries) := by
  refine ⟨exists_run_done s, ?_⟩
  intro hdone
  have hcounts := counts_of_run hrun hdone
  have hinTurn := Counters.counts_empty.incrementAll queues.flatten
  rw [List.append_nil] at hinTurn
  exact ⟨s.counters.sorted_intoSorted, hcounts.mem_intoSorted_iff hfew,
    hcounts.intoSorted_eq hinTurn, hcounts.map_intoSorted hfew⟩

/--
Both workers look for the first gram before either of them has inserted it.
-/
theorem run_counts_both_missed :
    let queues : List (List Gram) := [[[97]], [[97], [98]]]
    (∀ g, queues.flatten.count g < UInt32.size) ∧
    ∃ s, (start queues).run [0, 1, 1, 0, 1, 1] = some s ∧ s.Done ∧
      s.counters.intoSorted.Pairwise (fun a b => a.1 < b.1) ∧
      (∀ g n, (g, n) ∈ s.counters.intoSorted ↔
        g ∈ queues.flatten ∧ n.toNat = queues.flatten.count g) ∧
      s.counters.intoSorted = (Counters.empty.incrementAll queues.flatten).intoSorted ∧
      s.counters.intoSorted.map (fun (g, n) => (g, n.toNat)) =
        (Tally.empty.bumpAll queues.flatten).entries := by
  intro queues
  have hfew (g : Gram) : queues.flatten.count g < UInt32.size :=
    Nat.lt_of_le_of_lt List.count_le_length (by decide)
  let s : Counting := ⟨⟨[([97], 2), ([98], 1)], by decide⟩, [.ready [], .ready []]⟩
  have hrun : (start queues).run [0, 1, 1, 0, 1, 1] = some s := rfl
  have hdone : s.Done := by simp [Done, s, Worker.left]
  exact ⟨hfew, s, hrun, hdone, (run_counts queues hfew hrun).2 hdone⟩

end Counting

end Steps

end GramIndex
