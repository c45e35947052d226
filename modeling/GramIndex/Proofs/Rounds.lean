import GramIndex.Proofs.ParallelSelection
import GramIndex.Proofs.SharedTallies
import GramIndex.Selection.Rounds

/-!
This module contains why counting in rounds selects the same keys: the counters of a round hold how
many records have each gram, so what they are sorted into is what a pass finds. It also ties the
tally of a pool of workers to the counters that the workers share.
-/

namespace GramIndex.Selector

variable {s : Selector} {records : List Gram}

section Visits

variable {wanted : Gram → Bool} {seen : Std.HashSet Gram} {grams : List Gram} {g : Gram}

theorem mem_visitNew :
    g ∈ (visitNew wanted seen grams).1 ↔ (g ∈ grams ∧ wanted g = true) ∧ g ∉ seen := by
  induction grams generalizing seen with
  | nil => simp [visitNew]
  | cons gram rest ih =>
    unfold visitNew
    split
    · next hnew =>
      rw [Bool.and_eq_true, Bool.not_eq_true', ← Bool.not_eq_true, Std.HashSet.contains_iff_mem]
        at hnew
      rw [List.mem_cons, ih, List.mem_cons, Std.HashSet.mem_insert, beq_iff_eq]
      grind
    · next hold =>
      rw [Bool.and_eq_true, Bool.not_eq_true', ← Bool.not_eq_true, Std.HashSet.contains_iff_mem]
        at hold
      rw [ih, List.mem_cons]
      grind

theorem nodup_visitNew : (visitNew wanted seen grams).1.Nodup := by
  induction grams generalizing seen with
  | nil => exact List.nodup_nil
  | cons gram rest ih =>
    unfold visitNew
    split
    · rw [List.nodup_cons, mem_visitNew]
      refine ⟨?_, ih⟩
      rintro ⟨_, hnot⟩
      exact hnot Std.HashSet.mem_insert_self
    · exact ih

theorem mem_visitExtensions {expand : List Gram} {k : Nat} (hk : 0 < k) {record : Gram} :
    g ∈ (visitExtensions (.ofList expand) k seen record).1 ↔
      (g.length = k ∧ g.dropLast ∈ expand) ∧ g <:+: record := by
  unfold visitExtensions cleared
  rw [mem_visitNew, Gram.mem_windows hk, decide_eq_true_iff, Std.HashSet.mem_ofList,
    List.contains_iff_mem, and_iff_left Std.HashSet.not_mem_empty, and_right_comm]

end Visits

section Counts

variable {σ : Type} {f : σ → Gram → σ} {visit : Gram → List Gram}

/--
A round over the records counts what each of them is visited for, whatever else it carries from one
record to the next.
-/
theorem counts_foldl (counters : σ → Counters) (records : List Gram)
    (hf : ∀ state record, counters (f state record) = (counters state).incrementAll (visit record))
    {state : σ} {counted : List Gram} (h : (counters state).Counts counted) :
    (counters (records.foldl f state)).Counts (records.flatMap visit ++ counted) := by
  induction records generalizing state counted with
  | nil => exact h
  | cons record records ih =>
    have hrecord : (counters (f state record)).Counts (visit record ++ counted) := by
      rw [hf]
      exact h.incrementAll (visit record)
    rw [List.foldl_cons, List.flatMap_cons]
    apply (ih hrecord).perm
    rw [← List.append_assoc]
    exact List.perm_append_comm.append_right counted

theorem counts_round (counters : σ → Counters)
    (hf : ∀ state record, counters (f state record) = (counters state).incrementAll (visit record))
    {state : σ} (h : counters state = .empty) :
    (counters (records.foldl f state)).Counts (records.flatMap visit) := by
  have hcounts := counts_foldl counters records hf (h ▸ Counters.counts_empty)
  rw [List.append_nil] at hcounts
  exact hcounts

theorem counts_unigrams (records : List Gram) :
    (countUniBigrams records).1.Counts
      (records.flatMap fun record => (record.map fun b => [b]).eraseDups) :=
  counts_round Prod.fst (fun _ _ => rfl) rfl

theorem counts_bigrams (records : List Gram) :
    (countUniBigrams records).2.Counts
      (records.flatMap fun record => (record.windows 2).eraseDups) :=
  counts_round Prod.snd (fun _ _ => rfl) rfl

/--
What was seen in the records before plays no part.
-/
theorem counts_countExtensions (records : List Gram) (expand : Std.HashSet Gram) (k : Nat) :
    (countExtensions records expand k).Counts
      (records.flatMap fun record => (visitExtensions expand k ∅ record).1) :=
  counts_round Prod.fst (fun _ _ => rfl) rfl

variable {c : Counters} {traversal : Traversal} {p : Gram → Prop} [DecidablePred p]
  {keep : Gram → Bool} {expand : List Gram} {k : Nat}

/--
Counters of the grams that each record is visited for sort into what a pass has to find, if the
grams that are visited and kept are the extensions. There are too few records for a counter to start
anew.
-/
theorem sorts_splitCounters (hsize : records.length < UInt32.size)
    (hcounts : c.Counts (records.flatMap visit)) (hnodup : ∀ record, (visit record).Nodup)
    (hmem : ∀ record g, g ∈ visit record ↔ p g ∧ g <:+: record)
    (hwanted : ∀ g, p g ∧ keep g = true ↔ g.length = k ∧ g.dropLast ∈ expand) :
    s.Sorts records k expand (s.splitCounters records.length traversal keep c) := by
  apply sorts_split
  intro g n
  have hfrequency : (records.flatMap visit).count g = if p g then frequency records g else 0 :=
    count_flatMap hnodup hmem g
  have hle : frequency records g ≤ records.length := List.countP_le_length
  have hentries (m : UInt32) : (g, m) ∈ traversal.order c.entries ↔ (g, m) ∈ c.entries :=
    (traversal.perm c.entries).mem_iff
  rw [← hwanted, List.mem_map]
  constructor
  · rintro ⟨⟨g', m⟩, hentry, heq⟩
    cases heq
    rw [List.mem_filter, hentries, hcounts] at hentry
    obtain ⟨⟨hg, rfl⟩, hkeep⟩ := hentry
    have hpos := List.count_pos_iff.2 hg
    have hp : p g := by
      apply Decidable.byContradiction
      intro hp
      rw [hfrequency, if_neg hp] at hpos
      omega
    rw [if_pos hp] at hfrequency
    rw [hfrequency] at hpos
    rw [hfrequency, UInt32.toNat_ofNat_of_lt' (by omega)]
    exact ⟨⟨hp, hkeep⟩, hpos, rfl⟩
  · rintro ⟨⟨hp, hkeep⟩, hpos, rfl⟩
    rw [if_pos hp] at hfrequency
    refine ⟨(g, .ofNat (frequency records g)), ?_, ?_⟩
    · rw [List.mem_filter, hentries, hcounts]
      refine ⟨⟨List.count_pos_iff.1 (by omega), by rw [hfrequency]⟩, hkeep⟩
    · simp only [UInt32.toNat_ofNat_of_lt' (show frequency records g < UInt32.size by omega)]

end Counts

section Rounds

variable {expand : List Gram} {k : Nat} {unigrams : Split}

theorem sorts_unigrams (traversal : Traversal) (hsize : records.length < UInt32.size) :
    s.Sorts records 1 [[]]
      (s.splitCounters records.length traversal (fun _ => true) (countUniBigrams records).1) := by
  apply sorts_splitCounters (p := fun g => g.length = 1) hsize (counts_unigrams records)
  · intro record
    exact Gram.nodup_eraseDups _
  · intro record g
    rw [List.mem_eraseDups, List.mem_map]
    constructor
    · rintro ⟨b, hb, rfl⟩
      exact ⟨rfl, (List.singleton_infix_iff b record).2 hb⟩
    · rintro ⟨hlen, hin⟩
      obtain ⟨b, rfl⟩ := List.length_eq_one_iff.1 hlen
      exact ⟨b, (List.singleton_infix_iff b record).1 hin, rfl⟩
  · intro g
    constructor
    · rintro ⟨hlen, _⟩
      obtain ⟨b, rfl⟩ := List.length_eq_one_iff.1 hlen
      simp
    · rintro ⟨hlen, _⟩
      exact ⟨hlen, rfl⟩

/--
A pair extends a byte that is to be extended if its first byte is the start of one of these.
-/
theorem sorts_bigrams (traversal : Traversal) (hsize : records.length < UInt32.size)
    (hunigrams : s.Sorts records 1 [[]] unigrams) :
    s.Sorts records 2 unigrams.expand
      (s.splitCounters records.length traversal
        (·.head?.any (unigrams.expand.filterMap List.head?).contains)
        (countUniBigrams records).2) := by
  apply sorts_splitCounters (p := fun g => g.length = 2) hsize (counts_bigrams records)
  · intro record
    exact Gram.nodup_eraseDups _
  · intro record g
    rw [List.mem_eraseDups, Gram.mem_windows (by omega)]
  · intro g
    apply and_congr_right
    intro hlen
    obtain ⟨a, b, rfl⟩ := List.length_eq_two.1 hlen
    simp only [List.head?_cons, Option.any_some, List.contains_iff_mem, List.mem_filterMap,
      List.dropLast_cons_cons, List.dropLast_singleton]
    constructor
    · rintro ⟨g, hg, hhead⟩
      obtain ⟨c, rfl⟩ := List.length_eq_one_iff.1 ((hunigrams.mem_expand g).1 hg).1.1
      cases hhead
      exact hg
    · intro hmem
      exact ⟨[a], hmem, rfl⟩

theorem sorts_extensions (traversal : Traversal) (hsize : records.length < UInt32.size)
    (hk : 0 < k) :
    s.Sorts records k expand
      (s.splitCounters records.length traversal (fun _ => true)
        (countExtensions records (.ofList expand) k)) := by
  apply sorts_splitCounters (p := fun g => g.length = k ∧ g.dropLast ∈ expand) hsize
    (counts_countExtensions records (.ofList expand) k)
  · intro record
    exact nodup_visitNew
  · intro record g
    exact mem_visitExtensions hk
  · intro g
    simp

/--
The first round completes the keys of one byte and of two, and what it leaves to extend is what
growth goes on from, if it goes on at all.
-/
theorem firstPass_spec (hupper : 1 ≤ s.upperK) (hunigrams : s.Sorts records 1 [[]] unigrams)
    (sortBigrams : (UInt8 → Bool) → Split)
    (hbigrams : s.Sorts records 2 unigrams.expand
      (sortBigrams (unigrams.expand.filterMap List.head?).contains)) :
    (∀ g, g ∈ (s.firstPass unigrams sortBigrams).1 ↔
      s.FirstSelective records g ∧ g.length < 3) ∧
    (3 ≤ s.upperK → s.Frontier records 3 (s.firstPass unigrams sortBigrams).2) := by
  have hfrontier := frontier_one.next Nat.one_pos hunigrams
  have hkeys (g : Gram) : g ∈ KeySet.ofList unigrams.keys ↔
      s.FirstSelective records g ∧ g.length = 1 := by
    rw [KeySet.mem_ofList]
    exact frontier_one.mem_keys Nat.one_pos hupper hunigrams
  have hpos {g : Gram} (hfirst : s.FirstSelective records g) : 0 < g.length :=
    List.length_pos_of_ne_nil hfirst.ne_nil
  unfold firstPass
  split
  · next hmore =>
    refine ⟨?_, fun _ => hfrontier.next (by omega) hbigrams⟩
    intro g
    rw [KeySet.mem_insertAll, hkeys, hfrontier.mem_keys (by omega) hmore.1 hbigrams, ← and_or_left]
    apply and_congr_right
    intro hfirst
    have := hpos hfirst
    omega
  · next hstop =>
    constructor
    · intro g
      rw [hkeys]
      apply and_congr_right
      intro hfirst
      have := hpos hfirst
      constructor
      · omega
      · intro _
        by_cases hnil : unigrams.expand = []
        · rw [hnil] at hfrontier
          have := hfrontier.length_lt_of_nil (by omega) hfirst
          omega
        · have := hfirst.length_le
          have : ¬ 2 ≤ s.upperK := fun hle => hstop ⟨hle, hnil⟩
          omega
    · intro hlong
      have hnil : unigrams.expand = [] := by
        apply Decidable.byContradiction
        intro hnil
        exact hstop ⟨by omega, hnil⟩
      rw [hnil] at hfrontier hbigrams
      -- Where there is nothing to extend, there is nothing to extend at the next length.
      have hnext : s.Sorts records 2 [] ⟨[], []⟩ := by
        constructor
        · simp
        · simp
      exact hfrontier.next (by omega) hnext

/--
Growth from length three on completes the keys that a first round has found.
-/
theorem mem_grow_three {step : Nat → List Gram → Split} {keys : KeySet}
    (hstep : ∀ k expand, 0 < k → s.Sorts records k expand (step k expand))
    (hkeys : ∀ g, g ∈ keys ↔ s.FirstSelective records g ∧ g.length < 3)
    (hfrontier : 3 ≤ s.upperK → s.Frontier records 3 expand) {g : Gram} :
    g ∈ s.grow step 3 keys expand ↔ s.FirstSelective records g ∧ s.HasRoom records g := by
  by_cases hlong : 3 ≤ s.upperK
  · rw [mem_grow hstep (by omega) hkeys (hfrontier hlong)]
    apply and_congr_right
    intro _
    apply or_iff_right_of_imp
    intro hshort
    exact .inl (by omega)
  · rw [grow, if_neg (fun h => hlong h.1), hkeys]
    apply and_congr_right
    intro hfirst
    have := hfirst.length_le
    exact iff_of_true (by omega) (.inl (by omega))

/--
Counting in rounds with counters of 32 bits selects the keys that `select` does, in whatever order
the counters are gone through.
-/
theorem selectInRounds_eq_select (hupper : 1 ≤ s.upperK) (hsize : records.length < UInt32.size)
    (traversal : Traversal) : s.selectInRounds traversal records = s.select records := by
  unfold selectInRounds
  split
  · next hempty =>
    rw [List.isEmpty_iff.1 hempty]
    apply KeySet.ext
    intro g
    apply iff_of_false KeySet.mem_empty
    intro hg
    obtain ⟨record, hrecord, _⟩ := (firstSelective_of_mem_select hg).occurs
    cases hrecord
  · unfold select
    apply congrArg s.refine
    apply KeySet.ext
    intro g
    have hunigrams := sorts_unigrams (s := s) traversal hsize
    obtain ⟨hkeys, hfrontier⟩ := firstPass_spec hupper hunigrams
      (fun isHead => s.splitCounters records.length traversal (·.head?.any isHead)
        (countUniBigrams records).2)
      (sorts_bigrams traversal hsize hunigrams)
    rw [mem_grow_start fun _ _ hk => sorts_pass hk]
    exact mem_grow_three (fun _ _ hk => sorts_extensions traversal hsize hk) hkeys hfrontier

end Rounds

/--
The tally of a pool of workers has what the workers leave in the counters that they share, however
their steps come one after the other.
-/
theorem entries_countSharded {pool : Pool} {visit : Gram → List Gram} {order : List Nat}
    {counting : Counting} (arrival : Arrival) (hnodup : ∀ record, (visit record).Nodup)
    (hsize : records.length < UInt32.size)
    (hrun : (Counting.start (pool.mapShards records.length fun shard =>
      (shard.slice records).flatMap visit)).run order = some counting)
    (hdone : counting.Done) :
    counting.counters.intoSorted.map (fun (g, n) => (g, n.toNat)) =
      (countSharded records pool arrival visit).entries := by
  have hcounts := Counting.counts_of_run hrun hdone
  rw [pool.flatten_flatMap_slice] at hcounts
  have hfew (g : Gram) : (records.flatMap visit).count g < UInt32.size :=
    Nat.lt_of_le_of_lt (count_flatMap_le hnodup g) hsize
  rw [hcounts.map_intoSorted hfew]
  apply congrArg Tally.entries
  exact (Tally.counts_bumpAll_empty _).unique (counts_countSharded arrival)

end GramIndex.Selector
