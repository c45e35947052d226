import GramIndex.Plan

/-!
This module contains what plans mean under the rewrites of plans: filling in literals, joining plans
and removing null nodes.
-/

namespace GramIndex.Plan

variable {α β : Type} {P Q : α → Prop} {p : Plan α}

theorem holds_congr (h : ∀ a, P a ↔ Q a) : p.Holds P ↔ p.Holds Q := by
  induction p with
  | and l r ihl ihr => simp only [Holds, ihl, ihr]
  | or l r ihl ihr => simp only [Holds, ihl, ihr]
  | literal a => exact h a
  | null => rfl

theorem Holds.mono (hp : p.Holds P) (h : ∀ a, P a → Q a) : p.Holds Q := by
  induction p with
  | and l r ihl ihr => exact ⟨ihl hp.1, ihr hp.2⟩
  | or l r ihl ihr => exact hp.imp ihl ihr
  | literal a => exact h a hp
  | null => exact hp

theorem holds_expand {f : β → Plan α} {p : Plan β} :
    (p.expand f).Holds P ↔ p.Holds fun b => (f b).Holds P := by
  induction p with
  | and l r ihl ihr => simp only [expand, Holds, ihl, ihr]
  | or l r ihl ihr => simp only [expand, Holds, ihl, ihr]
  | literal b => rfl
  | null => rfl

theorem expand_all {f : α → Plan β} {ps : List (Plan α)} :
    (all ps).expand f = all (ps.map (expand f)) := by
  cases ps with
  | nil => rfl
  | cons p ps =>
    rw [all, List.map_cons, all, List.foldl_map]
    exact (List.foldl_hom (expand f) fun _ _ => rfl).symm

theorem expand_any {f : α → Plan β} {ps : List (Plan α)} :
    (any ps).expand f = any (ps.map (expand f)) := by
  cases ps with
  | nil => rfl
  | cons p ps =>
    rw [any, List.map_cons, any, List.foldl_map]
    exact (List.foldl_hom (expand f) fun _ _ => rfl).symm

theorem literals_expand {f : β → Plan α} {p : Plan β} :
    (p.expand f).literals = p.literals.flatMap fun b => (f b).literals := by
  induction p with
  | and l r ihl ihr => simp [expand, ihl, ihr]
  | or l r ihl ihr => simp [expand, ihl, ihr]
  | literal b => simp [expand]
  | null => rfl

theorem holds_foldl_and {first : Plan α} {ps : List (Plan α)} :
    (ps.foldl .and first).Holds P ↔ first.Holds P ∧ ∀ p ∈ ps, p.Holds P := by
  induction ps generalizing first with
  | nil => simp
  | cons p ps ih =>
    rw [List.foldl_cons, ih]
    simp [Holds, and_assoc]

theorem holds_all {ps : List (Plan α)} : (all ps).Holds P ↔ ∀ p ∈ ps, p.Holds P := by
  cases ps with
  | nil => simp [all, Holds]
  | cons p ps =>
    rw [all, holds_foldl_and]
    simp

theorem holds_foldl_or {first : Plan α} {ps : List (Plan α)} :
    (ps.foldl .or first).Holds P ↔ first.Holds P ∨ ∃ p ∈ ps, p.Holds P := by
  induction ps generalizing first with
  | nil => simp
  | cons p ps ih =>
    rw [List.foldl_cons, ih]
    simp [Holds, or_assoc]

theorem holds_any {first : Plan α} {ps : List (Plan α)} :
    (any (first :: ps)).Holds P ↔ ∃ p ∈ first :: ps, p.Holds P := by
  rw [any, holds_foldl_or]
  simp

theorem Holds.any {ps : List (Plan α)} (hmem : p ∈ ps) (hp : p.Holds P) :
    (Plan.any ps).Holds P := by
  cases ps with
  | nil => simp at hmem
  | cons first ps => exact holds_any.2 ⟨p, hmem, hp⟩

theorem literals_foldl_and {first : Plan α} {ps : List (Plan α)} :
    (ps.foldl .and first).literals = first.literals ++ ps.flatMap literals := by
  induction ps generalizing first with
  | nil => simp
  | cons p ps ih =>
    rw [List.foldl_cons, ih]
    simp

theorem literals_all {ps : List (Plan α)} : (all ps).literals = ps.flatMap literals := by
  cases ps with
  | nil => rfl
  | cons p ps => rw [all, literals_foldl_and, List.flatMap_cons]

theorem literals_foldl_or {first : Plan α} {ps : List (Plan α)} :
    (ps.foldl .or first).literals = first.literals ++ ps.flatMap literals := by
  induction ps generalizing first with
  | nil => simp
  | cons p ps ih =>
    rw [List.foldl_cons, ih]
    simp

theorem literals_any {ps : List (Plan α)} : (any ps).literals = ps.flatMap literals := by
  cases ps with
  | nil => rfl
  | cons p ps => rw [any, literals_foldl_or, List.flatMap_cons]

/--
The sizes of plans in a row, each with a junction to the others.
-/
def weight : List (Plan α) → Nat
  | [] => 0
  | p :: ps => p.size + 1 + weight ps

theorem weight_append (ps qs : List (Plan α)) : weight (ps ++ qs) = weight ps + weight qs := by
  induction ps with
  | nil => exact (Nat.zero_add _).symm
  | cons p ps ih =>
    rw [List.cons_append, weight, weight, ih]
    omega

theorem size_foldl_and {first : Plan α} {ps : List (Plan α)} :
    (ps.foldl .and first).size = first.size + weight ps := by
  induction ps generalizing first with
  | nil => rfl
  | cons p ps ih =>
    rw [List.foldl_cons, ih, size, weight]
    omega

theorem size_all_le {ps : List (Plan α)} : (all ps).size ≤ weight ps + 1 := by
  cases ps with
  | nil => exact Nat.le_refl 1
  | cons p ps =>
    rw [all, size_foldl_and, weight]
    omega

theorem size_foldl_or {first : Plan α} {ps : List (Plan α)} :
    (ps.foldl .or first).size = first.size + weight ps := by
  induction ps generalizing first with
  | nil => rfl
  | cons p ps ih =>
    rw [List.foldl_cons, ih, size, weight]
    omega

theorem size_any {ps : List (Plan α)} (h : ps ≠ []) : (any ps).size + 1 = weight ps := by
  cases ps with
  | nil => exact absurd rfl h
  | cons p ps =>
    rw [any, size_foldl_or, weight]
    omega

theorem size_expand {f : α → Plan β} (h : ∀ a, (f a).size = 1) : (p.expand f).size = p.size := by
  induction p with
  | and l r ihl ihr => rw [expand, size, size, ihl, ihr]
  | or l r ihl ihr => rw [expand, size, size, ihl, ihr]
  | literal a => exact h a
  | null => rfl

def NullFree : Plan α → Prop
  | .and l r => l.NullFree ∧ r.NullFree
  | .or l r => l.NullFree ∧ r.NullFree
  | .literal _ => True
  | .null => False

theorem isNull_iff : p.isNull = true ↔ p = .null := by
  cases p with
  | null => simp [isNull]
  | _ => simp [isNull]

theorem propagateNulls_and (l r : Plan α) :
    (Plan.and l r).propagateNulls =
      if l.propagateNulls.isNull then r.propagateNulls
      else if r.propagateNulls.isNull then l.propagateNulls
      else .and l.propagateNulls r.propagateNulls := rfl

theorem propagateNulls_or (l r : Plan α) :
    (Plan.or l r).propagateNulls =
      if l.propagateNulls.isNull || r.propagateNulls.isNull then .null
      else .or l.propagateNulls r.propagateNulls := rfl

theorem propagateNulls_eq_null_or_nullFree (p : Plan α) :
    p.propagateNulls = .null ∨ p.propagateNulls.NullFree := by
  induction p with
  | and l r ihl ihr =>
    rw [propagateNulls_and]
    split
    · exact ihr
    · next hl =>
      split
      · exact ihl
      · next hr =>
        rw [isNull_iff] at hl hr
        exact .inr ⟨ihl.resolve_left hl, ihr.resolve_left hr⟩
  | or l r ihl ihr =>
    rw [propagateNulls_or]
    split
    · exact .inl rfl
    · next h =>
      simp only [Bool.or_eq_true, isNull_iff, not_or] at h
      exact .inr ⟨ihl.resolve_left h.1, ihr.resolve_left h.2⟩
  | literal a => exact .inr trivial
  | null => exact .inl rfl

theorem NullFree.exists_of_holds (hp : p.NullFree) (h : p.Holds P) : ∃ a ∈ p.literals, P a := by
  induction p with
  | and l r ihl _ =>
    obtain ⟨a, ha, hP⟩ := ihl hp.1 h.1
    exact ⟨a, by simp [ha], hP⟩
  | or l r ihl ihr =>
    cases h with
    | inl h =>
      obtain ⟨a, ha, hP⟩ := ihl hp.1 h
      exact ⟨a, by simp [ha], hP⟩
    | inr h =>
      obtain ⟨a, ha, hP⟩ := ihr hp.2 h
      exact ⟨a, by simp [ha], hP⟩
  | literal a => exact ⟨a, by simp, h⟩
  | null => cases hp

theorem NullFree.literals_ne_nil (h : p.NullFree) : p.literals ≠ [] := by
  induction p with
  | and l r ihl _ =>
    rw [literals_and]
    exact List.append_ne_nil_of_left_ne_nil (ihl h.1) _
  | or l r ihl _ =>
    rw [literals_or]
    exact List.append_ne_nil_of_left_ne_nil (ihl h.1) _
  | literal a => apply List.cons_ne_nil
  | null => cases h

theorem holds_propagateNulls : p.propagateNulls.Holds P ↔ p.Holds P := by
  induction p with
  | and l r ihl ihr =>
    rw [propagateNulls_and]
    split
    · next hl =>
      rw [isNull_iff] at hl
      rw [hl] at ihl
      simp only [Holds, true_iff] at ihl ⊢
      simp [ihl, ihr]
    · split
      · next hr =>
        rw [isNull_iff] at hr
        rw [hr] at ihr
        simp only [Holds, true_iff] at ihr ⊢
        simp [ihl, ihr]
      · simp only [Holds, ihl, ihr]
  | or l r ihl ihr =>
    rw [propagateNulls_or]
    split
    · next h =>
      -- Any text satisfies the null side, and so the disjunction.
      simp only [Bool.or_eq_true, isNull_iff] at h
      cases h with
      | inl hl =>
        rw [hl] at ihl
        simp only [Holds, true_iff] at ihl ⊢
        exact .inl ihl
      | inr hr =>
        rw [hr] at ihr
        simp only [Holds, true_iff] at ihr ⊢
        exact .inr ihr
    · simp only [Holds, ihl, ihr]
  | literal a => rfl
  | null => rfl

theorem NullFree.isNull_eq_false (h : p.NullFree) : p.isNull = false := by
  cases p with
  | null => cases h
  | _ => rfl

theorem NullFree.propagateNulls_eq (h : p.NullFree) : p.propagateNulls = p := by
  induction p with
  | and l r ihl ihr =>
    rw [propagateNulls_and, ihl h.1, ihr h.2, h.1.isNull_eq_false, h.2.isNull_eq_false]
    simp
  | or l r ihl ihr =>
    rw [propagateNulls_or, ihl h.1, ihr h.2, h.1.isNull_eq_false, h.2.isNull_eq_false]
    simp
  | literal a => rfl
  | null => cases h

theorem propagateNulls_propagateNulls (p : Plan α) :
    p.propagateNulls.propagateNulls = p.propagateNulls := by
  cases propagateNulls_eq_null_or_nullFree p with
  | inl hnull =>
    rw [hnull]
    rfl
  | inr hfree => apply hfree.propagateNulls_eq

/--
A null side of a conjunction has no literals, so that none is dropped with it.
-/
theorem literals_propagateNulls_and (l r : Plan α) :
    (Plan.and l r).propagateNulls.literals =
      l.propagateNulls.literals ++ r.propagateNulls.literals := by
  rw [propagateNulls_and]
  split
  · next hl =>
    rw [isNull_iff] at hl
    rw [hl, literals_null, List.nil_append]
  · split
    · next hr =>
      rw [isNull_iff] at hr
      rw [hr, literals_null, List.append_nil]
    · rw [literals_and]

theorem literals_propagateNulls_sublist (p : Plan α) :
    p.propagateNulls.literals.Sublist p.literals := by
  induction p with
  | and l r ihl ihr =>
    rw [literals_propagateNulls_and, literals_and]
    exact ihl.append ihr
  | or l r ihl ihr =>
    rw [propagateNulls_or, literals_or]
    split
    · apply List.nil_sublist
    · rw [literals_or]
      exact ihl.append ihr
  | literal a => apply List.Sublist.refl
  | null => apply List.Sublist.refl

theorem mem_of_mem_literals_propagateNulls {a : α} (h : a ∈ p.propagateNulls.literals) :
    a ∈ p.literals :=
  (literals_propagateNulls_sublist p).subset h

/--
A plan that says nothing, given which literals say nothing: a conjunction if both sides say nothing,
a disjunction if one side does.
-/
def Silent (s : α → Prop) : Plan α → Prop
  | .and l r => l.Silent s ∧ r.Silent s
  | .or l r => l.Silent s ∨ r.Silent s
  | .literal a => s a
  | .null => True

/--
What says nothing is put together like what holds, with silence of the literals for what they say.
-/
theorem silent_iff_holds {s : α → Prop} : p.Silent s ↔ p.Holds s := by
  induction p with
  | and l r ihl ihr => simp only [Silent, Holds, ihl, ihr]
  | or l r ihl ihr => simp only [Silent, Holds, ihl, ihr]
  | literal a => rfl
  | null => rfl

theorem Silent.holds {s : α → Prop} (hp : p.Silent s) (h : ∀ a, s a → P a) : p.Holds P :=
  (silent_iff_holds.1 hp).mono h

theorem Silent.mono {s t : α → Prop} (hp : p.Silent s) (h : ∀ a, s a → t a) : p.Silent t :=
  silent_iff_holds.2 (hp.holds h)

theorem silent_congr {s t : α → Prop} (h : ∀ a, s a ↔ t a) : p.Silent s ↔ p.Silent t :=
  ⟨fun hp => hp.mono fun a => (h a).1, fun hp => hp.mono fun a => (h a).2⟩

theorem silent_expand {s : α → Prop} {f : β → Plan α} {p : Plan β} :
    (p.expand f).Silent s ↔ p.Silent fun b => (f b).Silent s := by
  simp only [silent_iff_holds, holds_expand]

theorem silent_all {s : α → Prop} {ps : List (Plan α)} :
    (all ps).Silent s ↔ ∀ p ∈ ps, p.Silent s := by
  simp only [silent_iff_holds, holds_all]

theorem silent_propagateNulls {s : α → Prop} : p.propagateNulls.Silent s ↔ p.Silent s := by
  simp only [silent_iff_holds, holds_propagateNulls]

/--
What is left of a plan without its null nodes says nothing exactly when the plan does, where no
literal goes unsaid.
-/
theorem propagateNulls_eq_null_iff : p.propagateNulls = .null ↔ p.Silent fun _ => False := by
  induction p with
  | and l r ihl ihr =>
    rw [propagateNulls_and, Silent, ← ihl, ← ihr]
    split
    · next hl =>
      rw [isNull_iff] at hl
      simp [hl]
    · next hl =>
      rw [isNull_iff] at hl
      split
      · simp [hl]
      · simp [hl]
  | or l r ihl ihr =>
    rw [propagateNulls_or, Silent, ← ihl, ← ihr]
    split
    · next h =>
      simp only [Bool.or_eq_true, isNull_iff] at h
      simp [h]
    · next h =>
      simp only [Bool.or_eq_true, isNull_iff] at h
      simp [h]
  | literal a => simp [propagateNulls, Silent]
  | null => simp [propagateNulls, Silent]

end GramIndex.Plan
