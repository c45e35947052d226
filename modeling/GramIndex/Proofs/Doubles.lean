import GramIndex.Config.Json
import GramIndex.Proofs.JsonTexts

/-!
This module contains the written forms of doubles in JSON: a finite double is written as a number,
whose whole part has no leading zeros, and any other one as null.
-/

namespace GramIndex

namespace Decimal

open Json (Digits)
open Json.Number (fractionText exponentText)

variable {v : Binary} {d : Decimal} {cs : List Char}

section Reading

open Float.Model

/--
The exponent of a finite double is not the greatest one that its bits can hold.
-/
theorem isFinite_iff (x : Float) :
    x.isFinite = true ↔
      x.toBits.toNat / Nat.pow 2 fractionBits % Nat.pow 2 11 ≠ Nat.pow 2 11 - 1 := by
  have hbiased : (@UnpackedFloat.unpackExponent Format.binary64 x.toBits.toBitVec).toNat =
      x.toBits.toNat / Nat.pow 2 fractionBits % Nat.pow 2 11 := by
    simp [UnpackedFloat.unpackExponent, BitVec.extractLsb, BitVec.extractLsb',
      Nat.shiftRight_eq_div_pow, fractionBits]
  have hgreatest : @UnpackedFloat.unpackExponent Format.binary64 x.toBits.toBitVec = -1#_ ↔
      x.toBits.toNat / Nat.pow 2 fractionBits % Nat.pow 2 11 = Nat.pow 2 11 - 1 := by
    rw [← hbiased, ← BitVec.toNat_inj]
    rfl
  have hunpack : x.isFinite = (UnpackedFloat.unpack Format.binary64 x.toBits.toBitVec).isFinite :=
    rfl
  rw [hunpack, ne_eq, ← hgreatest]
  delta UnpackedFloat.unpack
  dsimp only
  by_cases hexponent : @UnpackedFloat.unpackExponent Format.binary64 x.toBits.toBitVec = -1#_
  · rw [if_pos hexponent]
    by_cases hmantissa : @UnpackedFloat.unpackMantissa Format.binary64 x.toBits.toBitVec = 0#_
    · rw [if_pos hmantissa]
      exact iff_of_false Bool.false_ne_true fun hne => hne hexponent
    · rw [if_neg hmantissa]
      exact iff_of_false Bool.false_ne_true fun hne => hne hexponent
  · rw [if_neg hexponent]
    by_cases hzero : @UnpackedFloat.unpackExponent Format.binary64 x.toBits.toBitVec = 0#_
    · rw [if_pos hzero]
      by_cases hmantissa : @UnpackedFloat.unpackMantissa Format.binary64 x.toBits.toBitVec = 0#_
      · rw [dif_pos hmantissa]
        exact iff_of_true rfl hexponent
      · rw [dif_neg hmantissa]
        exact iff_of_true rfl hexponent
    · rw [if_neg hzero]
      exact iff_of_true rfl hexponent

theorem ofFloat_of_isFinite {x : Float} (h : x.isFinite = true) :
    ∃ negative v, Reading.ofFloat x = .finite negative v := by
  rw [isFinite_iff, ne_eq] at h
  unfold Reading.ofFloat Reading.ofBits
  simp only [if_neg h]
  split
  · exact ⟨_, _, rfl⟩
  · exact ⟨_, _, rfl⟩

theorem ofFloat_of_not_isFinite {x : Float} (h : x.isFinite = false) :
    Reading.ofFloat x = .nan ∨ ∃ negative, Reading.ofFloat x = .infinite negative := by
  rw [← Bool.not_eq_true, isFinite_iff, ne_eq, Classical.not_not] at h
  unfold Reading.ofFloat Reading.ofBits
  simp only [if_pos h]
  split
  · exact .inr ⟨_, rfl⟩
  · exact .inl rfl

theorem isFinite_of_inUnit {x : Float} (hpos : 0 < x) (hle : x ≤ 1) : x.isFinite = true := by
  have hlt : (UnpackedFloat.zero .positive).lt x.toModel.unpack = true := of_decide_eq_true hpos
  have hle : x.toModel.unpack.le (.finite .positive (2 ^ 52) (-52) (by decide)) = true :=
    of_decide_eq_true hle
  have hfinite : x.isFinite = x.toModel.unpack.isFinite := rfl
  rw [hfinite]
  cases hx : x.toModel.unpack with
  | notANumber =>
    rw [hx] at hlt
    cases hlt
  | infinity s =>
    rw [hx] at hlt hle
    cases s with
    | positive => cases hle
    | negative => cases hlt
  | zero s => rfl
  | finite s m e hm => rfl

end Reading

section Digits

theorem digits_toDigits (n : Nat) : Digits (Nat.toDigits 10 n) :=
  ⟨Nat.toDigits_ne_nil, fun _ hc => Nat.isDigit_of_mem_toDigits (by decide) (by decide) hc⟩

/--
Only zero starts with a zero.
-/
theorem eq_zero_of_toDigits {n : Nat} (h : Nat.toDigits 10 n = '0' :: cs) : n = 0 := by
  induction n using Nat.strongRecOn generalizing cs with
  | ind n ih =>
    by_cases hn : n < 10
    · have hchar : ∀ m < 10, Nat.digitChar m = '0' → m = 0 := by decide
      rw [Nat.toDigits_of_lt_base hn] at h
      exact hchar n hn (List.cons.inj h).1
    · rw [Nat.toDigits_of_base_le (by decide) (Nat.not_lt.1 hn)] at h
      cases hdigits : Nat.toDigits 10 (n / 10) with
      | nil => exact absurd hdigits Nat.toDigits_ne_nil
      | cons c ds =>
        rw [hdigits] at h
        cases h
        have := ih (n / 10) (by omega) hdigits
        omega

theorem compareTo_zero (p : Int) {x : Nat} (e : Int) (hx : 0 < x) : compareTo 0 p x e = .lt := by
  unfold compareTo
  rw [Nat.zero_mul, Nat.zero_mul, Nat.compare_eq_lt]
  have htwo := Nat.pow_pos (a := 2) (n := e.toNat) (by decide)
  have hten := Nat.pow_pos (a := 10) (n := (-p).toNat) (by decide)
  exact Nat.mul_pos (Nat.mul_pos hx htwo) hten

theorem readsBack_zero (hv : v.mantissa ≠ 0) (p : Int) : readsBack v 0 p = false := by
  have hlow : 0 < 4 * v.mantissa - (if v.narrowBelow then 1 else 2) := by
    split <;> omega
  unfold readsBack
  simp only [compareTo_zero p (v.exponent - 2) hlow, Bool.false_and]

theorem coefficient_onGrid {tie : Tie} {p : Int} (hv : v.mantissa ≠ 0)
    (h : onGrid tie v p = some d) : d.coefficient ≠ 0 := by
  have hne (n : Nat) (hn : readsBack v n p = true) : n ≠ 0 := by
    rintro rfl
    rw [readsBack_zero hv] at hn
    cases hn
  unfold onGrid at h
  simp only at h
  split at h
  · cases h
  · next hn _ =>
    cases h
    exact hne _ hn
  · next hn =>
    cases h
    exact hne _ hn
  · next hn hsucc =>
    split at h
    · cases h
      exact hne _ hsucc
    · cases h
      exact hne _ hn
    · split at h
      · cases h
        exact hne _ hsucc
      · cases h
        split
        · exact hne _ hn
        · exact hne _ hsucc

theorem coefficient_trim {n : Nat} (h : n ≠ 0) (e : Int) : (trim n e).coefficient ≠ 0 := by
  fun_induction trim n e with
  | case1 n e hn ih => exact ih (by omega)
  | case2 n e hn => exact h

/--
The decimal of zero has no exponent.
-/
theorem exponent_shortest {tie : Tie} (h : (shortest tie v).coefficient = 0) :
    (shortest tie v).exponent = 0 := by
  unfold shortest at h ⊢
  simp only at h ⊢
  split at h
  · next hzero => rw [if_pos hzero]
  · next hv =>
    rw [if_neg hv]
    split at h
    · next d hfind =>
      obtain ⟨p, _, hgrid⟩ := List.exists_of_findSome?_eq_some hfind
      exact absurd h (coefficient_trim (coefficient_onGrid hv hgrid) _)
    · rfl

end Digits

section Layouts

/--
The text of a number without its sign.
-/
def IsMagnitude (cs : List Char) : Prop :=
  ∃ whole fraction exponent, cs = whole ++ (fractionText fraction ++ exponentText exponent) ∧
    ∀ negative, Json.Number.WellFormed ⟨negative, whole, fraction, exponent⟩

theorem isMagnitude_of (whole : List Char) (fraction : Option (List Char))
    (exponent : Option (Bool × List Char)) (hwhole : Digits whole)
    (hleading : ∀ rest, whole = '0' :: rest → rest = [])
    (hfraction : ∀ ds, fraction = some ds → Digits ds)
    (hexponent : ∀ negative ds, exponent = some (negative, ds) → Digits ds) :
    IsMagnitude (whole ++ (fractionText fraction ++ exponentText exponent)) :=
  ⟨whole, fraction, exponent, rfl, fun _ => ⟨hwhole, hleading, hfraction, hexponent⟩⟩

theorem digits_zero : Digits ['0'] := by
  refine ⟨List.cons_ne_nil _ _, ?_⟩
  intro c hc
  rw [List.mem_singleton.1 hc]
  rfl

theorem isDigit_of_mem_zeros {c : Char} {n : Nat} (hc : c ∈ zeros n) : c.isDigit = true := by
  rw [List.eq_of_mem_replicate hc]
  rfl

/--
A whole number has no leading zeros, with the zeros of its exponent behind it.
-/
theorem isMagnitude_whole (hd : d.coefficient = 0 → d.exponent = 0) :
    IsMagnitude (Nat.toDigits 10 d.coefficient ++ zeros d.exponent.toNat ++ ['.', '0']) := by
  have hdigits := digits_toDigits d.coefficient
  apply isMagnitude_of _ (some ['0']) none
  case hwhole =>
    refine ⟨List.append_ne_nil_of_left_ne_nil hdigits.nonempty _, ?_⟩
    intro c hc
    exact (List.mem_append.1 hc).elim (hdigits.digits c) isDigit_of_mem_zeros
  case hleading =>
    intro rest hrest
    cases hcoefficient : Nat.toDigits 10 d.coefficient with
    | nil => exact absurd hcoefficient hdigits.nonempty
    | cons c ds =>
      have hzero : d.coefficient = 0 := by
        rw [hcoefficient, List.cons_append] at hrest
        cases hrest
        exact eq_zero_of_toDigits hcoefficient
      rw [hzero, hd hzero] at hrest
      cases hrest
      rfl
  case hfraction =>
    rintro ds ⟨⟩
    exact digits_zero
  case hexponent =>
    rintro _ _ ⟨⟩

theorem isMagnitude_fraction {whole ds : List Char} (hwhole : Digits whole)
    (hleading : ∀ rest, whole = '0' :: rest → rest = []) (hds : Digits ds) :
    IsMagnitude (whole ++ '.' :: ds) := by
  have htext : whole ++ '.' :: ds = whole ++ (fractionText (some ds) ++ exponentText none) := by
    simp [fractionText, exponentText]
  rw [htext]
  apply isMagnitude_of whole (some ds) none hwhole hleading
  case hfraction =>
    rintro _ ⟨⟩
    exact hds
  case hexponent =>
    rintro _ _ ⟨⟩

theorem isMagnitude_split {n places : Nat} (hn : n ≠ 0) (hpos : 0 < places)
    (hplaces : places < (Nat.toDigits 10 n).length) :
    IsMagnitude ((Nat.toDigits 10 n).take ((Nat.toDigits 10 n).length - places) ++
      '.' :: (Nat.toDigits 10 n).drop ((Nat.toDigits 10 n).length - places)) := by
  have hdigits := (digits_toDigits n).digits
  apply isMagnitude_fraction
  case hwhole =>
    refine ⟨?_, fun c hc => hdigits c (List.mem_of_mem_take hc)⟩
    apply List.ne_nil_of_length_pos
    rw [List.length_take]
    omega
  case hleading =>
    intro rest hrest
    have hfirst := List.take_append_drop ((Nat.toDigits 10 n).length - places) (Nat.toDigits 10 n)
    rw [hrest, List.cons_append] at hfirst
    exact absurd (eq_zero_of_toDigits hfirst.symm) hn
  case hds =>
    refine ⟨?_, fun c hc => hdigits c (List.mem_of_mem_drop hc)⟩
    apply List.ne_nil_of_length_pos
    rw [List.length_drop]
    omega

theorem isMagnitude_below_one (n places : Nat) :
    IsMagnitude ('0' :: '.' :: (zeros places ++ Nat.toDigits 10 n)) := by
  have hdigits := digits_toDigits n
  apply isMagnitude_fraction digits_zero
  case hleading =>
    rintro _ ⟨⟩
    rfl
  case hds =>
    refine ⟨List.append_ne_nil_of_right_ne_nil _ hdigits.nonempty, ?_⟩
    intro c hc
    exact (List.mem_append.1 hc).elim isDigit_of_mem_zeros (hdigits.digits c)

theorem isMagnitude_positional (hd : d.coefficient = 0 → d.exponent = 0) :
    IsMagnitude (positional true d) := by
  unfold positional
  simp only [if_true]
  split
  · exact isMagnitude_whole hd
  · next hexponent =>
    have hnonzero : d.coefficient ≠ 0 := by
      intro hzero
      rw [hd hzero] at hexponent
      exact hexponent (Int.le_refl 0)
    split
    · next hplaces => exact isMagnitude_split hnonzero (by omega) hplaces
    · exact isMagnitude_below_one _ _

theorem isMagnitude_scientific (hd : d.coefficient ≠ 0) : IsMagnitude (scientific d) := by
  have hdigits := (digits_toDigits d.coefficient).digits
  unfold scientific
  cases hcoefficient : Nat.toDigits 10 d.coefficient with
  | nil => exact absurd hcoefficient Nat.toDigits_ne_nil
  | cons c rest =>
    rw [hcoefficient] at hdigits
    simp only [List.drop_succ_cons, List.drop_zero, List.take_succ_cons, List.take_zero]
    have hfraction : (if rest.isEmpty then [] else '.' :: rest) =
        fractionText (if rest.isEmpty then none else some rest) := by
      cases rest <;> rfl
    have hexponent (e : Int) : ('e' :: (if e < 0 then '-' else '+') :: Nat.toDigits 10 e.natAbs) =
        exponentText (some (decide (e < 0), Nat.toDigits 10 e.natAbs)) := by
      simp [exponentText]
    rw [hfraction, hexponent, List.append_assoc]
    apply isMagnitude_of
    case hwhole =>
      refine ⟨List.cons_ne_nil c [], ?_⟩
      intro b hb
      rw [List.mem_singleton.1 hb]
      exact hdigits c List.mem_cons_self
    case hleading =>
      intro _ hzero
      cases hzero
      exact absurd (eq_zero_of_toDigits hcoefficient) hd
    case hfraction =>
      intro ds hds
      cases rest with
      | nil => cases hds
      | cons b rest =>
        cases hds
        exact ⟨List.cons_ne_nil b rest, fun a ha => hdigits a (List.mem_cons_of_mem c ha)⟩
    case hexponent =>
      rintro _ _ ⟨⟩
      exact digits_toDigits _

theorem isMagnitude_magnitude (layout : Layout) (hwhole : layout.wholeFraction = true)
    (hd : d.coefficient = 0 → d.exponent = 0) : IsMagnitude (layout.magnitude d) := by
  unfold Layout.magnitude
  rw [hwhole]
  split
  · exact isMagnitude_positional hd
  · split
    · exact isMagnitude_positional hd
    · next hscientific =>
      apply isMagnitude_scientific
      simp only [Bool.or_eq_true, decide_eq_true_eq, not_or] at hscientific
      exact hscientific.1

end Layouts

end Decimal

namespace Config

open Decimal

/--
A finite double is written as a number.
-/
theorem exists_number_of_isFinite {x : Float} (h : x.isFinite = true) :
    ∃ n : Json.Number, n.WellFormed ∧ (jsonNumber.write x).toList = n.text := by
  obtain ⟨negative, v, hread⟩ := ofFloat_of_isFinite h
  have hmagnitude : IsMagnitude (jsonNumber.magnitude (shortest jsonNumber.tie v)) :=
    isMagnitude_magnitude jsonNumber rfl exponent_shortest
  obtain ⟨whole, fraction, exponent, hmagnitude, hwell⟩ := hmagnitude
  refine ⟨⟨negative, whole, fraction, exponent⟩, hwell negative, ?_⟩
  rw [Layout.write, hread, Json.Number.text, String.toList_ofList, hmagnitude]

theorem write_of_not_isFinite {x : Float} (h : x.isFinite = false) :
    jsonNumber.write x = "null" := by
  unfold Layout.write
  cases ofFloat_of_not_isFinite h with
  | inl hnan =>
    rw [hnan]
    rfl
  | inr hinfinite =>
    obtain ⟨negative, hinfinite⟩ := hinfinite
    rw [hinfinite]
    rfl

end Config

end GramIndex
