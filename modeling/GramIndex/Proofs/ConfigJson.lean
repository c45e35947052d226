import GramIndex.Proofs.Doubles

/-!
This module contains what is read back from the JSON form of a configuration: whichever members are
written, and in whichever order, they have their values and the others their defaults, and no
configuration gets past its validation.
-/

namespace GramIndex.Config

open Json (Digits)
open Json.Value (Scalar Entry)

variable {c : Config} {members : List Member}

/--
The configuration with the given members replaced by those of another one.
-/
def overlay (base c : Config) (members : List Member) : Config where
  threshold := if .threshold ∈ members then c.threshold else base.threshold
  upperK := if .upperK ∈ members then c.upperK else base.upperK
  threads := if .threads ∈ members then c.threads else base.threads
  suffixFree := if .suffixFree ∈ members then c.suffixFree else base.suffixFree
  maxKeys := if .maxKeys ∈ members then c.maxKeys else base.maxKeys

theorem overlay_cons (base c : Config) (m : Member) (members : List Member) :
    (base.overlay c [m]).overlay c members = base.overlay c (m :: members) := by
  simp only [overlay, List.mem_cons, List.not_mem_nil, or_false]
  congr 1 <;> grind

theorem overlay_all (base c : Config) : base.overlay c Member.all = c := rfl

/--
The double that a text is the number of.
-/
def readDouble? (text : String) : Option Float :=
  match Json.Value.read? text with
  | some (.number n) => n.toDouble?
  | _ => none

section Values

theorem toUInt64?_toDigits (n : UInt64) :
    Json.Number.toUInt64? ⟨false, Nat.toDigits 10 n.toNat, none, none⟩ = some n := by
  have hvalue : Json.Number.digitsToNat (Nat.toDigits 10 n.toNat) = n.toNat :=
    Nat.ofDigitChars_ten_toDigits
  unfold Json.Number.toUInt64?
  simp only [hvalue]
  rw [if_pos n.toNat_lt, UInt64.ofNat_toNat]

theorem wellFormed_toDigits (n : Nat) :
    Json.Number.WellFormed ⟨false, Nat.toDigits 10 n, none, none⟩ where
  whole := Decimal.digits_toDigits n
  leading := by
    intro rest hrest
    simp only at hrest
    rw [Decimal.eq_zero_of_toDigits hrest] at hrest
    cases hrest
    rfl
  fraction := by rintro _ ⟨⟩
  exponent := by rintro _ _ ⟨⟩

theorem scalar_toString (n : Nat) :
    Scalar (toString n).toList (.number ⟨false, Nat.toDigits 10 n, none, none⟩) := by
  have hscalar := Json.Value.scalar_number (wellFormed_toDigits n)
  have htext : (toString n).toList =
      Json.Number.text ⟨false, Nat.toDigits 10 n, none, none⟩ := by
    simp [Json.Number.text, Json.Number.fractionText, Json.Number.exponentText]
  rw [htext]
  exact hscalar

/--
Each member is written as one value, and set to what it was from that value. Only a threshold that
is not finite is not, which is not written as a number.
-/
theorem exists_value (c : Config) (m : Member) :
    ∃ v, Scalar (c.memberText m).toList v ∧
      ((m = .threshold → c.threshold.isFinite = true ∧
          readDouble? (jsonNumber.write c.threshold) = some c.threshold) →
        ∀ base : Config, base.set? m v = some (base.overlay c [m])) ∧
      (m = .threshold → c.threshold.isFinite = false →
        ∀ base : Config, base.set? m v = none) := by
  cases m with
  | threshold =>
    cases hfinite : c.threshold.isFinite with
    | true =>
      obtain ⟨n, hn, htext⟩ := exists_number_of_isFinite hfinite
      have hscalar : Scalar (c.memberText .threshold).toList (.number n) := by
        rw [memberText, htext]
        exact Json.Value.scalar_number hn
      refine ⟨.number n, hscalar, ?_, ?_⟩
      · intro h base
        have hreads := (h rfl).2
        have hnumber : Json.Value.read? (jsonNumber.write c.threshold) = some (.number n) :=
          Json.Value.readFrom_scalar hscalar
        rw [readDouble?, hnumber] at hreads
        simp only at hreads
        rw [set?, hreads]
        rfl
      · intro _ h
        cases h
    | false =>
      refine ⟨.null, ?_, ?_, ?_⟩
      · rw [memberText, write_of_not_isFinite hfinite]
        exact Json.Value.scalar_null
      · intro h
        cases (h rfl).1
      · intro _ _ base
        rfl
  | upperK =>
    refine ⟨_, scalar_toString c.upperK.toNat, ?_, ?_⟩
    · intro _ base
      rw [set?, toUInt64?_toDigits]
      rfl
    · rintro ⟨⟩
  | threads =>
    refine ⟨_, scalar_toString c.threads.toNat, ?_, ?_⟩
    · intro _ base
      rw [set?, toUInt64?_toDigits]
      rfl
    · rintro ⟨⟩
  | suffixFree =>
    refine ⟨.bool c.suffixFree, ?_, ?_, ?_⟩
    · rw [memberText]
      cases c.suffixFree with
      | true => exact Json.Value.scalar_true
      | false => exact Json.Value.scalar_false
    · intro _ base
      rfl
    · rintro ⟨⟩
  | maxKeys =>
    cases hmax : c.maxKeys with
    | none =>
      refine ⟨.null, ?_, ?_, ?_⟩
      · rw [memberText, hmax]
        exact Json.Value.scalar_null
      · intro _ base
        simp [set?, overlay, hmax]
      · rintro ⟨⟩
    | some k =>
      refine ⟨.number ⟨false, Nat.toDigits 10 k.toNat, none, none⟩, ?_, ?_, ?_⟩
      · rw [memberText, hmax]
        exact scalar_toString k.toNat
      · intro _ base
        rw [set?, toUInt64?_toDigits]
        simp [overlay, hmax]
      · rintro ⟨⟩

end Values

section Members

variable {values : Member → Json.Value}

theorem setAll?_of_set? (base : Config)
    (h : ∀ m ∈ members, ∀ base : Config, base.set? m (values m) = some (base.overlay c [m])) :
    base.setAll? (members.map fun m => (m, values m)) = some (base.overlay c members) := by
  induction members generalizing base with
  | nil => rfl
  | cons m members ih =>
    rw [List.map_cons, setAll?, h m List.mem_cons_self base]
    simp only
    rw [ih _ fun n hn => h n (List.mem_cons_of_mem m hn), overlay_cons]

/--
A value that no configuration takes makes the members none.
-/
theorem setAll?_eq_none {m : Member} (base : Config) (hm : m ∈ members)
    (h : ∀ base : Config, base.set? m (values m) = none) :
    base.setAll? (members.map fun m => (m, values m)) = none := by
  induction members generalizing base with
  | nil => cases hm
  | cons n members ih =>
    rw [List.map_cons, setAll?]
    cases List.mem_cons.1 hm with
    | inl heq =>
      rw [← heq, h base]
    | inr hm =>
      cases base.set? n (values n) with
      | none => rfl
      | some c => exact ih c hm

def entry (c : Config) (values : Member → Json.Value) (m : Member) : Entry :=
  ⟨m.name.toList, (c.memberText m).toList, values m⟩

theorem toList_membersJson (c : Config) (values : Member → Json.Value) (members : List Member) :
    (c.membersJson members).toList = Json.Value.objectText (members.map (c.entry values)) := by
  have hentry (m : Member) : ("\"" ++ m.name ++ "\":" ++ c.memberText m).toList =
      (c.entry values m).print := by
    simp [entry, Entry.print]
  unfold membersJson Json.Value.objectText
  simp only [String.toList_append, String.toList_intercalate, List.map_map, Function.comp_def,
    hentry]
  rfl

theorem plain_name (m : Member) : ∀ ch ∈ m.name.toList, Json.Token.Plain ch := by
  have hall : m.name.toList.all (Json.Token.Plain ·) = true := by
    cases m <;> decide
  intro ch hch
  exact of_decide_eq_true (List.all_eq_true.1 hall ch hch)

theorem ofName?_name (m : Member) : Member.ofName? m.name.toList = some m := by
  cases m <;> rfl

theorem mapM_members {α β : Type} {f : α → Option β} {g : Member → α} {k : Member → β}
    (h : ∀ m, f (g m) = some (k m)) (members : List Member) :
    (members.map g).mapM f = some (members.map k) := by
  induction members with
  | nil => rfl
  | cons m members ih =>
    rw [List.map_cons, List.mapM_cons, h, ih]
    rfl

theorem ofValue?_members (c : Config) (values : Member → Json.Value) (hnodup : members.Nodup) :
    ofValue? (.object ((members.map (c.entry values)).map Entry.member)) =
      setAll? {} (members.map fun m => (m, values m)) := by
  have hmembers : (members.map fun m => (m, values m)).map Prod.fst = members := by
    rw [List.map_map]
    exact List.map_id members
  unfold ofValue?
  simp only [List.map_map]
  rw [mapM_members (k := fun m => (m.name.toList, values m))]
  · simp only [Option.bind_eq_bind, Option.bind_some, List.filterMap_map, Function.comp_def,
      ofName?_name, Option.map_some, List.filterMap_eq_map']
    rw [hmembers, if_pos hnodup]
  · intro m
    simp [Entry.member, entry, Json.StringPart.decode?_plain]

theorem read?_membersJson (hnodup : members.Nodup)
    (hvalues : ∀ m, Scalar (c.memberText m).toList (values m)) :
    (Json.Value.read? (c.membersJson members)).bind ofValue? =
      setAll? {} (members.map fun m => (m, values m)) := by
  have hvalid : ∀ e ∈ members.map (c.entry values), e.Valid := by
    intro e he
    obtain ⟨m, _, rfl⟩ := List.mem_map.1 he
    exact ⟨plain_name m, hvalues m⟩
  rw [Json.Value.read?_eq, toList_membersJson c values,
    Json.Value.readFrom_objectText _ hvalid, Option.bind_some, ofValue?_members c values hnodup]

end Members

theorem isFinite_of_validate (h : c.validate = .ok ()) : c.threshold.isFinite = true := by
  unfold validate at h
  split at h
  · cases h
  · next hrange =>
    simp only [Bool.not_eq_true', Bool.not_eq_false, Bool.and_eq_true, decide_eq_true_eq] at hrange
    exact Decimal.isFinite_of_inUnit hrange.1 hrange.2

theorem ofJson_of_read {text : String} {c : Config}
    (h : (Json.Value.read? text).bind ofValue? = some c) :
    ofJson text =
      match c.validate with
      | .error e => .error (.invalid e)
      | .ok () => .ok c := by
  cases hvalid : c.validate with
  | error e => simp only [ofJson, h, hvalid]
  | ok _ => simp only [ofJson, h, hvalid]

theorem ofJson_members (c : Config) (hnodup : members.Nodup)
    (hreads : .threshold ∈ members → c.threshold.isFinite = true →
      readDouble? (jsonNumber.write c.threshold) = some c.threshold) :
    ofJson (c.membersJson members) =
      if .threshold ∈ members ∧ c.threshold.isFinite = false then
        .error .malformed
      else
        match (overlay {} c members).validate with
        | .error e => .error (.invalid e)
        | .ok () => .ok (overlay {} c members) := by
  obtain ⟨values, hvalues⟩ := Classical.axiomOfChoice (exists_value c)
  have hread := read?_membersJson hnodup fun m => (hvalues m).1
  split
  · next hnull =>
    rw [setAll?_eq_none _ hnull.1 ((hvalues .threshold).2.2 rfl hnull.2)] at hread
    rw [ofJson, hread]
  · next hnull =>
    apply ofJson_of_read
    rw [hread]
    apply setAll?_of_set?
    intro m hm
    apply (hvalues m).2.1
    rintro rfl
    have hfinite : c.threshold.isFinite = true := by
      simpa using fun h => hnull ⟨hm, h⟩
    exact ⟨hfinite, hreads hm hfinite⟩

/--
Any members of a configuration in any order are read back with the values they are written with and
the defaults for the others, if their threshold is finite and the result is valid. All members in
order are the written form of the configuration. That the threshold reads back as itself has to be
assumed: `readDouble?` rounds more than once on its way, and about one double in nine comes back as
its neighbour, such as 0.9288614319365337.
-/
theorem ofJson_membersJson (c : Config) :
    (∀ members : List Member, members.Nodup →
      (.threshold ∈ members → c.threshold.isFinite = true →
        readDouble? (jsonNumber.write c.threshold) = some c.threshold) →
      ofJson (c.membersJson members) =
        if .threshold ∈ members ∧ c.threshold.isFinite = false then
          .error .malformed
        else
          match (overlay {} c members).validate with
          | .error e => .error (.invalid e)
          | .ok () => .ok (overlay {} c members)) ∧
    c.toJson =
      "\x7b\"threshold\":" ++ jsonNumber.write c.threshold ++
        ",\"upper_k\":" ++ toString c.upperK.toNat ++
        ",\"threads\":" ++ toString c.threads.toNat ++
        ",\"suffix_free\":" ++ (if c.suffixFree then "true" else "false") ++
        ",\"max_keys\":" ++ (c.maxKeys.elim "null" fun n => toString n.toNat) ++ "\x7d" ∧
    (c.validate = .ok () → readDouble? (jsonNumber.write c.threshold) = some c.threshold →
      ofJson c.toJson = .ok c) := by
  refine ⟨fun members hnodup hreads => ofJson_members c hnodup hreads, ?_, ?_⟩
  · rw [← String.toList_inj]
    cases hmax : c.maxKeys <;>
      simp [toJson, membersJson, Member.all, Member.name, memberText, hmax]
  · intro hvalid hreads
    have hfinite := isFinite_of_validate hvalid
    rw [toJson, ofJson_members c (by decide) fun _ _ => hreads, overlay_all, hvalid, if_neg]
    rw [hfinite]
    rintro ⟨_, ⟨⟩⟩

/--
The bound on keys is the greatest integer of 64 bits.
-/
theorem ofJson_membersJson_quarter :
    let c : Config := { threshold := 0.25, upperK := 3, maxKeys := some 18446744073709551615 }
    let members : List Member := [.maxKeys, .threshold]
    members.Nodup ∧ readDouble? (jsonNumber.write c.threshold) = some c.threshold ∧
      c.validate = .ok () ∧
      ofJson (c.membersJson members) = .ok { c with upperK := 8 } ∧ ofJson c.toJson = .ok c := by
  intro c members
  have hreads : readDouble? (jsonNumber.write c.threshold) = some c.threshold := by decide +kernel
  have hvalid : c.validate = .ok () := by
    unfold c
    rfl
  refine ⟨by decide, hreads, hvalid, ?_, (ofJson_membersJson c).2.2 hvalid hreads⟩
  rw [(ofJson_membersJson c).1 members (by decide) fun _ _ => hreads]
  unfold c members
  rfl

end GramIndex.Config
