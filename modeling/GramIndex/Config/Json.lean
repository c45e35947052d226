import GramIndex.Config
import GramIndex.Json.Value

/-!
This module contains the JSON form of configurations: an object with one member per field, any of
which may be missing when it is read.
-/

namespace GramIndex

/--
Why a text is no usable configuration.
-/
inductive ConfigReadError where
  /-- It is not JSON, or a field has a value of another kind. -/
  | malformed
  /-- A field is out of its range. -/
  | invalid (e : ConfigError)

namespace Config

inductive Member where
  | threshold
  | upperK
  | threads
  | suffixFree
  | maxKeys
  deriving DecidableEq, Repr

namespace Member

/--
All members in the order in which they are written.
-/
def all : List Member :=
  [.threshold, .upperK, .threads, .suffixFree, .maxKeys]

def name : Member → String
  | .threshold => "threshold"
  | .upperK => "upper_k"
  | .threads => "threads"
  | .suffixFree => "suffix_free"
  | .maxKeys => "max_keys"

def ofName? (name : List Char) : Option Member :=
  all.find? fun m => m.name.toList = name

end Member

/--
Numbers in JSON are positional for a first digit from the fifth decimal place up to the sixteenth
digit before the point, and whole numbers among them end in `.0`. What is not finite is null.
-/
def jsonNumber : Decimal.Layout where
  tie := .toEven
  positionalRange := some (-5, 15)
  wholeFraction := true
  nan := "null"
  infinite _ := "null"

def memberText (c : Config) : Member → String
  | .threshold => jsonNumber.write c.threshold
  | .upperK => toString c.upperK.toNat
  | .threads => toString c.threads.toNat
  | .suffixFree => if c.suffixFree then "true" else "false"
  | .maxKeys =>
    match c.maxKeys with
    | some n => toString n.toNat
    | none => "null"

/--
The JSON object with the given members, without blanks.
-/
def membersJson (c : Config) (members : List Member) : String :=
  let written := members.map fun m => "\"" ++ m.name ++ "\":" ++ c.memberText m
  "\x7b" ++ ",".intercalate written ++ "\x7d"

def toJson (c : Config) : String :=
  c.membersJson Member.all

/--
The configuration with one member replaced by a JSON value. Only the bound on keys may be null.
-/
def set? (c : Config) (m : Member) (v : Json.Value) : Option Config :=
  match m, v with
  | .threshold, .number n => n.toDouble?.map fun x => { c with threshold := x }
  | .upperK, .number n => n.toUInt64?.map fun k => { c with upperK := k }
  | .threads, .number n => n.toUInt64?.map fun k => { c with threads := k }
  | .suffixFree, .bool b => some { c with suffixFree := b }
  | .maxKeys, .number n => n.toUInt64?.map fun k => { c with maxKeys := some k }
  | .maxKeys, .null => some { c with maxKeys := none }
  | _, _ => none

def setAll? (c : Config) : List (Member × Json.Value) → Option Config
  | [] => some c
  | (m, v) :: rest =>
    match c.set? m v with
    | some c => c.setAll? rest
    | none => none

/--
The configuration that a JSON value describes: an object, whose unknown members do not count and
whose known members may not repeat, or an array of values in the order of the members. What is
missing has its default.
-/
def ofValue? : Json.Value → Option Config
  | .object members => do
    let named ← members.mapM fun (name, v) => return (← Json.StringPart.decode? name, v)
    let known := named.filterMap fun (name, v) => (Member.ofName? name).map (·, v)
    if (known.map Prod.fst).Nodup then
      setAll? {} known
    else
      none
  | .array items =>
    if items.length ≤ Member.all.length then
      setAll? {} (Member.all.zip items)
    else
      none
  | _ => none

def ofJson (text : String) : Except ConfigReadError Config :=
  match (Json.Value.read? text).bind ofValue? with
  | none => .error .malformed
  | some c =>
    match c.validate with
    | .error e => .error (.invalid e)
    | .ok () => .ok c

end Config

end GramIndex
