import GramIndex.Json.Token

/-!
This module contains JSON values and the reading of a value from tokens. The reader keeps what it is
inside of on a stack, so values may be nested to any depth.
-/

namespace GramIndex.Json

/--
A value. The names of an object keep their order and may repeat.
-/
inductive Value where
  | null
  | bool (b : Bool)
  | number (n : Number)
  | string (parts : List StringPart)
  | array (items : List Value)
  | object (members : List (List StringPart × Value))

namespace Value

/--
An array or object that is still open, with what it holds so far, last first.
-/
inductive Frame where
  | array (items : List Value)
  /-- An object and the name that the value being read belongs to. -/
  | object (members : List (List StringPart × Value)) (name : List StringPart)

/--
What may come next.
-/
inductive Expect where
  | value
  /-- A first item, or the end of an empty array. -/
  | firstItem
  /-- A first name, or the end of an empty object. -/
  | firstName
  | name (members : List (List StringPart × Value))
  | colon (members : List (List StringPart × Value)) (name : List StringPart)
  /-- What follows a complete value. -/
  | after (v : Value)

/--
Read the first token of a value.
-/
def start (frames : List Frame) : Token → Option (Expect × List Frame)
  | .null => some (.after .null, frames)
  | .bool b => some (.after (.bool b), frames)
  | .number n => some (.after (.number n), frames)
  | .string parts => some (.after (.string parts), frames)
  | .openArray => some (.firstItem, frames)
  | .openObject => some (.firstName, frames)
  | _ => none

/--
Read one token: what may come next, and the parts that are open then, innermost first.
-/
def step : Expect → List Frame → Token → Option (Expect × List Frame)
  | .value, frames, token => start frames token
  | .firstItem, frames, .closeArray => some (.after (.array []), frames)
  | .firstItem, frames, token => start (.array [] :: frames) token
  | .firstName, frames, .closeObject => some (.after (.object []), frames)
  | .firstName, frames, .string name => some (.colon [] name, frames)
  | .name members, frames, .string name => some (.colon members name, frames)
  | .colon members name, frames, .colon => some (.value, .object members name :: frames)
  | .after v, .array items :: frames, .comma => some (.value, .array (v :: items) :: frames)
  | .after v, .array items :: frames, .closeArray =>
    some (.after (.array (v :: items).reverse), frames)
  | .after v, .object members name :: frames, .comma => some (.name ((name, v) :: members), frames)
  | .after v, .object members name :: frames, .closeObject =>
    some (.after (.object ((name, v) :: members).reverse), frames)
  | _, _, _ => none

/--
Read the tokens that complete a value with nothing after it.
-/
def readTokens : Expect → List Frame → List Token → Option Value
  | .after v, [], [] => some v
  | _, _, [] => none
  | expect, frames, token :: tokens =>
    match step expect frames token with
    | some (expect, frames) => readTokens expect frames tokens
    | none => none

/--
The value that a text is, if it is one value with nothing but blanks around it.
-/
def read? (text : String) : Option Value := do
  readTokens .value [] (← Token.lex text.toList)

end Value

end GramIndex.Json
