import GramIndex.Decimal.Layout

/-!
This module contains the faults that a configuration can have, and their wording.
-/

namespace GramIndex

/--
A value of a configuration outside its range.
-/
inductive ConfigError where
  /-- The threshold is not in `(0, 1]`. -/
  | threshold (x : Float)
  /-- Grams of length zero are the longest ones allowed. -/
  | noGramLength
  | noThreads
  | noKeys

namespace ConfigError

/--
Numbers in messages never have an exponent, and a whole number has no point.
-/
def number : Decimal.Layout where
  tie := .up
  positionalRange := none
  wholeFraction := false
  nan := "NaN"
  infinite negative := if negative then "-inf" else "inf"

def message : ConfigError → String
  | .threshold x => "selectivity threshold must be in (0, 1], got " ++ number.write x
  | .noGramLength => "upper gram length must be at least 1, got 0"
  | .noThreads => "thread count must be at least 1, got 0"
  | .noKeys => "max_keys bound must be at least 1"

end ConfigError

end GramIndex
