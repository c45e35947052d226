import GramIndex.Config.Error

/-!
This module contains the configuration of an index build and its validation, which runs before any
work so that a bad value never surfaces in the middle of a build.
-/

namespace GramIndex

structure Config where
  /--
  A gram becomes a key once the fraction of records that contain it is at most this value.
  -/
  threshold : Float := 0.1
  /-- The longest gram length explored during selection. -/
  upperK : UInt64 := 8
  /-- The number of workers; one runs everything in turn. -/
  threads : UInt64 := 1
  /-- Whether keys that end with a shorter key are dropped. -/
  suffixFree : Bool := false
  /-- Stop exploring longer grams once this many keys are selected. -/
  maxKeys : Option UInt64 := none

namespace Config

/--
Report the first field outside its range. A threshold that is not a number is out of range as well.
-/
def validate (c : Config) : Except ConfigError Unit :=
  if !(0 < c.threshold && c.threshold <= 1) then
    .error (.threshold c.threshold)
  else if c.upperK = 0 then
    .error .noGramLength
  else if c.threads = 0 then
    .error .noThreads
  else if c.maxKeys = some 0 then
    .error .noKeys
  else
    .ok ()

end Config

end GramIndex
