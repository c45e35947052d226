import GramIndex.Index
import GramIndex.Text.Quoted

/-!
This module contains the written forms of an index: one line per key, with the posting list or with
its length only.
-/

namespace GramIndex.Index

def heading (index : Index) : String :=
  "records: " ++ toString index.recordCount ++ ", keys: " ++ toString index.keys.size ++ "\n"

def lines (index : Index) (line : Gram → List RecordId → String) : String :=
  index.heading ++ String.join (index.keys.toList.map fun key => line key (index.postingList key))

/--
Every key with its posting list in brackets.
-/
def render (index : Index) : String :=
  index.lines fun key ids => key.quoted ++ ": [" ++ ", ".intercalate (ids.map toString) ++ "]\n"

/--
Every key with the number of records that contain it.
-/
def summary (index : Index) : String :=
  index.lines fun key ids => key.quoted ++ ": " ++ toString ids.length ++ " records\n"

end GramIndex.Index
