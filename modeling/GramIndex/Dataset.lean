import GramIndex.Gram

/-!
This module contains datasets: the numbered texts that an index is built over.
-/

namespace GramIndex

/--
The number of a record in its dataset, counted from zero.
-/
abbrev RecordId := Nat

/--
Texts numbered from zero. A dataset knows its size without looking at a text.
-/
structure Dataset where
  size : Nat
  text : Fin size → String

namespace Dataset

/--
Record ids have 32 bits, and this is the greatest number of records that one of them can count.
-/
def maxSize : Nat := UInt32.size - 1

def ofArray (texts : Array String) : Dataset :=
  ⟨texts.size, fun i => texts[i]⟩

def ofList (texts : List String) : Dataset :=
  ofArray texts.toArray

def replicate (n : Nat) (text : String) : Dataset :=
  ⟨n, fun _ => text⟩

def records (data : Dataset) : List Gram :=
  List.ofFn fun i => textBytes (data.text i)

def text? (data : Dataset) (id : RecordId) : Option String :=
  if h : id < data.size then some (data.text ⟨id, h⟩) else none

@[simp]
theorem length_records (data : Dataset) : data.records.length = data.size := by
  simp [records]

end Dataset

end GramIndex
