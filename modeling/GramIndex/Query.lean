import GramIndex.Matcher
import GramIndex.Pattern.Compiler
import GramIndex.Plan.Evaluate

/-!
This module contains queries: patterns with their plans, which do not depend on an index, and what
an index makes of them.
-/

namespace GramIndex

/--
A pattern and its plan without null nodes inside.
-/
structure Query where
  pattern : String
  root : Plan Gram
  deriving DecidableEq, Repr

namespace Query

def compileWith (compiler : Compiler) (pattern : String) : Query :=
  ⟨pattern, (compiler.compile pattern).propagateNulls⟩

/--
The query for a pattern with the default compiler. No pattern is an error.
-/
def compile (pattern : String) : Query :=
  compileWith default pattern

/--
Whether the plan says nothing, so that no index can narrow the records.
-/
def isUnconstrained (q : Query) : Bool :=
  q.root.isNull

/--
The plan with its literals replaced by the keys of an index.
-/
def prepare (q : Query) (index : Index) : Plan Gram :=
  q.root.withKeys index

/--
The records that may match, in ascending order, or `none` if every record must be scanned.
-/
def candidates (q : Query) (index : Index) : Option (List RecordId) :=
  (q.prepare index).evaluate index

end Query

/--
The keys of an index that cover a literal of a pattern, in order of their first occurrence.
-/
def Index.findAllKeys (index : Index) (pattern : String) : List Gram :=
  ((Compiler.compile default pattern).literals.flatMap index.coveringKeys).eraseDups

end GramIndex
