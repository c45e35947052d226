import GramIndex.Pattern.ScanLemmas
import GramIndex.Plan

/-!
This module contains the outline of a pattern: its plan before anything is said about which spans
are literals. The leaves are the spans between groups, bars and the ends of the pattern.
-/

namespace GramIndex.Pattern

def spanOperand (span : Gram) : List (Plan Gram) :=
  if span.isEmpty then [] else [.literal span]

mutual

/--
The outline of a pattern: the alternatives between its bars.
-/
def outline (bytes : Gram) : Plan Gram :=
  .any (((splitBars bytes).1 :: (splitBars bytes).2).attach.map fun part => .all (operands part.1))
termination_by 2 * bytes.length + 1
decreasing_by
  have := length_le_of_mem_splitBars part.2
  omega

/--
The operands that follow each other in a pattern without bars: spans, and groups with their
quantifiers. A group that need not occur says nothing, and neither does one without a body. If a
group is never closed, the rest from its parenthesis on is one span.
-/
def operands (bytes : Gram) : List (Plan Gram) :=
  match _hopen : splitOpen bytes with
  | (span, none) => spanOperand span
  | (span, some after) =>
    match hclose : splitClose after with
    | none => spanOperand span ++ [.literal (byte '(' :: after)]
    | some (inside, after) =>
      let group := match _hbody : groupBody? inside with
        | none => .null
        | some body => if (quantifiers after).1 then outline body else .null
      spanOperand span ++ group :: operands (quantifiers after).2
termination_by 2 * bytes.length
decreasing_by
  all_goals
    have ho := congrArg List.length (splitOpen_append _hopen)
    have hc := congrArg List.length (splitClose_append hclose)
    simp only [List.length_append, List.length_cons] at ho hc
  · have := (groupBody?_suffix _hbody).length_le
    omega
  · have := (quantifiers_suffix after).length_le
    omega

end

end GramIndex.Pattern
