import GramIndex.Plan
import GramIndex.Text.Quoted

/-!
This module contains the written form of plans: a tree with one node per line.
-/

namespace GramIndex.Plan

/--
The text of a node without its children.
-/
def label : Plan Gram → String
  | .and .. => "AND"
  | .or .. => "OR"
  | .literal g => g.quoted
  | .null => "NULL"

/--
The lines of a subtree. `indent` stands before each line, and the branch to the root of the subtree
ends a column of branches if it is the last one.
-/
def renderBranch (indent : String) (last : Bool) (plan : Plan Gram) : String :=
  let line := indent ++ (if last then "└── " else "├── ") ++ plan.label ++ "\n"
  let deeper := indent ++ (if last then "    " else "│   ")
  match plan with
  | .and l r => line ++ l.renderBranch deeper false ++ r.renderBranch deeper true
  | .or l r => line ++ l.renderBranch deeper false ++ r.renderBranch deeper true
  | _ => line

def render (plan : Plan Gram) : String :=
  plan.renderBranch "" true

end GramIndex.Plan
