/-!
This module contains parts of patterns with their depth: how many groups, repetitions, classes and
lists of several parts are inside each other in a part.
-/

namespace GramIndex.Regex

structure Nested (α : Type) where
  value : α
  depth : Nat

namespace Nested

/--
A part that nothing else is inside of.
-/
def leaf (value : α) : Nested α :=
  ⟨value, 0⟩

/--
A part that wraps another one.
-/
def wrap (f : α → β) (part : Nested α) : Nested β :=
  ⟨f part.value, part.depth + 1⟩

/--
Parts one after the other, the last one first. Several of them are a list, which is a level of its
own, and one alone is not.
-/
def join (op : α → α → α) (none : α) : List (Nested α) → Nested α
  | [] => leaf none
  | [part] => part
  | last :: before =>
    before.foldl (fun list part => ⟨op part.value list.value, max list.depth (part.depth + 1)⟩)
      (last.wrap id)

end Nested

end GramIndex.Regex
