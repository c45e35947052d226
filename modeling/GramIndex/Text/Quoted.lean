import GramIndex.Text.Lossy
import GramIndex.Unicode.Hidden

/-!
This module contains quoted text: a text between double quotes, with escapes for the quote, the
backslash and everything that would not show.
-/

namespace GramIndex

namespace Text

/--
Whether a character is written as it is, the quote and the backslash apart.
-/
def shows (c : Char) : Bool :=
  !Unicode.isHidden c && !Unicode.isCombining c

/--
A character between quotes.
-/
def quoteChar (c : Char) : List Char :=
  match c with
  | '"' => ['\\', '"']
  | '\\' => ['\\', '\\']
  | '\n' => ['\\', 'n']
  | '\r' => ['\\', 'r']
  | '\t' => ['\\', 't']
  | '\x00' => ['\\', '0']
  | _ => if shows c then [c] else ['\\', 'u', '\x7b'] ++ Nat.toDigits 16 c.toNat ++ ['\x7d']

def quote (cs : List Char) : String :=
  String.ofList ('"' :: cs.flatMap quoteChar ++ ['"'])

end Text

def Gram.quoted (g : Gram) : String :=
  Text.quote (Text.decode g)

end GramIndex
