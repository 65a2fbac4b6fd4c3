import Covenant.Text.Shown
import Covenant.Text.Hex
/-!
Text and bytes in quotes, as messages show them. Single quotes are used unless the text holds a
single quote and no double one.
-/

namespace Covenant.Text.Quoted

def quoteFor (s : List Char) : Char :=
  if s.contains '\'' && !s.contains '"' then '"' else '\''

/-- A character inside quotes: line ends and the tab by letter, the quote and the backslash with a
backslash before them, hidden characters by number. -/
def char (quote c : Char) : List Char :=
  if c = quote || c = '\\' then ['\\', c]
  else if c = '\n' then ['\\', 'n']
  else if c = '\r' then ['\\', 'r']
  else if c = '\t' then ['\\', 't']
  else if isShown c then [c]
  else if c.toNat < 0x100 then '\\' :: 'x' :: hexNatural 2 c.toNat
  else if c.toNat < 0x10000 then '\\' :: 'u' :: hexNatural 4 c.toNat
  else '\\' :: 'U' :: hexNatural 8 c.toNat

def chars (s : List Char) : List Char :=
  let quote := quoteFor s
  quote :: s.flatMap (char quote) ++ [quote]

def text (s : String) : String := String.ofList (chars s.toList)

/-- Bytes in quotes, each as the character of its number or, outside the visible ASCII range, by
number. -/
def bytes (b : Bytes) : String :=
  let s := b.map fun x => Char.ofNat x.toNat
  let quote := quoteFor s
  let byte (c : Char) : List Char :=
    if c.toNat < 0x7f then char quote c else '\\' :: 'x' :: hexNatural 2 c.toNat
  String.ofList ('b' :: quote :: s.flatMap byte ++ [quote])

end Covenant.Text.Quoted
