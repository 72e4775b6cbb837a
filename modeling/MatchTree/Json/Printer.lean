import MatchTree.Datum
import MatchTree.Number.Shortest

/-!
# Writing JSON

* `Json.quoted` — a text as a JSON string: quotes, backslashes and control characters escaped.
* `Json.compact` — a value on one line, no blanks.
* `Json.indented` — a value over several lines, two blanks a level; an empty array or object stays
  on its line.
-/

namespace MatchTree.Json

/-- The digit of a value below sixteen, in lower case. -/
def hexChar (n : Nat) : Char := Nat.digitChar n

/-- A character inside a string. -/
def escaped (c : Char) : List Char :=
  if c = '"' then ['\\', '"']
  else if c = '\\' then ['\\', '\\']
  else if c = '\n' then ['\\', 'n']
  else if c = '\r' then ['\\', 'r']
  else if c = '\t' then ['\\', 't']
  else if c = '\x08' then ['\\', 'b']
  else if c = '\x0c' then ['\\', 'f']
  else if c.toNat < 0x20 then
    ['\\', 'u', '0', '0', hexChar (c.toNat / 16), hexChar (c.toNat % 16)]
  else [c]

/-- A text between quotes. -/
def quoted (s : String) : List Char := '"' :: (s.toList.flatMap escaped ++ ['"'])

/-- A value that holds no other. -/
def scalar : Datum → List Char
  | .null => "null".toList
  | .bool true => "true".toList
  | .bool false => "false".toList
  | .int i => (toString i).toList
  | .real x => x.scientific.toList
  | .text s => quoted s
  | .list _ => "[]".toList
  | .record _ => ['\x7b', '\x7d']

/-- Parts with a separator between them. -/
def between (separator : List Char) : List (List Char) → List Char
  | [] => []
  | [p] => p
  | p :: ps => p ++ separator ++ between separator ps

mutual

/-- A value on one line. -/
def compact : Datum → List Char
  | .list items => '[' :: (between [','] (compactItems items) ++ [']'])
  | .record entries => '\x7b' :: (between [','] (compactEntries entries) ++ ['\x7d'])
  | d => scalar d

/-- The items of an array. -/
def compactItems : List Datum → List (List Char)
  | [] => []
  | d :: ds => compact d :: compactItems ds

/-- The entries of an object. -/
def compactEntries : List (String × Datum) → List (List Char)
  | [] => []
  | (key, d) :: es => (quoted key ++ (':' :: compact d)) :: compactEntries es

end

/-- A line break and the blanks of a level. -/
def newline (level : Nat) : List Char := '\n' :: List.replicate (2 * level) ' '

/-- Parts on lines of their own between two brackets. -/
def bracketed (level : Nat) (opening closing : Char) : List (List Char) → List Char
  | [] => [opening, closing]
  | ps =>
    opening :: (newline (level + 1) ++ between (',' :: newline (level + 1)) ps ++
      newline level ++ [closing])

mutual

/-- A value over several lines, its first line already indented to `level`. -/
def indented (level : Nat) : Datum → List Char
  | .list items => bracketed level '[' ']' (indentedItems (level + 1) items)
  | .record entries => bracketed level '\x7b' '\x7d' (indentedEntries (level + 1) entries)
  | d => scalar d

/-- The items of an array, each at `level`. -/
def indentedItems (level : Nat) : List Datum → List (List Char)
  | [] => []
  | d :: ds => indented level d :: indentedItems level ds

/-- The entries of an object, each at `level`. -/
def indentedEntries (level : Nat) : List (String × Datum) → List (List Char)
  | [] => []
  | (key, d) :: es =>
    (quoted key ++ (':' :: ' ' :: indented level d)) :: indentedEntries level es

end

/-- The text of a value on one line. -/
def compactText (d : Datum) : String := String.ofList (compact d)

/-- The text of a value over several lines. -/
def indentedText (d : Datum) : String := String.ofList (indented 0 d)

end MatchTree.Json
