import MatchTree.Toml.Scalar

/-!
# Strings of TOML

* `Toml.line?` — a string on one line, basic (with escapes) or literal.
* `Toml.block?` — a string over several lines between triple quotes, basic or literal; a line break
  is a line feed however it is written, and one right after the opening quotes is dropped.
* `Toml.string?` — any of them.

A reader that repeats a step takes the text a second time as its fuel: every step takes at least
one character off both.
-/

namespace MatchTree.Toml

/-- Whether a character may stand in a string or a comment as it is. -/
def isPlain (c : Char) : Bool := c == '\t' || (0x20 ≤ c.toNat && c.toNat != 0x7f)

/-- Whether a character is a blank within a line. -/
def isBlank (c : Char) : Bool := c == ' ' || c == '\t'

def skipBlanks (cs : List Char) : List Char := cs.dropWhile isBlank

/-- Takes a line break. -/
def lineBreak? : List Char → Option (List Char)
  | '\n' :: cs => some cs
  | '\r' :: '\n' :: cs => some cs
  | _ => none

/-- Whether a character is a blank or begins a line break. -/
def isSpace (c : Char) (rest : List Char) : Bool :=
  isBlank c || c == '\n' || (c == '\r' && rest.head? == some '\n')

/-- Drops blanks and line breaks. -/
def skipSpace : List Char → List Char
  | [] => []
  | c :: cs => if isSpace c cs then skipSpace cs else c :: cs

/-- The character with a number, unless it is a surrogate or past the last one. -/
def scalarChar? (n : Nat) : Option Char := if n.isValidChar then some (Char.ofNat n) else none

/-- The character of `count` hexadecimal digits. -/
def hexChar? (count : Nat) (cs : List Char) : Option (Char × List Char) := do
  let ds ← (cs.take count).mapM (digitIn? 16)
  if ds.length = count then
    return (← scalarChar? (valueOf 16 ds), cs.drop count)
  else none

/-- The character that an escape stands for, after the backslash. -/
def escape? : List Char → Option (Char × List Char)
  | 'b' :: cs => some ('\x08', cs)
  | 't' :: cs => some ('\t', cs)
  | 'n' :: cs => some ('\n', cs)
  | 'f' :: cs => some ('\x0c', cs)
  | 'r' :: cs => some ('\r', cs)
  | '"' :: cs => some ('"', cs)
  | '\\' :: cs => some ('\\', cs)
  | 'u' :: cs => hexChar? 4 cs
  | 'U' :: cs => hexChar? 8 cs
  | _ => none

/-- The body of a string on one line up to its closing quote; a backslash is an escape in a basic
string and itself in a literal one. The first text is the fuel. -/
def line? (quote : Char) : List Char → List Char → Option (List Char × List Char)
  | [], _ | _, [] => none
  | _ :: fuel, c :: cs =>
    if c = quote then some ([], cs)
    else do
      let (c, cs) ← if c = '\\' ∧ quote = '"' then escape? cs
        else if isPlain c then some (c, cs)
        else none
      let (s, rest) ← line? quote fuel cs
      return (c :: s, rest)

/-- What follows a backslash at the end of a line, if it stands there: the text after all blanks and
line breaks. -/
def continuation? (cs : List Char) : Option (List Char) :=
  (lineBreak? (skipBlanks cs)).map skipSpace

/-- The body of a string over several lines. Up to two quotes stand for themselves; of a run of
three and more, the last three close the string and at most two before them belong to it. The first
text is the fuel. -/
def block? (quote : Char) : List Char → List Char → Option (List Char × List Char)
  | [], _ | _, [] => none
  | _ :: fuel, c :: cs =>
    if c = quote then
      let run := (c :: cs).takeWhile (· == quote)
      if 3 ≤ run.length then
        let extra := min (run.length - 3) 2
        some (List.replicate extra quote, (c :: cs).drop (extra + 3))
      else do
        let (s, rest) ← block? quote fuel cs
        return (quote :: s, rest)
    else
      match lineBreak? (c :: cs) with
      | some rest => do
        let (s, rest) ← block? quote fuel rest
        return ('\n' :: s, rest)
      | none =>
        if c = '\\' ∧ quote = '"' then
          match continuation? cs with
          | some rest => block? quote fuel rest
          | none => do
            let (e, cs) ← escape? cs
            let (s, rest) ← block? quote fuel cs
            return (e :: s, rest)
        else if isPlain c then do
          let (s, rest) ← block? quote fuel cs
          return (c :: s, rest)
        else none

/-- Drops a line break right at the start. -/
def dropLineBreak (cs : List Char) : List Char := (lineBreak? cs).getD cs

/-- A string of any kind. -/
def string? : List Char → Option (String × List Char)
  | c :: cs =>
    if c = '"' ∨ c = '\'' then
      let body :=
        if cs.take 2 = [c, c] then
          let cs := dropLineBreak (cs.drop 2)
          block? c cs cs
        else line? c cs cs
      body.map fun (s, rest) => (String.ofList s, rest)
    else none
  | [] => none

/-- A string on one line. -/
def lineString? : List Char → Option (String × List Char)
  | c :: cs =>
    if c = '"' ∨ c = '\'' then
      (line? c cs cs).map fun (s, rest) => (String.ofList s, rest)
    else none
  | [] => none

end MatchTree.Toml
