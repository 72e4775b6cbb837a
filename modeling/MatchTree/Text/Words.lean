/-!
# Lines and words

* `isBlank` — the characters with the Unicode property White_Space.
* `pieces p` — the pieces between the characters that satisfy `p`; always at least one piece.
* `lines`, `words` — pieces between line feeds, and the non-empty pieces between blanks.
-/

namespace MatchTree.Text

/-- The code points outside ASCII with the property White_Space. -/
def wideBlanks : List Nat :=
  [0x85, 0xa0, 0x1680, 0x2000, 0x2001, 0x2002, 0x2003, 0x2004, 0x2005, 0x2006, 0x2007, 0x2008,
    0x2009, 0x200a, 0x2028, 0x2029, 0x202f, 0x205f, 0x3000]

/-- Whether a character has the property White_Space. -/
def isBlank (c : Char) : Bool :=
  let n := c.toNat
  n == 32 || (9 ≤ n && n ≤ 13) || (127 < n && wideBlanks.contains n)

/-- Puts a character in front of the first piece. -/
def extendHead (c : Char) : List (List Char) → List (List Char)
  | [] => [[c]]
  | w :: ws => (c :: w) :: ws

/-- The pieces of a text between the characters that satisfy `p`. -/
def pieces (p : Char → Bool) (cs : List Char) : List (List Char) :=
  cs.foldr (fun c rest => if p c then [] :: rest else extendHead c rest) [[]]

/-- The lines of a text; the text after the last line feed is the last of them. -/
def lines (cs : List Char) : List (List Char) := pieces (· == '\n') cs

/-- The words of a text: what stands between blanks. -/
def words (cs : List Char) : List (List Char) := (pieces isBlank cs).filter fun w => !w.isEmpty

end MatchTree.Text
