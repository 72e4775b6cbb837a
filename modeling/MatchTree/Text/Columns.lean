import MatchTree.Text.Columns.Classes

/-!
# Columns of a terminal

* `columns` — how many columns of a terminal a text fills, the sum over its characters of
  `columnsAt`, the columns of a character before what follows it.
* A character fills one column, a wide one two and a mark none. A sequence that shows as one
  pictograph is as wide as one: what a joiner ties to the next pictograph, and a person before a
  skin tone, fill none. So does an Arabic lam before an alef, since the two are written as one.
-/

namespace MatchTree.Text

namespace Columns

/-- Whether a code point is in one of the ranges. -/
def within (ranges : List (Nat × Nat)) (n : Nat) : Bool :=
  ranges.any fun (first, last) => first ≤ n && n ≤ last

/-- The character that asks for a pictograph. -/
def selector : Char := Char.ofNat 0xfe0f

/-- The character that ties two pictographs. -/
def joiner : Char := Char.ofNat 0x200d

/-- Whether a character shows as a pictograph before what follows it. -/
def isPictograph (c : Char) (rest : List Char) : Bool :=
  within pictographRanges c.toNat ||
    (rest.head? == some selector && within symbolRanges c.toNat)

/-- Whether a text begins with a pictograph. -/
def startsPictograph : List Char → Bool
  | [] => false
  | c :: rest => isPictograph c rest

/-- Whether what follows a pictograph ties it to another; a selector, and the frame of a key, may
stand before the joiner. -/
def joinsPictograph (rest : List Char) : Bool :=
  match rest.dropWhile fun c => c == selector || c == Char.ofNat 0x20e3 with
  | [] => false
  | c :: next => c == joiner && startsPictograph next

/-- Whether a text begins with a skin tone. -/
def startsSkinTone (rest : List Char) : Bool :=
  rest.head?.any fun c => within [(0x1f3fb, 0x1f3ff)] c.toNat

/-- The forms of the Arabic letter lam. -/
def lamRanges : List (Nat × Nat) :=
  [(0x644, 0x644), (0x6b5, 0x6b8), (0x76a, 0x76a), (0x8a6, 0x8a6), (0x8c7, 0x8c7)]

/-- The forms of the Arabic letter alef. -/
def alefRanges : List (Nat × Nat) :=
  [(0x622, 0x623), (0x625, 0x625), (0x627, 0x627), (0x671, 0x673), (0x675, 0x675),
    (0x773, 0x774), (0x870, 0x882)]

/-- Whether the next letter, past the marks on this one, is an alef. -/
def startsAlef (rest : List Char) : Bool :=
  (rest.dropWhile fun c => within markRanges c.toNat).head?.any fun c =>
    within alefRanges c.toNat

/-- The columns that a character fills before what follows it. Up to the blank that keeps words
together no character is wide or a mark, control characters included; only a selector after it
can widen a digit, a star or a number sign. -/
def columnsAt (c : Char) (rest : List Char) : Nat :=
  let n := c.toNat
  if within personRanges n && startsSkinTone rest then 0
  else if isPictograph c rest then
    if joinsPictograph rest then 0 else 2
  else if n ≤ 0xa0 then 1
  else if within lamRanges n && startsAlef rest then 0
  else if within markRanges n then 0
  else if within wideRanges n then 2
  else 1

end Columns

/-- The columns of a terminal that a text fills. -/
def columns : List Char → Nat
  | [] => 0
  | c :: rest => Columns.columnsAt c rest + columns rest

/-- A code point below all ranges is in none. -/
theorem Columns.within_eq_false {ranges : List (Nat × Nat)} {n : Nat}
    (h : ∀ r ∈ ranges, n < r.1) : Columns.within ranges n = false := by
  simp only [Columns.within, List.any_eq_false, Bool.and_eq_true, decide_eq_true_eq, not_and]
  intro r hr
  have := h r hr
  omega

/-- A character of the first block fills one column, if no selector follows. -/
theorem Columns.columnsAt_of_le {c : Char} {rest : List Char} (hc : c.toNat ≤ 0xa0)
    (hr : rest.head? ≠ some Columns.selector) : Columns.columnsAt c rest = 1 := by
  have person : Columns.within Columns.personRanges c.toNat = false :=
    Columns.within_eq_false fun r hr =>
      Nat.lt_of_le_of_lt hc ((by decide : ∀ r ∈ Columns.personRanges, 0xa0 < r.1) r hr)
  have pictograph : Columns.within Columns.pictographRanges c.toNat = false :=
    Columns.within_eq_false fun r hr =>
      Nat.lt_of_le_of_lt hc ((by decide : ∀ r ∈ Columns.pictographRanges, 0xa0 < r.1) r hr)
  simp [Columns.columnsAt, Columns.isPictograph, person, pictograph, hr, hc]

/-- A text of the first block fills as many columns as it has characters. -/
theorem columns_eq_length {cs : List Char} (h : ∀ c ∈ cs, c.toNat ≤ 0xa0) :
    columns cs = cs.length := by
  induction cs with
  | nil => rfl
  | cons c rest ih =>
    have hr : rest.head? ≠ some Columns.selector := by
      intro e
      have := h _ (List.mem_cons_of_mem c (List.mem_of_head? e))
      exact absurd this (by decide)
    rw [columns, Columns.columnsAt_of_le (h c List.mem_cons_self) hr,
      ih fun d hd => h d (List.mem_cons_of_mem c hd), List.length_cons]
    omega

end MatchTree.Text
