import MatchTree.Text.Numeral
import MatchTree.Text.Words

/-!
# Lines, words and numerals of a written text

* `Text.wordsOf` — the words of a text as strings.
* `Text.BlankFree`, `Text.IsWord` — a string without blanks, which is read back as one word if it is
  not empty.

Principal results: `lines_flatMap` — the lines of a text that was written line by line;
`wordsOf_intercalate` — the words of what was written with blanks between; `natural?_toString` — a
written number is read back.
-/

namespace MatchTree.Text

/-! ## Pieces -/

theorem extendHead_append {ws : List (List Char)} (hws : ws ≠ []) (c : Char)
    (rest : List (List Char)) : extendHead c (ws ++ rest) = extendHead c ws ++ rest := by
  cases ws with
  | nil => exact absurd rfl hws
  | cons w ws => rfl

theorem pieces_cons (p : Char → Bool) (c : Char) (cs : List Char) :
    pieces p (c :: cs) = if p c then [] :: pieces p cs else extendHead c (pieces p cs) := rfl

theorem pieces_ne_nil (p : Char → Bool) (cs : List Char) : pieces p cs ≠ [] := by
  cases cs with
  | nil => simp [pieces]
  | cons c cs =>
    rw [pieces_cons]
    split
    · simp
    · cases pieces p cs <;> simp [extendHead]

/-- **A separator ends a piece.** -/
theorem pieces_append {p : Char → Bool} {c : Char} (hc : p c = true) (before after : List Char) :
    pieces p (before ++ c :: after) = pieces p before ++ pieces p after := by
  induction before with
  | nil => rw [List.nil_append, pieces_cons, if_pos hc]; rfl
  | cons d ds ih =>
    rw [List.cons_append, pieces_cons, pieces_cons, ih]
    split
    · rfl
    · exact extendHead_append (pieces_ne_nil p ds) d _

theorem pieces_eq_singleton {p : Char → Bool} {cs : List Char} (h : ∀ c ∈ cs, p c = false) :
    pieces p cs = [cs] := by
  induction cs with
  | nil => rfl
  | cons c cs ih =>
    rw [pieces_cons, h c (List.mem_cons_self ..), ih fun d hd => h d (List.mem_cons_of_mem _ hd)]
    rfl

theorem pieces_eq_singleton_of_not_mem {separator : Char} {cs : List Char} (h : separator ∉ cs) :
    pieces (· == separator) cs = [cs] := by
  refine pieces_eq_singleton fun c hc => ?_
  rw [beq_eq_false_iff_ne]
  exact fun heq => h (heq ▸ hc)

/-- No piece has a separator. -/
theorem of_mem_pieces {p : Char → Bool} {w cs : List Char} (h : w ∈ pieces p cs) :
    ∀ c ∈ w, p c = false := by
  induction cs generalizing w with
  | nil =>
    obtain rfl := List.mem_singleton.1 h
    simp
  | cons c cs ih =>
    rw [pieces_cons] at h
    split at h
    · rcases List.mem_cons.1 h with rfl | h
      · simp
      · exact ih h
    · rename_i hc
      cases hpieces : pieces p cs with
      | nil => exact absurd hpieces (pieces_ne_nil p cs)
      | cons v vs =>
        rw [hpieces, extendHead] at h
        rw [hpieces] at ih
        rcases List.mem_cons.1 h with rfl | h
        · exact List.forall_mem_cons.2 ⟨Bool.eq_false_iff.2 hc, ih List.mem_cons_self⟩
        · exact ih (List.mem_cons_of_mem _ h)

/-! ## Lines -/

theorem lines_append (before after : List Char) :
    lines (before ++ '\n' :: after) = lines before ++ lines after :=
  pieces_append (by decide) before after

theorem lines_eq_singleton {cs : List Char} (h : '\n' ∉ cs) : lines cs = [cs] :=
  pieces_eq_singleton_of_not_mem h

/-- **The lines of texts that are written one after another, each with a line feed**, are those of
each text, and an empty one at the end. -/
theorem lines_flatMap (texts : List (List Char)) :
    lines (texts.flatMap fun cs => cs ++ ['\n']) = texts.flatMap lines ++ [[]] := by
  induction texts with
  | nil => rfl
  | cons cs texts ih =>
    rw [List.flatMap_cons, List.append_assoc, List.singleton_append, lines_append, ih,
      List.flatMap_cons, List.append_assoc]

/-! ## Words -/

/-- The words of a text. -/
def wordsOf (cs : List Char) : List String := (words cs).map String.ofList

/-- The string has no blanks. -/
def BlankFree (s : String) : Prop := ∀ c ∈ s.toList, isBlank c = false

instance (s : String) : Decidable (BlankFree s) :=
  decidable_of_iff ((s.toList.all fun c => !isBlank c) = true) (by simp [BlankFree])

/-- The string is not empty and has no blanks. -/
def IsWord (s : String) : Prop := s ≠ "" ∧ BlankFree s

instance (s : String) : Decidable (IsWord s) := inferInstanceAs (Decidable (_ ∧ _))

theorem isBlank_of_isDigit {c : Char} (h : c.isDigit = true) : isBlank c = false := by
  rw [Char.isDigit, Bool.and_eq_true, decide_eq_true_eq, decide_eq_true_eq] at h
  have hlow : 48 ≤ c.toNat := h.1
  have hhigh : c.toNat ≤ 57 := h.2
  have h32 : (c.toNat == 32) = false := beq_false_of_ne (by omega)
  have h13 : decide (c.toNat ≤ 13) = false := decide_eq_false (by omega)
  have h127 : decide (127 < c.toNat) = false := decide_eq_false (by omega)
  unfold isBlank
  simp only [h32, h13, h127, Bool.and_false, Bool.false_and, Bool.or_false]

theorem wordsOf_append_blank {c : Char} (hc : isBlank c = true) (before after : List Char) :
    wordsOf (before ++ c :: after) = wordsOf before ++ wordsOf after := by
  unfold wordsOf words
  rw [pieces_append hc, List.filter_append, List.map_append]

theorem wordsOf_of_isWord {s : String} (h : IsWord s) : wordsOf s.toList = [s] := by
  have hne : s.toList ≠ [] := fun heq => h.1 (String.toList_inj.1 heq)
  unfold wordsOf words
  rw [pieces_eq_singleton h.2]
  simp [hne]

/-- **The words of what is written with blanks between are the words of each part.** -/
theorem wordsOf_intercalate (parts : List String) :
    wordsOf (String.intercalate " " parts).toList = parts.flatMap fun s => wordsOf s.toList := by
  induction parts with
  | nil => rfl
  | cons s parts ih =>
    cases parts with
    | nil => rw [String.intercalate_singleton, List.flatMap_cons, List.flatMap_nil, List.append_nil]
    | cons t parts =>
      rw [String.intercalate_cons_cons, String.toList_append, String.toList_append,
        List.append_assoc, List.flatMap_cons, ← ih]
      exact wordsOf_append_blank (by decide) _ _

theorem wordsOf_of_isWords {parts : List String} (h : ∀ s ∈ parts, IsWord s) :
    (parts.flatMap fun s => wordsOf s.toList) = parts := by
  induction parts with
  | nil => rfl
  | cons s parts ih =>
    rw [List.flatMap_cons, wordsOf_of_isWord (h s (List.mem_cons_self ..)),
      ih fun t ht => h t (List.mem_cons_of_mem _ ht)]
    rfl

theorem newline_not_mem_intercalate {parts : List String} (h : ∀ s ∈ parts, '\n' ∉ s.toList) :
    '\n' ∉ (String.intercalate " " parts).toList := by
  induction parts with
  | nil => exact List.not_mem_nil
  | cons s parts ih =>
    have hs := h s (List.mem_cons_self ..)
    cases parts with
    | nil => rwa [String.intercalate_singleton]
    | cons t parts =>
      have hrest := ih fun u hu => h u (List.mem_cons_of_mem _ hu)
      rw [String.intercalate_cons_cons, String.toList_append, String.toList_append,
        List.mem_append, List.mem_append]
      rintro ((hmem | hmem) | hmem)
      · exact hs hmem
      · exact absurd hmem (by decide)
      · exact hrest hmem

theorem IsWord.newline_not_mem {s : String} (h : IsWord s) : '\n' ∉ s.toList := by
  intro hmem
  have := h.2 _ hmem
  exact absurd this (by decide)

/-! ## Numerals -/

theorem isDigit_of_mem_toString {n : Nat} {c : Char} (h : c ∈ (toString n).toList) :
    c.isDigit = true := by
  rw [Nat.toString_eq_repr, Nat.toList_repr] at h
  exact Nat.isDigit_of_mem_toDigits (by decide) (by decide) h

theorem toList_toString_ne_nil (n : Nat) : (toString n).toList ≠ [] := by
  rw [Nat.toString_eq_repr, Nat.toList_repr]
  exact Nat.toDigits_ne_nil

theorem isWord_toString (n : Nat) : IsWord (toString n) :=
  ⟨fun heq => toList_toString_ne_nil n (by rw [heq]; rfl),
    fun _ hc => isBlank_of_isDigit (isDigit_of_mem_toString hc)⟩

/-- A string that ends in a numeral has no blank where its front has none. -/
theorem isWord_append_toString {s : String} (h : BlankFree s) (n : Nat) :
    IsWord (s ++ toString n) := by
  refine ⟨fun heq => toList_toString_ne_nil n ?_, fun c hc => ?_⟩
  · have hlist := congrArg String.toList heq
    rw [String.toList_append] at hlist
    exact (List.append_eq_nil_iff.1 hlist).2
  · rw [String.toList_append, List.mem_append] at hc
    rcases hc with hc | hc
    · exact h c hc
    · exact (isWord_toString n).2 c hc

theorem toString_inj {m n : Nat} (h : toString m = toString n) : m = n := by
  have hm := Nat.ofDigitChars_ten_toDigits (n := m)
  rw [← Nat.toList_repr, ← Nat.toString_eq_repr, h, Nat.toString_eq_repr, Nat.toList_repr,
    Nat.ofDigitChars_ten_toDigits] at hm
  exact hm.symm

/-- **A number that is written and below the bound is read back.** -/
theorem natural?_toString {bound n : Nat} (h : n < bound) :
    natural? bound (toString n).toList = some n := by
  have hdrop : dropPlus (toString n).toList = (toString n).toList := by
    unfold dropPlus
    split
    · next cs heq =>
      have hplus : '+' ∈ (toString n).toList := heq ▸ List.mem_cons_self ..
      exact absurd (isDigit_of_mem_toString hplus) (by decide)
    · rfl
  have hnumeral : isNumeral (toString n).toList = true := by
    unfold isNumeral
    rw [Bool.and_eq_true, List.all_eq_true]
    exact ⟨by simp, fun c hc => isDigit_of_mem_toString hc⟩
  unfold natural?
  simp only [hdrop, hnumeral, if_true]
  rw [Nat.toString_eq_repr, Nat.toList_repr, Nat.ofDigitChars_ten_toDigits, if_pos h]

theorem uint32?_toString (n : UInt32) : uint32? (toString n.toNat).toList = some n := by
  rw [uint32?, natural?_toString n.toNat_lt, Option.map_some, UInt32.ofNat_toNat]

theorem uint16?_toString (n : UInt16) : uint16? (toString n.toNat).toList = some n := by
  rw [uint16?, natural?_toString n.toNat_lt, Option.map_some, UInt16.ofNat_toNat]

theorem uint8?_toString (n : UInt8) : uint8? (toString n.toNat).toList = some n := by
  rw [uint8?, natural?_toString n.toNat_lt, Option.map_some, UInt8.ofNat_toNat]

end MatchTree.Text
