import MatchTree.Json.Printer
import MatchTree.Json.Reader
import MatchTree.Proofs.Words

/-!
# Written JSON is read back

* `Json.EndsNumeral` — the text that follows does not extend a numeral.
* `Json.Writable` — the values that are read back: their numbers are whole and fit 64 bits, and
  arrays and objects are not nested too deep.

Principal results: `stringChar?_escaped`, `string?_quoted` — escapes are undone, for any text;
`number?_toString` — whole numbers are read back up to the limits of 64 bits;
`group?_between` — items that are read back one by one are read back between brackets;
`value?_compact` — so is a whole value, with whatever follows it left over.
-/

namespace MatchTree.Json

/-! ## Strings -/

theorem hexDigit?_hexChar : ∀ n < 16, hexDigit? (hexChar n) = some n := by decide

theorem plainUnit?_toNat {c : Char} (h : c.toNat < 0x20) : plainUnit? c.toNat = some c := by
  unfold plainUnit?
  rw [if_neg (by omega), Char.ofNat_toNat]

/-- **A character is read back**, escaped or not. -/
theorem stringChar?_escaped (c : Char) (rest : List Char) :
    stringChar? (escaped c ++ rest) = some (c, rest) := by
  unfold escaped
  -- the seven escapes of one letter
  iterate 7
    split
    · subst_vars
      rfl
  split
  · rename_i hcontrol
    have hhigh := hexDigit?_hexChar (c.toNat / 16) (by omega)
    have hlow := hexDigit?_hexChar (c.toNat % 16) (by omega)
    have hzero : hexDigit? '0' = some 0 := by decide
    have hunit : hexUnit? '0' '0' (hexChar (c.toNat / 16)) (hexChar (c.toNat % 16)) =
        some c.toNat := by
      simp only [hexUnit?, hzero, hhigh, hlow]
      show some (0 * 4096 + 0 * 256 + c.toNat / 16 * 16 + c.toNat % 16) = some c.toNat
      congr 1
      omega
    show stringChar? ('\\' :: 'u' :: '0' :: '0' :: hexChar (c.toNat / 16) ::
      hexChar (c.toNat % 16) :: rest) = some (c, rest)
    unfold stringChar?
    simp only [hunit, plainUnit?_toNat hcontrol, bind, Option.bind]
  · rename_i hquote hbackslash _ _ _ _ _ hplain
    show stringChar? (c :: rest) = some (c, rest)
    rw [stringChar?.eq_def]
    split
    all_goals simp_all

theorem escaped_ne_nil (c : Char) : escaped c ≠ [] := by
  intro heq
  have hchar := stringChar?_escaped c []
  rw [heq] at hchar
  cases hchar

/-- A character inside a string does not end it. -/
theorem head?_escaped (c : Char) : (escaped c).head? ≠ some '"' := by
  unfold escaped
  split
  · decide
  · rename_i hquote
    repeat' split
    all_goals simp [hquote]

theorem stringBody?_escaped (s rest fuel : List Char) (h : s.length < fuel.length) :
    stringBody? fuel (s.flatMap escaped ++ '"' :: rest) = some (s, rest) := by
  induction s generalizing fuel with
  | nil =>
    cases fuel with
    | nil => cases h
    | cons f fuel => rfl
  | cons c s ih =>
    cases fuel with
    | nil => cases h
    | cons f fuel =>
      have hrest := ih fuel (Nat.lt_of_succ_lt_succ h)
      have hchar := stringChar?_escaped c (s.flatMap escaped ++ '"' :: rest)
      rw [List.flatMap_cons, List.append_assoc]
      rw [stringBody?]
      · simp only [hchar, hrest, bind, Option.bind]
        rfl
      · intro t heq
        have hhead := head?_escaped c
        cases hescaped : escaped c with
        | nil => exact escaped_ne_nil c hescaped
        | cons d ds =>
          rw [hescaped] at heq hhead
          exact hhead (congrArg List.head? heq)

theorem length_le_escaped (s : List Char) : s.length ≤ (s.flatMap escaped).length := by
  induction s with
  | nil => exact Nat.le_refl _
  | cons c s ih =>
    have hpos := List.length_pos_iff.2 (escaped_ne_nil c)
    rw [List.flatMap_cons, List.length_append, List.length_cons]
    omega

/-- **A written text is read back**, whatever follows its closing quote. -/
theorem string?_quoted (s : String) (rest : List Char) :
    string? (s.toList.flatMap escaped ++ '"' :: rest) = some (s, rest) := by
  have hlength := length_le_escaped s.toList
  unfold string?
  rw [stringBody?_escaped]
  · simp
  · rw [List.length_append, List.length_cons]
    omega

/-! ## Whole numbers -/

/-- The text that follows does not extend a numeral. -/
def EndsNumeral (rest : List Char) : Prop :=
  ∀ c ∈ rest.head?, c.isDigit = false ∧ c ≠ '.' ∧ c ≠ 'e' ∧ c ≠ 'E'

theorem endsNumeral_nil : EndsNumeral [] := by
  intro c hc
  cases hc

theorem spanDigits_append {digits rest : List Char} (hdigits : ∀ c ∈ digits, c.isDigit = true)
    (hrest : EndsNumeral rest) : spanDigits (digits ++ rest) = (digits, rest) := by
  unfold spanDigits
  rw [List.takeWhile_append_of_pos hdigits, List.dropWhile_append_of_pos hdigits]
  cases rest with
  | nil => simp
  | cons c rest =>
    have hc := (hrest c rfl).1
    simp [hc]

/-- A numeral starts with a zero only if it is that of zero. -/
theorem head?_toDigits {n : Nat} (h : 0 < n) : (Nat.toDigits 10 n).head? ≠ some '0' := by
  induction n using Nat.strongRecOn with
  | _ n ih =>
    by_cases hsmall : n < 10
    · have hdigit : ∀ m < 10, 0 < m → m.digitChar ≠ '0' := by decide
      rw [Nat.toDigits_of_lt_base hsmall]
      exact fun heq => hdigit n hsmall h (Option.some.inj heq)
    · have hrest := ih (n / 10) (by omega) (by omega)
      rw [Nat.toDigits_of_base_le (by decide) (Nat.le_of_not_lt hsmall), List.head?_append]
      cases hdigits : (Nat.toDigits 10 (n / 10)).head? with
      | none => exact absurd (List.head?_eq_none_iff.1 hdigits) Nat.toDigits_ne_nil
      | some c =>
        rw [hdigits] at hrest
        exact hrest

theorem toString_ne_zero_cons (n : Nat) (c : Char) (cs : List Char) :
    (toString n).toList ≠ '0' :: c :: cs := by
  rw [Nat.toString_eq_repr, Nat.toList_repr]
  intro heq
  cases n with
  | zero => cases heq
  | succ n => exact head?_toDigits (Nat.succ_pos n) (by rw [heq]; rfl)

theorem ofDigitChars_toString (n : Nat) : Nat.ofDigitChars 10 (toString n).toList 0 = n := by
  rw [Nat.toString_eq_repr, Nat.toList_repr, Nat.ofDigitChars_ten_toDigits]

theorem unsigned?_toString {negative : Bool} {n : Nat} {d : Datum} {rest : List Char}
    (hd : wholeNumber? negative (toString n).toList = some d) (hrest : EndsNumeral rest) :
    unsigned? negative ((toString n).toList ++ rest) = some (d, rest) := by
  unfold unsigned?
  rw [spanDigits_append (fun c hc => Text.isDigit_of_mem_toString hc) hrest]
  dsimp only
  split
  · rename_i hnil
    exact absurd hnil (Text.toList_toString_ne_nil n)
  · rename_i c cs heq
    exact absurd heq (toString_ne_zero_cons n c cs)
  · split
    · exact absurd rfl (hrest _ rfl).2.1
    · exact absurd rfl (hrest _ rfl).2.2.1
    · exact absurd rfl (hrest _ rfl).2.2.2
    · rw [hd, Option.map_some]

/-- A numeral starts with a digit, and not with anything else that a value may start with. -/
theorem exists_toString_eq_cons (n : Nat) :
    ∃ c cs, (toString n).toList = c :: cs ∧ c.isDigit = true := by
  cases hdigits : (toString n).toList with
  | nil => exact absurd hdigits (Text.toList_toString_ne_nil n)
  | cons c cs =>
    exact ⟨c, cs, rfl, Text.isDigit_of_mem_toString (hdigits ▸ List.mem_cons_self)⟩

/-- **Whole numbers are read back**, as far as 64 bits hold them, with or without a sign. -/
theorem number?_toString {i : Int} (hlow : Int64.minValue.toInt ≤ i) (hhigh : i < UInt64.size)
    {rest : List Char} (hrest : EndsNumeral rest) :
    number? ((toString i).toList ++ rest) = some (.int i, rest) := by
  have hmin : Int64.minValue.toInt = -9223372036854775808 := by decide
  rw [hmin] at hlow
  rw [Int.toString_eq_repr, Int.repr_eq_if]
  split
  · rename_i hnonneg
    have hwhole : wholeNumber? false (toString i.toNat).toList = some (.int i) := by
      have hsize : i.toNat < UInt64.size := by omega
      unfold wholeNumber?
      rw [ofDigitChars_toString]
      dsimp only
      rw [if_neg (by decide), if_pos hsize, Int.toNat_of_nonneg hnonneg]
    rw [← Nat.toString_eq_repr, ← unsigned?_toString hwhole hrest]
    obtain ⟨c, cs, heq, hdigit⟩ := exists_toString_eq_cons i.toNat
    rw [heq, List.cons_append, number?]
    intro _ hsign
    rw [(List.cons.inj hsign).1] at hdigit
    exact absurd hdigit (by decide)
  · rename_i hnegative
    have hwhole : wholeNumber? true (toString (-i).toNat).toList = some (.int i) := by
      have hsize : ¬ ((-i).toNat = 0 ∨ 1 <<< 63 < (-i).toNat) := by
        show ¬ ((-i).toNat = 0 ∨ 9223372036854775808 < (-i).toNat)
        omega
      unfold wholeNumber?
      rw [ofDigitChars_toString]
      dsimp only
      rw [if_pos rfl, if_neg hsize, Int.toNat_of_nonneg (by omega), Int.neg_neg]
    rw [← Nat.toString_eq_repr, String.toList_append]
    exact unsigned?_toString hwhole hrest

/-! ## Groups -/

theorem skipBlanks_cons {c : Char} (h : isBlank c = false) (cs : List Char) :
    skipBlanks (c :: cs) = c :: cs := by
  simp [skipBlanks, h]

section Groups

variable {α : Type} {item : List Char → Option (α × List Char)} {write : α → List Char}
  {close : Char} {a : α} {as : List α} {rest : List Char}

/-- What is written for an item starts like one and is read back before a comma or the closing
character. -/
structure ReadsBack (item : List Char → Option (α × List Char)) (write : α → List Char)
    (close : Char) (a : α) : Prop where
  starts : ∃ c cs, write a = c :: cs ∧ isBlank c = false ∧ c ≠ close
  read : ∀ {c rest}, c = ',' ∨ c = close → item (write a ++ c :: rest) = some (a, c :: rest)

theorem ReadsBack.skipBlanks_eq (h : ReadsBack item write close a) (rest : List Char) :
    skipBlanks (write a ++ rest) = write a ++ rest := by
  obtain ⟨c, cs, heq, hblank, -⟩ := h.starts
  rw [heq, List.cons_append, skipBlanks_cons hblank]

theorem between_cons_cons (p q : List Char) (ps : List (List Char)) :
    between [','] (p :: q :: ps) = p ++ ',' :: between [','] (q :: ps) := by
  rw [between]
  · simp
  · intro heq
    cases heq

theorem separated?_between (hclose : isBlank close = false) (hcomma : close ≠ ',')
    (h : ∀ b ∈ a :: as, ReadsBack item write close b) {fuel : List Char}
    (hfuel : as.length < fuel.length) :
    separated? item close fuel (between [','] ((a :: as).map write) ++ close :: rest) =
      some (a :: as, rest) := by
  induction as generalizing a fuel with
  | nil =>
    have ha := h a List.mem_cons_self
    cases fuel with
    | nil => cases hfuel
    | cons f fuel =>
      show separated? item close (f :: fuel) (write a ++ close :: rest) = _
      rw [separated?, ha.skipBlanks_eq, ha.read (Or.inr rfl)]
      simp only [bind, Option.bind, skipBlanks_cons hclose, if_neg hcomma, if_pos]
      rfl
  | cons b as ih =>
    obtain ⟨ha, has⟩ := List.forall_mem_cons.1 h
    cases fuel with
    | nil => cases hfuel
    | cons f fuel =>
      have hrest := ih has (Nat.lt_of_succ_lt_succ hfuel)
      have htext : between [','] ((a :: b :: as).map write) ++ close :: rest =
          write a ++ ',' :: (between [','] ((b :: as).map write) ++ close :: rest) := by
        rw [List.map_cons, List.map_cons, between_cons_cons, List.append_assoc]
        rfl
      have hblank : isBlank ',' = false := by decide
      rw [htext, separated?, ha.skipBlanks_eq, ha.read (Or.inl rfl)]
      simp only [bind, Option.bind, skipBlanks_cons hblank, if_pos, hrest]
      rfl

theorem length_le_between (h : ∀ b ∈ as, ReadsBack item write close b) :
    as.length ≤ (between [','] (as.map write)).length := by
  induction as with
  | nil => exact Nat.zero_le _
  | cons a as ih =>
    obtain ⟨ha, has⟩ := List.forall_mem_cons.1 h
    obtain ⟨c, cs, heq, -⟩ := ha.starts
    have hrest := ih has
    cases as with
    | nil =>
      show 1 ≤ (write a).length
      rw [heq]
      exact Nat.succ_pos _
    | cons b as =>
      rw [List.map_cons, List.map_cons, between_cons_cons, List.length_append, heq]
      rw [List.map_cons] at hrest
      simp only [List.length_cons] at hrest ⊢
      omega

/-- **Items that are read back one by one are read back between brackets.** -/
theorem group?_between (hclose : isBlank close = false) (hcomma : close ≠ ',')
    (h : ∀ b ∈ as, ReadsBack item write close b) (rest : List Char) :
    group? item close (between [','] (as.map write) ++ close :: rest) = some (as, rest) := by
  cases as with
  | nil =>
    show group? item close (close :: rest) = _
    simp [group?, skipBlanks_cons hclose]
  | cons a as =>
    have hlength := length_le_between h
    have hfuel : as.length < (between [','] ((a :: as).map write) ++ close :: rest).length := by
      rw [List.length_append]
      rw [List.length_cons] at hlength
      omega
    have hread := @separated?_between _ _ _ _ _ _ rest hclose hcomma h _ hfuel
    obtain ⟨c, cs, heq, hblank, hne⟩ := (h a List.mem_cons_self).starts
    have hstart : ∃ ds, between [','] ((a :: as).map write) ++ close :: rest = c :: ds := by
      cases as with
      | nil => exact ⟨cs ++ close :: rest, by show write a ++ _ = _; rw [heq]; rfl⟩
      | cons b as =>
        rw [List.map_cons, List.map_cons, between_cons_cons, heq]
        exact ⟨_, rfl⟩
    obtain ⟨ds, hds⟩ := hstart
    rw [hds] at hread ⊢
    unfold group?
    rw [skipBlanks_cons hblank]
    dsimp only
    rw [if_neg hne, hread]

end Groups

/-! ## Values -/

/-- The entry of an object as it is written. -/
def compactEntry (e : String × Datum) : List Char := quoted e.1 ++ (':' :: compact e.2)

theorem compactItems_eq (items : List Datum) : compactItems items = items.map compact := by
  induction items with
  | nil => rfl
  | cons d ds ih => rw [compactItems, ih, List.map_cons]

theorem compactEntries_eq (entries : List (String × Datum)) :
    compactEntries entries = entries.map compactEntry := by
  induction entries with
  | nil => rfl
  | cons e es ih => rw [compactEntries, ih, List.map_cons, compactEntry]

/-- The values that are read back: whole numbers that 64 bits hold, and no more than `depth` nested
arrays and objects. -/
inductive Writable : Nat → Datum → Prop where
  | null {depth : Nat} : Writable depth .null
  | bool {depth : Nat} (b : Bool) : Writable depth (.bool b)
  | int {depth : Nat} {i : Int} (low : Int64.minValue.toInt ≤ i) (high : i < UInt64.size) :
    Writable depth (.int i)
  | text {depth : Nat} (s : String) : Writable depth (.text s)
  | list {depth : Nat} {items : List Datum} (h : ∀ d ∈ items, Writable depth d) :
    Writable (depth + 1) (.list items)
  | record {depth : Nat} {entries : List (String × Datum)} (h : ∀ e ∈ entries, Writable depth e.2) :
    Writable (depth + 1) (.record entries)

/-- A written whole number starts with its sign or with a digit. -/
theorem exists_intText_eq_cons (i : Int) :
    ∃ c cs, (toString i).toList = c :: cs ∧ (c = '-' ∨ c.isDigit = true) := by
  rw [Int.toString_eq_repr, Int.repr_eq_if]
  split
  · obtain ⟨c, cs, heq, hdigit⟩ := exists_toString_eq_cons i.toNat
    exact ⟨c, cs, heq, Or.inr hdigit⟩
  · rw [String.toList_append]
    exact ⟨'-', _, rfl, Or.inl rfl⟩

/-- A written value starts with neither a blank nor a closing bracket. -/
theorem exists_compact_eq_cons {depth : Nat} {d : Datum} (h : Writable depth d) :
    ∃ c cs, compact d = c :: cs ∧ isBlank c = false ∧ c ≠ ']' ∧ c ≠ '\x7d' := by
  cases h with
  | null => exact ⟨'n', _, rfl, by decide⟩
  | bool b =>
    cases b with
    | false => exact ⟨'f', _, rfl, by decide⟩
    | true => exact ⟨'t', _, rfl, by decide⟩
  | int low high =>
    rename_i i
    obtain ⟨c, cs, heq, hc⟩ := exists_intText_eq_cons i
    refine ⟨c, cs, heq, ?_⟩
    rcases hc with rfl | hdigit
    · decide
    · refine ⟨?_, ?_, ?_⟩
      · unfold isBlank
        simp only [Bool.or_eq_false_iff, beq_eq_false_iff_ne]
        refine ⟨⟨⟨?_, ?_⟩, ?_⟩, ?_⟩ <;> rintro rfl <;> cases hdigit
      · rintro rfl
        cases hdigit
      · rintro rfl
        cases hdigit
  | text s => exact ⟨'"', _, rfl, by decide⟩
  | list h => exact ⟨'[', _, rfl, by decide⟩
  | record h => exact ⟨'\x7b', _, rfl, by decide⟩

/-- Neither a comma nor a closing bracket extends a numeral. -/
theorem endsNumeral_cons {c : Char} (h : c = ',' ∨ c = ']' ∨ c = '\x7d') (rest : List Char) :
    EndsNumeral (c :: rest) := by
  intro d hd
  cases hd
  rcases h with rfl | rfl | rfl <;> decide

/-- **An entry is read back** if its value is. -/
theorem member?_compactEntry {value : List Char → Option (Datum × List Char)}
    {e : String × Datum} {rest : List Char} {c : Char} {cs : List Char}
    (hstart : compact e.2 = c :: cs) (hblank : isBlank c = false)
    (hvalue : value (compact e.2 ++ rest) = some (e.2, rest)) :
    member? value (compactEntry e ++ rest) = some (e, rest) := by
  have htext : compactEntry e ++ rest =
      '"' :: (e.1.toList.flatMap escaped ++ '"' :: ':' :: (compact e.2 ++ rest)) := by
    simp [compactEntry, quoted]
  have hcolon : skipBlanks (':' :: (compact e.2 ++ rest)) = ':' :: (compact e.2 ++ rest) :=
    skipBlanks_cons (by decide) _
  have hskip : skipBlanks (compact e.2 ++ rest) = compact e.2 ++ rest := by
    rw [hstart, List.cons_append, skipBlanks_cons hblank]
  rw [htext, member?, string?_quoted]
  simp only [bind, Option.bind, hcolon, hskip, hvalue]
  rfl

/-- **A written value is read back**, with whatever follows it left over. -/
theorem value?_compact {depth : Nat} {d : Datum} (h : Writable depth d) {rest : List Char}
    (hrest : EndsNumeral rest) : value? depth (compact d ++ rest) = some (d, rest) := by
  induction h generalizing rest with
  | null =>
    show value? _ ('n' :: 'u' :: 'l' :: 'l' :: rest) = _
    rw [value?]
  | bool b =>
    cases b with
    | false =>
      show value? _ ('f' :: 'a' :: 'l' :: 's' :: 'e' :: rest) = _
      rw [value?]
    | true =>
      show value? _ ('t' :: 'r' :: 'u' :: 'e' :: rest) = _
      rw [value?]
  | @int depth i low high =>
    show value? depth ((toString i).toList ++ rest) = _
    rw [← number?_toString low high hrest]
    obtain ⟨c, cs, heq, hc⟩ := exists_intText_eq_cons i
    have hne : c ∉ ['"', 'n', 't', 'f', '[', '\x7b'] := by
      rcases hc with rfl | hdigit
      · decide
      · intro hmem
        have hletters : ['"', 'n', 't', 'f', '[', '\x7b'].all (fun x => !x.isDigit) = true := by rfl
        have hletter := List.all_eq_true.1 hletters c hmem
        rw [hdigit] at hletter
        cases hletter
    rw [heq, List.cons_append, value?.eq_def]
    split
    all_goals simp_all
  | text s =>
    show value? _ ('"' :: (s.toList.flatMap escaped ++ ['"'] ++ rest)) = _
    rw [value?, List.append_assoc]
    show (string? (s.toList.flatMap escaped ++ '"' :: rest)).map _ = _
    rw [string?_quoted]
    rfl
  | @list depth items hitems ih =>
    have hread : ∀ d ∈ items, ReadsBack (value? depth) compact ']' d := by
      intro d hd
      obtain ⟨c, cs, heq, hblank, hne, -⟩ := exists_compact_eq_cons (hitems d hd)
      refine ⟨⟨c, cs, heq, hblank, hne⟩, fun hc => ih d hd (endsNumeral_cons ?_ _)⟩
      exact hc.imp_right Or.inl
    show value? (depth + 1) ('[' :: (between [','] (compactItems items) ++ [']'] ++ rest)) = _
    rw [value?, compactItems_eq, List.append_assoc]
    show (group? (value? depth) ']' (between [','] (items.map compact) ++ ']' :: rest)).map _ = _
    rw [group?_between (by decide) (by decide) hread]
    rfl
  | @record depth entries hentries ih =>
    have hread : ∀ e ∈ entries, ReadsBack (member? (value? depth)) compactEntry '\x7d' e := by
      intro e he
      obtain ⟨c, cs, heq, hblank, -, -⟩ := exists_compact_eq_cons (hentries e he)
      refine ⟨⟨'"', _, rfl, by decide, by decide⟩, fun hc => ?_⟩
      apply member?_compactEntry heq hblank
      apply ih e he
      exact endsNumeral_cons (hc.imp_right Or.inr) _
    show value? (depth + 1)
      ('\x7b' :: (between [','] (compactEntries entries) ++ ['\x7d'] ++ rest)) = _
    rw [value?, compactEntries_eq, List.append_assoc]
    show (group? (member? (value? depth)) '\x7d'
      (between [','] (entries.map compactEntry) ++ '\x7d' :: rest)).map _ = _
    rw [group?_between (by decide) (by decide) hread]
    rfl

end MatchTree.Json
