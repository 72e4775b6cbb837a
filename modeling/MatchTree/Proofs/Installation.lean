import MatchTree.Proofs.Outcome
import MatchTree.Proofs.Words
import MatchTree.Switch.Install

/-!
# What one line of commands does

* `Installation.Declares` — how the default of a table changes the tables.
* `Installation.AddsRow`, `Installation.AddsBand` — how an entry changes them.

Principal results: `setDefault_ok`, `addEntry_ok` — a command is taken exactly if it has the right
words and its table is in the right state; `step_cases` — a line that is taken is such a command or
does nothing; `steps_append` — lines are taken one after another. Line numbers occur in faults only,
so none of these says anything about them.
-/

namespace MatchTree

/-! ## Numerals -/

/-- The verdict that a word stands for. -/
def Verdict.ofWord? (word : String) : Option Verdict :=
  (Text.uint8? word.toList).bind Verdict.ofCode?

theorem Verdict.ofWord?_toString (v : Verdict) : ofWord? (toString v.code.toNat) = some v := by
  rw [ofWord?, Text.uint8?_toString, Option.bind_some, ofCode?_code]

/-- The arrow is no numeral. -/
theorem Verdict.ofWord?_arrow : ofWord? Command.arrow = none := by decide

theorem Text.uint16?_arrow : uint16? Command.arrow.toList = none := by decide

theorem numeral_ok {line : Nat} {operand : Operand} {read? : List Char → Option α} {word : String}
    {a : α} : numeral line operand read? word = .ok a ↔ read? word.toList = some a := by
  unfold numeral
  cases read? word.toList <;> simp

theorem codeNumeral_ok {line : Nat} {word : String} {c : Code} :
    codeNumeral line word = .ok c ↔ Text.uint16? word.toList = some c :=
  numeral_ok

theorem verdictNumeral_ok {line : Nat} {word : String} {v : Verdict} :
    verdictNumeral line word = .ok v ↔ Verdict.ofWord? word = some v := by
  rw [verdictNumeral, bind_eq_ok, Verdict.ofWord?, Option.bind_eq_some_iff]
  simp only [numeral_ok]
  refine exists_congr fun k => and_congr_right fun _ => ?_
  cases Verdict.ofCode? k <;> simp [pure, Except.pure]


theorem mapM_codeNumeral_ok {line : Nat} {words : List String} {codes : List Code} :
    words.mapM (codeNumeral line) = .ok codes ↔
      List.Forall₂ (fun w c => Text.uint16? w.toList = some c) words codes := by
  rw [mapM_eq_ok]
  simp only [codeNumeral_ok]

/-! ## Separators -/

theorem splitAtArrow?_append {keys : List String} (h : Command.arrow ∉ keys)
    (params : List String) :
    splitAtArrow? (keys ++ Command.arrow :: params) = some (keys, params) := by
  induction keys with
  | nil => rw [List.nil_append, splitAtArrow?, if_pos rfl]
  | cons k keys ih =>
    rw [List.mem_cons, not_or] at h
    rw [List.cons_append, splitAtArrow?, if_neg (Ne.symm h.1), ih h.2]
    rfl

theorem arrow_mem_of_splitAtArrow? {ws : List String} {x : List String × List String}
    (h : splitAtArrow? ws = some x) : Command.arrow ∈ ws := by
  induction ws generalizing x with
  | nil => cases h
  | cons w ws ih =>
    rw [splitAtArrow?] at h
    split at h
    · next heq => exact heq ▸ List.mem_cons_self ..
    · obtain ⟨y, hy, -⟩ := Option.map_eq_some_iff.1 h
      exact List.mem_cons_of_mem _ (ih hy)

theorem splitRange?_append {lower : List Char} (h : '-' ∉ lower) (upper : List Char) :
    splitRange? (lower ++ '-' :: '>' :: upper) = some (lower, upper) := by
  induction lower with
  | nil => rfl
  | cons c cs ih =>
    rw [List.mem_cons, not_or] at h
    have hstep : splitRange? (c :: (cs ++ '-' :: '>' :: upper)) =
        (splitRange? (cs ++ '-' :: '>' :: upper)).map fun x => (c :: x.1, x.2) := by
      rw [splitRange?]
      intro _ heq
      exact absurd heq.symm h.1
    rw [List.cons_append, hstep, ih h.2]
    rfl

namespace Installation

variable {n : Naming} {line : Nat} {s s' : Installation}

/-! ## Defaults -/

/-- The default of a table is set to what a word stands for, which declares the table. -/
def Declares (n : Naming) (s : Installation) (table action param : String) (s' : Installation) :
    Prop :=
  (table = n.verdictTable ∧ s.verdictTable? = none ∧ ∃ v, Verdict.ofWord? param = some v ∧
    s' = { s with verdictTable? := some ⟨table, action, v, []⟩ }) ∨
  (table ≠ n.verdictTable ∧ n.isBandTable table = true ∧ s.find? table = none ∧
    ∃ code, Text.uint16? param.toList = some code ∧
      s' = { s with bandTables := s.bandTables ++ [⟨table, action, code, []⟩] })

/-- **A default is set exactly if it declares its table.** -/
theorem setDefault_ok {args : List String} :
    s.setDefault n line args = .ok s' ↔
      ∃ table action param, args = [table, action, param] ∧ s.Declares n table action param s' := by
  constructor
  · intro h
    unfold setDefault at h
    split at h
    · rename_i table action param
      refine ⟨table, action, param, rfl, ?_⟩
      split at h
      · rename_i hverdict
        split at h
        · cases h
        rename_i hnone
        obtain ⟨v, hv, h⟩ := bind_eq_ok.1 h
        cases h
        exact Or.inl ⟨hverdict, Option.not_isSome_iff_eq_none.1 hnone, v, verdictNumeral_ok.1 hv, rfl⟩
      · rename_i hverdict
        split at h
        · rename_i hband
          split at h
          · cases h
          rename_i hnone
          obtain ⟨code, hcode, h⟩ := bind_eq_ok.1 h
          cases h
          exact Or.inr ⟨hverdict, hband, Option.not_isSome_iff_eq_none.1 hnone, code,
            codeNumeral_ok.1 hcode, rfl⟩
        · cases h
    · cases h
  · rintro ⟨table, action, param, rfl, ⟨hverdict, hnone, v, hv, rfl⟩ |
      ⟨hverdict, hband, hnone, code, hcode, rfl⟩⟩
    · rw [setDefault, if_pos hverdict, hnone, if_neg (by simp), bind_eq_ok]
      exact ⟨v, verdictNumeral_ok.2 hv, rfl⟩
    · rw [setDefault, if_neg hverdict, if_pos hband, hnone, if_neg (by simp), bind_eq_ok]
      exact ⟨code, codeNumeral_ok.2 hcode, rfl⟩

/-! ## Rows -/

/-- A row is added to the verdict table: a code for each band table, and no key twice. -/
def AddsRow (s : Installation) (t : InstalledVerdictTable) (action : String)
    (keys params : List String) (s' : Installation) : Prop :=
  action = t.action ∧ keys.length = s.bandTables.length ∧
    ∃ param codes v, params = [param] ∧
      List.Forall₂ (fun w c => Text.uint16? w.toList = some c) keys codes ∧
      Verdict.ofWord? param = some v ∧ t.verdict? codes = none ∧
      s' = { s with verdictTable? := some { t with entries := t.entries ++ [(codes, v)] } }

theorem addRow_ok {t : InstalledVerdictTable} {action : String} {keys params : List String} :
    s.addRow line t action keys params = .ok s' ↔ s.AddsRow t action keys params s' := by
  constructor
  · intro h
    unfold addRow at h
    split at h
    · cases h
    rename_i haction
    split at h
    · cases h
    rename_i hlength
    split at h
    · rename_i param
      obtain ⟨codes, hcodes, h⟩ := bind_eq_ok.1 h
      obtain ⟨v, hv, h⟩ := bind_eq_ok.1 h
      split at h
      · cases h
      rename_i hnew
      cases h
      exact ⟨not_not.1 haction, not_not.1 hlength, param, codes, v, rfl,
        mapM_codeNumeral_ok.1 hcodes, verdictNumeral_ok.1 hv,
        Option.not_isSome_iff_eq_none.1 hnew, rfl⟩
    · cases h
  · rintro ⟨haction, hlength, param, codes, v, rfl, hcodes, hv, hnew, rfl⟩
    rw [addRow, if_neg (not_not.2 haction), if_neg (not_not.2 hlength), bind_eq_ok]
    refine ⟨codes, mapM_codeNumeral_ok.2 hcodes, bind_eq_ok.2 ⟨v, verdictNumeral_ok.2 hv, ?_⟩⟩
    rw [hnew, if_neg (by simp)]
    rfl

/-! ## Bands -/

/-- The words of an entry stand for a band that is not empty. -/
def Writes (keys params : List String) (b : InstalledBand) : Prop :=
  ∃ key code priority lower upper, keys = [key] ∧ params = [code, priority] ∧
    splitRange? key.toList = some (lower, upper) ∧
    Text.uint32? lower = some b.lower ∧ Text.uint32? upper = some b.upper ∧
    Text.uint16? code.toList = some b.code ∧ Text.uint32? priority.toList = some b.priority ∧
    b.lower ≤ b.upper

theorem readBand_ok {keys params : List String} {b : InstalledBand} :
    readBand line keys params = .ok b ↔ Writes keys params b := by
  constructor
  · intro h
    unfold readBand at h
    split at h
    · rename_i key code priority
      split at h
      · cases h
      rename_i lower upper hsplit
      obtain ⟨low, hlow, h⟩ := bind_eq_ok.1 h
      obtain ⟨high, hhigh, h⟩ := bind_eq_ok.1 h
      obtain ⟨c, hc, h⟩ := bind_eq_ok.1 h
      obtain ⟨p, hp, h⟩ := bind_eq_ok.1 h
      rw [numeral_ok, String.toList_ofList] at hlow hhigh
      split at h
      · cases h
      rename_i hle
      cases h
      exact ⟨key, code, priority, lower, upper, rfl, rfl, hsplit, hlow, hhigh,
        codeNumeral_ok.1 hc, numeral_ok.1 hp, UInt32.not_lt.1 hle⟩
    · cases h
  · rintro ⟨key, code, priority, lower, upper, rfl, rfl, hsplit, hlow, hhigh, hc, hp, hle⟩
    unfold readBand
    simp only [hsplit]
    refine bind_eq_ok.2 ⟨b.lower, numeral_ok.2 (by rwa [String.toList_ofList]), ?_⟩
    refine bind_eq_ok.2 ⟨b.upper, numeral_ok.2 (by rwa [String.toList_ofList]), ?_⟩
    refine bind_eq_ok.2 ⟨b.code, codeNumeral_ok.2 hc, bind_eq_ok.2 ⟨b.priority, numeral_ok.2 hp, ?_⟩⟩
    rw [if_neg (UInt32.not_lt.2 hle)]
    rfl

/-- A band is added to all tables with the name of the one that was found. -/
def AddsBand (s : Installation) (t : InstalledBandTable) (action : String)
    (keys params : List String) (s' : Installation) : Prop :=
  action = t.action ∧ ∃ b, Writes keys params b ∧
    s' = { s with
      bandTables := s.bandTables.map fun u =>
        if u.name = t.name then { u with entries := u.entries ++ [b] } else u }

theorem addBand_ok {t : InstalledBandTable} {action : String} {keys params : List String} :
    s.addBand line t action keys params = .ok s' ↔ s.AddsBand t action keys params s' := by
  constructor
  · intro h
    unfold addBand at h
    split at h
    · cases h
    rename_i haction
    obtain ⟨b, hb, h⟩ := bind_eq_ok.1 h
    cases h
    exact ⟨not_not.1 haction, b, readBand_ok.1 hb, rfl⟩
  · rintro ⟨haction, b, hb, rfl⟩
    rw [addBand, if_neg (not_not.2 haction), bind_eq_ok]
    exact ⟨b, readBand_ok.2 hb, rfl⟩

/-! ## Lines -/

/-- **An entry is added exactly if its table is declared and takes it.** -/
theorem addEntry_ok {args : List String} :
    s.addEntry n line args = .ok s' ↔
      ∃ table action rest keys params, args = table :: action :: rest ∧
        splitAtArrow? rest = some (keys, params) ∧
        ((table = n.verdictTable ∧
            ∃ t, s.verdictTable? = some t ∧ s.AddsRow t action keys params s') ∨
          (table ≠ n.verdictTable ∧
            ∃ t, s.find? table = some t ∧ s.AddsBand t action keys params s')) := by
  constructor
  · intro h
    unfold addEntry at h
    split at h
    · rename_i table action rest
      split at h
      · cases h
      rename_i keys params hsplit
      refine ⟨table, action, rest, keys, params, rfl, hsplit, ?_⟩
      split at h
      · rename_i hverdict
        split at h
        · cases h
        · rename_i t ht
          exact Or.inl ⟨hverdict, t, ht, addRow_ok.1 h⟩
      · rename_i hverdict
        split at h
        · rename_i t ht
          exact Or.inr ⟨hverdict, t, ht, addBand_ok.1 h⟩
        · split at h <;> cases h
    · cases h
  · rintro ⟨table, action, rest, keys, params, rfl, hsplit, ⟨hverdict, t, ht, hadds⟩ |
      ⟨hverdict, t, ht, hadds⟩⟩
    · unfold addEntry
      simp only [hsplit, if_pos hverdict, ht]
      exact addRow_ok.2 hadds
    · unfold addEntry
      simp only [hsplit, if_neg hverdict, ht]
      exact addBand_ok.2 hadds

theorem step_setDefault (n : Naming) (s : Installation) (line : Nat) (args : List String) :
    s.step n line (Command.setDefault :: args) = s.setDefault n line args := by
  rw [step, if_neg (by decide), if_pos rfl]

theorem step_addEntry (n : Naming) (s : Installation) (line : Nat) (args : List String) :
    s.step n line (Command.addEntry :: args) = s.addEntry n line args := by
  rw [step, if_neg (by decide), if_neg (by decide), if_pos rfl]

/-- The line is blank or a comment. -/
def Skipped (words : List String) : Prop :=
  ∀ command ∈ words.head?, command.toList.head? = some '#'

/-- **What a line does**: nothing, or it declares a table, or it adds an entry. -/
theorem step_cases {words : List String} (h : s.step n line words = .ok s') :
    (Skipped words ∧ s' = s) ∨
      (∃ table action param, words = [Command.setDefault, table, action, param] ∧
        s.Declares n table action param s') ∨
      ∃ table action rest keys params, words = Command.addEntry :: table :: action :: rest ∧
        splitAtArrow? rest = some (keys, params) ∧
        ((table = n.verdictTable ∧
            ∃ t, s.verdictTable? = some t ∧ s.AddsRow t action keys params s') ∨
          (table ≠ n.verdictTable ∧
            ∃ t, s.find? table = some t ∧ s.AddsBand t action keys params s')) := by
  cases words with
  | nil =>
    cases h
    exact Or.inl ⟨by simp [Skipped], rfl⟩
  | cons command args =>
    rw [step] at h
    split at h
    · rename_i hcomment
      cases h
      exact Or.inl ⟨by simpa [Skipped] using hcomment, rfl⟩
    · split at h
      · rename_i hset
        subst hset
        obtain ⟨table, action, param, rfl, hdeclares⟩ := setDefault_ok.1 h
        exact Or.inr (Or.inl ⟨table, action, param, rfl, hdeclares⟩)
      · split at h
        · rename_i hadd
          subst hadd
          obtain ⟨table, action, rest, keys, params, rfl, hadds⟩ := addEntry_ok.1 h
          exact Or.inr (Or.inr ⟨table, action, rest, keys, params, rfl, hadds⟩)
        · cases h

theorem steps_nil : s.steps n [] = .ok s' ↔ s = s' := by
  simp [steps, pure, Except.pure]

theorem steps_cons {words : List String} {rest : List (List String × Nat)} :
    s.steps n ((words, line) :: rest) = .ok s' ↔
      ∃ m, s.step n line words = .ok m ∧ m.steps n rest = .ok s' := by
  rw [steps, List.foldlM_cons, bind_eq_ok]
  rfl

/-- **Lines are taken one after another.** -/
theorem steps_append {first second : List (List String)} {k : Nat} :
    s.steps n ((first ++ second).zipIdx k) = .ok s' ↔
      ∃ m, s.steps n (first.zipIdx k) = .ok m ∧
        m.steps n (second.zipIdx (k + first.length)) = .ok s' := by
  rw [List.zipIdx_append, steps, List.foldlM_append, bind_eq_ok]
  rfl

theorem finish_ok {x : Installed} :
    s.finish n = .ok x ↔ s = ⟨x.bandTables, some x.verdictTable⟩ := by
  obtain ⟨bandTables, verdictTable?⟩ := s
  cases verdictTable? with
  | none => simp [finish]
  | some t =>
    rw [finish, Except.ok.injEq, Installation.mk.injEq, Option.some.injEq]
    constructor
    · rintro rfl
      exact ⟨rfl, rfl⟩
    · rintro ⟨rfl, rfl⟩
      rfl

end Installation

end MatchTree
