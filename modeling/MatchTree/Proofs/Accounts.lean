import Mathlib.Data.List.Forall2
import Mathlib.Data.List.Nodup
import MatchTree.Proofs.CodeTable
import MatchTree.Proofs.KeyWidths

/-!
# What installed tables account for

* `Line.DeclaresVerdicts`, `Line.DeclaresBands` — a line declares a table as it is installed.
* `Line.AddsBand`, `Line.AddsRow` — a line adds an entry as it is installed.
* `Installation.Grows` — a part of the tables grows by one thing for each line of a kind.
* `Installation.Distinct` — band tables go by their names, and rows by their keys.
* `Installed.AccountsFor` — the tables hold what the lines of a text say, each line once.

Two lines may spell the numbers of one key in different ways. What is compared, and what is looked
up, is the numbers.

Principal results: `Grows.steps` — what single lines add is collected over a whole text;
`Distinct.steps` — no name and no key comes twice, so all entries are counted;
`accountsFor_of_ofText` — a text that loads loses, merges and invents nothing.
-/

namespace MatchTree

open Installation

theorem exists_of_forall₂ {α β : Type} {R : α → β → Prop} {xs : List α} {ys : List β}
    (h : List.Forall₂ R xs ys) {x : α} (hx : x ∈ xs) : ∃ y ∈ ys, R x y := by
  obtain ⟨i, hi, rfl⟩ := List.getElem_of_mem hx
  have hi' : i < ys.length := h.length_eq ▸ hi
  exact ⟨ys[i], List.getElem_mem hi', h.get hi hi'⟩

/-! ## Tables -/

/-- A band table as it is declared. -/
def InstalledBandTable.cleared (t : InstalledBandTable) : InstalledBandTable :=
  { t with entries := [] }

/-- A verdict table as it is declared. -/
def InstalledVerdictTable.cleared (t : InstalledVerdictTable) : InstalledVerdictTable :=
  { t with entries := [] }

namespace InstalledVerdictTable

variable {t : InstalledVerdictTable} {key : List Code} {v : Verdict}

theorem verdict?_eq_none_iff : t.verdict? key = none ↔ key ∉ t.entries.map (·.1) := by
  simp only [verdict?, Option.map_eq_none_iff, List.find?_eq_none, beq_iff_eq, List.mem_map,
    not_exists, not_and]

/-- **Looking up a key gives the verdict of its entry.** -/
theorem verdict?_eq_some_iff (h : (t.entries.map (·.1)).Nodup) :
    t.verdict? key = some v ↔ (key, v) ∈ t.entries := by
  rw [verdict?, map_find?_eq_some_iff h]
  constructor
  · rintro ⟨e, he, rfl, rfl⟩
    exact he
  · intro he
    exact ⟨_, he, rfl, rfl⟩

end InstalledVerdictTable

/-- A band table after a band is added to the one with the given name. -/
def InstalledBandTable.withBand (table : String) (b : InstalledBand) (t : InstalledBandTable) :
    InstalledBandTable :=
  if t.name = table then { t with entries := t.entries ++ [b] } else t

namespace InstalledBandTable

variable {table : String} {b : InstalledBand} {t : InstalledBandTable}

theorem withBand_self (h : t.name = table) :
    t.withBand table b = { t with entries := t.entries ++ [b] } :=
  if_pos h

theorem withBand_of_ne (h : t.name ≠ table) : t.withBand table b = t :=
  if_neg h

@[simp]
theorem name_withBand : (t.withBand table b).name = t.name := by
  unfold withBand
  split <;> rfl

@[simp]
theorem cleared_withBand : (t.withBand table b).cleared = t.cleared := by
  unfold withBand
  split <;> rfl

end InstalledBandTable

/-! ## Lines -/

namespace Line

variable {n : Naming} {table : String} {words : List String}

/-- The line declares the verdict table. -/
def isVerdictDefault (n : Naming) : List String → Bool :=
  isCommand Command.setDefault (· == n.verdictTable)

/-- The line adds an entry to the table with the given name. -/
def isEntryOf (table : String) : List String → Bool := isCommand Command.addEntry (· == table)

/-- The line adds an entry to some table. -/
def isEntry : List String → Bool := isCommand Command.addEntry fun _ => true

/-- The line declares the verdict table with its action and its default. -/
def DeclaresVerdicts (words : List String) (t : InstalledVerdictTable) : Prop :=
  ∃ param, words = [Command.setDefault, t.name, t.action, param] ∧
    Verdict.ofWord? param = some t.defaultVerdict

/-- The line declares a band table with its name, its action and its default. -/
def DeclaresBands (words : List String) (t : InstalledBandTable) : Prop :=
  ∃ param, words = [Command.setDefault, t.name, t.action, param] ∧
    Text.uint16? param.toList = some t.defaultCode

/-- The line adds the band. -/
def AddsBand (words : List String) (b : InstalledBand) : Prop :=
  ∃ table action rest keys params, words = Command.addEntry :: table :: action :: rest ∧
    splitAtArrow? rest = some (keys, params) ∧ Writes keys params b

/-- The line adds the row: its key has these numbers, however they are spelled. -/
def AddsRow (words : List String) (e : List Code × Verdict) : Prop :=
  ∃ table action rest keys param, words = Command.addEntry :: table :: action :: rest ∧
    splitAtArrow? rest = some (keys, [param]) ∧
    List.Forall₂ (fun w c => Text.uint16? w.toList = some c) keys e.1 ∧
    Verdict.ofWord? param = some e.2

theorem AddsBand.lower_le_upper {b : InstalledBand} (h : AddsBand words b) : b.lower ≤ b.upper := by
  obtain ⟨_, _, _, _, _, -, -, hwrites⟩ := h
  obtain ⟨_, _, _, _, _, -, -, -, -, -, -, -, hle⟩ := hwrites
  exact hle

/-- A line adds one row at most. -/
theorem AddsRow.unique {e f : List Code × Verdict} (he : AddsRow words e) (hf : AddsRow words f) :
    e = f := by
  obtain ⟨table, action, rest, keys, param, rfl, hsplit, hkeys, hparam⟩ := he
  obtain ⟨table', action', rest', keys', param', heq, hsplit', hkeys', hparam'⟩ := hf
  cases heq
  rw [hsplit] at hsplit'
  cases hsplit'
  rw [hparam] at hparam'
  have hread : Relator.RightUnique fun (w : String) (c : Code) => Text.uint16? w.toList = some c :=
    fun w c d hc hd => Option.some.inj (hc.symm.trans hd)
  exact Prod.ext (hread.forall₂ hkeys hkeys') (Option.some.inj hparam')

end Line

namespace Installation

variable {n : Naming} {line k : Nat} {s s' : Installation} {α : Type}

/-- What holds of no lines, and of a line that is taken before others, holds of all lines. -/
theorem steps_induction {motive : Installation → List (List String) → Prop} (nil : motive s' [])
    (cons : ∀ {s line words m rest}, s.step n line words = .ok m → motive m rest →
      motive s (words :: rest))
    {lines : List (List String)} (h : s.steps n (lines.zipIdx k) = .ok s') : motive s lines := by
  induction lines generalizing s k with
  | nil =>
    rw [List.zipIdx_nil, steps_nil] at h
    exact h ▸ nil
  | cons words rest ih =>
    rw [List.zipIdx_cons, steps_cons] at h
    obtain ⟨m, hstep, hrest⟩ := h
    exact cons hstep (ih hrest)

/-! ## What lines add -/

/-- The rows so far. -/
def rows (s : Installation) : List (List Code × Verdict) :=
  s.verdictTable?.toList.flatMap (·.entries)

/-- The bands so far of the table with the given name. -/
def bandsOf (table : String) (s : Installation) : List InstalledBand :=
  (s.find? table).elim [] (·.entries)

theorem bandsOf_of_find? {table : String} {t : InstalledBandTable} (h : s.find? table = some t) :
    bandsOf table s = t.entries := by
  rw [bandsOf, h]
  rfl

theorem bandsOf_empty (table : String) : bandsOf table empty = [] :=
  rfl

theorem bandsOf_congr {table : String} (h : s'.find? table = s.find? table) :
    bandsOf table s' = bandsOf table s := by
  rw [bandsOf, h, bandsOf]

theorem name_of_find? {table : String} {t : InstalledBandTable} (h : s.find? table = some t) :
    t.name = table := by
  simpa using List.find?_some h

theorem find?_withBand (s : Installation) (table other : String) (b : InstalledBand) :
    find? { s with bandTables := s.bandTables.map (·.withBand other b) } table =
      (s.find? table).map (·.withBand other b) := by
  rw [find?, List.find?_map, find?]
  simp only [Function.comp_def, InstalledBandTable.name_withBand]

theorem find?_withBand_of_ne {table other : String} (h : table ≠ other) (b : InstalledBand) :
    find? { s with bandTables := s.bandTables.map (·.withBand other b) } table = s.find? table := by
  rw [find?_withBand]
  cases ht : s.find? table with
  | none => rfl
  | some t => rw [Option.map_some, InstalledBandTable.withBand_of_ne (name_of_find? ht ▸ h)]

/-- A part of the tables grows by one thing for each line of a kind, and by nothing for others. -/
def Grows (kind : List String → Bool) (Adds : List String → α → Prop)
    (part : Installation → List α) (s : Installation) (lines : List (List String))
    (s' : Installation) : Prop :=
  ∃ added, part s' = part s ++ added ∧ List.Forall₂ Adds (lines.filter kind) added

section Grows

variable {kind : List String → Bool} {Adds : List String → α → Prop} {part : Installation → List α}
  {words : List String}

theorem Grows.nothing (hkind : kind words = false) (hpart : part s' = part s) :
    Grows kind Adds part s [words] s' :=
  ⟨[], by rw [hpart, List.append_nil], by rw [List.filter_singleton, hkind]; exact .nil⟩

theorem Grows.one (a : α) (hkind : kind words = true) (hadds : Adds words a)
    (hpart : part s' = part s ++ [a]) : Grows kind Adds part s [words] s' :=
  ⟨[a], hpart, by rw [List.filter_singleton, hkind]; exact .cons hadds .nil⟩

/-- **What single lines add is collected over a whole text**, in the order of the lines. -/
theorem Grows.steps
    (h : ∀ {s line words s'}, s.step n line words = .ok s' → Grows kind Adds part s [words] s')
    {lines : List (List String)} (hs : s.steps n (lines.zipIdx k) = .ok s') :
    Grows kind Adds part s lines s' := by
  refine steps_induction (motive := fun s lines => Grows kind Adds part s lines s') ?_ ?_ hs
  · exact ⟨[], (List.append_nil _).symm, .nil⟩
  · rintro s line words m rest hstep ⟨later, hlater, hadds'⟩
    obtain ⟨first, hfirst, hadds⟩ := h hstep
    refine ⟨first ++ later, ?_, ?_⟩
    · rw [hlater, hfirst, List.append_assoc]
    · rw [← List.singleton_append, List.filter_append]
      exact List.rel_append hadds hadds'

end Grows

theorem grows_verdictDefaults {words : List String} (h : s.step n line words = .ok s') :
    Grows (Line.isVerdictDefault n) Line.DeclaresVerdicts
      (fun s => s.verdictTable?.toList.map (·.cleared)) s [words] s' := by
  rcases step_cases h with ⟨hskipped, rfl⟩ | ⟨table, action, param, rfl, hdeclares⟩ |
    ⟨table, action, rest, keys, params, rfl, -, hadds⟩
  · exact .nothing (isCommand_of_skipped (by decide) hskipped) rfl
  · rcases hdeclares with ⟨hverdict, hnone, v, hv, rfl⟩ | ⟨hverdict, -, -, code, -, rfl⟩
    · exact .one ⟨table, action, v, []⟩ (isCommand_self.trans (by simpa using hverdict))
        ⟨param, rfl, hv⟩ (by simp [hnone, InstalledVerdictTable.cleared])
    · exact .nothing (isCommand_self.trans (by simpa using hverdict)) rfl
  · refine .nothing (isCommand_of_ne setDefault_ne_addEntry.symm) ?_
    rcases hadds with ⟨-, t, ht, -, -, param, codes, v, -, -, -, -, rfl⟩ | ⟨-, t, -, -, b, -, rfl⟩
    · simp [ht, InstalledVerdictTable.cleared]
    · rfl

theorem grows_bandDefaults {words : List String} (h : s.step n line words = .ok s') :
    Grows (isBandDefault n) Line.DeclaresBands (fun s => s.bandTables.map (·.cleared)) s [words]
      s' := by
  rcases step_cases h with ⟨hskipped, rfl⟩ | ⟨table, action, param, rfl, hdeclares⟩ |
    ⟨table, action, rest, keys, params, rfl, -, hadds⟩
  · exact .nothing (isCommand_of_skipped (by decide) hskipped) rfl
  · rcases hdeclares with ⟨hverdict, -, v, -, rfl⟩ | ⟨hverdict, -, -, code, hcode, rfl⟩
    · exact .nothing (isCommand_self.trans (by simpa using hverdict)) rfl
    · exact .one ⟨table, action, code, []⟩ (isCommand_self.trans (by simpa using hverdict))
        ⟨param, rfl, hcode⟩ (by simp [InstalledBandTable.cleared])
  · refine .nothing (isCommand_of_ne setDefault_ne_addEntry.symm) ?_
    rcases hadds with ⟨-, t, -, -, -, param, codes, v, -, -, -, -, rfl⟩ | ⟨-, t, -, -, b, -, rfl⟩
    · rfl
    · change (s.bandTables.map (·.withBand t.name b)).map (·.cleared) = _
      simp [Function.comp_def]

theorem grows_rows {words : List String} (h : s.step n line words = .ok s') :
    Grows (isRowEntry n) Line.AddsRow rows s [words] s' := by
  rcases step_cases h with ⟨hskipped, rfl⟩ | ⟨table, action, param, rfl, hdeclares⟩ |
    ⟨table, action, rest, keys, params, rfl, hsplit, hadds⟩
  · exact .nothing (isCommand_of_skipped (by decide) hskipped) rfl
  · refine .nothing (isCommand_of_ne setDefault_ne_addEntry) ?_
    rcases hdeclares with ⟨-, hnone, v, -, rfl⟩ | ⟨-, -, -, code, -, rfl⟩
    · simp [rows, hnone]
    · rfl
  · rcases hadds with ⟨hverdict, t, ht, -, -, param, codes, v, rfl, hcodes, hv, -, rfl⟩ |
      ⟨hverdict, t, -, -, b, -, rfl⟩
    · exact .one (codes, v) (isCommand_self.trans (by simpa using hverdict))
        ⟨table, action, rest, keys, param, rfl, hsplit, hcodes, hv⟩ (by simp [rows, ht])
    · exact .nothing (isCommand_self.trans (by simpa using hverdict)) rfl

/-- Bands reach the table that their line names, and no other. -/
theorem grows_bands {table : String} (htable : table ≠ n.verdictTable) {words : List String}
    (h : s.step n line words = .ok s') :
    Grows (Line.isEntryOf table) Line.AddsBand (bandsOf table) s [words] s' := by
  rcases step_cases h with ⟨hskipped, rfl⟩ | ⟨other, action, param, rfl, hdeclares⟩ |
    ⟨other, action, rest, keys, params, rfl, hsplit, hadds⟩
  · exact .nothing (isCommand_of_skipped (by decide) hskipped) rfl
  · refine .nothing (isCommand_of_ne setDefault_ne_addEntry) ?_
    rcases hdeclares with ⟨-, -, v, -, rfl⟩ | ⟨-, -, hnone, code, -, rfl⟩
    · rfl
    · by_cases hother : other = table
      · subst hother
        rw [find?] at hnone
        simp [bandsOf, find?, List.find?_append, hnone]
      · simp [bandsOf, find?, List.find?_append, hother]
  · rcases hadds with ⟨rfl, t, -, -, -, param, codes, v, -, -, -, -, rfl⟩ |
      ⟨-, t, ht, -, b, hb, rfl⟩
    · exact .nothing (isCommand_self.trans (by simpa using htable.symm)) rfl
    · obtain rfl := name_of_find? ht
      by_cases hother : t.name = table
      · subst hother
        have hfind := find?_withBand s t.name t.name b
        rw [ht, Option.map_some, InstalledBandTable.withBand_self rfl] at hfind
        exact .one b (isCommand_self.trans (by simp))
          ⟨_, action, rest, keys, params, rfl, hsplit, hb⟩
          ((bandsOf_of_find? hfind).trans (by rw [bandsOf_of_find? ht]))
      · exact .nothing (isCommand_self.trans (by simpa using hother))
          (bandsOf_congr (find?_withBand_of_ne (Ne.symm hother) b))

/-! ## Names, keys and numbers -/

/-- Band tables go by their names, which fit the naming, and rows by their keys. -/
structure Distinct (n : Naming) (s : Installation) : Prop where
  tables : (s.bandTables.map (·.name)).Nodup
  named : ∀ table ∈ s.bandTables.map (·.name), n.isBandTable table = true ∧ table ≠ n.verdictTable
  keys : (s.rows.map (·.1)).Nodup

theorem Distinct.empty (n : Naming) : Distinct n .empty where
  tables := .nil
  named := by simp [Installation.empty]
  keys := .nil

theorem names_withBand (table : String) (b : InstalledBand) (tables : List InstalledBandTable) :
    (tables.map (·.withBand table b)).map (·.name) = tables.map (·.name) := by
  simp [Function.comp_def]

/-- A new name and a new key are looked for before they are added. -/
theorem Distinct.step {words : List String} (hd : s.Distinct n)
    (h : s.step n line words = .ok s') : s'.Distinct n := by
  rcases step_cases h with ⟨-, rfl⟩ | ⟨table, action, param, rfl, hdeclares⟩ |
    ⟨table, action, rest, keys, params, rfl, -, hadds⟩
  · exact hd
  · rcases hdeclares with ⟨-, hnone, v, -, rfl⟩ | ⟨hverdict, hband, hnone, code, -, rfl⟩
    · exact ⟨hd.tables, hd.named, .nil⟩
    · have hnew : table ∉ s.bandTables.map (·.name) := by
        rw [find?, List.find?_eq_none] at hnone
        rintro hmem
        obtain ⟨t, ht, rfl⟩ := List.mem_map.1 hmem
        exact hnone t ht (beq_self_eq_true _)
      refine ⟨?_, ?_, hd.keys⟩
      · rw [List.map_append]
        exact hd.tables.append (List.nodup_singleton _) (by simpa using hnew)
      · rw [List.map_append, List.forall_mem_append]
        exact ⟨hd.named, by simpa using ⟨hband, hverdict⟩⟩
  · rcases hadds with ⟨-, t, ht, -, -, param, codes, v, -, -, -, hnew, rfl⟩ |
      ⟨-, t, -, -, b, -, rfl⟩
    · refine ⟨hd.tables, hd.named, ?_⟩
      have hnew := InstalledVerdictTable.verdict?_eq_none_iff.1 hnew
      have hkeys : (t.entries.map (·.1)).Nodup := by simpa [rows, ht] using hd.keys
      simpa [rows] using hkeys.append (List.nodup_singleton codes) (by simpa using hnew)
    · have hnames := names_withBand t.name b s.bandTables
      exact ⟨hnames ▸ hd.tables, hnames ▸ hd.named, hd.keys⟩

theorem Distinct.find?_of_mem (hd : s.Distinct n) {t : InstalledBandTable}
    (ht : t ∈ s.bandTables) : s.find? t.name = some t := by
  have hfind := (map_find?_eq_some_iff (g := id) hd.tables).2 ⟨t, ht, rfl, rfl⟩
  rwa [Option.map_id] at hfind

/-- The number of entries so far. -/
def entryCount (s : Installation) : Nat :=
  (s.bandTables.flatMap (·.entries)).length + s.rows.length

theorem length_flatMap_withBand (table : String) (b : InstalledBand)
    (tables : List InstalledBandTable) :
    ((tables.map (·.withBand table b)).flatMap (·.entries)).length =
      (tables.flatMap (·.entries)).length + (tables.map (·.name)).count table := by
  induction tables with
  | nil => rfl
  | cons t tables ih =>
    simp only [List.map_cons, List.flatMap_cons, List.length_append, ih, List.count_cons]
    by_cases hname : t.name = table
    · rw [InstalledBandTable.withBand_self hname, List.length_append, List.length_singleton,
        if_pos (beq_iff_eq.2 hname)]
      omega
    · rw [InstalledBandTable.withBand_of_ne hname, if_neg (mt beq_iff_eq.1 hname)]
      omega

/-- Names come once, so a band is added to one table. -/
theorem Distinct.step_entryCount {words : List String} (hd : s.Distinct n)
    (h : s.step n line words = .ok s') :
    s'.entryCount = s.entryCount + [words].countP Line.isEntry := by
  rw [List.countP_singleton]
  rcases step_cases h with ⟨hskipped, rfl⟩ | ⟨table, action, param, rfl, hdeclares⟩ |
    ⟨table, action, rest, keys, params, rfl, -, hadds⟩
  · rw [Line.isEntry, isCommand_of_skipped (by decide) hskipped]
    rfl
  · rw [Line.isEntry, isCommand_of_ne setDefault_ne_addEntry]
    rcases hdeclares with ⟨-, hnone, v, -, rfl⟩ | ⟨-, -, -, code, -, rfl⟩
    · simp [entryCount, rows, hnone]
    · simp [entryCount, rows]
  · rw [Line.isEntry, isCommand_self, if_pos rfl]
    rcases hadds with ⟨-, t, ht, -, -, param, codes, v, -, -, -, -, rfl⟩ | ⟨-, t, ht, -, b, -, rfl⟩
    · simp [entryCount, rows, ht, Nat.add_assoc]
    · have hmem : t.name ∈ s.bandTables.map (·.name) :=
        List.mem_map_of_mem (List.mem_of_find?_eq_some ht)
      have hlength := length_flatMap_withBand t.name b s.bandTables
      rw [List.count_eq_one_of_mem hd.tables hmem] at hlength
      exact (congrArg (· + s.rows.length) hlength).trans (Nat.add_right_comm _ _ _)

/-- **No name and no key comes twice**, so all entries are counted. -/
theorem Distinct.steps {lines : List (List String)} (hd : s.Distinct n)
    (h : s.steps n (lines.zipIdx k) = .ok s') :
    s'.Distinct n ∧ s'.entryCount = s.entryCount + lines.countP Line.isEntry := by
  refine steps_induction (motive := fun s lines => s.Distinct n →
    s'.Distinct n ∧ s'.entryCount = s.entryCount + lines.countP Line.isEntry) ?_ ?_ h hd
  · exact fun hd => ⟨hd, rfl⟩
  · intro s line words m rest hstep ih hd
    obtain ⟨hd', hcount⟩ := ih (hd.step hstep)
    refine ⟨hd', ?_⟩
    rw [hcount, hd.step_entryCount hstep, Nat.add_assoc, ← List.countP_append,
      List.singleton_append]

/-- The line is a command: it declares a table or adds an entry. -/
def IsTaken (n : Naming) (words : List String) : Prop :=
  Line.isVerdictDefault n words = true ∨ isBandDefault n words = true ∨ Line.isEntry words = true

theorem step_isTaken {words : List String} (h : s.step n line words = .ok s') :
    Skipped words ∨ IsTaken n words := by
  rcases step_cases h with ⟨hskipped, -⟩ | ⟨table, action, param, rfl, hdeclares⟩ |
    ⟨table, action, rest, keys, params, rfl, -, -⟩
  · exact Or.inl hskipped
  · rcases hdeclares with ⟨hverdict, -⟩ | ⟨hverdict, -⟩
    · exact Or.inr (Or.inl (isCommand_self.trans (by simpa using hverdict)))
    · exact Or.inr (Or.inr (Or.inl (isCommand_self.trans (by simpa using hverdict))))
  · exact Or.inr (Or.inr (Or.inr isCommand_self))

theorem steps_isTaken {lines : List (List String)} (h : s.steps n (lines.zipIdx k) = .ok s') :
    ∀ words ∈ lines, Skipped words ∨ IsTaken n words := by
  refine steps_induction (motive := fun _ lines => ∀ words ∈ lines, Skipped words ∨ IsTaken n words)
    (List.forall_mem_nil _) ?_ h
  exact fun hstep ih => List.forall_mem_cons.2 ⟨step_isTaken hstep, ih⟩

end Installation

/-! ## Main result -/

/-- The tables hold what the lines say, and each line that is no comment says something. -/
structure Installed.AccountsFor (n : Naming) (lines : List (List String)) (x : Installed) :
    Prop where
  taken : ∀ words ∈ lines, Skipped words ∨ IsTaken n words
  verdictDefault : ∃ words, lines.filter (Line.isVerdictDefault n) = [words] ∧
    Line.DeclaresVerdicts words x.verdictTable
  bandDefaults : List.Forall₂ Line.DeclaresBands (lines.filter (isBandDefault n)) x.bandTables
  names : (x.bandTables.map (·.name)).Nodup
  named : ∀ t ∈ x.bandTables, n.isBandTable t.name = true ∧ t.name ≠ n.verdictTable
  entryCount : x.entryCount = lines.countP Line.isEntry
  bands : ∀ t ∈ x.bandTables,
    List.Forall₂ Line.AddsBand (lines.filter (Line.isEntryOf t.name)) t.entries
  ordered : ∀ t ∈ x.bandTables, ∀ b ∈ t.entries, b.lower ≤ b.upper
  rows : List.Forall₂ Line.AddsRow (lines.filter (isRowEntry n)) x.verdictTable.entries
  lookups : ∀ words ∈ lines.filter (isRowEntry n),
    ∃ e, Line.AddsRow words e ∧ x.verdictTable.verdict? e.1 = some e.2
  keys : (lines.filter (isRowEntry n)).Pairwise fun first later =>
    ∀ e f, Line.AddsRow first e → Line.AddsRow later f → e.1 ≠ f.1

/-- **A text that loads loses, merges and invents nothing.** -/
theorem Installed.accountsFor_of_ofText {n : Naming} {text : String} {x : Installed}
    (h : Installed.ofText n text = .ok x) :
    x.AccountsFor n (Text.linesOfWords text.toList) := by
  obtain ⟨s, hs, hfinish⟩ := bind_eq_ok.1 h
  obtain rfl := finish_ok.1 hfinish
  have hlines : numberedWords text = (Text.linesOfWords text.toList).zipIdx 1 := rfl
  rw [hlines] at hs
  generalize Text.linesOfWords text.toList = lines at hs
  obtain ⟨hdistinct, hcount⟩ := (Distinct.empty n).steps hs
  have hkeys : (x.verdictTable.entries.map (·.1)).Nodup := by simpa [rows] using hdistinct.keys
  have hverdict : List.Forall₂ Line.DeclaresVerdicts (lines.filter (Line.isVerdictDefault n))
      [x.verdictTable.cleared] := by
    simpa [Grows, empty] using Grows.steps grows_verdictDefaults hs
  have hdefaults : List.Forall₂ Line.DeclaresBands (lines.filter (isBandDefault n))
      (x.bandTables.map (·.cleared)) := by
    simpa [Grows, empty] using Grows.steps grows_bandDefaults hs
  have hrows : List.Forall₂ Line.AddsRow (lines.filter (isRowEntry n)) x.verdictTable.entries := by
    simpa [Grows, rows, empty] using Grows.steps grows_rows hs
  have hbands : ∀ t ∈ x.bandTables,
      List.Forall₂ Line.AddsBand (lines.filter (Line.isEntryOf t.name)) t.entries := by
    intro t ht
    have hnamed := hdistinct.named t.name (List.mem_map_of_mem ht)
    have hbandsOf := bandsOf_of_find? (hdistinct.find?_of_mem ht)
    simpa [Grows, hbandsOf, bandsOf_empty] using Grows.steps (grows_bands hnamed.2) hs
  refine ⟨steps_isTaken hs, ?_, ?_, hdistinct.tables, ?_, ?_, hbands, ?_, hrows, ?_, ?_⟩
  · obtain ⟨words, rest, hdeclares, hnil, heq⟩ := List.forall₂_cons_right_iff.1 hverdict
    rw [List.forall₂_nil_right_iff] at hnil
    subst hnil
    exact ⟨words, heq, hdeclares⟩
  · have hdeclares := List.forall₂_map_right_iff.1 hdefaults
    exact hdeclares
  · exact fun t ht => hdistinct.named t.name (List.mem_map_of_mem ht)
  · rw [Installed.entryCount, ← List.sum_eq_foldl, ← List.length_flatMap]
    simpa [Installation.entryCount, rows, empty] using hcount
  · intro t ht b hb
    obtain ⟨words, -, hadds⟩ := exists_of_forall₂ (hbands t ht).flip hb
    exact Line.AddsBand.lower_le_upper hadds
  · intro words hwords
    obtain ⟨e, he, hadds⟩ := exists_of_forall₂ hrows hwords
    exact ⟨e, hadds, (InstalledVerdictTable.verdict?_eq_some_iff hkeys).2 he⟩
  · have hne : x.verdictTable.entries.Pairwise fun e f => e.1 ≠ f.1 := List.pairwise_map.1 hkeys
    rw [List.pairwise_iff_getElem] at hne ⊢
    intro i j hi hj hij e f he hf
    have hi' : i < x.verdictTable.entries.length := hrows.length_eq ▸ hi
    have hj' : j < x.verdictTable.entries.length := hrows.length_eq ▸ hj
    obtain rfl := he.unique (hrows.get hi hi')
    obtain rfl := hf.unique (hrows.get hj hj')
    exact hne i j hi' hj' hij

/-- A text with a comment, a blank line and numbers that are spelled in several ways. -/
def Installed.spelledText : String :=
  "# numbers in several spellings\n\n" ++
    "table_set_default ml_feature_0 set_code_0 0\n" ++
    "table_add ml_feature_0 set_code_0 +0->064 => 01 1\n" ++
    "table_set_default ml_classify set_class 0\n" ++
    "table_add ml_classify set_class 01 => 1\n" ++
    "table_add ml_classify set_class +0 => 0\n"

/-- The tables that it sets up. -/
def Installed.spelled : Installed where
  bandTables := [⟨"ml_feature_0", "set_code_0", 0, [⟨0, 64, 1, 1⟩]⟩]
  verdictTable := ⟨"ml_classify", "set_class", .normal, [([1], .attack), ([0], .normal)]⟩

theorem Installed.ofText_spelledText : Installed.ofText .default spelledText = .ok spelled := by
  have hlines : Text.linesOfWords spelledText.toList =
      [["#", "numbers", "in", "several", "spellings"], [],
        ["table_set_default", "ml_feature_0", "set_code_0", "0"],
        ["table_add", "ml_feature_0", "set_code_0", "+0->064", "=>", "01", "1"],
        ["table_set_default", "ml_classify", "set_class", "0"],
        ["table_add", "ml_classify", "set_class", "01", "=>", "1"],
        ["table_add", "ml_classify", "set_class", "+0", "=>", "0"], []] := by
    -- a short text is read faster than a long one, so the parts are read apart
    unfold spelledText
    iterate 5 rw [String.toList_append]
    decide +kernel
  have hnumbered : numberedWords spelledText =
      (Text.linesOfWords spelledText.toList).zipIdx 1 := rfl
  rw [ofText, hnumbered, hlines]
  decide +kernel

theorem Installed.spelled_accountsFor :
    Installed.ofText .default spelledText = .ok spelled ∧
      spelled.AccountsFor .default (Text.linesOfWords spelledText.toList) :=
  ⟨ofText_spelledText, accountsFor_of_ofText ofText_spelledText⟩

end MatchTree
