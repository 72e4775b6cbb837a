import MatchTree.Proofs.Accounts

/-!
# The order of entries

* `InstalledBandTable.Ranked` — bands with a value in common have different priorities; otherwise
  the one that is installed first wins.
* `Entry`, `Installation.Reads` — what a line adds, which the declared tables alone decide.
* `Installation.insert`, `Installation.Admits` — an entry is added; its key is new.
* `Installation.Shuffles` — the same declared tables with the same entries in another order.
* `Line.Reorders` — lines with their entries in another order, all other lines where they are.
* `Line.DefaultsFirst` — the lines that set defaults come before those that add entries.
* `Installed.SameAnswers` — the same declared tables, which answer all look-ups alike.

Principal results: `match?_perm`, `verdict?_perm` — look-ups do not see the order of entries;
`step_ok_iff` — a line that declares nothing is taken exactly if it is skipped, or reads as an entry
that is admitted; `steps_perm` — such lines may come in any order; `ofText_reordered` — a text and
the same text with its entries in another order load both or neither, to the same answers.
-/

namespace MatchTree

/-! ## Look-ups -/

/-- If the bands have a value in common, their priorities are different. -/
def InstalledBand.RanksWith (a b : InstalledBand) : Prop :=
  (∃ v, a.contains v = true ∧ b.contains v = true) → a.priority ≠ b.priority

instance : Std.Symm InstalledBand.RanksWith where
  symm _ _ h := fun ⟨v, hb, ha⟩ => (h ⟨v, ha, hb⟩).symm

/-- No two entries that both contain some value have the same priority. -/
def InstalledBandTable.Ranked (t : InstalledBandTable) : Prop :=
  t.entries.Pairwise InstalledBand.RanksWith

/-- Of two matches with different priorities it is all the same which one comes first. -/
theorem betterMatch_comm {a b : InstalledBand} (h : a.priority ≠ b.priority)
    (best : Option InstalledBand) :
    betterMatch (betterMatch best a) b = betterMatch (betterMatch best b) a := by
  have hne : a.priority.toNat ≠ b.priority.toNat := fun heq => h (UInt32.toNat_inj.1 heq)
  cases best with
  | none =>
    simp only [betterMatch, UInt32.lt_iff_toNat_lt]
    by_cases hba : b.priority.toNat < a.priority.toNat
    · rw [if_pos hba, if_neg (by omega)]
    · rw [if_neg hba, if_pos (by omega)]
  | some c =>
    simp only [betterMatch, UInt32.lt_iff_toNat_lt]
    by_cases hac : a.priority.toNat < c.priority.toNat
    · by_cases hbc : b.priority.toNat < c.priority.toNat
      · simp only [hac, hbc, if_true]
        by_cases hba : b.priority.toNat < a.priority.toNat
        · rw [if_pos hba, if_neg (by omega)]
        · rw [if_neg hba, if_pos (by omega)]
      · simp only [hac, hbc, if_true, if_false]
        rw [if_neg (by omega)]
    · by_cases hbc : b.priority.toNat < c.priority.toNat
      · simp only [hac, hbc, if_true, if_false]
        rw [if_neg (by omega)]
      · simp only [hac, hbc, if_false]

/-- **Look-ups do not see the order of ranked bands.** -/
theorem InstalledBandTable.match?_perm {t u : InstalledBandTable} (h : t.Ranked)
    (hperm : t.entries.Perm u.entries) (v : UInt32) : t.match? v = u.match? v := by
  unfold match?
  refine (hperm.filter _).foldl_eq' ?_ none
  intro a ha b hb best
  obtain ⟨ha, hav⟩ := List.mem_filter.1 ha
  obtain ⟨hb, hbv⟩ := List.mem_filter.1 hb
  by_cases hab : a = b
  · rw [hab]
  · exact betterMatch_comm (List.Pairwise.forall h ha hb hab ⟨v, hav, hbv⟩) best

/-- **Look-ups do not see the order of rows**, since keys come once. -/
theorem InstalledVerdictTable.verdict?_perm {t u : InstalledVerdictTable}
    (h : (t.entries.map (·.1)).Nodup) (hperm : t.entries.Perm u.entries) (key : List Code) :
    t.verdict? key = u.verdict? key := by
  have hu : (u.entries.map (·.1)).Nodup := (hperm.map _).nodup_iff.1 h
  ext v
  rw [verdict?_eq_some_iff h, verdict?_eq_some_iff hu, hperm.mem_iff]

/-! ## Entries -/

/-- What a line adds. -/
inductive Entry where
  | band (table : String) (b : InstalledBand)
  | row (codes : List Code) (verdict : Verdict)

namespace Installation

variable {n : Naming} {line k : Nat} {s s' t : Installation} {words : List String} {e f : Entry}

/-- The tables as they are declared. -/
def declared (s : Installation) : Installation :=
  ⟨s.bandTables.map (·.cleared), s.verdictTable?.map (·.cleared)⟩

/-- Adds an entry to its table. -/
def insert (s : Installation) : Entry → Installation
  | .band table b => { s with bandTables := s.bandTables.map (·.withBand table b) }
  | .row codes v =>
    { s with
      verdictTable? :=
        s.verdictTable?.map fun t => { t with entries := t.entries ++ [(codes, v)] } }

/-- The key of a row is new. -/
def Admits (s : Installation) : Entry → Prop
  | .band _ _ => True
  | .row codes _ => codes ∉ s.rows.map (·.1)

/-- The line stands for an entry of a table that is declared with its action. -/
def Reads (n : Naming) (declared : Installation) (words : List String) (e : Entry) : Prop :=
  ∃ table action rest keys params, words = Command.addEntry :: table :: action :: rest ∧
    splitAtArrow? rest = some (keys, params) ∧
    match e with
    | .band name b => table ≠ n.verdictTable ∧ table = name ∧
        (∃ t, declared.find? table = some t ∧ action = t.action) ∧ Writes keys params b
    | .row codes v => table = n.verdictTable ∧
        (∃ t, declared.verdictTable? = some t ∧ action = t.action) ∧
        keys.length = declared.bandTables.length ∧
        List.Forall₂ (fun w c => Text.uint16? w.toList = some c) keys codes ∧
        ∃ param, params = [param] ∧ Verdict.ofWord? param = some v

theorem find?_declared (s : Installation) (table : String) :
    s.declared.find? table = (s.find? table).map (·.cleared) := by
  unfold declared find?
  rw [List.find?_map]
  rfl

/-! ## Adding entries -/

/-- The bands that an entry adds to a table, if that is declared. -/
def bandsAdded (s : Installation) (table : String) : Entry → List InstalledBand
  | .band other b => if other = table ∧ (s.declared.find? table).isSome then [b] else []
  | .row _ _ => []

/-- The rows that an entry adds, if the verdict table is declared. -/
def rowsAdded (s : Installation) : Entry → List (List Code × Verdict)
  | .band _ _ => []
  | .row codes v => if s.declared.verdictTable?.isSome then [(codes, v)] else []

/-- Entries declare nothing. -/
@[simp]
theorem declared_insert (s : Installation) (e : Entry) : (s.insert e).declared = s.declared := by
  cases e with
  | band table b => simp [insert, declared, Function.comp_def]
  | row codes v =>
    cases hv : s.verdictTable? <;> simp [insert, declared, hv, InstalledVerdictTable.cleared]

theorem bandsOf_insert (s : Installation) (e : Entry) (table : String) :
    bandsOf table (s.insert e) = bandsOf table s ++ s.bandsAdded table e := by
  cases e with
  | row codes v => simp [insert, bandsAdded, bandsOf, find?]
  | band other b =>
    unfold bandsAdded
    rw [find?_declared, Option.isSome_map]
    show bandsOf table { s with bandTables := s.bandTables.map (·.withBand other b) } = _
    rw [bandsOf, find?_withBand, bandsOf]
    cases ht : s.find? table with
    | none => simp
    | some t =>
      by_cases hother : other = table
      · subst hother
        simp [InstalledBandTable.withBand_self (name_of_find? ht)]
      · have hne : t.name ≠ other := fun heq => hother (heq.symm.trans (name_of_find? ht))
        simp [InstalledBandTable.withBand_of_ne hne, hother]

theorem rows_insert (s : Installation) (e : Entry) :
    (s.insert e).rows = s.rows ++ s.rowsAdded e := by
  cases e with
  | band table b => simp [insert, rowsAdded, rows]
  | row codes v =>
    cases hv : s.verdictTable? <;> simp [insert, rowsAdded, rows, declared, hv]

/-- The same declared tables with the same entries in another order. -/
structure Shuffles (s t : Installation) : Prop where
  declared : s.declared = t.declared
  bands : ∀ table, (bandsOf table s).Perm (bandsOf table t)
  rows : s.rows.Perm t.rows

theorem Shuffles.refl (s : Installation) : s.Shuffles s :=
  ⟨rfl, fun _ => .refl _, .refl _⟩

theorem Shuffles.trans {u : Installation} (h : s.Shuffles t) (h' : t.Shuffles u) : s.Shuffles u :=
  ⟨h.declared.trans h'.declared, fun table => (h.bands table).trans (h'.bands table),
    h.rows.trans h'.rows⟩

theorem Shuffles.insert (h : s.Shuffles t) (e : Entry) : (s.insert e).Shuffles (t.insert e) := by
  have hbands : ∀ table, s.bandsAdded table e = t.bandsAdded table e := by
    intro table
    cases e <;> simp only [bandsAdded, h.declared]
  have hrows : s.rowsAdded e = t.rowsAdded e := by
    cases e <;> simp only [rowsAdded, h.declared]
  refine ⟨by simpa using h.declared, fun table => ?_, ?_⟩
  · rw [bandsOf_insert, bandsOf_insert, hbands]
    exact (h.bands table).append_right _
  · rw [rows_insert, rows_insert, hrows]
    exact h.rows.append_right _

theorem Shuffles.admits (h : s.Shuffles t) (he : s.Admits e) : t.Admits e := by
  cases e with
  | band table b => trivial
  | row codes v => exact fun hmem => he ((h.rows.map _).mem_iff.2 hmem)

/-- **Two entries may be added in either order.** -/
theorem insert_comm (s : Installation) (e f : Entry) :
    ((s.insert e).insert f).Shuffles ((s.insert f).insert e) := by
  have hbands : ∀ (g d : Entry) (table : String),
      (s.insert g).bandsAdded table d = s.bandsAdded table d := by
    intro g d table
    cases d <;> simp only [bandsAdded, declared_insert]
  have hrows : ∀ g d : Entry, (s.insert g).rowsAdded d = s.rowsAdded d := by
    intro g d
    cases d <;> simp only [rowsAdded, declared_insert]
  refine ⟨by simp, fun table => ?_, ?_⟩
  · simp only [bandsOf_insert, hbands, List.append_assoc]
    exact List.perm_append_comm.append_left _
  · simp only [rows_insert, hrows, List.append_assoc]
    exact List.perm_append_comm.append_left _

/-- Two rows with new keys of their own are admitted in either order. -/
theorem admits_comm (he : s.Admits e) (hf : (s.insert e).Admits f) :
    s.Admits f ∧ (s.insert f).Admits e := by
  cases e with
  | band table b =>
    cases f with
    | band other c => exact ⟨trivial, trivial⟩
    | row codes v => exact ⟨hf, trivial⟩
  | row codes v =>
    cases f with
    | band other c => exact ⟨trivial, he⟩
    | row codes' v' =>
      simp only [Admits, rows_insert, rowsAdded, List.map_append, List.mem_append, not_or]
        at he hf ⊢
      refine ⟨hf.1, he, ?_⟩
      by_cases hdeclared : s.declared.verdictTable?.isSome
      · simp only [hdeclared, if_true] at hf ⊢
        simpa [eq_comm] using hf.2
      · simp [hdeclared]

/-! ## Lines -/

/-- **A line that declares nothing is taken exactly if it is skipped, or reads as an entry that is
admitted.** -/
theorem step_ok_iff (h : words.head? ≠ some Command.setDefault) :
    s.step n line words = .ok s' ↔
      (Skipped words ∧ s' = s) ∨
        ∃ e, Reads n s.declared words e ∧ s.Admits e ∧ s' = s.insert e := by
  constructor
  · intro hstep
    rcases step_cases hstep with ⟨hskipped, rfl⟩ | ⟨table, action, param, rfl, -⟩ |
      ⟨table, action, rest, keys, params, rfl, hsplit, hadds⟩
    · exact Or.inl ⟨hskipped, rfl⟩
    · exact absurd rfl h
    · right
      rcases hadds with ⟨hverdict, t, ht, haction, hlength, param, codes, v, rfl, hcodes, hv, hnew,
        rfl⟩ | ⟨hverdict, t, ht, haction, b, hb, rfl⟩
      · refine ⟨.row codes v, ⟨table, action, rest, keys, [param], rfl, hsplit, hverdict, ?_, ?_,
          hcodes, param, rfl, hv⟩, ?_, ?_⟩
        · exact ⟨t.cleared, by simp [declared, ht], haction⟩
        · simpa [declared] using hlength
        · simpa [Admits, rows, ht] using InstalledVerdictTable.verdict?_eq_none_iff.1 hnew
        · simp [insert, ht]
      · obtain rfl := name_of_find? ht
        refine ⟨.band t.name b, ⟨t.name, action, rest, keys, params, rfl, hsplit, hverdict, rfl, ?_,
          hb⟩, trivial, rfl⟩
        exact ⟨t.cleared, by rw [find?_declared, ht]; rfl, haction⟩
  · rintro (⟨hskipped, rfl⟩ | ⟨e, ⟨table, action, rest, keys, params, rfl, hsplit, hreads⟩, hadmits,
      rfl⟩)
    · cases words with
      | nil => rfl
      | cons command args => rw [step, if_pos (hskipped command rfl)]
    · rw [step_addEntry, addEntry_ok]
      refine ⟨table, action, rest, keys, params, rfl, hsplit, ?_⟩
      cases e with
      | band name b =>
        obtain ⟨hverdict, rfl, ⟨u, hu, haction⟩, hb⟩ := hreads
        rw [find?_declared] at hu
        obtain ⟨t, ht, rfl⟩ := Option.map_eq_some_iff.1 hu
        obtain rfl := name_of_find? ht
        exact Or.inr ⟨hverdict, t, ht, haction, b, hb, rfl⟩
      | row codes v =>
        obtain ⟨hverdict, ⟨u, hu, haction⟩, hlength, hcodes, param, rfl, hv⟩ := hreads
        obtain ⟨t, ht, rfl⟩ := Option.map_eq_some_iff.1 hu
        refine Or.inl ⟨hverdict, t, ht, haction, by simpa [declared] using hlength, param, codes, v,
          rfl, hcodes, hv, ?_, by simp [insert, ht]⟩
        exact InstalledVerdictTable.verdict?_eq_none_iff.2
          (by simpa [Admits, rows, ht] using hadmits)

theorem Shuffles.step (hst : s.Shuffles t) (h : words.head? ≠ some Command.setDefault)
    (hstep : s.step n line words = .ok s') (line' : Nat) :
    ∃ t', t.step n line' words = .ok t' ∧ s'.Shuffles t' := by
  rcases (step_ok_iff h).1 hstep with ⟨hskipped, rfl⟩ | ⟨e, hreads, hadmits, rfl⟩
  · exact ⟨t, (step_ok_iff h).2 (Or.inl ⟨hskipped, rfl⟩), hst⟩
  · refine ⟨t.insert e, (step_ok_iff h).2 (Or.inr ⟨e, ?_, hst.admits hadmits, rfl⟩), hst.insert e⟩
    rwa [← hst.declared]

theorem Shuffles.steps {lines : List (List String)} (hst : s.Shuffles t)
    (h : ∀ words ∈ lines, words.head? ≠ some Command.setDefault)
    (hs : s.steps n (lines.zipIdx k) = .ok s') (k' : Nat) :
    ∃ t', t.steps n (lines.zipIdx k') = .ok t' ∧ s'.Shuffles t' := by
  induction lines generalizing s t k k' with
  | nil =>
    rw [List.zipIdx_nil, steps_nil] at hs
    exact ⟨t, steps_nil.2 rfl, hs ▸ hst⟩
  | cons words rest ih =>
    rw [List.forall_mem_cons] at h
    rw [List.zipIdx_cons, steps_cons] at hs
    obtain ⟨m, hstep, hrest⟩ := hs
    obtain ⟨m', hstep', hm⟩ := hst.step h.1 hstep k'
    obtain ⟨t', hrest', ht'⟩ := ih hm h.2 hrest (k' + 1)
    exact ⟨t', steps_cons.2 ⟨m', hstep', hrest'⟩, ht'⟩

/-- Two lines that declare nothing may be taken in either order. -/
theorem step_comm {m : Installation} {words' : List String}
    (h : words.head? ≠ some Command.setDefault) (h' : words'.head? ≠ some Command.setDefault)
    (hm : s.step n line words = .ok m) (hs : m.step n k words' = .ok s') (k' line' : Nat) :
    ∃ m' t', s.step n k' words' = .ok m' ∧ m'.step n line' words = .ok t' ∧ s'.Shuffles t' := by
  rcases (step_ok_iff h).1 hm with ⟨hskipped, rfl⟩ | ⟨e, hreads, hadmits, rfl⟩
  · obtain ⟨m', hm', hs'⟩ := (Shuffles.refl m).step h' hs k'
    exact ⟨m', m', hm', (step_ok_iff h).2 (Or.inl ⟨hskipped, rfl⟩), hs'⟩
  · rcases (step_ok_iff h').1 hs with ⟨hskipped', rfl⟩ | ⟨f, hreads', hadmits', rfl⟩
    · exact ⟨s, s.insert e, (step_ok_iff h').2 (Or.inl ⟨hskipped', rfl⟩),
        (step_ok_iff h).2 (Or.inr ⟨e, hreads, hadmits, rfl⟩), .refl _⟩
    · obtain ⟨hf, he⟩ := admits_comm hadmits hadmits'
      rw [declared_insert] at hreads'
      refine ⟨s.insert f, (s.insert f).insert e, ?_, ?_, insert_comm s e f⟩
      · exact (step_ok_iff h').2 (Or.inr ⟨f, hreads', hf, rfl⟩)
      · exact (step_ok_iff h).2 (Or.inr ⟨e, by rwa [declared_insert], he, rfl⟩)

/-- **Lines that declare nothing may come in any order.** -/
theorem steps_perm {lines lines' : List (List String)} (hperm : lines.Perm lines')
    (h : ∀ words ∈ lines, words.head? ≠ some Command.setDefault)
    (hs : s.steps n (lines.zipIdx k) = .ok s') (k' : Nat) :
    ∃ t', s.steps n (lines'.zipIdx k') = .ok t' ∧ s'.Shuffles t' := by
  induction hperm generalizing s s' k k' with
  | nil => exact (Shuffles.refl s).steps h hs k'
  | cons words _ ih =>
    rw [List.forall_mem_cons] at h
    rw [List.zipIdx_cons, steps_cons] at hs
    obtain ⟨m, hm, hrest⟩ := hs
    obtain ⟨t', ht', hst⟩ := ih h.2 hrest (k' + 1)
    exact ⟨t', steps_cons.2 ⟨m, (step_ok_iff h.1).2 ((step_ok_iff h.1).1 hm), ht'⟩, hst⟩
  | swap words words' rest =>
    rw [List.forall_mem_cons, List.forall_mem_cons] at h
    rw [List.zipIdx_cons, steps_cons] at hs
    obtain ⟨m, hm, hs⟩ := hs
    rw [List.zipIdx_cons, steps_cons] at hs
    obtain ⟨m₂, hm₂, hrest⟩ := hs
    obtain ⟨u, u₂, hu, hu₂, hshuffles⟩ := step_comm h.1 h.2.1 hm hm₂ k' (k' + 1)
    obtain ⟨t', ht', hst⟩ := hshuffles.steps h.2.2 hrest (k' + 2)
    exact ⟨t', steps_cons.2 ⟨u, hu, steps_cons.2 ⟨u₂, hu₂, ht'⟩⟩, hst⟩
  | trans hfirst _ ih ih' =>
    obtain ⟨m, hm, hsm⟩ := ih h hs k
    obtain ⟨t', ht', hmt⟩ := ih' (fun words hmem => h words (hfirst.mem_iff.2 hmem)) hm k'
    exact ⟨t', ht', hsm.trans hmt⟩

end Installation

/-! ## Texts -/

namespace Line

variable {lines lines' : List (List String)}

/-- The line begins with the keyword. -/
def starts (keyword : String) (words : List String) : Bool := words.head? == some keyword

/-- Lines with those that add entries in another order, and all others where they are. -/
structure Reorders (lines lines' : List (List String)) : Prop where
  kept : List.Forall₂ (fun words words' => words = words' ∨
    (starts Command.addEntry words = true ∧ starts Command.addEntry words' = true)) lines lines'
  moved : (lines.filter (starts Command.addEntry)).Perm (lines'.filter (starts Command.addEntry))

/-- No line that sets a default comes after one that adds an entry. -/
def DefaultsFirst (lines : List (List String)) : Prop :=
  lines.Pairwise fun first later =>
    starts Command.addEntry first = true → starts Command.setDefault later = false

theorem starts_setDefault_of_addEntry {words : List String}
    (h : starts Command.addEntry words = true) : starts Command.setDefault words = false := by
  unfold starts at *
  rw [beq_iff_eq] at h
  rw [h]
  decide

theorem Reorders.perm (h : Reorders lines lines') : lines.Perm lines' := by
  have hkept : lines.filter (fun words => !starts Command.addEntry words) =
      lines'.filter fun words => !starts Command.addEntry words := by
    obtain ⟨hkept, -⟩ := h
    induction hkept with
    | nil => rfl
    | cons hwords _ ih =>
      rcases hwords with rfl | ⟨hwords, hwords'⟩
      · rw [List.filter_cons, List.filter_cons, ih]
      · simpa [hwords, hwords'] using ih
  calc lines.Perm _ := (List.filter_append_perm (starts Command.addEntry) lines).symm
    List.Perm _ _ := h.moved.append (hkept ▸ .refl _)
    List.Perm _ lines' := List.filter_append_perm (starts Command.addEntry) lines'

/-- **The lines before the first entry stay**, and those that follow set no default. -/
theorem Reorders.exists_split (h : Reorders lines lines') (hdefaults : DefaultsFirst lines) :
    ∃ first second second', lines = first ++ second ∧ lines' = first ++ second' ∧
      second.Perm second' ∧ ∀ words ∈ second, words.head? ≠ some Command.setDefault := by
  have hsplit : ∃ first second second', lines = first ++ second ∧ lines' = first ++ second' ∧
      ∀ words ∈ second, starts Command.setDefault words = false := by
    obtain ⟨hkept, -⟩ := h
    induction hkept with
    | nil => exact ⟨[], [], [], rfl, rfl, List.forall_mem_nil _⟩
    | @cons words words' rest rest' hwords _ ih =>
      obtain ⟨hfirst, hrest⟩ := List.pairwise_cons.1 hdefaults
      by_cases hadd : starts Command.addEntry words = true
      · refine ⟨[], words :: rest, words' :: rest', rfl, rfl, ?_⟩
        exact List.forall_mem_cons.2
          ⟨starts_setDefault_of_addEntry hadd, fun later hlater => hfirst later hlater hadd⟩
      · rcases hwords with rfl | ⟨hwords, -⟩
        · obtain ⟨first, second, second', rfl, rfl, hsecond⟩ := ih hrest
          exact ⟨words :: first, second, second', rfl, rfl, hsecond⟩
        · exact absurd hwords hadd
  obtain ⟨first, second, second', rfl, rfl, hsecond⟩ := hsplit
  refine ⟨first, second, second', rfl, rfl, (List.perm_append_left_iff first).1 h.perm, ?_⟩
  intro words hwords heq
  exact Bool.false_ne_true ((hsecond words hwords).symm.trans (beq_iff_eq.2 heq))

end Line

namespace Installed

open Installation

variable {n : Naming} {text : String} {x x' : Installed}

/-- The same declared tables, which answer all look-ups alike; of bands with a value in common and
the same priority, the order decides. -/
structure SameAnswers (x x' : Installed) : Prop where
  verdictTable : x.verdictTable.cleared = x'.verdictTable.cleared
  verdicts : ∀ key, x.verdictTable.verdict? key = x'.verdictTable.verdict? key
  bandTables : List.Forall₂ (fun t u => t.cleared = u.cleared ∧
    (t.Ranked → ∀ v, t.match? v = u.match? v)) x.bandTables x'.bandTables

theorem ofText_ok_iff :
    ofText n text = .ok x ↔
      Installation.empty.steps n ((Text.linesOfWords text.toList).zipIdx 1) =
        .ok ⟨x.bandTables, some x.verdictTable⟩ := by
  rw [ofText, bind_eq_ok]
  simp only [finish_ok, exists_eq_right]
  rfl

theorem SameAnswers.of_shuffles (hx : Distinct n ⟨x.bandTables, some x.verdictTable⟩)
    (hx' : Distinct n ⟨x'.bandTables, some x'.verdictTable⟩)
    (h : Shuffles ⟨x.bandTables, some x.verdictTable⟩ ⟨x'.bandTables, some x'.verdictTable⟩) :
    x.SameAnswers x' := by
  obtain ⟨hdeclared, hbands, hrows⟩ := h
  rw [declared, declared, Installation.mk.injEq] at hdeclared
  obtain ⟨htables, hverdicts⟩ := hdeclared
  refine ⟨Option.some.inj hverdicts, fun key => ?_, ?_⟩
  · refine InstalledVerdictTable.verdict?_perm ?_ (by simpa [rows] using hrows) key
    simpa [rows] using hx.keys
  · have hlength : x.bandTables.length = x'.bandTables.length := by
      simpa using congrArg List.length htables
    refine List.forall₂_iff_get.2 ⟨hlength, fun i hi hi' => ?_⟩
    have hcleared : x.bandTables[i].cleared = x'.bandTables[i].cleared := by
      simpa [hi, hi'] using congrArg (·[i]?) htables
    have hname : x.bandTables[i].name = x'.bandTables[i].name := congrArg (·.name) hcleared
    refine ⟨hcleared, fun hranked => InstalledBandTable.match?_perm hranked ?_⟩
    have hperm := hbands x.bandTables[i].name
    rw [bandsOf_of_find? (hx.find?_of_mem (List.getElem_mem hi)), hname,
      bandsOf_of_find? (hx'.find?_of_mem (List.getElem_mem hi'))] at hperm
    exact hperm

/-- Tables that are set up in another order of entries give the same answers. -/
theorem exists_sameAnswers {first second second' : List (List String)}
    (hperm : second.Perm second') (h : ∀ words ∈ second, words.head? ≠ some Command.setDefault)
    (hx : Installation.empty.steps n ((first ++ second).zipIdx 1) =
      .ok ⟨x.bandTables, some x.verdictTable⟩) :
    ∃ x', Installation.empty.steps n ((first ++ second').zipIdx 1) =
      .ok ⟨x'.bandTables, some x'.verdictTable⟩ ∧ x.SameAnswers x' := by
  obtain ⟨s, hfirst, hsecond⟩ := steps_append.1 hx
  obtain ⟨t, ht, hshuffles⟩ := steps_perm hperm h hsecond (1 + first.length)
  have ht := steps_append.2 ⟨s, hfirst, ht⟩
  -- the verdict table is still declared
  have hdeclared := congrArg verdictTable? hshuffles.declared
  obtain ⟨bandTables, verdictTable?⟩ := t
  obtain ⟨verdictTable, rfl, -⟩ := Option.map_eq_some_iff.1 hdeclared.symm
  refine ⟨⟨bandTables, verdictTable⟩, ht, ?_⟩
  exact SameAnswers.of_shuffles ((Distinct.empty n).steps hx).1 ((Distinct.empty n).steps ht).1
    hshuffles

/-! ## Main result -/

/-- **The order of entries decides nothing but ties**: if all defaults come first, a text and the
same text with its entries in another order load both or neither, to the same answers. -/
theorem ofText_reordered (n : Naming) (text text' : String)
    (hdefaults : Line.DefaultsFirst (Text.linesOfWords text.toList))
    (hreorders : Line.Reorders (Text.linesOfWords text.toList) (Text.linesOfWords text'.toList)) :
    ((∃ x, ofText n text = .ok x) ↔ ∃ x', ofText n text' = .ok x') ∧
      ∀ x x', ofText n text = .ok x → ofText n text' = .ok x' → x.SameAnswers x' := by
  simp only [ofText_ok_iff]
  obtain ⟨first, second, second', hlines, hlines', hperm, h⟩ := hreorders.exists_split hdefaults
  rw [hlines, hlines']
  have h' : ∀ words ∈ second', words.head? ≠ some Command.setDefault :=
    fun words hwords => h words (hperm.mem_iff.2 hwords)
  refine ⟨⟨?_, ?_⟩, ?_⟩
  · rintro ⟨x, hx⟩
    obtain ⟨x', hx', -⟩ := exists_sameAnswers hperm h hx
    exact ⟨x', hx'⟩
  · rintro ⟨x', hx'⟩
    obtain ⟨x, hx, -⟩ := exists_sameAnswers hperm.symm h' hx'
    exact ⟨x, hx⟩
  · intro x x' hx hx'
    obtain ⟨y, hy, hsame⟩ := exists_sameAnswers hperm h hx
    rw [hx', Except.ok.injEq, Installation.mk.injEq, Option.some.injEq] at hy
    obtain ⟨htables, hverdicts⟩ := hy
    obtain rfl : x' = y := by
      cases x'
      cases y
      congr
    exact hsame

/-- A text with two bands that have values in common, the one with the smaller priority last. -/
def orderedText : String :=
  "table_set_default ml_feature_0 set_code_0 0\n" ++
    "table_set_default ml_classify set_class 0\n" ++
    "table_add ml_feature_0 set_code_0 0->64 => 1 2\n" ++
    "# the narrow band\n" ++
    "table_add ml_feature_0 set_code_0 8->16 => 2 1\n" ++
    "table_add ml_classify set_class 1 => 0\n" ++
    "table_add ml_classify set_class 2 => 1\n"

/-- The same text with its entries in another order. -/
def shuffledText : String :=
  "table_set_default ml_feature_0 set_code_0 0\n" ++
    "table_set_default ml_classify set_class 0\n" ++
    "table_add ml_classify set_class 2 => 1\n" ++
    "# the narrow band\n" ++
    "table_add ml_feature_0 set_code_0 8->16 => 2 1\n" ++
    "table_add ml_feature_0 set_code_0 0->64 => 1 2\n" ++
    "table_add ml_classify set_class 1 => 0\n"

/-- The tables that the first text sets up. -/
def ordered : Installed where
  bandTables := [⟨"ml_feature_0", "set_code_0", 0, [⟨0, 64, 1, 2⟩, ⟨8, 16, 2, 1⟩]⟩]
  verdictTable := ⟨"ml_classify", "set_class", .normal, [([1], .normal), ([2], .attack)]⟩

/-- The tables that the second text sets up. -/
def shuffled : Installed where
  bandTables := [⟨"ml_feature_0", "set_code_0", 0, [⟨8, 16, 2, 1⟩, ⟨0, 64, 1, 2⟩]⟩]
  verdictTable := ⟨"ml_classify", "set_class", .normal, [([2], .attack), ([1], .normal)]⟩

theorem linesOfWords_orderedText :
    Text.linesOfWords orderedText.toList =
      [["table_set_default", "ml_feature_0", "set_code_0", "0"],
        ["table_set_default", "ml_classify", "set_class", "0"],
        ["table_add", "ml_feature_0", "set_code_0", "0->64", "=>", "1", "2"],
        ["#", "the", "narrow", "band"],
        ["table_add", "ml_feature_0", "set_code_0", "8->16", "=>", "2", "1"],
        ["table_add", "ml_classify", "set_class", "1", "=>", "0"],
        ["table_add", "ml_classify", "set_class", "2", "=>", "1"], []] := by
  unfold orderedText
  iterate 6 rw [String.toList_append]
  decide +kernel

theorem linesOfWords_shuffledText :
    Text.linesOfWords shuffledText.toList =
      [["table_set_default", "ml_feature_0", "set_code_0", "0"],
        ["table_set_default", "ml_classify", "set_class", "0"],
        ["table_add", "ml_classify", "set_class", "2", "=>", "1"],
        ["#", "the", "narrow", "band"],
        ["table_add", "ml_feature_0", "set_code_0", "8->16", "=>", "2", "1"],
        ["table_add", "ml_feature_0", "set_code_0", "0->64", "=>", "1", "2"],
        ["table_add", "ml_classify", "set_class", "1", "=>", "0"], []] := by
  unfold shuffledText
  iterate 6 rw [String.toList_append]
  decide +kernel

theorem ordered_sameAnswers_shuffled :
    ofText .default orderedText = .ok ordered ∧ ofText .default shuffledText = .ok shuffled ∧
      Line.DefaultsFirst (Text.linesOfWords orderedText.toList) ∧
      Line.Reorders (Text.linesOfWords orderedText.toList)
        (Text.linesOfWords shuffledText.toList) ∧
      (∀ t ∈ ordered.bandTables, t.Ranked) ∧ ordered.SameAnswers shuffled := by
  have hordered : ofText .default orderedText = .ok ordered := by
    rw [ofText_ok_iff, linesOfWords_orderedText]
    decide +kernel
  have hshuffled : ofText .default shuffledText = .ok shuffled := by
    rw [ofText_ok_iff, linesOfWords_shuffledText]
    decide +kernel
  have hdefaults : Line.DefaultsFirst (Text.linesOfWords orderedText.toList) := by
    rw [linesOfWords_orderedText, Line.DefaultsFirst]
    decide +kernel
  have hreorders : Line.Reorders (Text.linesOfWords orderedText.toList)
      (Text.linesOfWords shuffledText.toList) := by
    rw [linesOfWords_orderedText, linesOfWords_shuffledText]
    exact ⟨by decide +kernel, by decide +kernel⟩
  have hranked : ∀ t ∈ ordered.bandTables, t.Ranked := by
    simp [ordered, InstalledBandTable.Ranked, InstalledBand.RanksWith]
  exact ⟨hordered, hshuffled, hdefaults, hreorders, hranked,
    (ofText_reordered .default orderedText shuffledText hdefaults hreorders).2 _ _ hordered
      hshuffled⟩

end Installed

end MatchTree
