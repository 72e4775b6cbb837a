import MatchTree.Proofs.Installation
import MatchTree.Proofs.Writing

/-!
# What the lines of one table do

* `BandTable.installedAs`, `VerdictTable.installedAs` — a table as it is installed under a name.
* `Installation.bandTableWords`, `Installation.verdictTableWords` — the words of the lines that
  declare a table and fill it.

Principal results: `steps_bandTable_ok` — the lines of a band table are taken exactly if its name is
one for a band table and new, and then they add the table; `steps_verdictTable`,
`addsVerdictTable_of_steps` — the same of the verdict table, whose keys need the right width.

A name is a single word here. Each table brings at least one entry, and the parameters of the entry
tell the two kinds of tables apart, so that no table passes for one of the other kind.
-/

namespace MatchTree

/-- A band as it is installed. -/
def Band.installed (b : Band) : InstalledBand :=
  ⟨b.lower, b.upper, b.code, UInt32.ofNat b.priority⟩

/-- A band table as it is installed under a name. -/
def BandTable.installedAs (t : BandTable) (name action : String) : InstalledBandTable :=
  ⟨name, action, t.defaultCode, t.bands.toList.map Band.installed⟩

/-- A verdict table as it is installed under a name. -/
def VerdictTable.installedAs (t : VerdictTable) (name action : String) : InstalledVerdictTable :=
  ⟨name, action, t.defaultVerdict, t.table.rows.map fun r => (r.codes, r.verdict)⟩

/-! ## Words of an entry -/

theorem splitRange?_rangeText (b : Band) :
    splitRange? (Command.rangeText b).toList =
      some ((toString b.lower.toNat).toList, (toString b.upper.toNat).toList) := by
  have hsign : Command.rangeSign.toList = ['-', '>'] := by decide
  have hminus : '-' ∉ (toString b.lower.toNat).toList := fun hmem =>
    absurd (Text.isDigit_of_mem_toString hmem) (by decide)
  rw [Command.rangeText, String.toList_append, String.toList_append, hsign, List.append_assoc]
  exact splitRange?_append hminus _

theorem Band.uint32?_priority (b : Band) :
    Text.uint32? (toString b.priority).toList = some (UInt32.ofNat b.priority) := by
  have hcode := b.code.toNat_lt
  have hlt : b.priority < UInt32.size := by
    show b.code.toNat + 1 < 4294967296
    omega
  rw [Text.uint32?, Text.natural?_toString hlt, Option.map_some]

theorem arrow_ne_toString (n : Nat) : Command.arrow ≠ toString n := by
  intro heq
  have hmem : '=' ∈ (toString n).toList := by
    rw [← heq]
    decide
  exact absurd (Text.isDigit_of_mem_toString hmem) (by decide)

theorem arrow_ne_rangeText (b : Band) : Command.arrow ≠ Command.rangeText b := by
  intro heq
  have hsplit := splitRange?_rangeText b
  have hnone : splitRange? Command.arrow.toList = none := by decide
  rw [← heq, hnone] at hsplit
  cases hsplit

namespace Installation

variable {n : Naming} {line k : Nat} {s s' : Installation}

/-- The words of a band stand for it alone. -/
theorem writes_iff {b : Band} (hb : b.lower ≤ b.upper) {x : InstalledBand} :
    Writes [Command.rangeText b] [toString b.code.toNat, toString b.priority] x ↔
      x = b.installed := by
  constructor
  · rintro ⟨key, code, priority, lower, upper, hkey, hparams, hsplit, hlower, hupper, hcode,
      hpriority, -⟩
    cases hkey
    cases hparams
    rw [splitRange?_rangeText] at hsplit
    cases hsplit
    rw [Text.uint32?_toString, Option.some.injEq] at hlower hupper
    rw [Text.uint16?_toString, Option.some.injEq] at hcode
    rw [b.uint32?_priority, Option.some.injEq] at hpriority
    cases x
    simp only at hlower hupper hcode hpriority
    rw [Band.installed, hlower, hupper, hcode, hpriority]
  · rintro rfl
    exact ⟨_, _, _, _, _, rfl, rfl, splitRange?_rangeText b, Text.uint32?_toString _,
      Text.uint32?_toString _, Text.uint16?_toString _, b.uint32?_priority, hb⟩

/-! ## The lines of a band table -/

/-- The words of a band of a table. -/
def bandWords (t a : String) (b : Band) : List String :=
  [Command.addEntry, t, a, Command.rangeText b, Command.arrow, toString b.code.toNat,
    toString b.priority]

/-- The words of a row of a table. -/
def rowWords (t a : String) (r : Row) : List String :=
  Command.addEntry :: t :: a :: ((r.codes.map fun c => toString c.toNat) ++
    [Command.arrow, toString r.verdict.code.toNat])

theorem splitAtArrow?_band (b : Band) (params : List String) :
    splitAtArrow? (Command.rangeText b :: Command.arrow :: params) =
      some ([Command.rangeText b], params) := by
  have hkeys : Command.arrow ∉ [Command.rangeText b] := by
    rw [List.mem_singleton]
    exact arrow_ne_rangeText b
  exact splitAtArrow?_append hkeys params

theorem splitAtArrow?_row (r : Row) :
    splitAtArrow? ((r.codes.map fun c => toString c.toNat) ++
      [Command.arrow, toString r.verdict.code.toNat]) =
      some (r.codes.map fun c => toString c.toNat, [toString r.verdict.code.toNat]) := by
  refine splitAtArrow?_append ?_ _
  rw [List.mem_map]
  rintro ⟨c, -, heq⟩
  exact arrow_ne_toString _ heq.symm

/-- A band goes to the table that was declared last. -/
theorem step_band_ok {tables : List InstalledBandTable} {v? : Option InstalledVerdictTable}
    {t a : String} {d : Code} {es : List InstalledBand} {b : Band} (hb : b.lower ≤ b.upper)
    (ht : t ≠ n.verdictTable) (hnew : tables.find? (fun u => u.name == t) = none) :
    (⟨tables ++ [⟨t, a, d, es⟩], v?⟩ : Installation).step n line (bandWords t a b) = .ok s' ↔
      s' = ⟨tables ++ [⟨t, a, d, es ++ [b.installed]⟩], v?⟩ := by
  have hfind : (⟨tables ++ [⟨t, a, d, es⟩], v?⟩ : Installation).find? t = some ⟨t, a, d, es⟩ := by
    rw [find?, List.find?_append, hnew]
    simp
  have hothers : ∀ u ∈ tables, u.name ≠ t := by
    intro u hu heq
    exact List.find?_eq_none.1 hnew u hu (by simpa using heq)
  have hkept : ∀ x : InstalledBand, (tables.map fun u =>
      if u.name = t then { u with entries := u.entries ++ [x] } else u) = tables := by
    intro x
    rw [List.map_congr_left fun u hu => if_neg (hothers u hu), List.map_id']
  rw [bandWords, step_addEntry, addEntry_ok]
  constructor
  · rintro ⟨table, action, rest, keys, params, hargs, hsplit, ⟨htable, -⟩ | ⟨-, u, hu, hadds⟩⟩
    · cases hargs
      exact absurd htable ht
    · cases hargs
      rw [splitAtArrow?_band] at hsplit
      cases hsplit
      cases hfind.symm.trans hu
      obtain ⟨-, x, hx, rfl⟩ := hadds
      obtain rfl := (writes_iff hb).1 hx
      simp only [List.map_append, List.map_singleton, hkept, if_true]
  · rintro rfl
    refine ⟨t, a, _, _, _, rfl, splitAtArrow?_band b _, Or.inr ⟨ht, _, hfind, rfl, b.installed,
      (writes_iff hb).2 rfl, ?_⟩⟩
    simp only [List.map_append, List.map_singleton, hkept, if_true]

theorem steps_bands_ok {tables : List InstalledBandTable} {v? : Option InstalledVerdictTable}
    {t a : String} {d : Code} {es : List InstalledBand} {bands : List Band}
    (hbands : ∀ b ∈ bands, b.lower ≤ b.upper) (ht : t ≠ n.verdictTable)
    (hnew : tables.find? (fun u => u.name == t) = none) :
    (⟨tables ++ [⟨t, a, d, es⟩], v?⟩ : Installation).steps n
        ((bands.map (bandWords t a)).zipIdx k) = .ok s' ↔
      s' = ⟨tables ++ [⟨t, a, d, es ++ bands.map Band.installed⟩], v?⟩ := by
  induction bands generalizing es k with
  | nil => rw [List.map_nil, List.zipIdx_nil, steps_nil, List.map_nil, List.append_nil, eq_comm]
  | cons b bands ih =>
    obtain ⟨hb, hbands⟩ := List.forall_mem_cons.1 hbands
    rw [List.map_cons, List.zipIdx_cons, steps_cons]
    constructor
    · rintro ⟨m, hm, hrest⟩
      obtain rfl := (step_band_ok hb ht hnew).1 hm
      rw [(ih hbands).1 hrest, List.append_assoc]
      rfl
    · rintro rfl
      refine ⟨_, (step_band_ok hb ht hnew).2 rfl, (ih hbands).2 ?_⟩
      rw [List.append_assoc]
      rfl

/-- The state with one more band table. -/
def addTable (s : Installation) (t : InstalledBandTable) : Installation :=
  { s with bandTables := s.bandTables ++ [t] }

/-- The words of the lines of a band table under a name. -/
def bandTableWords (t a : String) (table : BandTable) : List (List String) :=
  [Command.setDefault, t, a, toString table.defaultCode.toNat] ::
    table.bands.toList.map (bandWords t a)

/-- **The lines of a band table declare and fill it.** Its name must be that of a band table, and
new. With no band it could as well be the name of the verdict table. -/
theorem steps_bandTable_ok {table : BandTable} {t a : String} (hne : table.bands.toList ≠ [])
    (hbands : ∀ b ∈ table.bands.toList, b.lower ≤ b.upper) :
    s.steps n ((bandTableWords t a table).zipIdx k) = .ok s' ↔
      t ≠ n.verdictTable ∧ n.isBandTable t = true ∧ s.find? t = none ∧
        s' = s.addTable (table.installedAs t a) := by
  rw [bandTableWords, List.zipIdx_cons, steps_cons]
  constructor
  · rintro ⟨m, hm, hrest⟩
    rw [step_setDefault, setDefault_ok] at hm
    obtain ⟨_, _, _, hargs, ⟨rfl, -, v, -, rfl⟩ | ⟨ht, hband, hnew, code, hcode, rfl⟩⟩ := hm
    · -- Named like the verdict table, it would get a band, which has two parameters.
      cases hargs
      obtain ⟨b, bands, hcons⟩ := List.exists_cons_of_ne_nil hne
      rw [hcons, List.map_cons, List.zipIdx_cons, steps_cons, bandWords] at hrest
      obtain ⟨m, hm, -⟩ := hrest
      rw [step_addEntry, addEntry_ok] at hm
      obtain ⟨_, _, _, keys, params, hargs, hsplit, ⟨-, u, -, hadds⟩ | ⟨htable, -⟩⟩ := hm
      · cases hargs
        rw [splitAtArrow?_band] at hsplit
        cases hsplit
        obtain ⟨-, -, _, _, _, hparams, -⟩ := hadds
        cases hparams
      · cases hargs
        exact absurd rfl htable
    · cases hargs
      rw [Text.uint16?_toString, Option.some.injEq] at hcode
      rw [← hcode] at hrest
      exact ⟨ht, hband, hnew, (steps_bands_ok hbands ht hnew).1 hrest⟩
  · rintro ⟨ht, hband, hnew, rfl⟩
    refine ⟨s.addTable ⟨t, a, table.defaultCode, []⟩, ?_, (steps_bands_ok hbands ht hnew).2 rfl⟩
    rw [step_setDefault, setDefault_ok]
    exact ⟨t, a, _, rfl, Or.inr ⟨ht, hband, hnew, _, Text.uint16?_toString _, rfl⟩⟩

/-! ## The lines of the verdict table -/

theorem forall₂_codes_iff {codes codes' : List Code} :
    List.Forall₂ (fun w c => Text.uint16? w.toList = some c)
      (codes.map fun c => toString c.toNat) codes' ↔ codes' = codes := by
  rw [List.forall₂_map_left_iff]
  simp only [Text.uint16?_toString, Option.some.injEq]
  rw [List.forall₂_eq_eq_eq, eq_comm]

/-- A row goes to the verdict table if its key has the right width and is new. -/
theorem step_row_ok {tables : List InstalledBandTable} {t a : String} {d : Verdict}
    {es : List (List Code × Verdict)} {r : Row} (ht : t = n.verdictTable) :
    (⟨tables, some ⟨t, a, d, es⟩⟩ : Installation).step n line (rowWords t a r) = .ok s' ↔
      r.codes.length = tables.length ∧ (∀ e ∈ es, e.1 ≠ r.codes) ∧
        s' = ⟨tables, some ⟨t, a, d, es ++ [(r.codes, r.verdict)]⟩⟩ := by
  have hnew : (⟨t, a, d, es⟩ : InstalledVerdictTable).verdict? r.codes = none ↔
      ∀ e ∈ es, e.1 ≠ r.codes := by
    simp [InstalledVerdictTable.verdict?]
  rw [rowWords, step_addEntry, addEntry_ok]
  constructor
  · rintro ⟨table, action, rest, keys, params, hargs, hsplit, ⟨-, u, hu, hadds⟩ | ⟨htable, -⟩⟩
    · cases hargs
      rw [splitAtArrow?_row] at hsplit
      cases hsplit
      cases hu
      obtain ⟨-, hlength, _, codes, v, hparams, hcodes, hv, hkey, rfl⟩ := hadds
      cases hparams
      obtain rfl := forall₂_codes_iff.1 hcodes
      rw [Verdict.ofWord?_toString, Option.some.injEq] at hv
      rw [List.length_map] at hlength
      exact ⟨hlength, hnew.1 hkey, by rw [hv]⟩
    · cases hargs
      exact absurd ht htable
  · rintro ⟨hlength, hkey, rfl⟩
    exact ⟨t, a, _, _, _, rfl, splitAtArrow?_row r, Or.inl ⟨ht, _, rfl, rfl,
      by rw [List.length_map]; exact hlength, _, _, _, rfl, forall₂_codes_iff.2 rfl,
      Verdict.ofWord?_toString _, hnew.2 hkey, rfl⟩⟩

theorem steps_rows_ok {tables : List InstalledBandTable} {t a : String} {d : Verdict}
    {es : List (List Code × Verdict)} {rows : List Row} (ht : t = n.verdictTable) :
    (⟨tables, some ⟨t, a, d, es⟩⟩ : Installation).steps n
        ((rows.map (rowWords t a)).zipIdx k) = .ok s' ↔
      (∀ r ∈ rows, r.codes.length = tables.length) ∧ (∀ r ∈ rows, ∀ e ∈ es, e.1 ≠ r.codes) ∧
        (rows.map (·.codes)).Nodup ∧
        s' = ⟨tables, some ⟨t, a, d, es ++ rows.map fun r => (r.codes, r.verdict)⟩⟩ := by
  induction rows generalizing es k with
  | nil =>
    rw [List.map_nil, List.zipIdx_nil, steps_nil]
    simp [eq_comm]
  | cons r rows ih =>
    rw [List.map_cons, List.zipIdx_cons, steps_cons]
    constructor
    · rintro ⟨m, hm, hrest⟩
      obtain ⟨hlength, hkey, rfl⟩ := (step_row_ok ht).1 hm
      obtain ⟨hlengths, hkeys, hnodup, rfl⟩ := ih.1 hrest
      refine ⟨List.forall_mem_cons.2 ⟨hlength, hlengths⟩, List.forall_mem_cons.2 ⟨hkey, ?_⟩, ?_, ?_⟩
      · exact fun q hq e he => hkeys q hq e (List.mem_append_left _ he)
      · rw [List.map_cons, List.nodup_cons]
        refine ⟨fun hmem => ?_, hnodup⟩
        obtain ⟨q, hq, heq⟩ := List.mem_map.1 hmem
        exact hkeys q hq _ (List.mem_append_right _ (List.mem_singleton_self _)) heq.symm
      · rw [List.append_assoc]
        rfl
    · rintro ⟨hlengths, hkeys, hnodup, rfl⟩
      rw [List.map_cons, List.nodup_cons] at hnodup
      obtain ⟨hlength, hlengths⟩ := List.forall_mem_cons.1 hlengths
      obtain ⟨hkey, hkeys⟩ := List.forall_mem_cons.1 hkeys
      refine ⟨_, (step_row_ok ht).2 ⟨hlength, hkey, rfl⟩,
        ih.2 ⟨hlengths, fun q hq e he => ?_, hnodup.2, ?_⟩⟩
      · rcases List.mem_append.1 he with he | he
        · exact hkeys q hq e he
        · obtain rfl := List.mem_singleton.1 he
          exact fun heq => hnodup.1 (List.mem_map.2 ⟨q, hq, heq.symm⟩)
      · rw [List.append_assoc]
        rfl

/-- The words of the lines of the verdict table under a name. -/
def verdictTableWords (t a : String) (table : VerdictTable) : List (List String) :=
  [Command.setDefault, t, a, toString table.defaultVerdict.code.toNat] ::
    table.table.rows.map (rowWords t a)

/-- What the lines of the verdict table do to the tables. -/
def AddsVerdictTable (n : Naming) (s : Installation) (t a : String) (table : VerdictTable)
    (s' : Installation) : Prop :=
  t = n.verdictTable ∧ s.verdictTable? = none ∧
    (∀ r ∈ table.table.rows, r.codes.length = s.bandTables.length) ∧
    (table.table.rows.map (·.codes)).Nodup ∧
    s' = { s with verdictTable? := some (table.installedAs t a) }

/-- **The lines of a verdict table declare and fill it.** -/
theorem steps_verdictTable {table : VerdictTable} {t a : String}
    (h : s.AddsVerdictTable n t a table s') :
    s.steps n ((verdictTableWords t a table).zipIdx k) = .ok s' := by
  obtain ⟨ht, hnone, hlengths, hnodup, rfl⟩ := h
  rw [verdictTableWords, List.zipIdx_cons, steps_cons]
  refine ⟨{ s with verdictTable? := some ⟨t, a, table.defaultVerdict, []⟩ }, ?_,
    (steps_rows_ok ht).2 ⟨hlengths, by simp, hnodup, rfl⟩⟩
  rw [step_setDefault, setDefault_ok]
  exact ⟨t, a, _, rfl, Or.inl ⟨ht, hnone, _, Verdict.ofWord?_toString _, rfl⟩⟩

/-- **The lines of a verdict table do nothing else**, unless it has no row: then it could as well be
named like a band table. -/
theorem addsVerdictTable_of_steps {table : VerdictTable} {t a : String}
    (hne : table.table.rows ≠ [])
    (h : s.steps n ((verdictTableWords t a table).zipIdx k) = .ok s') :
    s.AddsVerdictTable n t a table s' := by
  rw [verdictTableWords, List.zipIdx_cons, steps_cons] at h
  obtain ⟨m, hm, hrest⟩ := h
  rw [step_setDefault, setDefault_ok] at hm
  obtain ⟨_, _, _, hargs, ⟨ht, hnone, v, hv, rfl⟩ | ⟨ht, -⟩⟩ := hm
  · cases hargs
    rw [Verdict.ofWord?_toString, Option.some.injEq] at hv
    rw [← hv] at hrest
    obtain ⟨hlengths, -, hnodup, rfl⟩ := (steps_rows_ok ht).1 hrest
    exact ⟨ht, hnone, hlengths, hnodup, rfl⟩
  · -- Named like a band table, it would get a row, which has one parameter.
    cases hargs
    obtain ⟨r, rows, hcons⟩ := List.exists_cons_of_ne_nil hne
    rw [hcons, List.map_cons, List.zipIdx_cons, steps_cons, rowWords] at hrest
    obtain ⟨m, hm, -⟩ := hrest
    rw [step_addEntry, addEntry_ok] at hm
    obtain ⟨_, _, _, keys, params, hargs, hsplit, ⟨htable, -⟩ | ⟨-, u, -, hadds⟩⟩ := hm
    · cases hargs
      exact absurd htable ht
    · cases hargs
      rw [splitAtArrow?_row] at hsplit
      cases hsplit
      obtain ⟨-, x, ⟨_, _, _, _, _, -, hparams, -⟩, -⟩ := hadds
      cases hparams

end Installation

end MatchTree
