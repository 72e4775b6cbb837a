import MatchTree.Proofs.Agreement
import MatchTree.Proofs.TableLines

/-!
# Loading the text of a program

* `Program.Filled` — every band table has bands, which ascend.
* `Naming.BlankFree` — no name has a blank.
* `Installed.Copies` — the installed tables are those of a program, but for their names.

Principal results: `exists_spells` — a table whose lines are all taken has names that are read as
one word each; `copies_of_ofText` — whatever the names, the text of a program is refused or loads as
a copy of it; `ofText_text` — with fitting names it loads as the program itself;
`loads_as_compiled` — so does the text of any tree that compiles, and a key then has the verdict of
its row.
-/

namespace MatchTree

/-! ## The lines of a table -/

theorem BandTable.linesOf_commands {table : BandTable} {t a : String}
    (h : Spells table.name table.action t a) :
    Command.linesOf table.commands = Installation.bandTableWords t a table := by
  have hnames : ∀ c ∈ table.commands, c.table = table.name ∧ c.action = table.action := by
    intro c hc
    rcases List.mem_cons.1 hc with rfl | hc
    · exact ⟨rfl, rfl⟩
    · obtain ⟨b, -, rfl⟩ := List.mem_map.1 hc
      exact ⟨rfl, rfl⟩
  rw [Command.linesOf_eq_map h hnames, commands, List.map_cons, List.map_map]
  rfl

theorem VerdictTable.linesOf_commands {table : VerdictTable} {t a : String}
    (h : Spells table.name table.action t a) :
    Command.linesOf table.commands = Installation.verdictTableWords t a table := by
  have hnames : ∀ c ∈ table.commands, c.table = table.name ∧ c.action = table.action := by
    intro c hc
    rcases List.mem_cons.1 hc with rfl | hc
    · exact ⟨rfl, rfl⟩
    · obtain ⟨r, -, rfl⟩ := List.mem_map.1 hc
      exact ⟨rfl, rfl⟩
  rw [Command.linesOf_eq_map h hnames, commands, List.map_cons, List.map_map]
  rfl

namespace Installation

variable {n : Naming} {s s' : Installation} {k : Nat}

/-- The same words behind both keywords make no two commands: the last word of a default is a
numeral, and an entry has an arrow there. -/
theorem not_default_and_entry {ws : List String} {i j : Nat} {m s₂ m₂ : Installation}
    (hdefault : s.step n i (Command.setDefault :: ws) = .ok m)
    (hentry : s₂.step n j (Command.addEntry :: ws) = .ok m₂) : False := by
  rw [step_setDefault, setDefault_ok] at hdefault
  rw [step_addEntry, addEntry_ok] at hentry
  obtain ⟨table, action, param, rfl, hdeclares⟩ := hdefault
  obtain ⟨_, _, rest, keys, params, hargs, hsplit, -⟩ := hentry
  cases hargs
  have harrow := arrow_mem_of_splitAtArrow? hsplit
  obtain rfl := List.mem_singleton.1 harrow
  rcases hdeclares with ⟨-, -, v, hv, -⟩ | ⟨-, -, -, code, hcode, -⟩
  · rw [Verdict.ofWord?_arrow] at hv
    cases hv
  · rw [Text.uint16?_arrow] at hcode
    cases hcode

/-- **A table whose default and first entry are taken has names of one word each.** A line feed in a
name would cut both commands at the same word, and two words less or more would be too few or too
many for the default. -/
theorem exists_spells {table action : String} {c d : Command} {rest : List Command}
    (hctable : c.table = table) (hcaction : c.action = action)
    (hckeyword : c.keyword = Command.setDefault) (hcoperands : ∃ p, c.operands = [p])
    (hdtable : d.table = table) (hdaction : d.action = action)
    (hdkeyword : d.keyword = Command.addEntry)
    (h : s.steps n ((Command.linesOf (c :: d :: rest)).zipIdx k) = .ok s') :
    ∃ t a, Spells table action t a := by
  rw [Command.linesOf, List.flatMap_cons, List.flatMap_cons, steps_append] at h
  obtain ⟨m, hc, hrest⟩ := h
  obtain ⟨m₂, hd, -⟩ := steps_append.1 hrest
  by_cases hline : '\n' ∈ table.toList ∨ '\n' ∈ action.toList
  · obtain ⟨ws, hws⟩ := Command.first_line hline
    obtain ⟨more, hmore⟩ := hws c hctable hcaction
    obtain ⟨more₂, hmore₂⟩ := hws d hdtable hdaction
    rw [hmore, hckeyword, List.zipIdx_cons, steps_cons] at hc
    rw [hmore₂, hdkeyword, List.zipIdx_cons, steps_cons] at hd
    obtain ⟨_, hc, -⟩ := hc
    obtain ⟨_, hd, -⟩ := hd
    exact (not_default_and_entry hc hd).elim
  · rw [not_or] at hline
    obtain ⟨p, hp⟩ := hcoperands
    rw [Command.linesOfWords_of_no_newline (hctable ▸ hline.1) (hcaction ▸ hline.2), hckeyword, hp,
      hctable, hcaction, List.zipIdx_cons, steps_cons] at hc
    obtain ⟨_, hc, -⟩ := hc
    rw [step_setDefault, setDefault_ok] at hc
    obtain ⟨t, a, q, hwords, -⟩ := hc
    have hinit : Text.wordsOf table.toList ++ Text.wordsOf action.toList ++ [p] = [t, a] ++ [q] :=
      hwords
    exact ⟨t, a, hline.1, hline.2, (List.append_inj' hinit rfl).1⟩

theorem steps_bandTables_copies {tables : List BandTable}
    (hne : ∀ t ∈ tables, t.bands.toList ≠ [])
    (hordered : ∀ t ∈ tables, ∀ b ∈ t.bands.toList, b.lower ≤ b.upper)
    (h : s.steps n ((tables.flatMap fun t => Command.linesOf t.commands).zipIdx k) = .ok s') :
    ∃ installed, s' = { s with bandTables := s.bandTables ++ installed } ∧
      List.Forall₂ (fun (t : BandTable) u => ∃ name action, Spells t.name t.action name action ∧
        u = t.installedAs name action) tables installed := by
  induction tables generalizing s k with
  | nil =>
    rw [List.flatMap_nil, List.zipIdx_nil, steps_nil] at h
    exact ⟨[], by rw [List.append_nil, h], .nil⟩
  | cons t tables ih =>
    obtain ⟨hnet, hne⟩ := List.forall_mem_cons.1 hne
    obtain ⟨horderedt, hordered⟩ := List.forall_mem_cons.1 hordered
    rw [List.flatMap_cons, steps_append] at h
    obtain ⟨m, ht, hrest⟩ := h
    obtain ⟨name, action, hspells⟩ : ∃ name action, Spells t.name t.action name action := by
      obtain ⟨b, bands, hcons⟩ := List.exists_cons_of_ne_nil hnet
      rw [BandTable.commands, hcons, List.map_cons] at ht
      exact exists_spells rfl rfl rfl ⟨_, rfl⟩ rfl rfl rfl ht
    rw [BandTable.linesOf_commands hspells, steps_bandTable_ok hnet horderedt] at ht
    obtain ⟨-, -, -, rfl⟩ := ht
    obtain ⟨installed, rfl, hcopies⟩ := ih hne hordered hrest
    refine ⟨t.installedAs name action :: installed, ?_, .cons ⟨name, action, hspells, rfl⟩ hcopies⟩
    simp [addTable]

theorem steps_bandTables {tables : List BandTable}
    (hne : ∀ t ∈ tables, t.bands.toList ≠ [])
    (hordered : ∀ t ∈ tables, ∀ b ∈ t.bands.toList, b.lower ≤ b.upper)
    (hwords : ∀ t ∈ tables, Text.IsWord t.name ∧ Text.IsWord t.action)
    (hverdict : ∀ t ∈ tables, t.name ≠ n.verdictTable)
    (hband : ∀ t ∈ tables, n.isBandTable t.name = true)
    (hdistinct : (tables.map (·.name)).Nodup) (hnew : ∀ t ∈ tables, s.find? t.name = none) :
    s.steps n ((tables.flatMap fun t => Command.linesOf t.commands).zipIdx k) =
      .ok { s with
        bandTables := s.bandTables ++ tables.map fun t => t.installedAs t.name t.action } := by
  induction tables generalizing s k with
  | nil => rw [List.flatMap_nil, List.zipIdx_nil, steps_nil, List.map_nil, List.append_nil]
  | cons t tables ih =>
    obtain ⟨hnet, hne⟩ := List.forall_mem_cons.1 hne
    obtain ⟨horderedt, hordered⟩ := List.forall_mem_cons.1 hordered
    obtain ⟨hwordst, hwords⟩ := List.forall_mem_cons.1 hwords
    obtain ⟨hverdictt, hverdict⟩ := List.forall_mem_cons.1 hverdict
    obtain ⟨hbandt, hband⟩ := List.forall_mem_cons.1 hband
    obtain ⟨hnewt, hnew⟩ := List.forall_mem_cons.1 hnew
    rw [List.map_cons, List.nodup_cons] at hdistinct
    have hnext : ∀ u ∈ tables, (s.addTable (t.installedAs t.name t.action)).find? u.name = none := by
      intro u hu
      have hold : s.bandTables.find? (fun x => x.name == u.name) = none := hnew u hu
      have hname : t.name ≠ u.name := fun heq => hdistinct.1 (List.mem_map.2 ⟨u, hu, heq.symm⟩)
      rw [find?, addTable, List.find?_append, hold]
      simpa [BandTable.installedAs] using hname
    rw [List.flatMap_cons, steps_append]
    refine ⟨s.addTable (t.installedAs t.name t.action), ?_, ?_⟩
    · rw [BandTable.linesOf_commands (.of_isWord hwordst.1 hwordst.2),
        steps_bandTable_ok hnet horderedt]
      exact ⟨hverdictt, hbandt, hnewt, rfl⟩
    · rw [ih hne hordered hwords hverdict hband hdistinct.2 hnext]
      simp [addTable]

end Installation

/-! ## The text of a program -/

/-- Every band table has bands, which ascend. -/
structure Program.Filled (p : Program) : Prop where
  bands_ne : ∀ t ∈ p.bandTables, t.bands.toList ≠ []
  ascending : ∀ t ∈ p.bandTables, Ascending t.bands

theorem Program.Filled.ordered {p : Program} (hp : p.Filled) :
    ∀ t ∈ p.bandTables, ∀ b ∈ t.bands.toList, b.lower ≤ b.upper := by
  intro t ht b hb
  exact UInt32.le_iff_toNat_le.2 ((hp.ascending t ht).ordered b (Array.mem_toList_iff.1 hb))

/-- The installed tables are those of a program, under names that its names spell. -/
structure Installed.Copies (x : Installed) (p : Program) : Prop where
  bandTables : List.Forall₂ (fun (t : BandTable) u => ∃ name action,
    Spells t.name t.action name action ∧ u = t.installedAs name action) p.bandTables x.bandTables
  verdictTable : ∃ name action, Spells p.verdictTable.name p.verdictTable.action name action ∧
    x.verdictTable = p.verdictTable.installedAs name action

/-- The words of the lines of the band tables. -/
def Program.bandLines (p : Program) : List (List String) :=
  p.bandTables.flatMap fun t => Command.linesOf t.commands

/-- **The text of a program is loaded table by table.** -/
theorem Installed.ofText_text_ok {n : Naming} {p : Program} {x : Installed} :
    Installed.ofText n p.text = .ok x ↔
      ∃ m, Installation.empty.steps n (p.bandLines.zipIdx 1) = .ok m ∧
        m.steps n ((Command.linesOf p.verdictTable.commands).zipIdx (1 + p.bandLines.length)) =
          .ok ⟨x.bandTables, some x.verdictTable⟩ := by
  have hlines : numberedWords p.text =
      ((p.bandLines ++ Command.linesOf p.verdictTable.commands) ++ [[]]).zipIdx 1 := by
    have hwords : numberedWords p.text = (Text.linesOfWords p.text.toList).zipIdx 1 := rfl
    rw [hwords, Program.linesOfWords_text, Program.commands, Command.linesOf, List.flatMap_append,
      List.flatMap_assoc]
    rfl
  have hlast : ∀ {s s' : Installation} {k : Nat}, s.steps n ([[]].zipIdx k) = .ok s' ↔ s = s' := by
    intro s s' k
    rw [List.zipIdx_cons, List.zipIdx_nil, Installation.steps_cons]
    simp [Installation.step, Installation.steps_nil]
  rw [ofText, bind_eq_ok, hlines]
  constructor
  · rintro ⟨s, hs, hfinish⟩
    rw [Installation.finish_ok] at hfinish
    obtain ⟨m, hm, hempty⟩ := Installation.steps_append.1 hs
    rw [hlast.1 hempty, hfinish] at hm
    exact Installation.steps_append.1 hm
  · intro h
    refine ⟨⟨x.bandTables, some x.verdictTable⟩, ?_, Installation.finish_ok.2 rfl⟩
    exact Installation.steps_append.2 ⟨_, Installation.steps_append.2 h, hlast.2 rfl⟩

/-- **Whatever the names, the text of a program loads as a copy of it, if it loads at all.** -/
theorem Installed.copies_of_ofText {n : Naming} {p : Program} {x : Installed} (hp : p.Filled)
    (hrows : p.verdictTable.table.rows ≠ []) (h : Installed.ofText n p.text = .ok x) :
    x.Copies p := by
  obtain ⟨m, hbands, hverdict⟩ := Installed.ofText_text_ok.1 h
  obtain ⟨installed, rfl, hcopies⟩ :=
    Installation.steps_bandTables_copies hp.bands_ne hp.ordered hbands
  obtain ⟨name, action, hspells⟩ : ∃ name action,
      Spells p.verdictTable.name p.verdictTable.action name action := by
    obtain ⟨r, rows, hcons⟩ := List.exists_cons_of_ne_nil hrows
    rw [VerdictTable.commands, hcons, List.map_cons] at hverdict
    exact Installation.exists_spells rfl rfl rfl ⟨_, rfl⟩ rfl rfl rfl hverdict
  rw [VerdictTable.linesOf_commands hspells] at hverdict
  obtain ⟨-, -, -, -, heq⟩ := Installation.addsVerdictTable_of_steps hrows hverdict
  rw [Installation.mk.injEq, Option.some.injEq] at heq
  refine ⟨?_, name, action, hspells, heq.2⟩
  rw [heq.1]
  exact hcopies

/-! ## Programs of trees -/

/-- No name has a blank. -/
structure Naming.BlankFree (n : Naming) : Prop where
  featureTable : Text.BlankFree n.featureTable
  featureAction : Text.BlankFree n.featureAction
  verdictTable : Text.BlankFree n.verdictTable
  verdictAction : Text.BlankFree n.verdictAction

theorem Naming.blankFree_default : Naming.default.BlankFree :=
  ⟨by decide, by decide, by decide, by decide⟩

theorem Naming.tableOf_inj {n : Naming} {i j : Nat} (h : n.tableOf i = n.tableOf j) : i = j :=
  Text.toString_inj ((String.append_right_inj _).1 h)

theorem Naming.isBandTable_tableOf (n : Naming) (i : Nat) : n.isBandTable (n.tableOf i) = true := by
  rw [isBandTable, tableOf, String.toList_append, List.isPrefixOf_iff_prefix]
  exact List.prefix_append _ _

theorem VerdictTable.verdict?_installedAs (table : VerdictTable) (name action : String)
    (key : List Code) : (table.installedAs name action).verdict? key = table.table.verdict? key := by
  rw [InstalledVerdictTable.verdict?, installedAs, List.find?_map, Option.map_map]
  rfl

namespace Compilation.ComesFrom

variable {c : Compilation} {t : Tree} {schema : Schema} {budget : Budget} {naming : Naming}

/-- **The bands of each table tile the domain of its feature**, and its default is the code zero. -/
theorem tables_tile (h : c.ComesFrom t schema budget naming) :
    List.Forall₂ (fun f (table : BandTable) => ∃ a : Axis, a.Tiles f ∧ table.bands = a.bands ∧
      table.defaultCode = 0) schema.features c.program.bandTables := by
  have hbands := Program.map_bands_layOut h.program_ok h.length_axes
  have htiles := Grid.ofTree_ok h.grid_ok
  generalize schema.features = fs at htiles
  generalize c.grid.axes = axes at hbands htiles
  generalize c.program.bandTables = tables at hbands
  induction htiles generalizing tables with
  | nil =>
    rw [List.map_nil, List.map_eq_nil_iff] at hbands
    rw [hbands]
    exact .nil
  | @cons f a fs axes ha _ ih =>
    obtain ⟨table, tables, rfl, htable, htables⟩ := List.map_eq_cons_iff.1 hbands
    rw [Prod.mk.injEq] at htable
    exact .cons ⟨a, ha.1, htable.1, htable.2⟩ (ih tables htables)

theorem filled (h : c.ComesFrom t schema budget naming) : c.program.Filled := by
  have htiles : ∀ table ∈ c.program.bandTables, ∃ (f : Feature) (a : Axis),
      f.flaw? = none ∧ a.Tiles f ∧ table.bands = a.bands := by
    intro table htable
    obtain ⟨k, hk, rfl⟩ := List.getElem_of_mem htable
    have hk' : k < schema.features.length := by rw [h.tables_tile.length_eq]; exact hk
    obtain ⟨a, ha, heq, -⟩ := h.tables_tile.get hk' hk
    exact ⟨_, a, schema.sound _ (List.getElem_mem hk'), ha, heq⟩
  constructor
  · intro table htable hnil
    obtain ⟨f, a, hf, ha, heq⟩ := htiles table htable
    have hpos := ha.size_pos hf
    rw [heq] at hnil
    rw [Axis.size, ← Array.length_toList, hnil] at hpos
    exact absurd hpos (by decide)
  · intro table htable
    obtain ⟨f, a, -, ha, heq⟩ := htiles table htable
    rw [heq]
    exact ha.ascending

/-- The key of a row has a code for each band table. -/
theorem length_codes (h : c.ComesFrom t schema budget naming) {row : Row} (hrow : row ∈ c.rows) :
    row.codes.length = c.program.bandTables.length := by
  obtain ⟨r, box, hr, hbox, -, hcontains⟩ := (h.places.mem_rows row).1 hrow
  rw [CodeBox.length_eq_of_contains hcontains, h.length_bandTables]
  exact Route.length_of_box (h.length_intervals (List.mem_of_getElem? hr)) hbox

/-- The tables of the features are named after their positions. -/
theorem names_bandTables (h : c.ComesFrom t schema budget naming) :
    c.program.bandTables.map (fun t => (t.name, t.action)) =
      (List.range schema.size).map fun i => (naming.tableOf i, naming.actionOf i) := by
  have hpositions : (schema.features.zip c.grid.axes).zipIdx.map Prod.snd =
      List.range schema.size := by
    rw [List.zipIdx_map_snd, List.length_zip, ← h.length_axes, Nat.min_self, List.range_eq_range']
    rfl
  rw [(Program.layOut_ok h.program_ok).2.1, ← hpositions, List.map_map, List.map_map]
  rfl

theorem exists_position (h : c.ComesFrom t schema budget naming) {u : BandTable}
    (hu : u ∈ c.program.bandTables) :
    ∃ i < schema.size, u.name = naming.tableOf i ∧ u.action = naming.actionOf i := by
  have hmem := List.mem_map_of_mem (f := fun u : BandTable => (u.name, u.action)) hu
  rw [h.names_bandTables, List.mem_map] at hmem
  obtain ⟨i, hi, heq⟩ := hmem
  rw [Prod.mk.injEq] at heq
  exact ⟨i, List.mem_range.1 hi, heq.1.symm, heq.2.symm⟩

theorem nodup_names (h : c.ComesFrom t schema budget naming) :
    (c.program.bandTables.map (·.name)).Nodup := by
  have hnames := congrArg (List.map Prod.fst) h.names_bandTables
  rw [List.map_map, List.map_map] at hnames
  have htables : c.program.bandTables.map (·.name) =
      (List.range schema.size).map naming.tableOf := hnames
  rw [htables]
  exact List.Nodup.map (fun i j hij => Naming.tableOf_inj hij) List.nodup_range

/-- The text loads under the naming of the program if its names are words and tell its tables
apart. -/
theorem ofText_text (h : c.ComesFrom t schema budget naming)
    (hblank : naming.BlankFree)
    (htable : naming.verdictTable ≠ "") (haction : naming.verdictAction ≠ "")
    (hdiffers : ∀ i < schema.size, naming.verdictTable ≠ naming.tableOf i) :
    Installed.ofText naming c.program.text =
      .ok ⟨c.program.bandTables.map fun u => u.installedAs u.name u.action,
        c.program.verdictTable.installedAs naming.verdictTable naming.verdictAction⟩ := by
  have hverdict := (Program.layOut_ok h.program_ok).2.2
  have hwords : ∀ u ∈ c.program.bandTables, Text.IsWord u.name ∧ Text.IsWord u.action := by
    intro u hu
    obtain ⟨i, -, hname, haction⟩ := h.exists_position hu
    rw [hname, haction]
    exact ⟨Text.isWord_append_toString hblank.featureTable i,
      Text.isWord_append_toString hblank.featureAction i⟩
  have hother : ∀ u ∈ c.program.bandTables, u.name ≠ naming.verdictTable := by
    intro u hu
    obtain ⟨i, hi, hname, -⟩ := h.exists_position hu
    rw [hname]
    exact (hdiffers i hi).symm
  have hband : ∀ u ∈ c.program.bandTables, naming.isBandTable u.name = true := by
    intro u hu
    obtain ⟨i, -, hname, -⟩ := h.exists_position hu
    rw [hname]
    exact naming.isBandTable_tableOf i
  have hspells : Spells c.program.verdictTable.name c.program.verdictTable.action
      naming.verdictTable naming.verdictAction := by
    rw [hverdict]
    exact .of_isWord ⟨htable, hblank.verdictTable⟩ ⟨haction, hblank.verdictAction⟩
  have hbands := Installation.steps_bandTables (n := naming) (s := .empty) (k := 1)
    h.filled.bands_ne h.filled.ordered hwords hother hband h.nodup_names (fun _ _ => rfl)
  refine Installed.ofText_text_ok.2 ⟨_, hbands, ?_⟩
  rw [VerdictTable.linesOf_commands hspells]
  refine Installation.steps_verdictTable ⟨rfl, rfl, fun r hr => ?_, h.places.nodup, rfl⟩
  rw [h.length_codes hr]
  simp [Installation.empty]

end Compilation.ComesFrom

/-! ## Main result -/

/-- **The text of a compiled program loads as the program.** The names need to be single words, and
the verdict table must not be named like the table of a feature. -/
theorem Tree.loads_as_compiled {t : Tree} {schema : Schema} {budget : Budget} {naming : Naming}
    {c : Compilation} (h : t.compile schema budget naming = .ok c)
    (hblank : naming.BlankFree)
    (htable : naming.verdictTable ≠ "") (haction : naming.verdictAction ≠ "")
    (hdiffers : ∀ i < schema.size, naming.verdictTable ≠ naming.tableOf i) :
    ∃ x, Installed.ofText naming c.program.text = .ok x ∧
      x.bandTables = c.program.bandTables.map (fun t => ⟨t.name, t.action, t.defaultCode,
        t.bands.toList.map fun b => ⟨b.lower, b.upper, b.code,
          UInt32.ofNat (b.code.toNat + 1)⟩⟩) ∧
      x.bandTables.map (fun u => (u.name, u.action)) =
        (List.range schema.size).map (fun i => (naming.tableOf i, naming.actionOf i)) ∧
      x.verdictTable.name = c.program.verdictTable.name ∧
      x.verdictTable.action = c.program.verdictTable.action ∧
      x.verdictTable.defaultVerdict = c.program.verdictTable.defaultVerdict ∧
      ∀ key,
        (∀ v, x.verdictTable.verdict? key = some v ↔
          ∃ row ∈ c.rows, row.codes = key ∧ row.verdict = v) ∧
        (x.verdictTable.verdict? key = none ↔ ∀ row ∈ c.rows, row.codes ≠ key) := by
  have hc := Tree.compile_ok_iff.1 h
  have hverdict := (Program.layOut_ok hc.program_ok).2.2
  refine ⟨_, hc.ofText_text hblank htable haction hdiffers, rfl, ?_, ?_, ?_, rfl,
    fun key => ⟨fun v => ?_, ?_⟩⟩
  · rw [← hc.names_bandTables, List.map_map]
    rfl
  · rw [hverdict]
    rfl
  · rw [hverdict]
    rfl
  · rw [VerdictTable.verdict?_installedAs]
    exact CodeTable.verdict?_eq_some_iff hc.places.nodup
  · rw [VerdictTable.verdict?_installedAs]
    exact CodeTable.verdict?_eq_none_iff

theorem Tree.sample_loads_as_compiled :
    ∃ c x, Tree.sample.compile .sample .default .default = .ok c ∧
      Installed.ofText .default c.program.text = .ok x ∧
      x.bandTables = c.program.bandTables.map (fun t => ⟨t.name, t.action, t.defaultCode,
        t.bands.toList.map fun b => ⟨b.lower, b.upper, b.code,
          UInt32.ofNat (b.code.toNat + 1)⟩⟩) ∧
      ∀ key, x.verdictTable.verdict? key = none ↔ ∀ row ∈ c.rows, row.codes ≠ key := by
  obtain ⟨c, hc⟩ := Tree.exists_compile_sample
  obtain ⟨x, hx, hbands, -, -, -, -, hkeys⟩ :=
    Tree.loads_as_compiled hc Naming.blankFree_default (by decide) (by decide) (by decide)
  exact ⟨c, x, hc, hx, hbands, fun key => (hkeys key).2⟩

end MatchTree
