import MatchTree.Proofs.Loading
import MatchTree.Proofs.Slices
import MatchTree.Switch.Pipeline

/-!
# Packets through installed tables

* `InstalledBandTable.codeOf` — the code that a stage writes for a value.
* `bandMissCount` — how many values no band holds.
* `InstalledVerdictTable.verdictOf`, `missCount` — the same for the stage of the verdict table.

Principal results: `match?_installedAs` — of the ascending bands of a table, the one that wins is
the one that holds the value; `run_eq` — all that a run does to a packet and to the tallies;
`codes_eq`, `verdictOf_eq` — on a copy of a program a packet gets the codes and the verdict of the
program; `run_eq_pulled` — values outside the domains are misses, and count as the least ones;
`classifyFrame_eq_verdict` — a frame gets the verdict of the tree, and no stage misses;
`process_eq_classify` — text that loads under some names does to every packet what its program does;
`process_eq_pulled` — a packet misses nothing but the values outside the domains.
-/

namespace MatchTree

/-! ## The stage of a band table -/

theorem Ascending.filter_contains {bands : Array Band} (h : Ascending bands) (v : UInt32) :
    bands.toList.filter (fun b => b.contains v) = (bandAt? bands v).toList := by
  have hpairwise := h.apart.filter fun b => b.contains v
  cases hfilter : bands.toList.filter fun b => b.contains v with
  | nil =>
    rw [List.filter_eq_nil_iff] at hfilter
    cases hband : bandAt? bands v with
    | none => rfl
    | some b =>
      obtain ⟨hmem, hv⟩ := h.bandAt?_eq_some_iff.1 hband
      exact absurd hv (hfilter b (Array.mem_toList_iff.2 hmem))
  | cons b rest =>
    have hb : b ∈ bands.toList ∧ b.contains v = true := by
      refine List.mem_filter.1 (?_ : b ∈ bands.toList.filter fun b => b.contains v)
      rw [hfilter]
      exact List.mem_cons_self ..
    have hband := h.bandAt?_eq_some_iff.2 ⟨Array.mem_toList_iff.1 hb.1, hb.2⟩
    rw [hband, Option.toList_some]
    cases rest with
    | nil => rfl
    | cons c rest =>
      -- Two bands that hold the value would not be apart.
      have hc : c ∈ bands.toList ∧ c.contains v = true := by
        refine List.mem_filter.1 (?_ : c ∈ bands.toList.filter fun b => b.contains v)
        rw [hfilter]
        exact List.mem_cons_of_mem _ (List.mem_cons_self ..)
      rw [hfilter] at hpairwise
      have hapart := List.rel_of_pairwise_cons hpairwise (List.mem_cons_self ..)
      have hbv := Band.contains_iff.1 hb.2
      have hcv := Band.contains_iff.1 hc.2
      omega

/-- **The band that wins is the one that holds the value.** -/
theorem BandTable.match?_installedAs {table : BandTable} (h : Ascending table.bands)
    (name action : String) (v : UInt32) :
    (table.installedAs name action).match? v = (bandAt? table.bands v).map Band.installed := by
  have hfilter : (table.bands.toList.map Band.installed).filter (fun b => b.contains v) =
      (table.bands.toList.filter fun b => b.contains v).map Band.installed := by
    rw [List.filter_map]
    rfl
  rw [InstalledBandTable.match?, installedAs, hfilter, h.filter_contains]
  cases bandAt? table.bands v <;> rfl

/-- The code that the stage of a table writes. -/
def InstalledBandTable.codeOf (t : InstalledBandTable) (v : UInt32) : Code :=
  ((t.match? v).map (·.code)).getD t.defaultCode

theorem BandTable.codeOf_installedAs {table : BandTable} (h : Ascending table.bands)
    (name action : String) (v : UInt32) :
    (table.installedAs name action).codeOf v = table.apply v := by
  rw [InstalledBandTable.codeOf, match?_installedAs h, Option.map_map]
  rfl

/-! ## Runs -/

/-- How many of the tables hold no band for their value. -/
def bandMissCount (stages : List (InstalledBandTable × UInt32)) : Nat :=
  stages.countP fun x => (x.1.match? x.2).isNone

theorem foldl_run (stages : List (InstalledBandTable × UInt32)) (p : Passage) (n : Tallies) :
    stages.foldl (fun s x => x.1.run x.2 s) (p, n) =
      ({ p with
          codes := p.codes ++ stages.map fun x => x.1.codeOf x.2
          misses := p.misses ++ List.replicate (bandMissCount stages) .band },
        { n with bandMisses := n.bandMisses + bandMissCount stages }) := by
  induction stages generalizing p n with
  | nil => simp [bandMissCount]
  | cons x stages ih =>
    obtain ⟨t, v⟩ := x
    rw [List.foldl_cons]
    cases hmatch : t.match? v with
    | some b =>
      have hcount : bandMissCount ((t, v) :: stages) = bandMissCount stages := by
        simp [bandMissCount, hmatch]
      have hcode : t.codeOf v = b.code := by
        rw [InstalledBandTable.codeOf, hmatch]
        rfl
      have hrun : t.run v (p, n) = ({ p with codes := p.codes ++ [b.code] }, n) := by
        simp only [InstalledBandTable.run, hmatch]
      rw [hrun, ih, hcount, List.map_cons, hcode]
      simp
    | none =>
      have hcount : bandMissCount ((t, v) :: stages) = bandMissCount stages + 1 := by
        simp [bandMissCount, hmatch]
      have hcode : t.codeOf v = t.defaultCode := by
        rw [InstalledBandTable.codeOf, hmatch]
        rfl
      have hrun : t.run v (p, n) =
          ({ p with codes := p.codes ++ [t.defaultCode], misses := p.misses ++ [.band] },
            { n with bandMisses := n.bandMisses + 1 }) := by
        simp only [InstalledBandTable.run, hmatch]
      rw [hrun, ih, hcount, List.map_cons, hcode]
      simp [List.replicate_succ, Nat.add_assoc, Nat.add_comm 1]

namespace InstalledVerdictTable

/-- The verdict of codes, the default where they have no row. -/
def verdictOf (t : InstalledVerdictTable) (codes : List Code) : Verdict :=
  (t.verdict? codes).getD t.defaultVerdict

/-- How often the stage of the table misses, which is once at most. -/
def missCount (t : InstalledVerdictTable) (codes : List Code) : Nat :=
  if (t.verdict? codes).isNone then 1 else 0

theorem run_eq (t : InstalledVerdictTable) (p : Passage) (n : Tallies) :
    t.run (p, n) =
      ({ p with
          verdict := t.verdictOf p.codes
          misses := p.misses ++ List.replicate (t.missCount p.codes) .verdict },
        { n with verdictMisses := n.verdictMisses + t.missCount p.codes }) := by
  cases hlookup : t.verdict? p.codes with
  | none => simp only [run, verdictOf, missCount, hlookup]; rfl
  | some v => simp [run, verdictOf, missCount, hlookup]

end InstalledVerdictTable

namespace Installed

/-- The codes of a packet. -/
def codes (x : Installed) (values : List UInt32) : List Code :=
  (x.bandTables.zip values).map fun y => y.1.codeOf y.2

/-- **What a run does to a packet.** -/
theorem run_eq (x : Installed) (values : List UInt32) (n : Tallies) :
    x.run values n =
      (⟨values, x.codes values, x.verdictTable.verdictOf (x.codes values),
          List.replicate (bandMissCount (x.bandTables.zip values)) .band ++
            List.replicate (x.verdictTable.missCount (x.codes values)) .verdict⟩,
        { packets := n.packets + 1
          bandMisses := n.bandMisses + bandMissCount (x.bandTables.zip values)
          verdictMisses := n.verdictMisses + x.verdictTable.missCount (x.codes values)
          attacks := if x.verdictTable.verdictOf (x.codes values) = .attack then n.attacks + 1
            else n.attacks }) := by
  have hcodes : [] ++ (x.bandTables.zip values).map (fun y => y.1.codeOf y.2) =
      x.codes values := rfl
  unfold run
  dsimp only
  rw [foldl_run, InstalledVerdictTable.run_eq]
  simp only [hcodes, List.nil_append]
  split <;> rfl

end Installed

/-! ## Copies of a program -/

namespace Installed.Copies

variable {x : Installed} {p : Program}

theorem width_eq (h : x.Copies p) : x.width = p.bandTables.length :=
  h.bandTables.length_eq.symm

/-- **A packet gets the codes of the program.** -/
theorem codes_eq (h : x.Copies p) (hp : p.Filled) (values : List UInt32) :
    x.codes values = p.encode values := by
  have hbands := h.bandTables
  have hascending := hp.ascending
  unfold Installed.codes Program.encode
  generalize p.bandTables = tables at hbands hascending
  generalize x.bandTables = installed at hbands
  induction hbands generalizing values with
  | nil => rfl
  | @cons table u tables installed hu _ ih =>
    obtain ⟨name, action, -, rfl⟩ := hu
    obtain ⟨htable, htables⟩ := List.forall_mem_cons.1 hascending
    cases values with
    | nil => rfl
    | cons v values =>
      exact congrArg₂ List.cons (BandTable.codeOf_installedAs htable name action v)
        (ih values htables)

theorem verdict?_eq (h : x.Copies p) (key : List Code) :
    x.verdictTable.verdict? key = p.verdictTable.table.verdict? key := by
  obtain ⟨name, action, -, heq⟩ := h.verdictTable
  rw [heq, VerdictTable.verdict?_installedAs]

theorem verdictOf_eq (h : x.Copies p) (key : List Code) :
    x.verdictTable.verdictOf key = p.verdictTable.apply key := by
  have hdefault : x.verdictTable.defaultVerdict = p.verdictTable.defaultVerdict := by
    obtain ⟨name, action, -, heq⟩ := h.verdictTable
    rw [heq]
    rfl
  rw [InstalledVerdictTable.verdictOf, h.verdict?_eq, hdefault]
  rfl

end Installed.Copies

namespace Compilation.ComesFrom

variable {c : Compilation} {t : Tree} {schema : Schema} {budget : Budget} {naming : Naming}
  {x : Installed}

/-- **The stages of a copy miss exactly the values outside the domains.** -/
theorem bandMissCount_eq (h : c.ComesFrom t schema budget naming) (hx : x.Copies c.program)
    (values : List UInt32) :
    bandMissCount (x.bandTables.zip values) = schema.outsideCount values := by
  have htiles := h.tables_tile
  have hbands := hx.bandTables
  unfold Schema.outsideCount
  generalize schema.features = fs at htiles
  generalize c.program.bandTables = tables at htiles hbands
  generalize x.bandTables = installed at hbands
  induction htiles generalizing installed values with
  | nil =>
    cases List.forall₂_nil_left_iff.1 hbands
    rfl
  | @cons f table fs tables ha _ ih =>
    obtain ⟨u, installed, hu, hinstalled, rfl⟩ := List.forall₂_cons_left_iff.1 hbands
    obtain ⟨name, action, -, rfl⟩ := hu
    obtain ⟨a, htiles, hbands, -⟩ := ha
    cases values with
    | nil => rfl
    | cons v values =>
      have hascending : Ascending table.bands := hbands ▸ htiles.ascending
      have hmatch := BandTable.match?_installedAs hascending name action v
      have hmiss : ((table.installedAs name action).match? v).isNone = decide (¬ f.Admits v) := by
        rw [hmatch, hbands, Option.isNone_map, ← Bool.coe_iff_coe, decide_eq_true_iff,
          Option.isNone_iff_eq_none]
        exact htiles.bandAt?_eq_none_iff
      have hrest := ih values installed hinstalled
      unfold bandMissCount at hrest ⊢
      rw [List.zip_cons_cons, List.zip_cons_cons, List.countP_cons, List.countP_cons, hrest, hmiss]

/-- Every input of the domains has a row in a copy, with the verdict of the tree. -/
theorem exists_verdict? (h : c.ComesFrom t schema budget naming)
    (hsmall : budget.maxBands.toNat ≤ 65536) (hx : x.Copies c.program) {values : List UInt32}
    (hvalues : schema.Admits values) :
    ∃ v, t.verdict? (schema.valueOf values) = some v ∧
      x.verdictTable.verdict? (c.program.encode values) = some v := by
  obtain ⟨row, hrow, hcodes, hverdict⟩ := h.exists_row hsmall hvalues
  refine ⟨row.verdict, hverdict, ?_⟩
  rw [hx.verdict?_eq]
  exact (CodeTable.verdict?_eq_some_iff h.places.nodup).2 ⟨row, hrow, hcodes, rfl⟩

/-- **A packet gets the verdict of the tree on its values, pulled into the domains**, and each of
them that had to be pulled is a miss. -/
theorem run_eq_pulled (h : c.ComesFrom t schema budget naming)
    (hsmall : budget.maxBands.toNat ≤ 65536) (hx : x.Copies c.program) {values : List UInt32}
    (hlength : values.length = schema.size) :
    ∃ v, t.verdict? (schema.valueOf (schema.pull values)) = some v ∧ ∀ n : Tallies,
      x.run values n = (⟨values, c.program.encode values, v,
          List.replicate (schema.outsideCount values) .band⟩,
        { n with
          packets := n.packets + 1
          bandMisses := n.bandMisses + schema.outsideCount values
          attacks := if v = .attack then n.attacks + 1 else n.attacks }) := by
  obtain ⟨v, hv, hlookup⟩ := h.exists_verdict? hsmall hx (schema.admits_pull hlength)
  rw [h.encode_pull, ← hx.codes_eq h.filled] at hlookup
  have hverdictOf : x.verdictTable.verdictOf (x.codes values) = v := by
    rw [InstalledVerdictTable.verdictOf, hlookup, Option.getD_some]
  have hmisses : x.verdictTable.missCount (x.codes values) = 0 := by
    rw [InstalledVerdictTable.missCount, hlookup]
    rfl
  refine ⟨v, hv, fun n => ?_⟩
  rw [Installed.run_eq, hverdictOf, hmisses, h.bandMissCount_eq hx, hx.codes_eq h.filled,
    List.replicate_zero, List.append_nil]
  rfl

/-- A packet of the domains gets the verdict of the tree, without a miss. -/
theorem run_eq (h : c.ComesFrom t schema budget naming) (hsmall : budget.maxBands.toNat ≤ 65536)
    (hx : x.Copies c.program) {values : List UInt32} (hvalues : schema.Admits values) :
    ∃ v, t.verdict? (schema.valueOf values) = some v ∧ ∀ n : Tallies,
      x.run values n = (⟨values, c.program.encode values, v, []⟩,
        { n with
          packets := n.packets + 1
          attacks := if v = .attack then n.attacks + 1 else n.attacks }) := by
  obtain ⟨v, hv, hrun⟩ := h.run_eq_pulled hsmall hx hvalues.length_eq
  rw [hvalues.pull_eq] at hv
  simp only [hvalues.outsideCount_eq_zero] at hrun
  exact ⟨v, hv, hrun⟩

/-- The domains have values, so there is a row, also where codes start over. -/
theorem rows_ne_nil (h : c.ComesFrom t schema budget naming) :
    c.program.verdictTable.table.rows ≠ [] := by
  obtain ⟨r, hr, htaken, -⟩ := h.exists_taken schema.admits_least
  have htakes := (htaken r hr).2 rfl
  obtain ⟨box?, hbox⟩ := h.places.boxes r hr
  cases box? with
  | none => exact absurd htakes (Route.not_takes_of_box hbox _)
  | some box =>
    have hcontains := CodeBox.contains_least (Route.first_le_last_of_box h.ascending hbox)
    obtain ⟨k, hk⟩ := List.mem_iff_getElem?.1 hr
    have hrow : (⟨box.least, r.verdict, k⟩ : Row) ∈ c.rows :=
      (h.places.mem_rows _).2 ⟨r, box, hk, hbox, rfl, hcontains⟩
    exact List.ne_nil_of_mem hrow

end Compilation.ComesFrom

/-! ## Main results -/

/-- **A frame gets the verdict of the tree on the values that are read from it, and no stage
misses.** The schema has to pass the check. The text of the program may be loaded under any naming,
and other packets may have been counted before. -/
theorem Pipeline.classifyFrame_eq_verdict {t : Tree} {schema : Schema} {budget : Budget}
    {naming loading : Naming} {c : Compilation} {p : Pipeline} {frame : List UInt8}
    {headers : Headers} (hclean : schema.check = []) (hsmall : budget.maxBands.toNat ≤ 65536)
    (h : t.compile schema budget naming = .ok c)
    (hload : Installed.ofText loading c.program.text = .ok p.tables)
    (hframe : Headers.ofFrame? frame = some headers) (counters : FlowCounters) :
    ∃ x values v passage p',
      Extractor.ofSchema schema = .ok x ∧ x.valuesOf frame counters = .ok values ∧
      t.verdict? (schema.valueOf values) = some v ∧
      p.classifyFrame x frame counters = (.ok v, p') ∧
      p.process values = (.ok passage, p') ∧ passage.misses = [] ∧
      p'.tables = p.tables ∧ p'.tallies.bandMisses = p.tallies.bandMisses ∧
      p'.tallies.verdictMisses = p.tallies.verdictMisses := by
  have hc := Tree.compile_ok_iff.1 h
  obtain ⟨x, hx, hadmits⟩ := Schema.exists_extractor hclean
  have hvalues := hadmits headers counters
  have hread : x.valuesOf frame counters = .ok (x.values headers counters) := by
    rw [Extractor.valuesOf, hframe]
  have hcopies := Installed.copies_of_ofText hc.filled hc.rows_ne_nil hload
  obtain ⟨v, hv, hrun⟩ := hc.run_eq hsmall hcopies hvalues
  have hwidth : (x.values headers counters).length = p.tables.width := by
    rw [hcopies.width_eq, hvalues.length_eq, hc.tables_tile.length_eq]
  have hprocess := hrun p.tallies
  generalize x.values headers counters = values at hread hv hwidth hprocess
  refine ⟨x, values, v, ⟨values, c.program.encode values, v, []⟩,
    ⟨p.tables, (p.tables.run values p.tallies).2⟩, hx, hread, hv, ?_, ?_, rfl, rfl, ?_, ?_⟩
  · simp only [Pipeline.classifyFrame, hread, Pipeline.classify, Pipeline.process, hwidth,
      ne_eq, not_true_eq_false, if_false, hprocess]
    rfl
  · simp only [Pipeline.process, hwidth, ne_eq, not_true_eq_false, if_false, hprocess]
  · rw [hprocess]
  · rw [hprocess]

/-- The features of the sample tree as slices of packet fields. -/
def Schema.sliced : Schema where
  features := [⟨9, "ttl", 6, 0, 63, some ⟨.ipTtl, 2, 6⟩⟩,
    ⟨4, "proto", 8, 0, 255, some (.whole .ipProtocol)⟩]
  sound := by decide
  distinct := by decide

/-- An Ethernet frame with a TCP segment from port 443 to port 8080. -/
def Headers.sampleFrame : List UInt8 :=
  [2, 0, 0, 0, 0, 1, 2, 0, 0, 0, 0, 2, 8, 0] ++
    [0x45, 0, 0, 40, 0, 0, 0, 0, 124, 6, 0, 0, 10, 0, 0, 1, 10, 0, 0, 2] ++ [1, 187, 31, 144]

theorem Pipeline.sample_classifyFrame_eq_verdict :
    ∃ c tables x values v passage p',
      Tree.sample.compile .sliced .default .default = .ok c ∧
      Installed.ofText .default c.program.text = .ok tables ∧
      Extractor.ofSchema .sliced = .ok x ∧
      Tree.sample.verdict? (Schema.sliced.valueOf values) = some v ∧
      (Pipeline.new tables).classifyFrame x Headers.sampleFrame .zero = (.ok v, p') ∧
      (Pipeline.new tables).process values = (.ok passage, p') ∧ passage.misses = [] := by
  obtain ⟨c, hc⟩ : ∃ c, Tree.sample.compile .sliced .default .default = .ok c :=
    exists_ok_of_toBool (by decide +kernel)
  have hload := (Tree.compile_ok_iff.1 hc).ofText_text Naming.blankFree_default (by decide)
    (by decide) (by decide)
  have hframe : Headers.ofFrame? Headers.sampleFrame = some ⟨124, 40, 6, 443, 8080⟩ := by decide
  obtain ⟨x, values, v, passage, p', hx, -, hv, hclassify, hprocess, hmisses, -⟩ :=
    Pipeline.classifyFrame_eq_verdict (by decide) (by decide) hc (p := Pipeline.new _) hload hframe
      .zero
  exact ⟨c, _, x, values, v, passage, p', hc, hload, hx, hv, hclassify, hprocess, hmisses⟩

/-- **Text that loads at all loads as the program it was written from.** The names of both namings
are free: a text whose names are cut or mistaken for others is refused. There is a stage for each
feature, and every packet, also one outside the domains, gets the codes and the verdict of the
program. -/
theorem Pipeline.process_eq_classify {t : Tree} {schema : Schema} {budget : Budget}
    {naming loading : Naming} {c : Compilation} {p : Pipeline}
    (h : t.compile schema budget naming = .ok c)
    (hload : Installed.ofText loading c.program.text = .ok p.tables) :
    p.tables.bandTables.length = schema.size ∧
      ∀ values : List UInt32, values.length = schema.size → ∃ passage p',
        p.process values = (.ok passage, p') ∧ passage.codes = c.program.encode values ∧
        passage.verdict = c.program.classify values := by
  have hc := Tree.compile_ok_iff.1 h
  have hcopies := Installed.copies_of_ofText hc.filled hc.rows_ne_nil hload
  have hwidth : p.tables.width = schema.size := by
    rw [hcopies.width_eq, hc.tables_tile.length_eq.symm, Schema.size]
  have hcodes := hcopies.codes_eq hc.filled
  refine ⟨hwidth, fun values hvalues => ?_⟩
  have hprocess : p.process values =
      (.ok (p.tables.run values p.tallies).1, ⟨p.tables, (p.tables.run values p.tallies).2⟩) := by
    rw [process, if_neg (not_not.2 (hvalues.trans hwidth.symm))]
  refine ⟨_, _, hprocess, ?_, ?_⟩
  · rw [Installed.run_eq]
    exact hcodes values
  · rw [Installed.run_eq]
    calc p.tables.verdictTable.verdictOf (p.tables.codes values)
        = p.tables.verdictTable.verdictOf (c.program.encode values) := by rw [hcodes]
      _ = c.program.verdictTable.apply (c.program.encode values) := hcopies.verdictOf_eq _

/-- Names that look like something else: the tables and actions of the features are mere numbers,
and those of the verdict an arrow and the start of a comment. -/
def Naming.loose : Naming := ⟨"", "", "=>", "#"⟩

theorem Pipeline.loose_process_eq_classify :
    ∃ c tables passage p', Tree.sample.compile .sample .default .loose = .ok c ∧
      Installed.ofText .loose c.program.text = .ok tables ∧
      (Pipeline.new tables).process [4294967295, 300] = (.ok passage, p') ∧
      passage.codes = c.program.encode [4294967295, 300] ∧
      passage.verdict = c.program.classify [4294967295, 300] := by
  obtain ⟨c, hc⟩ : ∃ c, Tree.sample.compile .sample .default .loose = .ok c :=
    exists_ok_of_toBool (by decide +kernel)
  have hblank : Naming.loose.BlankFree := ⟨by decide, by decide, by decide, by decide⟩
  have hload := (Tree.compile_ok_iff.1 hc).ofText_text hblank (by decide) (by decide) (by decide)
  obtain ⟨-, hprocess⟩ := Pipeline.process_eq_classify hc (p := Pipeline.new _) hload
  obtain ⟨passage, p', h⟩ := hprocess [4294967295, 300] rfl
  exact ⟨c, _, passage, p', hc, hload, h⟩

/-- **A packet misses one band for each value outside its domain, and never a row.** Its codes and
its verdict are those of the packet with these values replaced by the least ones of their domains,
which misses nothing and gets the verdict of the tree. -/
theorem Pipeline.process_eq_pulled {t : Tree} {schema : Schema} {budget : Budget}
    {naming loading : Naming} {c : Compilation} {p : Pipeline}
    (hsmall : budget.maxBands.toNat ≤ 65536) (h : t.compile schema budget naming = .ok c)
    (hload : Installed.ofText loading c.program.text = .ok p.tables) {values : List UInt32}
    (hlength : values.length = schema.size) :
    ∃ passage p' pulled q',
      p.process values = (.ok passage, p') ∧ p.process (schema.pull values) = (.ok pulled, q') ∧
      passage.misses = List.replicate (schema.outsideCount values) .band ∧
      p'.tallies.bandMisses = p.tallies.bandMisses + schema.outsideCount values ∧
      p'.tallies.verdictMisses = p.tallies.verdictMisses ∧
      passage.codes = pulled.codes ∧ passage.verdict = pulled.verdict ∧ pulled.misses = [] ∧
      t.verdict? (schema.valueOf (schema.pull values)) = some passage.verdict := by
  have hc := Tree.compile_ok_iff.1 h
  have hcopies := Installed.copies_of_ofText hc.filled hc.rows_ne_nil hload
  have hadmits := schema.admits_pull hlength
  have hwidth : p.tables.width = schema.size := by
    rw [hcopies.width_eq, hc.tables_tile.length_eq.symm, Schema.size]
  have hprocess : ∀ vs : List UInt32, vs.length = schema.size → p.process vs =
      (.ok (p.tables.run vs p.tallies).1, ⟨p.tables, (p.tables.run vs p.tallies).2⟩) := by
    intro vs hvs
    rw [process, if_neg (not_not.2 (hvs.trans hwidth.symm))]
  obtain ⟨v, hv, hrun⟩ := hc.run_eq_pulled hsmall hcopies hlength
  obtain ⟨w, hw, hpulled⟩ := hc.run_eq hsmall hcopies hadmits
  rw [hv, Option.some.injEq] at hw
  refine ⟨_, _, _, _, hprocess values hlength, hprocess _ hadmits.length_eq, ?_⟩
  rw [hrun, hpulled]
  exact ⟨rfl, rfl, rfl, (hc.encode_pull values).symm, hw, rfl, hv⟩

/-- Both values lie outside their domains. -/
theorem Pipeline.sample_process_eq_pulled :
    ∃ c tables passage p' pulled q',
      Tree.sample.compile .sample .default .default = .ok c ∧
      Installed.ofText .default c.program.text = .ok tables ∧
      (Pipeline.new tables).process [4294967295, 300] = (.ok passage, p') ∧
      (Pipeline.new tables).process [5, 0] = (.ok pulled, q') ∧
      passage.misses = [.band, .band] ∧ p'.tallies.bandMisses = 2 ∧
      p'.tallies.verdictMisses = 0 ∧ passage.codes = pulled.codes ∧
      passage.verdict = pulled.verdict := by
  obtain ⟨c, hc⟩ := Tree.exists_compile_sample
  have hload := (Tree.compile_ok_iff.1 hc).ofText_text Naming.blankFree_default (by decide)
    (by decide) (by decide)
  have hlength : ([4294967295, 300] : List UInt32).length = Schema.sample.size := rfl
  obtain ⟨passage, p', pulled, q', hp, hq, hmisses, hband, hverdict, hcodes, heq, -⟩ :=
    Pipeline.process_eq_pulled (by decide) hc (p := Pipeline.new _) hload hlength
  exact ⟨c, _, passage, p', pulled, q', hc, hload, hp, hq, hmisses, hband, hverdict, hcodes, heq⟩

end MatchTree
