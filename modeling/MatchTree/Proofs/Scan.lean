import MatchTree.Proofs.Passage

/-!
# Halving and scanning

* `InstalledBand.band` — an installed band without its priority.

A band table that is laid out finds a value by halving, which needs its bands in order. An installed
one goes through all of its bands, in the order in which they came, and takes the match with the
smallest priority.

Principal results: `Ascending.of_isChain` — bands are ascending if each lies above the one before
it; `band_match?` — of ascending bands, whatever their order and priorities, the scan finds the one
that halving finds; `apply_eq_codeOf` — so both give a value the same code, that of the only band
that holds it or the default.
-/

namespace MatchTree

/-- Bands with ordered ends are ascending if each of them lies above the one before it. -/
theorem Ascending.of_isChain {bands : Array Band} (hordered : ∀ b ∈ bands, b.lower ≤ b.upper)
    (hnext : bands.toList.IsChain fun b c => b.upper < c.lower) : Ascending bands := by
  have hordered : ∀ b ∈ bands.toList, b.lower.toNat ≤ b.upper.toNat :=
    fun b hb => UInt32.le_iff_toNat_le.1 (hordered b (Array.mem_toList_iff.1 hb))
  refine ⟨fun b hb => hordered b (Array.mem_toList_iff.2 hb), ?_⟩
  generalize bands.toList = bs at hordered hnext
  induction bs with
  | nil => exact List.Pairwise.nil
  | cons b bs ih =>
    cases bs with
    | nil => exact List.pairwise_singleton _ _
    | cons c bs =>
      obtain ⟨hlt, hnext⟩ := List.isChain_cons_cons.1 hnext
      obtain ⟨-, hrest⟩ := List.forall_mem_cons.1 hordered
      have hpairwise := ih hrest hnext
      refine List.pairwise_cons.2 ⟨fun d hd => ?_, hpairwise⟩
      have hbc := UInt32.lt_iff_toNat_lt.1 hlt
      rcases List.mem_cons.1 hd with rfl | hd
      · exact hbc
      · have hcd := (List.pairwise_cons.1 hpairwise).1 d hd
        have hc := hrest c List.mem_cons_self
        omega

/-- Without its priority. -/
def InstalledBand.band (b : InstalledBand) : Band := ⟨b.lower, b.upper, b.code⟩

namespace InstalledBandTable

variable {u : InstalledBandTable} {bands : Array Band}

/-- **The scan finds the band that halving finds.** Neither the order of the installed bands nor
their priorities matter, since no two of them hold the same value. -/
theorem band_match? (h : Ascending bands)
    (hentries : (u.entries.map InstalledBand.band).Perm bands.toList) (v : UInt32) :
    (u.match? v).map InstalledBand.band = bandAt? bands v := by
  have hheld : ((u.entries.filter fun e => e.contains v).map InstalledBand.band).Perm
      (bandAt? bands v).toList := by
    have hfilter := hentries.filter fun b => b.contains v
    rwa [List.filter_map, h.filter_contains] at hfilter
  unfold match?
  cases hband : bandAt? bands v with
  | none =>
    rw [hband] at hheld
    rw [List.map_eq_nil_iff.1 hheld.eq_nil]
    rfl
  | some b =>
    rw [hband, Option.toList_some, List.perm_singleton] at hheld
    obtain ⟨e, he, heq⟩ := List.map_eq_singleton_iff.1 hheld
    rw [he]
    exact congrArg some heq

end InstalledBandTable

/-! ## Main result -/

/-- **Halving and scanning give the same code.** Let the bands of a table lie one above the other,
with or without gaps, and let a table with the same default be installed with these bands, in any
order and with any priorities. Then both give a value the same code. It is that of the band which
holds the value, and there is only one, or the default if no band does. -/
theorem BandTable.apply_eq_codeOf {t : BandTable} {u : InstalledBandTable}
    (hordered : ∀ b ∈ t.bands, b.lower ≤ b.upper)
    (hnext : t.bands.toList.IsChain fun b c => b.upper < c.lower)
    (hentries : (u.entries.map InstalledBand.band).Perm t.bands.toList)
    (hdefault : u.defaultCode = t.defaultCode) (v : UInt32) :
    t.apply v = u.codeOf v ∧
      (∀ b ∈ t.bands, b.contains v = true →
        t.apply v = b.code ∧ ∀ c ∈ t.bands, c.contains v = true → c = b) ∧
      ((∀ b ∈ t.bands, b.contains v = false) → t.apply v = t.defaultCode) := by
  have hascending := Ascending.of_isChain hordered hnext
  refine ⟨?_, fun b hb hv => ?_, fun hnone => ?_⟩
  · rw [BandTable.apply, ← InstalledBandTable.band_match? hascending hentries,
      InstalledBandTable.codeOf, hdefault, Option.map_map]
    rfl
  · have hband := hascending.bandAt?_eq_some_iff.2 ⟨hb, hv⟩
    refine ⟨by rw [BandTable.apply, hband]; rfl, fun c hc hcv => ?_⟩
    rw [hascending.bandAt?_eq_some_iff.2 ⟨hc, hcv⟩, Option.some.injEq] at hband
    exact hband
  · have hband : bandAt? t.bands v = none := by
      refine Option.eq_none_iff_forall_ne_some.2 fun b heq => ?_
      obtain ⟨hb, hv⟩ := hascending.bandAt?_eq_some_iff.1 heq
      rw [hnone b hb] at hv
      cases hv
    rw [BandTable.apply, hband]
    rfl

/-- Bands with a gap, and two that have the same code. -/
def BandTable.gapped : BandTable :=
  ⟨"ml_feature_0", "set_code_0", 0, "", 32, #[⟨10, 20, 7⟩, ⟨30, 30, 65535⟩, ⟨31, 4294967295, 7⟩], 3⟩

/-- The same bands in another order, two of them with the same priority. -/
def InstalledBandTable.gapped : InstalledBandTable :=
  ⟨"ml_feature_0", "set_code_0", 3, [⟨31, 4294967295, 7, 1⟩, ⟨10, 20, 7, 0⟩, ⟨30, 30, 65535, 1⟩]⟩

theorem BandTable.gapped_apply_eq_codeOf :
    gapped.apply 30 = 65535 ∧ InstalledBandTable.gapped.codeOf 30 = 65535 ∧
      gapped.apply 25 = 3 ∧ InstalledBandTable.gapped.codeOf 25 = 3 := by
  have hcodes := @apply_eq_codeOf gapped .gapped (by decide) (by decide) (by decide) rfl
  obtain ⟨hsame, hheld, -⟩ := hcodes 30
  obtain ⟨hsame', -, hdefault⟩ := hcodes 25
  have hthirty := (hheld ⟨30, 30, 65535⟩ (by simp [gapped]) (by decide)).1
  have hgap := hdefault (by decide)
  exact ⟨hthirty, hsame ▸ hthirty, hgap, hsame' ▸ hgap⟩

end MatchTree
