import MatchTree.Fault
import MatchTree.Feature.Slice

/-!
# Features and schemas

* `Feature` — an integer-valued input of a tree: its domain, the width of its match key and,
  optionally, the slice that yields it.
* `Schema` — features without flaws and with distinct ids, in the order in which their tables and
  codes stand.
* `Schema.ofFeatures` — the only way in: the first flaw, feature by feature, is reported.
-/

namespace MatchTree

abbrev FeatureId := UInt32

/-- A feature with the inclusive domain `least … greatest`. -/
structure Feature where
  id : FeatureId
  name : String
  /-- The width of the match key in bits. -/
  bitWidth : UInt8
  least : UInt32
  greatest : UInt32
  /-- How the value is read from a packet, if declared. -/
  slice? : Option Slice
  deriving DecidableEq, Inhabited

namespace Feature

/-- The feature whose domain is all values of a key. -/
def ofWidth (id : FeatureId) (name : String) (bitWidth : UInt8) : Feature where
  id := id
  name := name
  bitWidth := bitWidth
  least := 0
  greatest := if 32 ≤ bitWidth then 4294967295 else (1 <<< bitWidth.toUInt32) - 1
  slice? := none

/-- The largest value of a key; keys have 32 bits at most. -/
def widthMax (f : Feature) : Nat := 1 <<< min f.bitWidth.toNat 32 - 1

/-- How many values the domain has. -/
def domainSize (f : Feature) : Nat := f.greatest.toNat + 1 - f.least.toNat

/-- Whether a value lies in the domain. -/
def contains (f : Feature) (value : Int64) : Bool :=
  decide ((f.least.toNat : Int) ≤ value.toInt) && decide (value.toInt ≤ f.greatest.toNat)

/-- The name, or one made of the id. -/
def label (f : Feature) : String := if f.name.isEmpty then s!"f{f.id.toNat}" else f.name

/-- The first inconsistency of a description. -/
def flaw? (f : Feature) : Option FeatureFlaw :=
  if f.bitWidth = 0 ∨ 32 < f.bitWidth then some (.badWidth f.bitWidth)
  else if f.greatest < f.least then some (.emptyDomain f.least f.greatest)
  else if f.widthMax < f.greatest.toNat then some (.domainTooWide f.greatest f.bitWidth)
  else none

/-- The first flaw of a list of features after those with the ids `seen`. -/
def firstFlaw? (seen : List FeatureId) : List Feature → Option (FeatureId × FeatureFlaw)
  | [] => none
  | f :: fs =>
    match f.flaw? with
    | some flaw => some (f.id, flaw)
    | none => if f.id ∈ seen then some (f.id, .repeated) else firstFlaw? (f.id :: seen) fs

theorem flaw?_of_firstFlaw? {seen : List FeatureId} {fs : List Feature}
    (h : firstFlaw? seen fs = none) : ∀ f ∈ fs, f.flaw? = none := by
  induction fs generalizing seen with
  | nil => simp
  | cons g gs ih =>
    rw [firstFlaw?] at h
    split at h
    · simp at h
    · next hg =>
      split at h
      · simp at h
      · intro f hf
        rcases List.mem_cons.1 hf with rfl | hf
        · exact hg
        · exact ih h f hf

theorem nodup_of_firstFlaw? {seen : List FeatureId} {fs : List Feature}
    (h : firstFlaw? seen fs = none) :
    (fs.map (·.id)).Nodup ∧ ∀ f ∈ fs, f.id ∉ seen := by
  induction fs generalizing seen with
  | nil => simp
  | cons g gs ih =>
    rw [firstFlaw?] at h
    split at h
    · simp at h
    · split at h
      · simp at h
      · next hg =>
        obtain ⟨hnodup, hseen⟩ := ih h
        refine ⟨?_, ?_⟩
        · rw [List.map_cons, List.nodup_cons]
          refine ⟨fun hmem => ?_, hnodup⟩
          obtain ⟨f, hf, hid⟩ := List.mem_map.1 hmem
          exact hseen f hf (by simp [hid])
        · intro f hf
          rcases List.mem_cons.1 hf with rfl | hf
          · exact hg
          · exact fun hmem => hseen f hf (List.mem_cons_of_mem _ hmem)

end Feature

/-- Features without flaws and with distinct ids. -/
structure Schema where
  features : List Feature
  sound : ∀ f ∈ features, f.flaw? = none
  distinct : (features.map (·.id)).Nodup

namespace Schema

/-- The schema of a list of features, or its first flaw. -/
def ofFeatures (fs : List Feature) : Except Fault Schema :=
  match h : Feature.firstFlaw? [] fs with
  | some (id, flaw) => .error (.invalidFeature id flaw)
  | none => .ok ⟨fs, Feature.flaw?_of_firstFlaw? h, (Feature.nodup_of_firstFlaw? h).1⟩

/-- How many features there are. -/
def size (s : Schema) : Nat := s.features.length

/-- The position of a feature. -/
def indexOf? (s : Schema) (id : FeatureId) : Option Nat :=
  s.features.findIdx? fun f => f.id == id

/-- The feature with the given id. -/
def find? (s : Schema) (id : FeatureId) : Option Feature := s.features.find? fun f => f.id == id

/-- The value of a feature in a list of values in the schema's order; zero where there is none. -/
def valueOf (s : Schema) (values : List UInt32) (id : FeatureId) : UInt32 :=
  ((s.indexOf? id).bind fun i => values[i]?).getD 0

end Schema

end MatchTree
