import MatchTree.Proofs.JsonText
import MatchTree.Tree.Artifact

/-!
# Trees as texts, and back

Any arena has a text, whether or not it is a tree: no nodes at all, ids that name nothing, and all
thresholds that 64 bits hold.

Principal results: `Node.ofDatum?_toDatum`, `Tree.ofDatum?_toDatum` — nodes and trees are decoded
from what they are encoded as; `Tree.writable_toDatum` — the encoding of a tree can be written;
`Tree.ofJson_toJson` — the text of a tree is read as that tree, and not as one in parallel arrays.
-/

namespace MatchTree

/-! ## Numbers and lists -/

namespace Datum

theorem uint32?_toNat (n : UInt32) : uint32? (.int n.toNat) = some n := by
  have hlt : (n.toNat : Int) < (UInt32.size : Nat) := Int.ofNat_lt.2 n.toNat_lt
  rw [uint32?, natBelow?, if_pos ⟨Int.natCast_nonneg _, hlt⟩, Option.map_some, Int.toNat_natCast,
    UInt32.ofNat_toNat]

theorem int64?_toInt (i : Int64) : int64? (.int i.toInt) = some i := by
  rw [int64?, if_pos ⟨i.minValue_le_toInt, i.toInt_le⟩, Int64.ofInt_toInt]

theorem listOf?_map {α : Type} {f : Datum → Option α} {g : α → Datum} (h : ∀ a, f (g a) = some a)
    (as : List α) : listOf? f (.list (as.map g)) = some as := by
  show (as.map g).mapM f = some as
  induction as with
  | nil => rfl
  | cons a as ih =>
    rw [List.map_cons, List.mapM_cons, h, ih]
    rfl

end Datum

/-! ## Nodes and trees -/

theorem Verdict.ofDatum?_toDatum (v : Verdict) : ofDatum? v.toDatum = some v :=
  ofName?_name v

/-- The fields of a split are decoded one by one. -/
theorem Node.ofDatum?_split (f i l r : Datum) :
    ofDatum? (.record [("kind", .text "split"), ("feature", f), ("threshold", i), ("left", l),
      ("right", r)]) =
      (Datum.uint32? f).bind fun feature => (Datum.int64? i).bind fun threshold =>
        (Datum.uint32? l).bind fun left => (Datum.uint32? r).bind fun right =>
          some (split feature threshold left right) :=
  rfl

theorem Node.ofDatum?_leaf (v : Datum) :
    ofDatum? (.record [("kind", .text "leaf"), ("class", v)]) =
      (Verdict.ofDatum? v).bind fun verdict => some (leaf verdict) :=
  rfl

/-- **A node is decoded from what it is encoded as.** -/
theorem Node.ofDatum?_toDatum (n : Node) : ofDatum? n.toDatum = some n := by
  cases n with
  | split feature threshold left right =>
    rw [toDatum, ofDatum?_split, Datum.uint32?_toNat, Datum.int64?_toInt, Datum.uint32?_toNat,
      Datum.uint32?_toNat]
    rfl
  | leaf v =>
    rw [toDatum, ofDatum?_leaf, Verdict.ofDatum?_toDatum]
    rfl

theorem Tree.ofDatum?_nodes (nodes : Datum) :
    ofDatum? (.record [("nodes", nodes)]) =
      (Datum.listOf? Node.ofDatum? nodes).bind fun ns => some ⟨ns.toArray⟩ :=
  rfl

/-- **A tree is decoded from what it is encoded as.** -/
theorem Tree.ofDatum?_toDatum (t : Tree) : ofDatum? t.toDatum = some t := by
  rw [toDatum, ofDatum?_nodes, Datum.listOf?_map Node.ofDatum?_toDatum]
  rfl

/-! ## Texts -/

open Json

theorem Datum.writable_uint32 {depth : Nat} (n : UInt32) : Writable depth (.int n.toNat) := by
  have hlt := n.toNat_lt
  have hmin : Int64.minValue.toInt ≤ 0 := by decide
  have hsize : UInt64.size = 18446744073709551616 := rfl
  exact .int (by omega) (by omega)

theorem Datum.writable_int64 {depth : Nat} (i : Int64) : Writable depth (.int i.toInt) := by
  have hhigh := i.toInt_lt
  have hsize : UInt64.size = 18446744073709551616 := rfl
  exact .int i.minValue_le_toInt (by omega)

theorem Node.writable_toDatum {depth : Nat} (n : Node) : Writable (depth + 1) n.toDatum := by
  cases n with
  | split feature threshold left right =>
    refine .record ?_
    simp only [List.forall_mem_cons, List.not_mem_nil, false_implies, implies_true, and_true]
    exact ⟨.text _, Datum.writable_uint32 feature, Datum.writable_int64 threshold,
      Datum.writable_uint32 left, Datum.writable_uint32 right⟩
  | leaf v =>
    refine .record ?_
    simp only [List.forall_mem_cons, List.not_mem_nil, false_implies, implies_true, and_true]
    exact ⟨.text _, .text _⟩

/-- A tree is an object with an array of objects. -/
theorem Tree.writable_toDatum {depth : Nat} (t : Tree) : Writable (depth + 3) t.toDatum := by
  refine .record ?_
  rw [List.forall_mem_singleton]
  refine .list ?_
  rw [List.forall_mem_map]
  exact fun n _ => n.writable_toDatum

/-- **The text of a tree is read as that tree**, whether or not it is well-formed. -/
theorem Tree.ofJson_toJson (t : Tree) : ofJson t.toJson = .ok t := by
  have hwritable : Writable depthLimit t.toDatum := writable_toDatum t
  have hread := value?_compact hwritable endsNumeral_nil
  rw [List.append_nil] at hread
  have hblank : skipBlanks t.toJson.toList = compact t.toDatum := by
    rw [toJson, compactText, String.toList_ofList]
    exact skipBlanks_cons (by decide) _
  unfold ofJson
  rw [hblank, hread]
  dsimp only
  rw [ofEitherForm?, ofDatum?_toDatum]
  rfl

end MatchTree
