/-!
# Search by halving

`partitionPoint p xs` — the number of leading items that satisfy `p`, for an array in which no item
satisfies `p` after one that does not.
-/

namespace MatchTree

/-- The first index in `low … high` whose item fails `p`, or `high`; everything before `low`
satisfies `p` and nothing from `high` on does. -/
def bisect (p : α → Bool) (xs : Array α) (low high : Nat) (inside : high ≤ xs.size) : Nat :=
  if _h : low < high then
    have _middle : (low + high) / 2 < xs.size := by omega
    if p xs[(low + high) / 2] then bisect p xs ((low + high) / 2 + 1) high inside
    else bisect p xs low ((low + high) / 2) (by omega)
  else low
termination_by high - low

/-- How many leading items satisfy `p`. -/
def partitionPoint (p : α → Bool) (xs : Array α) : Nat := bisect p xs 0 xs.size (Nat.le_refl _)

end MatchTree
