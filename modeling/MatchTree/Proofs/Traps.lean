import MatchTree.Grid.Table
import MatchTree.Proofs.Outcome

/-!
# Operations without a result

* `Trap` — what is wrong with an operation that has no result.
* `Guarded` — a computation that ends with a value, with a fault, or in a trap.
* `Guarded.item`, `Guarded.update` — an item is looked up, or replaced, at a position that has to
  exist.
* `Guarded.difference`, `Guarded.wordAfter`, `Guarded.codeAfter`, `Guarded.word` — a difference that
  may not be negative, successors that have to fit their widths, and a cast that may lose nothing.

Principal results: `bind_mapError`, `mapM_mapError` — a guarded computation whose steps do what
unguarded ones do gives what these give, and so it never ends in a trap.
-/

namespace MatchTree

/-- What is wrong with an operation that has no result. -/
inductive Trap where
  | lossyCast
  | overflow
  | underflow
  | outOfBounds
  /-- A loop is not over in time. -/
  | endless
  deriving DecidableEq

/-- How a guarded computation ends without a value. -/
inductive Halt where
  | trap (t : Trap)
  | fault (f : Fault)

/-- A computation that ends with a value, with a fault, or in a trap. -/
abbrev Guarded := Except Halt

namespace Guarded

variable {α β : Type}

/-! ## Single operations -/

/-- The item at a position. -/
def item (xs : List α) (i : Nat) : Guarded α :=
  match xs[i]? with
  | some a => .ok a
  | none => .error (.trap .outOfBounds)

/-- The items after the one at a position is replaced. -/
def update (xs : List α) (i : Nat) (f : α → α) : Guarded (List α) :=
  if i < xs.length then .ok (xs.modify i f) else .error (.trap .outOfBounds)

/-- The difference of two numbers. -/
def difference (a b : Nat) : Guarded Nat :=
  if b ≤ a then .ok (a - b) else .error (.trap .underflow)

/-- The next number of 32 bits. -/
def wordAfter (v : UInt32) : Guarded UInt32 :=
  if v.toNat + 1 < UInt32.size then .ok (v + 1) else .error (.trap .overflow)

/-- The next number of 16 bits. -/
def codeAfter (c : Code) : Guarded Code :=
  if c.toNat + 1 < UInt16.size then .ok (c + 1) else .error (.trap .overflow)

/-- An integer as a number of 32 bits. -/
def word (i : Int64) : Guarded UInt32 :=
  if 0 ≤ i.toInt ∧ i.toInt < UInt32.size then .ok (UInt32.ofNat i.toInt.toNat)
  else .error (.trap .lossyCast)

theorem item_eq_ok {xs : List α} {i : Nat} {a : α} (h : xs[i]? = some a) : item xs i = .ok a := by
  rw [item, h]

theorem update_eq_ok {xs : List α} {i : Nat} (h : i < xs.length) (f : α → α) :
    update xs i f = .ok (xs.modify i f) :=
  if_pos h

theorem item_append (before : List α) (a : α) (after : List α) :
    item (before ++ a :: after) before.length = .ok a :=
  item_eq_ok (by simp)

theorem update_append (before : List α) (a : α) (after : List α) (f : α → α) :
    update (before ++ a :: after) before.length f = .ok (before ++ f a :: after) := by
  have hmodify : (before ++ a :: after).modify before.length f = before ++ f a :: after := by
    induction before with
    | nil => rfl
    | cons b before ih => simp [ih]
  rw [update_eq_ok (by simp), hmodify]

theorem difference_eq_ok {a b : Nat} (h : b ≤ a) : difference a b = .ok (a - b) :=
  if_pos h

theorem wordAfter_eq_ok {v w : UInt32} (h : v < w) : wordAfter v = .ok (v + 1) := by
  have hw := w.toNat_lt
  rw [UInt32.lt_iff_toNat_lt] at h
  have hfits : v.toNat + 1 < UInt32.size := by
    show v.toNat + 1 < 2 ^ 32
    omega
  exact if_pos hfits

theorem codeAfter_eq_ok {c d : Code} (h : c < d) : codeAfter c = .ok (c + 1) := by
  have hd := d.toNat_lt
  rw [UInt16.lt_iff_toNat_lt] at h
  have hfits : c.toNat + 1 < UInt16.size := by
    show c.toNat + 1 < 2 ^ 16
    omega
  exact if_pos hfits

theorem word_eq_ok {i : Int64} (hlow : 0 ≤ i.toInt) (hhigh : i.toInt < UInt32.size) :
    word i = .ok (UInt32.ofNat i.toInt.toNat) :=
  if_pos ⟨hlow, hhigh⟩

/-! ## Operations one after another -/

/-- **Steps that do what unguarded ones do may be taken one after the other.** -/
theorem bind_mapError {x : Except Fault α} {x' : Guarded α} {f : α → Except Fault β}
    {f' : α → Guarded β} (hx : x' = x.mapError .fault)
    (hf : ∀ a, x = .ok a → f' a = (f a).mapError .fault) :
    (x' >>= f') = (x >>= f).mapError .fault := by
  subst hx
  cases x with
  | error fault => rfl
  | ok a => exact hf a rfl

theorem mapM_mapError {f : α → Except Fault β} {f' : α → Guarded β} {xs : List α}
    (h : ∀ a ∈ xs, f' a = (f a).mapError .fault) :
    xs.mapM f' = (xs.mapM f).mapError .fault := by
  induction xs with
  | nil => rfl
  | cons a as ih =>
    obtain ⟨ha, has⟩ := List.forall_mem_cons.1 h
    rw [List.mapM_cons, List.mapM_cons]
    exact bind_mapError ha fun b _ => bind_mapError (ih has) fun bs _ => rfl

theorem mapM_eq_ok_map {f : α → Guarded β} {g : α → β} {xs : List α}
    (h : ∀ a ∈ xs, f a = .ok (g a)) : xs.mapM f = .ok (xs.map g) := by
  rw [mapM_eq_ok, List.forall₂_map_right_iff, List.forall₂_same]
  exact h

/-- What does as an unguarded computation does never ends in a trap. -/
theorem ne_trap {x : Except Fault α} {x' : Guarded α} (h : x' = x.mapError .fault) (t : Trap) :
    x' ≠ .error (.trap t) := by
  subst h
  cases x with
  | error fault =>
    intro heq
    cases heq
  | ok a =>
    intro heq
    cases heq

end Guarded

end MatchTree
