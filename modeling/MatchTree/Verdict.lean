/-!
# Verdicts

The two outcomes of a classification, their names and the numbers that stand for them in tables.
-/

namespace MatchTree

/-- The outcome of a classification; benign traffic is the default. -/
inductive Verdict where
  | normal
  | attack
  deriving DecidableEq, Inhabited

namespace Verdict

/-- The parameter that a table carries for the verdict. -/
def code : Verdict → UInt8
  | normal => 0
  | attack => 1

/-- The verdict with the given table parameter. -/
def ofCode? (n : UInt8) : Option Verdict :=
  if n = 0 then some normal else if n = 1 then some attack else none

@[simp] theorem ofCode?_code (v : Verdict) : ofCode? v.code = some v := by cases v <;> rfl

def name : Verdict → String
  | normal => "normal"
  | attack => "attack"

/-- The verdict with the given name. -/
def ofName? (s : String) : Option Verdict :=
  if s = "normal" then some normal else if s = "attack" then some attack else none

@[simp] theorem ofName?_name (v : Verdict) : ofName? v.name = some v := by cases v <;> rfl

end Verdict

end MatchTree
