import MatchTree.Packet.Extractor
import MatchTree.Switch.Install

/-!
# Running packets through installed tables

* `Tallies` — what has been counted: packets, misses by kind, attacks.
* `Passage` — a packet on its way: codes so far, verdict, misses.
* `Installed.run` — one stage per band table, then the verdict stage. A stage that finds no entry
  takes its table's default, notes the miss and counts it.
* `Pipeline` — tables with their tallies.
-/

namespace MatchTree

/-- A stage that found no entry. -/
inductive Miss where
  | band
  | verdict
  deriving DecidableEq, Inhabited

def Miss.name : Miss → String
  | band => "range"
  | verdict => "classify"

/-- What has been counted. -/
structure Tallies where
  packets : Nat
  bandMisses : Nat
  verdictMisses : Nat
  attacks : Nat
  deriving DecidableEq, Inhabited

namespace Tallies

def zero : Tallies := ⟨0, 0, 0, 0⟩

/-- The share of packets with the verdict attack; zero before the first packet. -/
def attackRatio (t : Tallies) : Binary64 :=
  if t.packets = 0 then Binary64.ofNat 0
  else (Binary64.ofNat t.attacks).div (Binary64.ofNat t.packets)

end Tallies

/-- A packet on its way through the stages. -/
structure Passage where
  values : List UInt32
  codes : List Code
  verdict : Verdict
  misses : List Miss
  deriving DecidableEq, Inhabited

/-- The stage of a band table: the code of a value. -/
def InstalledBandTable.run (t : InstalledBandTable) (v : UInt32) (s : Passage × Tallies) :
    Passage × Tallies :=
  let (p, n) := s
  match t.match? v with
  | some b => ({ p with codes := p.codes ++ [b.code] }, n)
  | none =>
    ({ p with codes := p.codes ++ [t.defaultCode], misses := p.misses ++ [.band] },
      { n with bandMisses := n.bandMisses + 1 })

/-- The stage of the verdict table: the verdict of the codes. -/
def InstalledVerdictTable.run (t : InstalledVerdictTable) (s : Passage × Tallies) :
    Passage × Tallies :=
  let (p, n) := s
  match t.verdict? p.codes with
  | some v => ({ p with verdict := v }, n)
  | none =>
    ({ p with verdict := t.defaultVerdict, misses := p.misses ++ [.verdict] },
      { n with verdictMisses := n.verdictMisses + 1 })

namespace Installed

/-- How many values a packet needs. -/
def width (p : Installed) : Nat := p.bandTables.length

/-- The names of the stages. -/
def stageNames (p : Installed) : List String :=
  p.bandTables.map (·.name) ++ [p.verdictTable.name]

/-- All stages on a packet that has one value for each band table. -/
def run (p : Installed) (values : List UInt32) (n : Tallies) : Passage × Tallies :=
  let start : Passage × Tallies :=
    (⟨values, [], .normal, []⟩, { n with packets := n.packets + 1 })
  let coded := (p.bandTables.zip values).foldl (fun s (t, v) => t.run v s) start
  let (passage, n) := p.verdictTable.run coded
  if passage.verdict = .attack then (passage, { n with attacks := n.attacks + 1 })
  else (passage, n)

end Installed

/-- Installed tables with their tallies. -/
structure Pipeline where
  tables : Installed
  tallies : Tallies
  deriving Inhabited

namespace Pipeline

/-- Tables that have seen no packet. -/
def new (tables : Installed) : Pipeline := ⟨tables, .zero⟩

/-- Runs a packet. With a wrong number of values nothing is counted. -/
def process (p : Pipeline) (values : List UInt32) : Except SwitchFault Passage × Pipeline :=
  if values.length ≠ p.tables.width then
    (.error (.arity p.tables.width values.length), p)
  else
    let (passage, tallies) := p.tables.run values p.tallies
    (.ok passage, { p with tallies := tallies })

/-- The verdict on a packet. -/
def classify (p : Pipeline) (values : List UInt32) : Except SwitchFault Verdict × Pipeline :=
  let (result, p) := p.process values
  (result.map (·.verdict), p)

/-- The verdict on a frame. -/
def classifyFrame (p : Pipeline) (x : Extractor) (frame : List UInt8) (counters : FlowCounters) :
    Except SwitchFault Verdict × Pipeline :=
  match x.valuesOf frame counters with
  | .ok values => p.classify values
  | .error fault => (.error fault, p)

end Pipeline

end MatchTree
