import MatchTree.Command
import MatchTree.Switch.Fault
import MatchTree.Text.Numeral
import MatchTree.Text.Words

/-!
# Installing commands

* `Installed` — the tables that a text of commands sets up: band tables in the order of their
  defaults, and one verdict table.
* `Installation` — the tables so far, while the lines are taken one by one.
* `Installation.setDefault`, `Installation.addEntry` — what the two commands do. The default of a
  table declares it, so it comes before the entries and comes once.
* `Installed.ofText` — all lines of a text; blank lines and those that start with a `#` are skipped.
-/

namespace MatchTree

/-- A band with its priority; the smallest number wins. -/
structure InstalledBand where
  lower : UInt32
  upper : UInt32
  code : Code
  priority : UInt32
  deriving DecidableEq, Inhabited

/-- Whether a value lies in the band. -/
def InstalledBand.contains (b : InstalledBand) (v : UInt32) : Bool :=
  decide (b.lower ≤ v) && decide (v ≤ b.upper)

/-- A band table as installed, its entries in the order of their commands. -/
structure InstalledBandTable where
  name : String
  action : String
  defaultCode : Code
  entries : List InstalledBand
  deriving DecidableEq, Inhabited

/-- The better of two matches: the earlier one, unless the later has the smaller priority. -/
def betterMatch (best : Option InstalledBand) (b : InstalledBand) : Option InstalledBand :=
  match best with
  | none => some b
  | some a => if b.priority < a.priority then some b else some a

/-- The entry that a value matches: of all that contain it, the first with the smallest priority. -/
def InstalledBandTable.match? (t : InstalledBandTable) (v : UInt32) : Option InstalledBand :=
  (t.entries.filter fun b => b.contains v).foldl betterMatch none

/-- A verdict table as installed. -/
structure InstalledVerdictTable where
  name : String
  action : String
  defaultVerdict : Verdict
  entries : List (List Code × Verdict)
  deriving DecidableEq, Inhabited

/-- The verdict of a key. -/
def InstalledVerdictTable.verdict? (t : InstalledVerdictTable) (key : List Code) : Option Verdict :=
  (t.entries.find? fun e => e.1 == key).map (·.2)

/-- The tables of a program as installed. -/
structure Installed where
  bandTables : List InstalledBandTable
  verdictTable : InstalledVerdictTable
  deriving DecidableEq, Inhabited

/-- The number of entries in all tables. -/
def Installed.entryCount (p : Installed) : Nat :=
  (p.bandTables.map (·.entries.length)).foldl (· + ·) 0 + p.verdictTable.entries.length

/-- A numeral of a command, or the fault of its line. -/
def numeral (line : Nat) (operand : Operand) (read? : List Char → Option α) (word : String) :
    Except SwitchFault α :=
  match read? word.toList with
  | some a => .ok a
  | none => .error (.syntaxError line (.badNumeral operand word))

/-- A code of a command. -/
def codeNumeral (line : Nat) (word : String) : Except SwitchFault Code :=
  numeral line .code Text.uint16? word

/-- A verdict of a command. -/
def verdictNumeral (line : Nat) (word : String) : Except SwitchFault Verdict := do
  let value ← numeral line .verdict Text.uint8? word
  match Verdict.ofCode? value with
  | some v => return v
  | none => .error (.syntaxError line (.unknownVerdict value))

/-- The words before and after the first arrow. -/
def splitAtArrow? : List String → Option (List String × List String)
  | [] => none
  | w :: ws =>
    if w = Command.arrow then some ([], ws)
    else (splitAtArrow? ws).map fun (keys, params) => (w :: keys, params)

/-- The characters before and after the first range sign. -/
def splitRange? : List Char → Option (List Char × List Char)
  | [] => none
  | '-' :: '>' :: cs => some ([], cs)
  | c :: cs => (splitRange? cs).map fun (lower, upper) => (c :: lower, upper)

/-- Whether a table's name marks it as one for a feature. -/
def Naming.isBandTable (n : Naming) (table : String) : Bool :=
  n.featureTable.toList.isPrefixOf table.toList

/-- The tables so far. -/
structure Installation where
  bandTables : List InstalledBandTable
  verdictTable? : Option InstalledVerdictTable
  deriving DecidableEq, Inhabited

namespace Installation

def empty : Installation := ⟨[], none⟩

/-- The band table with the given name. -/
def find? (s : Installation) (table : String) : Option InstalledBandTable :=
  s.bandTables.find? fun t => t.name == table

/-- Sets the default of a table, which declares it. -/
def setDefault (n : Naming) (line : Nat) (s : Installation) :
    List String → Except SwitchFault Installation
  | [table, action, param] =>
    if table = n.verdictTable then
      if s.verdictTable?.isSome then .error (.syntaxError line (.defaultTwice table))
      else do
        let v ← verdictNumeral line param
        return { s with verdictTable? := some ⟨table, action, v, []⟩ }
    else if n.isBandTable table then
      if (s.find? table).isSome then .error (.syntaxError line (.defaultTwice table))
      else do
        let code ← codeNumeral line param
        return { s with bandTables := s.bandTables ++ [⟨table, action, code, []⟩] }
    else .error (.unknownTable line table)
  | _ => .error (.syntaxError line .defaultShape)

/-- Adds a row to the verdict table: one code for each band table declared so far, and a key that
is not there yet. -/
def addRow (line : Nat) (s : Installation) (t : InstalledVerdictTable) (action : String)
    (keys params : List String) : Except SwitchFault Installation :=
  if action ≠ t.action then .error (.syntaxError line (.unboundAction action t.name))
  else if keys.length ≠ s.bandTables.length then
    .error (.syntaxError line (.keyCount keys.length s.bandTables.length))
  else
    match params with
    | [param] => do
      let codes ← keys.mapM (codeNumeral line)
      let v ← verdictNumeral line param
      if (t.verdict? codes).isSome then
        .error (.duplicateKey line t.name (String.intercalate " " keys))
      else return { s with verdictTable? := some { t with entries := t.entries ++ [(codes, v)] } }
    | _ => .error (.syntaxError line .verdictShape)

/-- The band of an entry's words. -/
def readBand (line : Nat) (keys params : List String) : Except SwitchFault InstalledBand :=
  match keys, params with
  | [key], [code, priority] =>
    match splitRange? key.toList with
    | none => .error (.syntaxError line (.noRangeSign key))
    | some (lower, upper) => do
      let lower ← numeral line .bound Text.uint32? (String.ofList lower)
      let upper ← numeral line .bound Text.uint32? (String.ofList upper)
      let code ← codeNumeral line code
      let priority ← numeral line .priority Text.uint32? priority
      if upper < lower then .error (.syntaxError line (.emptyRange key))
      else return ⟨lower, upper, code, priority⟩
  | _, _ => .error (.syntaxError line .bandShape)

/-- Adds a band to a band table. -/
def addBand (line : Nat) (s : Installation) (t : InstalledBandTable) (action : String)
    (keys params : List String) : Except SwitchFault Installation :=
  if action ≠ t.action then .error (.syntaxError line (.unboundAction action t.name))
  else do
    let b ← readBand line keys params
    return { s with
      bandTables := s.bandTables.map fun u =>
        if u.name = t.name then { u with entries := u.entries ++ [b] } else u }

/-- Adds an entry to a table that is declared. -/
def addEntry (n : Naming) (line : Nat) (s : Installation) :
    List String → Except SwitchFault Installation
  | table :: action :: rest =>
    match splitAtArrow? rest with
    | none => .error (.syntaxError line .noArrow)
    | some (keys, params) =>
      if table = n.verdictTable then
        match s.verdictTable? with
        | none => .error (.missingDefault line table)
        | some t => s.addRow line t action keys params
      else
        match s.find? table with
        | some t => s.addBand line t action keys params
        | none =>
          if n.isBandTable table then .error (.missingDefault line table)
          else .error (.unknownTable line table)
  | _ => .error (.syntaxError line .entryShape)

/-- Takes the words of a line. -/
def step (n : Naming) (s : Installation) (line : Nat) :
    List String → Except SwitchFault Installation
  | [] => .ok s
  | command :: args =>
    if command.toList.head? = some '#' then .ok s
    else if command = Command.setDefault then s.setDefault n line args
    else if command = Command.addEntry then s.addEntry n line args
    else .error (.syntaxError line (.unknownCommand command))

/-- Takes numbered lines of words one by one. -/
def steps (n : Naming) (s : Installation) (lines : List (List String × Nat)) :
    Except SwitchFault Installation :=
  lines.foldlM (fun s (words, line) => s.step n line words) s

/-- The tables when all lines are taken; the verdict table has to be among them. -/
def finish (n : Naming) (s : Installation) : Except SwitchFault Installed :=
  match s.verdictTable? with
  | some t => .ok ⟨s.bandTables, t⟩
  | none => .error (.missingVerdictTable n.verdictTable)

end Installation

/-- The words of each line of a text, numbered from one. -/
def numberedWords (text : String) : List (List String × Nat) :=
  ((Text.lines text.toList).map fun l => (Text.words l).map String.ofList).zipIdx 1

namespace Installed

/-- The tables that a text sets up. -/
def ofText (n : Naming) (text : String) : Except SwitchFault Installed := do
  (← Installation.empty.steps n (numberedWords text)).finish n

/-- The tables that a file sets up; it has to exist and to hold text. -/
def ofFile (n : Naming) (content : Option ByteArray) : Except SwitchFault Installed :=
  match content.bind String.fromUTF8? with
  | some text => ofText n text
  | none => .error .unreadable

end Installed

end MatchTree
