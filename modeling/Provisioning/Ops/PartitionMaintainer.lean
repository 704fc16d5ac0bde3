import Mathlib.Data.List.Dedup
import Provisioning.Lib.Calendar
import Provisioning.Ops.OperationStore

/-!
# The partition maintainer

One pass of `src/ops/PartitionMaintainer.ts`: a transaction that creates the days ahead, drops the
old days whose rows are all terminal, and measures how many days ahead there are.
-/

namespace Provisioning

open Lib

/-! ## Names -/

/-- `to_char(day, 'YYYYMMDD')`. -/
def compactDay (day : Nat) : List Char :=
  let d := Date.ofDays day
  padded 4 d.year ++ (padded 2 d.month ++ padded 2 d.day)

/-- `to_char(day, 'YYYY-MM-DD')`. -/
def isoDay (day : Nat) : String :=
  let d := Date.ofDays day
  String.ofList (padded 4 d.year ++ '-' :: padded 2 d.month ++ '-' :: padded 2 d.day)

def partName (day : Nat) : String := String.ofList ("operations_".toList ++ compactDay day)

/-- `tablename ~ '^operations_[0-9]{8}$'`. -/
def isDayTable (tablename : String) : Bool :=
  let suffix := tablename.toList.drop 11
  tablename.toList.take 11 = "operations_".toList ∧ suffix.length = 8 ∧ suffix.all Char.isDigit

/-- `to_date(substring(tablename FROM 12), 'YYYYMMDD')`. -/
def dayOfTable (tablename : String) : Nat :=
  let suffix := tablename.toList.drop 11
  Date.toDays
    { year := Nat.ofDigitChars 10 (suffix.take 4) 0
      month := Nat.ofDigitChars 10 ((suffix.drop 4).take 2) 0
      day := Nat.ofDigitChars 10 (suffix.drop 6) 0 }

/-- The tables of the schema. -/
def Tables.pgTables (t : Tables) : List String := ["operations", "operations_history"] ++ t.partitions.map partName

/-! ## The statements -/

/-- `generate_series(today, today + n, '1 day')`. -/
def daySeries (today n : Nat) : List Nat := (List.range (n + 1)).map (today + ·)

namespace Tables

def createSeries (today lookaheadDays : Nat) (t : Tables) : Tables :=
  (daySeries today lookaheadDays).foldl (fun t day => t.createPartition day) t

/-- The days that the pass tries to drop. -/
def candidates (today retentionDays : Nat) (t : Tables) : List Nat :=
  (((t.pgTables.filter isDayTable).map dayOfTable).filter (· + retentionDays < today)).dedup.mergeSort

/-- `to_regclass(part_name) IS NOT NULL`, for each day of the probe. -/
def probe (today cap : Nat) (t : Tables) : List Bool :=
  (daySeries today cap).map fun day => partName day ∈ t.pgTables

end Tables

/-! ## The pass -/

structure PartitionMaintainerConfig where
  retentionDays : Nat
  lookaheadDays : Option Nat
  daysAheadProbeCap : Option Nat

namespace PartitionMaintainerConfig

variable (config : PartitionMaintainerConfig)

def lookahead : Nat := config.lookaheadDays.getD 1

def probeCap : Nat := config.daysAheadProbeCap.getD 30

end PartitionMaintainerConfig

/-- What goes wrong with a statement: it fails, or it succeeds and the connection is lost before
the answer arrives. -/
inductive Fault where
  | failed (message : String)
  | unheard (message : String)
  deriving DecidableEq

def Fault.message : Fault → String
  | .failed message | .unheard message => message

inductive PassStatement where
  | begin
  | advisoryLock
  | createPartitions (lookaheadDays : Nat)
  | candidates (retentionDays : Nat)
  | dropPartition (day : Nat)
  | liveRows (day : Nat)
  | probe (daysAheadProbeCap : Nat)
  | commit
  | rollback
  deriving DecidableEq

structure PassState where
  /-- What other sessions see. -/
  committed : Tables
  /-- What the transaction sees. -/
  tables : Tables
  ended : Bool
  /-- The statements of the pass, each with what went wrong with it. -/
  sent : List (PassStatement × Option Fault)
  /-- The labels of `PARTITION_DROP_REFUSED`. -/
  refused : List String
  daysAhead : List Nat
  warnings : List String
  errors : List String

abbrev Pass (α : Type) : Type := ExceptT String (StateM PassState) α

namespace PartitionMaintainer

def onTables {α : Type} (f : Tables → α × Tables) (s : PassState) : α × PassState :=
  ((f s.tables).1, { s with tables := (f s.tables).2 })

section Statements

-- What goes wrong with the statements, by their number.
variable (faults : Nat → Option Fault)

def query {α : Type} (label : PassStatement) (statement : PassState → α × PassState) : Pass α := fun s =>
  let asked := { s with sent := s.sent ++ [(label, faults s.sent.length)] }
  match faults s.sent.length with
  | none => (.ok (statement asked).1, (statement asked).2)
  | some (.failed message) => (.error message, asked)
  | some (.unheard message) => (.error message, (statement asked).2)

def commit (s : PassState) : Unit × PassState := ((), { s with committed := s.tables, ended := true })

def refuse (day n : Nat) : Pass Unit :=
  modify fun s =>
    { s with
      warnings := s.warnings ++
        ["[partitions] retained " ++ partName day ++ ": " ++ toString n ++ " non-terminal row(s)"]
      refused := s.refused ++ [isoDay day] }

def dropCandidates : List Nat → Pass Unit
  | [] => pure ()
  | day :: rest => do
    let dropped ← query faults (.dropPartition day) (onTables (Tables.dropPartition day))
    if dropped then dropCandidates rest
    else
      let n ← query faults (.liveRows day) (onTables fun t => (t.liveRows day, t))
      refuse day n
      dropCandidates rest

def computeDaysAhead (config : PartitionMaintainerConfig) (today : Nat) : Pass Nat := do
  let present ← query faults (.probe config.probeCap) (onTables fun t => (t.probe today config.probeCap, t))
  return (present.takeWhile id).length

/-- The body of the `try`. -/
def attempt (config : PartitionMaintainerConfig) (today : Nat) : Pass Unit := do
  query faults .begin (onTables fun t => ((), t))
  query faults .advisoryLock (onTables fun t => ((), t))
  query faults (.createPartitions config.lookahead) (onTables fun t => ((), t.createSeries today config.lookahead))
  let days ← query faults (.candidates config.retentionDays)
    (onTables fun t => (t.candidates today config.retentionDays, t))
  dropCandidates faults days
  let daysAhead ← computeDaysAhead faults config today
  modify fun s => { s with daysAhead := s.daysAhead ++ [daysAhead] }
  query faults .commit commit

/-- A pass that has a connection. The transaction of a pass that fails is rolled back. -/
def runPass (config : PartitionMaintainerConfig) (today : Nat) (t : Tables) : PassState :=
  let s : PassState := ⟨t, t, false, [], [], [], [], []⟩
  match attempt faults config today s with
  | (.ok (), s') => s'
  | (.error message, s') => { s' with errors := s'.errors ++ ["[partitions] maintenance pass failed: " ++ message] }

end Statements

end PartitionMaintainer

end Provisioning
