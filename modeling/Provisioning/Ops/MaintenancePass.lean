import Provisioning.Lib.Monitoring
import Provisioning.Ops.PartitionMaintainer

/-!
# The failures of a maintenance pass

`runPass` of `src/ops/PartitionMaintainer.ts` with all that it awaits: the connection, each of its statements, and
the `ROLLBACK`. Whatever the database answers, the pass of `PartitionMaintainer` is this program.
-/

namespace Provisioning

open Lib

/-! ## The program -/

/-- What the pass reads from the rows. -/
def PassStatement.Rows : PassStatement → Type
  | .candidates _ => List Nat
  | .dropPartition _ => Bool
  | .liveRows _ => Nat
  | .probe _ => List Bool
  | .begin | .advisoryLock | .createPartitions _ | .commit | .rollback => Unit

inductive MaintenanceIo where
  | connect
  | query (statement : PassStatement)
  | warn (text : String)
  /-- `PARTITION_DROP_REFUSED`. -/
  | counter (day : String)
  /-- `PARTITION_DAYS_AHEAD`. -/
  | gauge (daysAhead : Nat)
  | error (text : String)
  | release

/-- A promise that rejects does so with an error that has a message. -/
def MaintenanceIo.Answer : MaintenanceIo → Type
  | .connect => Except String Unit
  | .query statement => Except String statement.Rows
  | .warn _ | .counter _ | .gauge _ | .error _ | .release => Unit

def Maintenance : Signature := ⟨MaintenanceIo, MaintenanceIo.Answer⟩

abbrev MaintenanceProg (α : Type) : Type := Async Maintenance String α

namespace MaintenancePass

def connect : MaintenanceProg Unit := @Async.call Maintenance String Unit MaintenanceIo.connect fun r => r

def query (statement : PassStatement) : MaintenanceProg statement.Rows :=
  @Async.call Maintenance String statement.Rows (MaintenanceIo.query statement) fun r => r

def tell (e : MaintenanceIo) : MaintenanceProg e.Answer := @Async.ask Maintenance String e

def refuse (day n : Nat) : MaintenanceProg Unit := do
  tell (.warn ("[partitions] retained " ++ partName day ++ ": " ++ toString n ++ " non-terminal row(s)"))
  tell (.counter (isoDay day))

def dropCandidates : List Nat → MaintenanceProg Unit
  | [] => pure ()
  | day :: rest => do
    let dropped : Bool ← query (.dropPartition day)
    if dropped then dropCandidates rest
    else
      let n : Nat ← query (.liveRows day)
      refuse day n
      dropCandidates rest

def computeDaysAhead (config : PartitionMaintainerConfig) : MaintenanceProg Nat := do
  let present : List Bool ← query (.probe config.probeCap)
  return (present.takeWhile id).length

/-- The body of the `try`. -/
def attempt (config : PartitionMaintainerConfig) : MaintenanceProg Unit := do
  query .begin
  query .advisoryLock
  query (.createPartitions config.lookahead)
  let days : List Nat ← query (.candidates config.retentionDays)
  dropCandidates days
  let daysAhead ← computeDaysAhead config
  tell (.gauge daysAhead)
  query .commit

def failureText (message : String) : String := "[partitions] maintenance pass failed: " ++ message

/-- The body of the `catch`. -/
def caught (message : String) : MaintenanceProg Unit := do
  Async.catching (query .rollback) fun _ => pure ()
  tell (.error (failureText message))

/-- The connection is asked for outside the `try`. -/
def runPass (config : PartitionMaintainerConfig) (stopped : Bool) : MaintenanceProg Unit :=
  if stopped then pure ()
  else do
    connect
    Async.andFinally (Async.catching (attempt config) caught) (tell .release)

/-! ## What a pass has to do -/

/-- What a pass has heard and done. -/
structure Ledger where
  /-- The first failure. -/
  failure : Option String
  logged : List String
  obtained : Nat
  released : Nat
  /-- `pool.connect` has rejected. -/
  refused : Bool
  deriving DecidableEq

def Ledger.start : Ledger := ⟨none, [], 0, 0, false⟩

def Ledger.failed (message : String) (l : Ledger) : Ledger := { l with failure := l.failure.or (some message) }

def Ledger.next (l : Ledger) : (e : MaintenanceIo) → e.Answer → Ledger
  | .connect, .ok _ => { l with obtained := l.obtained + 1 }
  | .connect, .error message => { l.failed message with refused := true }
  | .query _, .ok _ => l
  | .query _, .error message => l.failed message
  | .error text, _ => { l with logged := l.logged ++ [text] }
  | .release, _ => { l with released := l.released + 1 }
  | .warn _, _ | .counter _, _ | .gauge _, _ => l

/-- The pass does nothing after it was refused a connection. -/
def keeping : Monitor Maintenance Ledger where
  allows l _ := l.refused = false
  expects _ _ := True
  next := Ledger.next

abbrev Heard : Type := List ((e : Maintenance.Effect) × Maintenance.Answer e)

def ledgerOf (heard : Heard) : Ledger := keeping.recall .start heard

/-- The pass has resolved, has logged its failure if there was one, and has released what it obtained. -/
structure Contained (l : Ledger) (r : Except String Unit) : Prop where
  resolved : r = .ok ()
  logged : l.logged = l.failure.toList.map failureText
  released : l.released = l.obtained
  once : l.obtained ≤ 1

/-- `pool.connect` rejects. -/
def Refuses : (e : MaintenanceIo) → e.Answer → Prop
  | .connect, .error _ => True
  | .connect, .ok _ => False
  | .query _, _ | .warn _, _ | .counter _, _ | .gauge _, _ | .error _, _ | .release, _ => False

/-- No connection was refused. -/
def Connects (heard : Heard) : Prop := ∀ x ∈ heard, ¬ Refuses x.1 x.2

theorem Ledger.refused_next (l : Ledger) (e : MaintenanceIo) (a : e.Answer) :
    (l.next e a).refused = true ↔ l.refused = true ∨ Refuses e a := by
  cases e with
  | connect => cases (a : Except String Unit) <;> simp [Ledger.next, Refuses, Ledger.failed]
  | query statement =>
    cases (a : Except String statement.Rows) <;> simp [Ledger.next, Refuses, Ledger.failed]
  | warn | counter | gauge | error | release => simp [Ledger.next, Refuses]

theorem refused_recall (heard : Heard) (l : Ledger) :
    (keeping.recall l heard).refused = true ↔ l.refused = true ∨ ∃ x ∈ heard, Refuses x.1 x.2 := by
  unfold Monitor.recall
  induction heard generalizing l with
  | nil => simp
  | cons x rest ih =>
    have hnext := Ledger.refused_next l x.1 x.2
    refine (ih (l.next x.1 x.2)).trans ?_
    rw [hnext]
    constructor
    · rintro ((h | h) | ⟨y, hy, h⟩)
      · exact .inl h
      · exact .inr ⟨x, List.mem_cons_self, h⟩
      · exact .inr ⟨y, List.mem_cons_of_mem _ hy, h⟩
    · rintro (h | ⟨y, hy, h⟩)
      · exact .inl (.inl h)
      · rcases List.mem_cons.1 hy with rfl | hy
        · exact .inl (.inr h)
        · exact .inr ⟨y, hy, h⟩

theorem connects_iff (heard : Heard) : Connects heard ↔ (ledgerOf heard).refused = false := by
  rw [← Bool.not_eq_true, ledgerOf, refused_recall]
  constructor
  · rintro h (hstart | ⟨x, hx, hrefuses⟩)
    · cases hstart
    · exact h x hx hrefuses
  · exact fun h x hx hrefuses => h (.inr ⟨x, hx, hrefuses⟩)

/-! ## Failures inside the `try` -/

/-- Without a failure the ledger is as it was, and with one it has that failure. -/
def After {α : Type} (l l' : Ledger) (r : Except String α) : Prop :=
  (∀ a, r = .ok a → l' = l) ∧ ∀ message, r = .error message → l' = { l with failure := some message }

section Try

variable {α β : Type} {l : Ledger}

theorem after_pure (a : α) : Async.Safe keeping (After l) l (pure a : MaintenanceProg α) :=
  Async.Safe.pure ⟨fun _ _ => rfl, fun _ h => by cases h⟩

theorem after_bind {x : MaintenanceProg β} {f : β → MaintenanceProg α} (hx : Async.Safe keeping (After l) l x)
    (hf : ∀ b, Async.Safe keeping (After l) l (f b)) : Async.Safe keeping (After l) l (x >>= f) := by
  refine Async.Safe.bind (After l) hx (fun l' b h => ?_) fun l' message h => ?_
  · rw [h.1 b rfl]
    exact hf b
  · constructor
    · intro a ha
      cases ha
    · intro m hm
      cases hm
      exact h.2 message rfl

theorem after_refuse (present : l.refused = false) (day n : Nat) :
    Async.Safe keeping (After l) l (refuse day n) := by
  refine after_bind (Async.Safe.ask present fun _ _ => ⟨fun _ _ => rfl, fun _ h => by cases h⟩) fun _ => ?_
  exact Async.Safe.ask present fun _ _ => ⟨fun _ _ => rfl, fun _ h => by cases h⟩

variable (fresh : l.failure = none) (present : l.refused = false)

include fresh present

theorem after_query (statement : PassStatement) : Async.Safe keeping (After l) l (query statement) := by
  refine Async.Safe.call present fun a _ => ?_
  constructor
  · rintro rows rfl
    rfl
  · rintro message rfl
    simp [keeping, Ledger.next, Ledger.failed, fresh]

theorem after_dropCandidates (days : List Nat) : Async.Safe keeping (After l) l (dropCandidates days) := by
  induction days with
  | nil => exact after_pure ()
  | cons day rest ih =>
    refine after_bind (after_query fresh present (.dropPartition day)) fun (dropped : Bool) => ?_
    cases dropped with
    | true => exact ih
    | false =>
      refine after_bind (after_query fresh present (.liveRows day)) fun n => ?_
      exact after_bind (after_refuse present day n) fun _ => ih

theorem after_attempt (config : PartitionMaintainerConfig) : Async.Safe keeping (After l) l (attempt config) := by
  refine after_bind (after_query fresh present .begin) fun _ => ?_
  refine after_bind (after_query fresh present .advisoryLock) fun _ => ?_
  refine after_bind (after_query fresh present (.createPartitions config.lookahead)) fun _ => ?_
  refine after_bind (after_query fresh present (.candidates config.retentionDays)) fun days => ?_
  refine after_bind (after_dropCandidates fresh present days) fun _ => ?_
  refine after_bind (after_bind (after_query fresh present (.probe config.probeCap)) fun _ => after_pure _) fun _ => ?_
  refine after_bind (Async.Safe.ask present fun _ _ => ⟨fun _ _ => rfl, fun _ h => by cases h⟩) fun _ => ?_
  exact after_query fresh present .commit

end Try

theorem Ledger.failed_again {l : Ledger} {message : String} (failed : l.failure = some message) (again : String) :
    l.failed again = l := by
  unfold Ledger.failed
  rw [failed, Option.some_or, ← failed]

/-- The `ROLLBACK` may fail as well. -/
theorem safe_caught {l : Ledger} {message : String} (failed : l.failure = some message) (present : l.refused = false) :
    Async.Safe keeping (fun l' r => r = .ok () ∧ l' = { l with logged := l.logged ++ [failureText message] }) l
      (caught message) := by
  have hrollback : Async.Safe keeping (fun l' r => r = .ok () ∧ l' = l) l
      (Async.catching (query .rollback) fun _ => pure ()) := by
    refine Async.Safe.catching (fun l' _ => l' = l) (Async.Safe.call present fun a _ => ?_) ?_ ?_
    · cases (a : Except String Unit) with
      | ok _ => rfl
      | error e => exact Ledger.failed_again failed e
    · rintro l' ⟨⟩ rfl
      exact ⟨rfl, rfl⟩
    · rintro l' e rfl
      exact Async.Safe.pure ⟨rfl, rfl⟩
  refine Async.Safe.bind _ hrollback ?_ ?_
  · rintro l' _ ⟨-, rfl⟩
    exact Async.Safe.ask present fun _ _ => ⟨rfl, rfl⟩
  · rintro l' e ⟨h, -⟩
    cases h

/-- What is left for the `finally`. -/
def Tried (l : Ledger) (r : Except String Unit) : Prop :=
  l.refused = false ∧ r = .ok () ∧ l.logged = l.failure.toList.map failureText ∧ l.released = 0 ∧ l.obtained = 1

theorem tried (config : PartitionMaintainerConfig) :
    Async.Safe keeping Tried (Ledger.start.next .connect (.ok ())) (Async.catching (attempt config) caught) := by
  refine Async.Safe.catching _ (after_attempt rfl rfl config) ?_ ?_
  · intro l' u h
    rw [h.1 u rfl]
    exact ⟨rfl, rfl, rfl, rfl, rfl⟩
  · intro l' message h
    obtain rfl := h.2 message rfl
    refine Async.Safe.mono (safe_caught rfl rfl) ?_
    rintro l'' r ⟨rfl, rfl⟩
    exact ⟨rfl, rfl, rfl, rfl, rfl⟩

/-- A pass that gets a connection is contained, and one that is refused rejects. -/
def Outcome (l : Ledger) (r : Except String Unit) : Prop :=
  if l.refused then ∃ message, r = .error message else Contained l r

theorem Tried.outcome {l : Ledger} {r : Except String Unit} (h : Tried l r) :
    Outcome { l with released := l.released + 1 } r := by
  obtain ⟨present, resolved, logged, released, obtained⟩ := h
  unfold Outcome
  rw [if_neg (by simp [present])]
  exact ⟨resolved, logged, by simp [released, obtained], by simp [obtained]⟩

theorem runPass_outcome (config : PartitionMaintainerConfig) (stopped : Bool) :
    Async.Safe keeping Outcome .start (runPass config stopped) := by
  unfold runPass
  cases stopped with
  | true => exact Async.Safe.pure ⟨rfl, rfl, rfl, by decide⟩
  | false =>
    have hbody : Async.Safe keeping Outcome (Ledger.start.next .connect (.ok ()))
        (Async.andFinally (Async.catching (attempt config) caught) (tell .release)) := by
      refine Async.Safe.andFinally Tried (tried config) fun l r h => ?_
      exact Async.Safe.ask h.1 fun _ _ => ⟨fun _ _ => h.outcome, fun _ h => by cases h⟩
    refine ⟨rfl, fun a _ => ?_⟩
    cases (a : Except String Unit) with
    | ok _ => exact hbody
    | error message => exact ⟨message, rfl⟩

/-! ## The pass on the database -/

section Database

variable (faults : Nat → Option Fault) (today : Nat) (rolledBack : Except String Unit)

open PartitionMaintainer (onTables)

/-- What a statement does when it succeeds. -/
def effect : (statement : PassStatement) → PassState → statement.Rows × PassState
  | .begin | .advisoryLock => onTables fun t => ((), t)
  | .createPartitions lookaheadDays => onTables fun t => ((), t.createSeries today lookaheadDays)
  | .candidates retentionDays => onTables fun t => (t.candidates today retentionDays, t)
  | .dropPartition day => onTables (Tables.dropPartition day)
  | .liveRows day => onTables fun t => (t.liveRows day, t)
  | .probe daysAheadProbeCap => onTables fun t => (t.probe today daysAheadProbeCap, t)
  | .commit => PartitionMaintainer.commit
  | .rollback => fun s => ((), s)

/-- The database, the logger and the metrics. A transaction that is not committed is rolled back in any case. -/
def database : (e : Maintenance.Effect) → PassState → Maintenance.Answer e × PassState
  | .connect, s => (.ok (), s)
  | .query .rollback, s => (rolledBack, s)
  | .query statement, s => PartitionMaintainer.query faults statement (effect today statement) s
  | .warn text, s => ((), { s with warnings := s.warnings ++ [text] })
  | .counter day, s => ((), { s with refused := s.refused ++ [day] })
  | .gauge daysAhead, s => ((), { s with daysAhead := s.daysAhead ++ [daysAhead] })
  | .error text, s => ((), { s with errors := s.errors ++ [text] })
  | .release, s => ((), s)

theorem handle_query {α : Type} {statement : PassStatement} (h : statement ≠ .rollback)
    (next : statement.Rows → MaintenanceProg α) (pass : statement.Rows → Pass α)
    (same : ∀ rows, Async.handle (database faults today rolledBack) (next rows) = pass rows) :
    Async.handle (database faults today rolledBack) (query statement >>= next) =
      PartitionMaintainer.query faults statement (effect today statement) >>= pass := by
  have hquery : Async.handle (database faults today rolledBack) (query statement) =
      PartitionMaintainer.query faults statement (effect today statement) := by
    cases statement with
    | rollback => exact absurd rfl h
    | _ => rfl
  rw [Async.handle_bind, hquery]
  exact congrArg _ (funext same)

theorem handle_dropCandidates (days : List Nat) :
    Async.handle (database faults today rolledBack) (dropCandidates days) =
      PartitionMaintainer.dropCandidates faults days := by
  induction days with
  | nil => rfl
  | cons day rest ih =>
    unfold dropCandidates PartitionMaintainer.dropCandidates
    refine handle_query faults today rolledBack (by simp) _ _ fun (dropped : Bool) => ?_
    cases dropped with
    | true => exact ih
    | false =>
      refine handle_query faults today rolledBack (by simp) _ _ fun n => ?_
      refine (Async.handle_bind _ (refuse day n) _).trans ?_
      rw [ih]
      rfl

theorem handle_attempt (config : PartitionMaintainerConfig) :
    Async.handle (database faults today rolledBack) (attempt config) =
      PartitionMaintainer.attempt faults config today := by
  unfold attempt PartitionMaintainer.attempt
  refine handle_query faults today rolledBack (by simp) _ _ fun _ => ?_
  refine handle_query faults today rolledBack (by simp) _ _ fun _ => ?_
  refine handle_query faults today rolledBack (by simp) _ _ fun _ => ?_
  refine handle_query faults today rolledBack (by simp) _ _ fun (days : List Nat) => ?_
  refine (Async.handle_bind _ (dropCandidates days) _).trans ?_
  rw [handle_dropCandidates]
  refine congrArg _ (funext fun _ => ?_)
  have hdaysAhead : Async.handle (database faults today rolledBack) (computeDaysAhead config) =
      PartitionMaintainer.computeDaysAhead faults config today := by
    unfold computeDaysAhead PartitionMaintainer.computeDaysAhead
    exact handle_query faults today rolledBack (by simp) _ _ fun _ => rfl
  refine (Async.handle_bind _ (computeDaysAhead config) _).trans ?_
  rw [hdaysAhead]
  rfl

/-- With a connection, the pass is the one of `PartitionMaintainer`. -/
theorem handle_runPass (config : PartitionMaintainerConfig) (t : Tables) :
    Async.handle (database faults today rolledBack) (runPass config false) ⟨t, t, false, [], [], [], [], []⟩ =
      (.ok (), PartitionMaintainer.runPass faults config today t) := by
  have hattempt : (attempt config).run.handle (database faults today rolledBack) ⟨t, t, false, [], [], [], [], []⟩ =
      PartitionMaintainer.attempt faults config today ⟨t, t, false, [], [], [], [], []⟩ :=
    congrFun (handle_attempt faults today rolledBack config) _
  have hpass : Async.handle (database faults today rolledBack) (runPass config false)
      ⟨t, t, false, [], [], [], [], []⟩ =
      (Async.andFinally (Async.catching (attempt config) caught) (tell .release)).run.handle
        (database faults today rolledBack) ⟨t, t, false, [], [], [], [], []⟩ := rfl
  rw [hpass]
  unfold Async.andFinally Async.catching PartitionMaintainer.runPass
  simp only [ExceptT.run, ExceptT.mk] at hattempt ⊢
  rw [Prog.handle_bind, Prog.handle_bind, hattempt]
  cases PartitionMaintainer.attempt faults config today ⟨t, t, false, [], [], [], [], []⟩ with
  | mk r s' =>
    cases r with
    | ok _ => rfl
    | error message => cases rolledBack <;> rfl

end Database

end MaintenancePass

end Provisioning
