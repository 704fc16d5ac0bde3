import Provisioning.Lib.Monitoring
import Provisioning.Ops.ReservedSlice
import Provisioning.Ops.Transcript

/-!
# What a claimed operation gives back

Whatever fails, an attempt writes once, releases the lease that it got, and does not throw. Its task
then gives back its slot and its promise.
-/

namespace Provisioning

open Lib

/-! ## Bookkeeping of one attempt -/

/-- The operation that a write of the store is about. -/
def Io.writeId : Io → Option String
  | .finalize id .. | .requeue id | .deferForReadback id _ => some id
  | _ => none

/-- How often an attempt got a lease, released one, and wrote. -/
structure Usage where
  leases : Nat
  releases : Nat
  writes : Nat

def Usage.none : Usage := ⟨0, 0, 0⟩

def Usage.hear (m : Usage) : (e : Io) → e.Answer → Usage
  | .acquire _, .ok _ => { m with leases := m.leases + 1 }
  | .release, _ => { m with releases := m.releases + 1 }
  | .finalize .., _ | .requeue _, _ | .deferForReadback .., _ => { m with writes := m.writes + 1 }
  | _, _ => m

/-- Only the operation itself is written. -/
def usage (op : ClaimedOperation) : Monitor Dispatch Usage where
  allows _ e := ∀ id, e.writeId = some id → id = op.id
  expects _ _ := True
  next := Usage.hear

/-- What `attempt` may ask for. -/
def Io.InAttempt : Io → Prop
  | .acquire _ | .release | .finalize .. | .requeue _ | .deferForReadback .. => False
  | _ => True

namespace Dispatcher

variable {cfg : ResolvedDispatcherConfig} {op : ClaimedOperation}

theorem facade_only {m : Mutation} : Async.Only Io.InAttempt (facade m) :=
  Async.Only.bind (Async.Only.ask trivial) fun _ => Async.Only.call trivial

theorem attemptCreate_only {runtime : ResolvedInstanceConfig} {options : OperationOptions} :
    Async.Only Io.InAttempt (attemptCreate cfg op runtime options) := by
  unfold attemptCreate resolveCreateAfterDeadline
  refine Async.Only.catching (Async.Only.bind facade_only fun created => ?_) fun e => ?_
  · split
    · exact Async.Only.throw
    · exact Async.Only.pure
  · split
    · exact Async.Only.pure
    · split
      · refine Async.Only.bind (Async.Only.ask trivial) fun caps => ?_
        split
        · exact Async.Only.pure
        · split <;> exact Async.Only.pure
      · split <;> exact Async.Only.pure

theorem attemptUpdate_only {options : OperationOptions} :
    Async.Only Io.InAttempt (attemptUpdate cfg op options) := by
  unfold attemptUpdate
  refine Async.Only.catching (Async.Only.bind facade_only fun _ => Async.Only.pure) fun e => ?_
  split
  · exact Async.Only.pure
  · split <;> exact Async.Only.pure

theorem attemptDelta_only {options : OperationOptions} : Async.Only Io.InAttempt (attemptDelta cfg op options) := by
  unfold attemptDelta
  split
  · exact Async.Only.pure
  · exact Async.Only.pure
  · refine Async.Only.catching ?_ fun e => ?_
    · dsimp only
      split <;> exact Async.Only.bind facade_only fun _ => Async.Only.pure
    · split
      · exact Async.Only.pure
      · split
        · exact Async.Only.pure
        · refine Async.Only.bind (Async.Only.ask trivial) fun caps => ?_
          split <;> exact Async.Only.pure

theorem attemptDelete_only {options : OperationOptions} :
    Async.Only Io.InAttempt (attemptDelete cfg op options) := by
  unfold attemptDelete
  refine Async.Only.catching (Async.Only.bind facade_only fun _ => Async.Only.pure) fun e => ?_
  split
  · exact Async.Only.pure
  · split <;> exact Async.Only.pure

theorem resumeReadBack_only {runtime : ResolvedInstanceConfig} :
    Async.Only Io.InAttempt (resumeReadBack op runtime) := by
  unfold resumeReadBack resolveNameAttribute readBackByName
  split
  · exact Async.Only.pure
  · refine Async.Only.bind (Async.Only.catching ?_ fun _ => Async.Only.pure) fun name => ?_
    · refine Async.Only.bind (Async.Only.call trivial) fun schema => ?_
      split <;> exact Async.Only.pure
    · refine Async.Only.catching (Async.Only.bind ?_ fun _ => Async.Only.pure) fun _ => Async.Only.pure
      refine Async.Only.bind (Async.Only.ask trivial) fun now => ?_
      exact Async.Only.bind (Async.Only.call trivial) fun _ => Async.Only.pure

/-- An attempt itself neither takes nor releases a lease, and writes nothing. -/
theorem attempt_only : Async.Only Io.InAttempt (attempt cfg op) := by
  unfold attempt
  refine Async.Only.bind (Async.Only.call trivial) fun runtime => ?_
  split
  · exact Async.Only.pure
  · split
    · exact resumeReadBack_only
    · refine Async.Only.bind (Async.Only.bind (Async.Only.ask trivial) fun now => Async.Only.pure) fun options => ?_
      split
      · exact attemptCreate_only
      · exact attemptUpdate_only
      · exact attemptDelete_only
      · exact attemptDelta_only
      · exact attemptDelta_only

/-! ## The writes and the lease -/

variable {m : Usage}

theorem attempt_usage : Async.Safe (usage op) (fun m' _ => m' = m) m (attempt cfg op) := by
  refine Prog.Only.safe attempt_only fun e he => ?_
  cases e <;> first | exact he.elim | exact ⟨fun id h => (by cases h), fun _ => rfl⟩

/-- After the write of `finalize`, which does not throw. -/
def Wrote (m m' : Usage) (r : Except Failure Unit) : Prop :=
  m' = { m with writes := m.writes + 1 } ∧ ∃ u, r = .ok u

theorem logged_usage {e : Io} {result : e.Answer → Except Failure Bool} (hid : e.writeId = some op.id) :
    Async.Safe (usage op) (Wrote m) m (logged e result) := by
  unfold logged
  refine Async.Safe.catching (fun m' _ => m' = { m with writes := m.writes + 1 }) ?_ ?_ ?_
  · refine Async.Safe.bind (fun m' _ => m' = { m with writes := m.writes + 1 }) ?_ ?_ (fun _ _ h => h)
    · refine Async.Safe.call (fun id h => Option.some.inj (h.symm.trans hid)) fun x _ => ?_
      cases e <;> first | rfl | cases hid
    · exact fun m' b h => Async.Safe.pure h
  · exact fun m' u h => ⟨h, u, rfl⟩
  · exact fun m' e h => Async.Safe.pure ⟨h, _, rfl⟩

/-- What comes before the write is not counted. -/
theorem perform_usage {α : Type} {e : Io} {f : e.Answer → DispatchM α} {post : Usage → Except Failure α → Prop}
    (hid : e.writeId = none) (same : ∀ x, m.hear e x = m)
    (hf : ∀ x, Async.Safe (usage op) post m (f x)) : Async.Safe (usage op) post m (perform e >>= f) := by
  refine Async.Safe.bind (fun m' r => m' = m ∧ ∃ x, r = .ok x) ?_ ?_ ?_
  · exact Async.Safe.ask (fun id h => by rw [hid] at h; cases h) fun x _ => ⟨same x, x, rfl⟩
  · rintro m' x ⟨rfl, -⟩
    exact hf x
  · rintro m' e ⟨-, x, h⟩
    cases h

/-- **One write**, and no exception. -/
theorem finalize_usage (r : Resolution) : Async.Safe (usage op) (Wrote m) m (finalize op r) := by
  unfold finalize
  split
  · exact perform_usage rfl (fun _ => rfl) fun _ => logged_usage rfl
  · split
    · exact perform_usage rfl (fun _ => rfl) fun _ => perform_usage rfl (fun _ => rfl) fun _ => logged_usage rfl
    · exact logged_usage rfl
  · exact logged_usage rfl

/-- What `execute` leaves behind. -/
structure Balanced (m : Usage) (r : Except Failure Unit) : Prop where
  settles : ∃ u, r = .ok u
  writes : m.writes = 1
  released : m.releases = m.leases
  once : m.leases ≤ 1

theorem execute_usage : Async.Safe (usage op) Balanced .none (execute cfg op) := by
  unfold execute
  refine Async.Safe.bind (fun m r => ∃ x, r = .ok x ∧ m = { Usage.none with leases := (Except.isOk x).toNat }) ?_ ?_ ?_
  · refine Async.Safe.ask (fun id h => by cases h) fun x _ => ⟨x, rfl, ?_⟩
    cases x <;> rfl
  · rintro m x ⟨_, h, rfl⟩
    cases h
    split
    · refine (finalize_usage _).mono ?_
      rintro m' r ⟨rfl, hr⟩
      exact ⟨hr, rfl, rfl, Nat.zero_le 1⟩
    · -- `finalize` does not throw, so the handler writes only for what `attempt` threw.
      refine Async.Safe.andFinally (Wrote ⟨1, 0, 0⟩) ?_ ?_
      · refine Async.Safe.catching (fun m r => (∀ u, r = .ok u → m = ⟨1, 0, 1⟩) ∧
          ∀ e, r = .error e → m = ⟨1, 0, 0⟩) ?_ (fun m u h => ⟨h.1 u rfl, u, rfl⟩) ?_
        · refine Async.Safe.bind _ attempt_usage ?_ ?_
          · rintro m r rfl
            refine (finalize_usage r).mono ?_
            rintro m' r' ⟨rfl, u, rfl⟩
            exact ⟨fun _ _ => rfl, fun e h => by cases h⟩
          · rintro m e rfl
            exact ⟨fun u h => (by cases h), fun _ _ => rfl⟩
        · intro m e h
          obtain rfl := h.2 e rfl
          exact finalize_usage _
      · rintro m r ⟨rfl, hr⟩
        refine Async.Safe.ask (fun id h => by cases h) fun x _ => ⟨fun u _ => ?_, fun e h => by cases h⟩
        exact ⟨hr, rfl, rfl, Nat.le_refl 1⟩
  · rintro m e ⟨x, h, -⟩
    cases h

end Dispatcher

/-! ## Whole transcripts -/

def Heard.isWrite (x : Heard) : Bool := x.1.writeId.isSome

def Heard.isLease : Heard → Bool
  | ⟨.acquire _, .ok _⟩ => true
  | _ => false

def Heard.isRelease : Heard → Bool
  | ⟨.release, _⟩ => true
  | _ => false

theorem usage_recall (op : ClaimedOperation) (m : Usage) (heard : List Heard) :
    (usage op).recall m heard = ⟨m.leases + heard.countP Heard.isLease, m.releases + heard.countP Heard.isRelease,
      m.writes + heard.countP Heard.isWrite⟩ := by
  induction heard generalizing m with
  | nil => rfl
  | cons x rest ih =>
    refine (ih (m.hear x.1 x.2)).trans ?_
    obtain ⟨e, x⟩ := x
    cases e with
    | acquire =>
      cases x with
      | ok => simp [List.countP_cons, Usage.hear, Heard.isLease, Heard.isRelease, Heard.isWrite, Io.writeId]; omega
      | error => simp [Usage.hear, Heard.isLease, Heard.isRelease, Heard.isWrite, Io.writeId]
    | _ => simp [List.countP_cons, Usage.hear, Heard.isLease, Heard.isRelease, Heard.isWrite, Io.writeId] <;> omega

/-- How `execute` ends for an operation, and what it has done until then. -/
structure GivesBack (op : ClaimedOperation) (heard : List Heard) (r : Except Failure Unit) : Prop where
  settles : r = .ok ()
  writes : heard.countP Heard.isWrite = 1
  own : ∀ x ∈ heard, ∀ id, x.1.writeId = some id → id = op.id
  released : heard.countP Heard.isRelease = heard.countP Heard.isLease
  once : heard.countP Heard.isLease ≤ 1

theorem execute_gives_back {cfg : ResolvedDispatcherConfig} {op : ClaimedOperation} {heard : List Heard}
    {r : Except Failure Unit} (h : (Dispatcher.execute cfg op).run.Reaches heard (.pure r)) :
    GivesBack op heard r := by
  have safe : Prog.Safe (usage op) Dispatcher.Balanced .none (Dispatcher.execute cfg op).run :=
    Dispatcher.execute_usage
  have balanced : Dispatcher.Balanced ((usage op).recall .none heard) r := safe.reaches h fun _ _ => trivial
  rw [usage_recall] at balanced
  obtain ⟨⟨u, rfl⟩, writes, released, once⟩ := balanced
  simp only [Usage.none, Nat.zero_add] at writes released once
  refine ⟨rfl, writes, fun x hx id hid => ?_, released, once⟩
  obtain ⟨m, allowed⟩ := safe.allowed_heard h (fun _ _ => trivial) x hx
  exact allowed id hid

/-! ## Tasks -/

/-- What the claim loop knows of a call of `execute`. -/
structure Ticket where
  no : Nat
  op : ClaimedOperation
  /-- The `finally` of its task has run. -/
  settled : Bool
  /-- Its promise has left `inFlight`. -/
  forgotten : Bool

def Ticket.task (t : Ticket) : Task := ⟨t.no, t.op⟩

def Ticket.settle (t : Ticket) : Ticket := { t with settled := true }

def Ticket.forget (t : Ticket) : Ticket := { t with forgotten := true }

@[simp] theorem Ticket.settle_no (t : Ticket) : t.settle.no = t.no := rfl

@[simp] theorem Ticket.settle_settled (t : Ticket) : t.settle.settled = true := rfl

@[simp] theorem Ticket.settle_forgotten (t : Ticket) : t.settle.forgotten = t.forgotten := rfl

@[simp] theorem Ticket.forget_no (t : Ticket) : t.forget.no = t.no := rfl

@[simp] theorem Ticket.forget_task (t : Ticket) : t.forget.task = t.task := rfl

@[simp] theorem Ticket.forget_settled (t : Ticket) : t.forget.settled = t.settled := rfl

@[simp] theorem Ticket.forget_forgotten (t : Ticket) : t.forget.forgotten = true := rfl

/-- The operations of a claim are numbered in order. -/
def ticketsFrom : Nat → List ClaimedOperation → List Ticket
  | _, [] => []
  | next, op :: rest => ⟨next, op, false, false⟩ :: ticketsFrom (next + 1) rest

/-- A call of `execute` by the claim loop. -/
structure Execution where
  ticket : Ticket
  prog : Prog Dispatch (Except Failure Unit)
  heard : List Heard

def Execution.isDone (x : Execution) : Bool :=
  match x.prog with
  | .pure _ => true
  | .await .. => false

/-- A claim loop with every call of `execute` so far. -/
structure Worker (L : Type) where
  loop : ClaimLoop L
  executions : List Execution

inductive WorkerAction where
  /-- A step of the loop. `reg` is its registry at the time. -/
  | loop (reg : LoopRegistry) (a : ClaimLoop.LoopAction)
  /-- The environment answers what call number `i` of `execute` awaits. -/
  | answer (i : Nat) (respond : (e : Io) → e.Answer)

namespace Worker

variable {L : Type} (cfg : ResolvedDispatcherConfig) (mul : ℚ → ℚ → ℚ) (loopCfg : LoopConfig)
  (limiter : RateLimiter L) (s : Worker L)

def start : Worker L := ⟨ClaimLoop.start, []⟩

def tickets : List Ticket := s.executions.map Execution.ticket

/-- The calls of `execute` for the operations of a claim. -/
def begun (next : Nat) (ops : List ClaimedOperation) : List Execution :=
  (ticketsFrom next ops).map fun t => ⟨t, (Dispatcher.execute cfg t.op).run, []⟩

/-- The calls whose ticket has this number get another ticket. -/
def mark (no : Nat) (f : Ticket → Ticket) : List Execution :=
  updateWhere (fun x : Execution => x.ticket.no = no) (fun x => { x with ticket := f x.ticket }) s.executions

/-- What a step of the loop does to the calls of `execute`. It settles a task only when its call has
returned. -/
def follow : ClaimLoop.LoopAction → Option (List Execution)
  | .claimed _ ops => some (s.executions ++ begun cfg s.loop.nextTask ops)
  | .settled i =>
    match s.loop.tasks[i]? with
    | none => none
    | some t =>
      if s.executions.all fun x => x.ticket.no = t.no → x.isDone then some (s.mark t.no Ticket.settle) else none
  | .forgotten i => s.loop.inFlight[i]?.map fun no => s.mark no Ticket.forget
  | .deferLane .. => none
  | _ => some s.executions

/-- What the loop hears of an effect. -/
def notice : Io → ClaimLoop L
  | .deferLane laneKey until' => s.loop.deferLane laneKey until'
  | _ => s.loop

def answer (i : Nat) (respond : (e : Io) → e.Answer) : Option (Worker L) :=
  match s.executions[i]? with
  | none => none
  | some x =>
    match x.prog with
    | .pure _ => none
    | .await e k =>
      some ⟨s.notice e, s.executions.set i { x with prog := k (respond e), heard := x.heard ++ [⟨e, respond e⟩] }⟩

def step (s : Worker L) : WorkerAction → Option (Worker L)
  | .loop reg a =>
    match s.follow cfg a, s.loop.step mul loopCfg reg limiter a with
    | some executions, some loop => some ⟨loop, executions⟩
    | _, _ => none
  | .answer i respond => s.answer i respond

end Worker

/-! ## Steps of the loop -/

namespace ClaimLoop

variable {L : Type} {mul : ℚ → ℚ → ℚ} {cfg : LoopConfig} {reg : LoopRegistry} {limiter : RateLimiter L}
  {p p' : ClaimLoop L} {a : LoopAction}

/-- The promises are as before, too. -/
structure SamePromises (p p' : ClaimLoop L) : Prop extends p.SameTasks p' where
  inFlight : p'.inFlight = p.inFlight
  nextTask : p'.nextTask = p.nextTask

theorem Stepped.samePromises (h : Stepped mul cfg reg limiter p a p') (claim : ∀ k ops, a ≠ .claimed k ops)
    (settle : ∀ i, a ≠ .settled i) (forget : ∀ i, a ≠ .forgotten i) : p.SamePromises p' := by
  cases h with
  | skipped | sampled | claimFailed | deferLane | stop => exact ⟨⟨rfl, rfl, rfl⟩, rfl, rfl⟩
  | @started now =>
    obtain ⟨_, heq⟩ := maybeReap_eq cfg p now
    rw [heq]
    exact ⟨⟨rfl, rfl, rfl⟩, rfl, rfl⟩
  | @reaped k now =>
    obtain ⟨_, _, _, _, heq⟩ := offer_eq mul reg limiter p k now
    rw [heq]
    exact ⟨⟨rfl, rfl, rfl⟩, rfl, rfl⟩
  | claimed => exact absurd rfl (claim _ _)
  | settled => exact absurd rfl (settle _)
  | forgotten => exact absurd rfl (forget _)

theorem beginAll_promises (ops : List ClaimedOperation) :
    (p.beginAll ops).tasks = p.tasks ++ (ticketsFrom p.nextTask ops).map Ticket.task ∧
      (p.beginAll ops).inFlight = p.inFlight ++ (ticketsFrom p.nextTask ops).map Ticket.no ∧
      (p.beginAll ops).nextTask = p.nextTask + ops.length := by
  induction ops generalizing p with
  | nil => simp [beginAll, ticketsFrom]
  | cons op rest ih =>
    have hrest : p.beginAll (op :: rest) = (p.begin op).beginAll rest := rfl
    obtain ⟨htasks, hinFlight, hnext⟩ := @ih (p.begin op)
    rw [hrest, htasks, hinFlight, hnext]
    refine ⟨?_, ?_, ?_⟩
    · simp [ClaimLoop.begin, ticketsFrom, Ticket.task]
    · simp [ClaimLoop.begin, ticketsFrom]
    · simp [ClaimLoop.begin, Nat.add_assoc, Nat.add_comm 1]

end ClaimLoop

namespace Worker

variable {L : Type} {cfg : ResolvedDispatcherConfig} {mul : ℚ → ℚ → ℚ} {loopCfg : LoopConfig}
  {limiter : RateLimiter L} {s s' : Worker L}

/-- The loop has the tasks and promises of the calls that are not over. -/
structure Linked (s : Worker L) : Prop where
  nos : s.tickets.map Ticket.no = List.range s.loop.nextTask
  tasks : s.loop.tasks = (s.tickets.filter fun t => !t.settled).map Ticket.task
  inFlight : s.loop.inFlight = (s.tickets.filter fun t => !t.forgotten).map Ticket.no
  counted : s.loop.Counted

theorem linked_start : (start : Worker L).Linked := by
  refine ⟨rfl, rfl, rfl, ?_, ?_⟩ <;> intro i <;> rfl

theorem Linked.same (inv : s.Linked) (loop : s.loop.SamePromises s'.loop) (tickets : s'.tickets = s.tickets) :
    s'.Linked where
  nos := by rw [tickets, loop.nextTask, inv.nos]
  tasks := by rw [tickets, loop.tasks, inv.tasks]
  inFlight := by rw [tickets, loop.inFlight, inv.inFlight]
  counted := loop.counted inv.counted

theorem ticketsFrom_open (next : Nat) (ops : List ClaimedOperation) :
    ∀ t ∈ ticketsFrom next ops, t.settled = false ∧ t.forgotten = false := by
  induction ops generalizing next with
  | nil => simp [ticketsFrom]
  | cons op rest ih =>
    intro t ht
    rcases List.mem_cons.1 ht with rfl | ht
    · exact ⟨rfl, rfl⟩
    · exact ih (next + 1) t ht

theorem nos_ticketsFrom (next : Nat) (ops : List ClaimedOperation) :
    (ticketsFrom next ops).map Ticket.no = List.range' next ops.length := by
  induction ops generalizing next with
  | nil => rfl
  | cons op rest ih => rw [ticketsFrom, List.map_cons, ih, List.length_cons, List.range'_succ]

theorem tickets_begun (next : Nat) (ops : List ClaimedOperation) :
    (begun cfg next ops).map Execution.ticket = ticketsFrom next ops := by
  unfold begun
  rw [List.map_map]
  exact List.map_id _

theorem tickets_mark (no : Nat) (f : Ticket → Ticket) :
    (s.mark no f).map Execution.ticket = updateWhere (fun t : Ticket => t.no = no) f s.tickets :=
  map_updateWhere (fun _ => Iff.rfl) fun _ => rfl

theorem Linked.claimed (inv : s.Linked) {k : Nat} {ops : List ClaimedOperation}
    (loop : s'.loop = (s.loop.beginAll ops).endCycle k)
    (tickets : s'.tickets = s.tickets ++ ticketsFrom s.loop.nextTask ops) : s'.Linked := by
  obtain ⟨htasks, hinFlight, hnext⟩ := ClaimLoop.beginAll_promises (p := s.loop) ops
  have hopen := ticketsFrom_open s.loop.nextTask ops
  have htasks' : s'.loop.tasks = (s.loop.beginAll ops).tasks := by rw [loop]; rfl
  have hinFlight' : s'.loop.inFlight = (s.loop.beginAll ops).inFlight := by rw [loop]; rfl
  have hnext' : s'.loop.nextTask = (s.loop.beginAll ops).nextTask := by rw [loop]; rfl
  refine ⟨?_, ?_, ?_, ?_⟩
  · rw [hnext', hnext, tickets, List.map_append, inv.nos, nos_ticketsFrom, List.range_eq_range', List.range_eq_range',
      ← List.range'_append]
    simp
  · have hall : (ticketsFrom s.loop.nextTask ops).filter (fun t => !t.settled) = ticketsFrom s.loop.nextTask ops :=
      List.filter_eq_self.2 fun t ht => by simp [(hopen t ht).1]
    rw [htasks', htasks, tickets, List.filter_append, List.map_append, hall, inv.tasks]
  · have hall : (ticketsFrom s.loop.nextTask ops).filter (fun t => !t.forgotten) = ticketsFrom s.loop.nextTask ops :=
      List.filter_eq_self.2 fun t ht => by simp [(hopen t ht).2]
    rw [hinFlight', hinFlight, tickets, List.filter_append, List.map_append, hall, inv.inFlight]
  · have same : (s.loop.beginAll ops).SameTasks ((s.loop.beginAll ops).endCycle k) := ⟨rfl, rfl, rfl⟩
    rw [loop]
    exact same.counted (inv.counted.beginAll ops)

theorem filter_mark {no : Nat} {f : Ticket → Ticket} {q : Ticket → Bool} (hq : ∀ t, q (f t) = false)
    (tickets : List Ticket) :
    (updateWhere (fun t : Ticket => t.no = no) f tickets).filter q =
      (tickets.filter q).filter fun t => t.no ≠ no := by
  induction tickets with
  | nil => rfl
  | cons t rest ih =>
    rw [updateWhere_cons]
    by_cases hno : t.no = no
    · rw [if_pos hno, List.filter_cons_of_neg (by simp [hq]), ih]
      by_cases ht : q t
      · rw [List.filter_cons_of_pos ht, List.filter_cons_of_neg (by simp [hno])]
      · rw [List.filter_cons_of_neg ht]
    · rw [if_neg hno]
      by_cases ht : q t
      · rw [List.filter_cons_of_pos ht, List.filter_cons_of_pos ht, List.filter_cons_of_pos (by simp [hno]), ih]
      · rw [List.filter_cons_of_neg ht, List.filter_cons_of_neg ht, ih]

theorem filter_unmarked {α : Type} {no : Nat} {f : Ticket → Ticket} {q : Ticket → Bool} {g : Ticket → α}
    (hq : ∀ t, q (f t) = q t) (hg : ∀ t, g (f t) = g t) (tickets : List Ticket) :
    ((updateWhere (fun t : Ticket => t.no = no) f tickets).filter q).map g = (tickets.filter q).map g := by
  induction tickets with
  | nil => rfl
  | cons t rest ih =>
    have hhead : q (if t.no = no then f t else t) = q t ∧ g (if t.no = no then f t else t) = g t := by
      split
      · exact ⟨hq t, hg t⟩
      · exact ⟨rfl, rfl⟩
    rw [updateWhere_cons]
    by_cases ht : q t
    · rw [List.filter_cons_of_pos (hhead.1.trans ht), List.filter_cons_of_pos ht, List.map_cons, List.map_cons, ih,
        hhead.2]
    · rw [List.filter_cons_of_neg (by rw [hhead.1]; exact ht), List.filter_cons_of_neg ht, ih]

theorem Linked.nodup (inv : s.Linked) : (s.tickets.map Ticket.no).Nodup := by
  rw [inv.nos]
  exact List.nodup_range

theorem Linked.settled (inv : s.Linked) {i : Nat} {t : Task} (hi : s.loop.tasks[i]? = some t)
    (loop : s'.loop = s.loop.settle i t)
    (tickets : s'.tickets = updateWhere (fun x : Ticket => x.no = t.no) Ticket.settle s.tickets) : s'.Linked := by
  refine ⟨?_, ?_, ?_, ?_⟩
  · rw [tickets, keys_updateWhere fun t _ => t.settle_no, inv.nos, loop]
    rfl
  · have hn : (s.loop.tasks.map Task.no).Nodup := by
      rw [inv.tasks, List.map_map]
      exact nodup_filter inv.nodup
    have herased : s'.loop.tasks = s.loop.tasks.eraseIdx i := by rw [loop]; rfl
    rw [herased, eraseIdx_eq_filter hn hi, tickets, filter_mark (by simp), inv.tasks, List.filter_map]
    rfl
  · have hsame : s'.loop.inFlight = s.loop.inFlight := by rw [loop]; rfl
    rw [hsame, tickets, filter_unmarked (by simp) Ticket.settle_no, inv.inFlight]
  · rw [loop]
    exact inv.counted.settle hi

theorem Linked.forgotten (inv : s.Linked) {i no : Nat} (hi : s.loop.inFlight[i]? = some no)
    (loop : s'.loop = { s.loop with inFlight := s.loop.inFlight.eraseIdx i })
    (tickets : s'.tickets = updateWhere (fun x : Ticket => x.no = no) Ticket.forget s.tickets) : s'.Linked := by
  refine ⟨?_, ?_, ?_, ?_⟩
  · rw [tickets, keys_updateWhere fun t _ => t.forget_no, inv.nos, loop]
  · have hsame : s'.loop.tasks = s.loop.tasks := by rw [loop]
    rw [hsame, tickets, filter_unmarked (by simp) Ticket.forget_task, inv.tasks]
  · have hn : (s.loop.inFlight.map id).Nodup := by
      rw [List.map_id, inv.inFlight]
      exact nodup_filter inv.nodup
    have herased : s'.loop.inFlight = s.loop.inFlight.eraseIdx i := by rw [loop]
    rw [herased, eraseIdx_eq_filter hn hi, tickets, filter_mark (by simp), inv.inFlight, List.filter_map]
    rfl
  · have same : s.loop.SameTasks s'.loop := by rw [loop]; exact ⟨rfl, rfl, rfl⟩
    exact same.counted inv.counted

/-! ## Steps -/

variable (cfg mul loopCfg limiter s) in
/-- What one step can do. -/
inductive Stepped : WorkerAction → Worker L → Prop
  | claimed {reg : LoopRegistry} {k : Nat} {ops : List ClaimedOperation} :
      Stepped (.loop reg (.claimed k ops))
        ⟨(s.loop.beginAll ops).endCycle k, s.executions ++ begun cfg s.loop.nextTask ops⟩
  | settled {reg : LoopRegistry} {i : Nat} {t : Task} (hi : s.loop.tasks[i]? = some t)
      (done : ∀ x ∈ s.executions, x.ticket.no = t.no → x.isDone) :
      Stepped (.loop reg (.settled i)) ⟨s.loop.settle i t, s.mark t.no Ticket.settle⟩
  | forgotten {reg : LoopRegistry} {i no : Nat} (hi : s.loop.inFlight[i]? = some no) :
      Stepped (.loop reg (.forgotten i))
        ⟨{ s.loop with inFlight := s.loop.inFlight.eraseIdx i }, s.mark no Ticket.forget⟩
  | other {reg : LoopRegistry} {a : ClaimLoop.LoopAction} {loop : ClaimLoop L} (same : s.loop.SamePromises loop) :
      Stepped (.loop reg a) ⟨loop, s.executions⟩
  | answered {i : Nat} {respond : (e : Io) → e.Answer} {x : Execution} {e : Io}
      {k : e.Answer → Prog Dispatch (Except Failure Unit)} {loop : ClaimLoop L} (hi : s.executions[i]? = some x)
      (asks : x.prog = .await e k) (same : s.loop.SamePromises loop) :
      Stepped (.answer i respond)
        ⟨loop, s.executions.set i { x with prog := k (respond e), heard := x.heard ++ [⟨e, respond e⟩] }⟩

theorem stepped {a : WorkerAction} (h : s.step cfg mul loopCfg limiter a = some s') : Stepped cfg s a s' := by
  cases a with
  | loop reg a =>
    simp only [step] at h
    split at h
    · rename_i executions loop hfollow hloop
      cases h
      have hstep := ClaimLoop.stepped hloop
      cases hstep with
      | claimed =>
        cases hfollow
        exact .claimed
      | @settled i t hi =>
        simp only [follow, hi, Option.ite_none_right_eq_some, Option.some.injEq] at hfollow
        obtain ⟨done, rfl⟩ := hfollow
        refine .settled hi fun x hx hno => ?_
        have hdone := List.all_eq_true.1 done x hx
        simp only [decide_eq_true_eq] at hdone
        exact hdone hno
      | @forgotten i no hi _ =>
        simp only [follow, hi, Option.map_some, Option.some.injEq] at hfollow
        subst hfollow
        exact .forgotten hi
      | deferLane => cases hfollow
      | skipped | started | reaped | sampled | claimFailed | stop =>
        cases hfollow
        exact .other ((ClaimLoop.stepped hloop).samePromises (by simp) (by simp) (by simp))
    · cases h
  | answer i respond =>
    simp only [step, answer] at h
    split at h
    · cases h
    · rename_i x hi
      split at h
      · cases h
      · rename_i e k asks
        cases h
        refine .answered hi asks ?_
        cases e <;> exact ⟨⟨rfl, rfl, rfl⟩, rfl, rfl⟩

variable (cfg) in
/-- Each call of `execute` is as far as its answers say, and only those that have returned are over. -/
structure Replays (s : Worker L) : Prop where
  reached : ∀ x ∈ s.executions, (Dispatcher.execute cfg x.ticket.op).run.Reaches x.heard x.prog
  done : ∀ x ∈ s.executions, x.ticket.settled → x.isDone

theorem Replays.marked (inv : s.Replays cfg) {no : Nat} {f : Ticket → Ticket} (hop : ∀ t, (f t).op = t.op)
    (done : ∀ x ∈ s.executions, x.ticket.no = no → (f x.ticket).settled → x.isDone) :
    ∀ x ∈ s.mark no f, (Dispatcher.execute cfg x.ticket.op).run.Reaches x.heard x.prog ∧
      (x.ticket.settled → x.isDone) := by
  intro x' hx'
  obtain ⟨x, hx, rfl⟩ := mem_updateWhere.1 hx'
  split
  · rename_i hno
    refine ⟨?_, done x hx hno⟩
    have reached := inv.reached x hx
    rw [← hop] at reached
    exact reached
  · exact ⟨inv.reached x hx, inv.done x hx⟩

theorem Replays.step (inv : s.Replays cfg) {a : WorkerAction} (h : Stepped cfg s a s') : s'.Replays cfg := by
  cases h with
  | claimed =>
    have fresh {x : Execution} {next : Nat} {ops : List ClaimedOperation} (hx : x ∈ begun cfg next ops) :
        (Dispatcher.execute cfg x.ticket.op).run.Reaches x.heard x.prog ∧ (x.ticket.settled → x.isDone) := by
      obtain ⟨t, ht, rfl⟩ := List.mem_map.1 hx
      refine ⟨.start _, fun hsettled => ?_⟩
      rw [(ticketsFrom_open next ops t ht).1] at hsettled
      cases hsettled
    constructor
    · intro x hx
      rcases List.mem_append.1 hx with hx | hx
      · exact inv.reached x hx
      · exact (fresh hx).1
    · intro x hx
      rcases List.mem_append.1 hx with hx | hx
      · exact inv.done x hx
      · exact (fresh hx).2
  | @settled reg i t hi done =>
    have marked := @Replays.marked _ _ _ inv t.no Ticket.settle (fun _ => rfl) fun x hx hno _ => done x hx hno
    exact ⟨fun x hx => (marked x hx).1, fun x hx => (marked x hx).2⟩
  | @forgotten reg i no hi =>
    have marked := @Replays.marked _ _ _ inv no Ticket.forget (fun _ => rfl) fun x hx _ => inv.done x hx
    exact ⟨fun x hx => (marked x hx).1, fun x hx => (marked x hx).2⟩
  | other => exact ⟨inv.reached, inv.done⟩
  | @answered i respond x e k loop hi asks same =>
    have hx := List.mem_of_getElem? hi
    have reached := inv.reached x hx
    rw [asks] at reached
    have running : x.ticket.settled = false := by
      cases hsettled : x.ticket.settled with
      | false => rfl
      | true =>
        have hdone := inv.done x hx hsettled
        simp [Execution.isDone, asks] at hdone
    constructor
    · intro x' hx'
      rcases List.mem_or_eq_of_mem_set hx' with hx' | rfl
      · exact inv.reached x' hx'
      · exact reached.snoc (respond e)
    · intro x' hx' hsettled
      rcases List.mem_or_eq_of_mem_set hx' with hx' | rfl
      · exact inv.done x' hx' hsettled
      · rw [running] at hsettled
        cases hsettled

theorem Linked.step (inv : s.Linked) {a : WorkerAction} (h : Stepped cfg s a s') : s'.Linked := by
  cases h with
  | claimed => exact inv.claimed rfl (by rw [tickets, List.map_append, tickets_begun]; rfl)
  | settled hi => exact inv.settled hi rfl (tickets_mark _ _)
  | forgotten hi => exact inv.forgotten hi rfl (tickets_mark _ _)
  | other same => exact inv.same same rfl
  | @answered i respond x e k loop hi asks same =>
    refine inv.same same ?_
    have hticket : s.tickets[i]? = some x.ticket := by rw [tickets, List.getElem?_map, hi]; rfl
    unfold tickets at hticket ⊢
    rw [List.map_set]
    obtain ⟨hlt, heq⟩ := List.getElem?_eq_some_iff.1 hticket
    rw [← heq]
    exact List.set_getElem_self hlt

/-! ## The result -/

/-- Of the calls of `s` no other is over, and every later one is. -/
def Regained (s s' : Worker L) : Prop :=
  ∃ more, s'.tickets = s.tickets ++ more ∧ ∀ t ∈ more, t.settled ∧ t.forgotten

/-- The loop has as many slots in use as before, and the same promises. -/
structure SameSlots (s s' : Worker L) : Prop where
  running : ∀ i, (s'.loop.running i).getD 0 = (s.loop.running i).getD 0
  runningBatch : ∀ i, (s'.loop.runningBatch i).getD 0 = (s.loop.runningBatch i).getD 0
  inFlight : s'.loop.inFlight = s.loop.inFlight

theorem Linked.sameSlots (inv : s.Linked) (inv' : s'.Linked) (regained : s.Regained s') : s.SameSlots s' := by
  obtain ⟨more, htickets, hover⟩ := regained
  have settled : more.filter (fun t => !t.settled) = [] :=
    List.filter_eq_nil_iff.2 fun t ht => by simp [(hover t ht).1]
  have forgotten : more.filter (fun t => !t.forgotten) = [] :=
    List.filter_eq_nil_iff.2 fun t ht => by simp [(hover t ht).2]
  have htasks : s'.loop.tasks = s.loop.tasks := by
    rw [inv'.tasks, htickets, List.filter_append, settled, List.append_nil, inv.tasks]
  refine ⟨fun i => ?_, fun i => ?_, ?_⟩
  · rw [inv'.counted.running, inv.counted.running]
    unfold ClaimLoop.inFlightOf ClaimLoop.tally
    rw [htasks]
  · rw [inv'.counted.batch, inv.counted.batch]
    unfold ClaimLoop.batchInFlightOf ClaimLoop.tally
    rw [htasks]
  · rw [inv'.inFlight, htickets, List.filter_append, forgotten, List.append_nil, inv.inFlight]

theorem Linked.may_settle (inv : s.Linked) {x : Execution} (hx : x ∈ s.executions) (done : x.isDone)
    (unsettled : x.ticket.settled = false) (reg : LoopRegistry) :
    ∃ i, (s.step cfg mul loopCfg limiter (.loop reg (.settled i))).isSome := by
  have hticket : x.ticket ∈ s.tickets := List.mem_map_of_mem hx
  have htask : x.ticket.task ∈ s.loop.tasks := by
    rw [inv.tasks]
    exact List.mem_map_of_mem (List.mem_filter.2 ⟨hticket, by simp [unsettled]⟩)
  obtain ⟨i, hi⟩ := List.getElem?_of_mem htask
  have hall : (s.executions.all fun y => y.ticket.no = x.ticket.task.no → y.isDone) := by
    refine List.all_eq_true.2 fun y hy => ?_
    simp only [decide_eq_true_eq]
    intro hno
    have hn : (s.executions.map fun y => y.ticket.no).Nodup := by
      have hnodup := inv.nodup
      rwa [tickets, List.map_map] at hnodup
    rw [eq_of_key_eq hn hy hx hno]
    exact done
  have hfollow : s.follow cfg (.settled i) = some (s.mark x.ticket.task.no Ticket.settle) := by
    simp only [follow, hi, hall, if_true]
  have hloop : s.loop.step mul loopCfg reg limiter (.settled i) = some (s.loop.settle i x.ticket.task) := by
    simp only [ClaimLoop.step, hi, Option.map_some]
  exact ⟨i, by simp only [Worker.step, hfollow, hloop, Option.isSome_some]⟩

/-- **Every call of `execute` gives back what it took.** It comes to its end whatever it is answered,
has then written once and released its lease, and may settle. When all calls since a state are over,
the slots and promises of the loop are those of that state. -/
theorem executions_give_back (run : Runs (step cfg mul loopCfg limiter) anyStep start s) :
    (∀ x ∈ s.executions, ∀ answer, ∃ more r, x.prog.Reaches more (.pure r) ∧ Prog.AnsweredBy answer more) ∧
    (∀ x ∈ s.executions, ∀ r, x.prog = .pure r → GivesBack x.ticket.op x.heard r ∧
      (x.ticket.settled = false → ∀ reg, ∃ i, (s.step cfg mul loopCfg limiter (.loop reg (.settled i))).isSome)) ∧
    (∀ s', Runs (step cfg mul loopCfg limiter) anyStep s s' → s.Regained s' → s.SameSlots s') := by
  have keeps {s s' : Worker L} {a : WorkerAction} (inv : s.Linked ∧ s.Replays cfg)
      (h : s.step cfg mul loopCfg limiter a = some s') : s'.Linked ∧ s'.Replays cfg :=
    ⟨inv.1.step (stepped h), inv.2.step (stepped h)⟩
  have inv : s.Linked ∧ s.Replays cfg :=
    run.invariant (fun s => s.Linked ∧ s.Replays cfg) ⟨linked_start, by simp [start], by simp [start]⟩
      fun _ _ _ inv h _ => keeps inv h
  refine ⟨fun x _ answer => Prog.reaches_end answer x.prog, fun x hx r hr => ⟨?_, fun unsettled reg => ?_⟩,
    fun s' more regained => ?_⟩
  · have reached := inv.2.reached x hx
    rw [hr] at reached
    exact execute_gives_back reached
  · exact inv.1.may_settle hx (by simp [Execution.isDone, hr]) unsettled reg
  · have inv' : s'.Linked ∧ s'.Replays cfg :=
      more.invariant (fun s => s.Linked ∧ s.Replays cfg) inv fun _ _ _ inv h _ => keeps inv h
    exact inv.1.sameSlots inv'.1 regained

/-! One operation is claimed, its connector cannot be built, and its write fails. -/

def refused : (e : Io) → e.Answer
  | .now => (0 : Nat)
  | .acquire _ => .error (.other "no credentials")
  | .configOf _ => .error (.other "refused")
  | .capabilitiesOf _ => ⟨false, false, false⟩
  | .schema => .error (.other "refused")
  | .search .. => .error (.other "refused")
  | .settle _ => .error (.other "refused")
  | .finalize .. | .requeue _ | .deferForReadback .. => .error (.other "pool is closed")
  | .invoke _ | .release | .deferLane .. => ()

def inClaim : List WorkerAction :=
  [.runCycle 100000, .reaped 0 100000, .sampled 0 100000].map (.loop ClaimLoop.twoSlots)

def claimedAndOver : List WorkerAction :=
  [.loop ClaimLoop.twoSlots (.claimed 0 [ClaimLoop.waitingBatch.toClaimed .pending]), .answer 0 refused,
    .answer 0 refused, .loop ClaimLoop.twoSlots (.settled 0), .loop ClaimLoop.twoSlots (.forgotten 0)]

theorem executions_give_back_refused :
    ∃ s s' : Worker Unit,
      exec (step .DEFAULTS (· * ·) .DEFAULTS ClaimLoop.noLimit) anyStep start inClaim = some s ∧
      exec (step .DEFAULTS (· * ·) .DEFAULTS ClaimLoop.noLimit) anyStep s claimedAndOver = some s' ∧
      s'.executions.length = 1 ∧ s.SameSlots s' := by
  have h : (exec (step .DEFAULTS (· * ·) .DEFAULTS ClaimLoop.noLimit) anyStep start inClaim).any
      (fun s : Worker Unit => s.executions.length = 0 ∧
        (exec (step .DEFAULTS (· * ·) .DEFAULTS ClaimLoop.noLimit) anyStep s claimedAndOver).any fun s' =>
          s'.executions.length = 1 ∧ s'.tickets.all fun t => t.settled && t.forgotten) := by
    decide +kernel
  obtain ⟨s, hs, h⟩ := (Option.any_eq_true _ _).1 h
  simp only [decide_eq_true_eq] at h
  obtain ⟨hnone, h⟩ := h
  obtain ⟨s', hs', h⟩ := (Option.any_eq_true _ _).1 h
  simp only [decide_eq_true_eq] at h
  obtain ⟨hone, hover⟩ := h
  have hempty : s.tickets = [] := by
    unfold tickets
    rw [List.eq_nil_of_length_eq_zero hnone]
    rfl
  have regained : s.Regained s' := by
    refine ⟨s'.tickets, by rw [hempty]; rfl, fun t ht => ?_⟩
    simpa using List.all_eq_true.1 hover t ht
  exact ⟨s, s', hs, hs', hone, (executions_give_back (runs_of_exec hs)).2.2 s' (runs_of_exec hs') regained⟩

end Worker

end Provisioning
