import Provisioning.Ops.Holding

/-!
# What a final status says

At any speed: the status of a row is the outcome of the first final write that was applied to it,
and the protocol allowed that write.
-/

namespace Provisioning

open Lib

variable {advisoryLockKey : String → BitVec 64} {cfg : ResolvedDispatcherConfig}

def OperationStatus.outcome? : OperationStatus → Option OperationOutcome
  | .live _ => none
  | .final o => some o

/-- The outcome that an applied write gives. -/
def Event.resolution : Event → Option OperationOutcome
  | .wrote (.finalize _ outcome _ _) true _ => some outcome
  | _ => none

variable {s s' : Deployment} {a : Action} {u : Uuid}

namespace Deployment

def resolution (log : List Entry) (u : Uuid) : Option OperationOutcome :=
  log.findSome? fun ent => if ent.row = u then ent.event.resolution else none

theorem resolution_append {log more : List Entry} :
    resolution (log ++ more) u = (resolution log u).or (resolution more u) := List.findSome?_append

theorem resolution_unresolved {more : List Entry} (h : ∀ ent ∈ more, ent.event.resolution = none) :
    resolution more u = none := by
  refine List.findSome?_eq_none_iff.2 fun ent hent => ?_
  rw [h ent hent, ite_self]


/-- The status of every row is what the log says. -/
def Recorded (s : Deployment) : Prop :=
  ∀ u r, s.db.row? u = some r → r.status.outcome? = resolution s.log u

end Deployment

theorem Io.outcome_write {e : Io} {began : Nat} {r : Row} (current : Nat) :
    (e.write began r).status.outcome? = r.status.outcome?.or (Event.wrote e true current).resolution := by
  have same {r' : Row} (h : r'.status.outcome? = none) (hr : r.status = .live .running) :
      (if r.status = .live .running then r' else r).status.outcome? = r.status.outcome?.or none := by
    rw [if_pos hr, h, hr]
    rfl
  cases e with
  | finalize id outcome result errorCode =>
    simp only [Io.write, Event.resolution]
    cases hst : r.status with
    | live p => simp [Row.finalized, OperationStatus.outcome?]
    | final o => simp [hst, OperationStatus.outcome?]
  | requeue id =>
    by_cases hr : r.status = .live .running
    · exact same rfl hr
    · simp [Io.write, Event.resolution, hr]
  | deferForReadback id notBefore =>
    by_cases hr : r.status = .live .running
    · exact same rfl hr
    · simp [Io.write, Event.resolution, hr]
  | _ => simp [Io.write, Event.resolution]

namespace Deployment

theorem Followed.resolution_absent (inv : s.Followed cfg) (h : s.db.row? u = none) :
    resolution s.log u = none := by
  refine List.findSome?_eq_none_iff.2 fun ent hent => ?_
  split
  · rename_i hrow
    cases hev : ent.event with
    | wrote e applied current =>
      obtain ⟨r, _, _, hr, -⟩ := inv.admitted ent hent e (by rw [hev]; rfl)
      rw [hrow, h] at hr
      cases hr
    | _ => rfl
  · rfl

theorem Recorded.step (inv : s.Recorded) (followed : s.Followed cfg) (h : Stepped advisoryLockKey cfg s a s') :
    s'.Recorded := by
  have wf := followed.wf
  -- A step that logs no outcome, and changes no row but one that is not final into one that is not.
  have quiet {more : List Entry} (hlog : s'.log = s.log ++ more) (hmore : ∀ ent ∈ more, ent.event.resolution = none)
      (hrows : ∀ u r', s'.db.row? u = some r' →
        (∃ r, s.db.row? u = some r ∧ r'.status.outcome? = r.status.outcome?) ∨
          s.db.row? u = none ∧ r'.status.outcome? = none) : s'.Recorded := by
    intro u r' hr'
    rw [hlog, resolution_append, resolution_unresolved hmore, Option.or_none]
    rcases hrows u r' hr' with ⟨r, hr, heq⟩ | ⟨hnone, heq⟩
    · exact heq.trans (inv u r hr)
    · exact heq.trans (followed.resolution_absent hnone).symm
  have one {ent : Entry} (hent : ent.event.resolution = none) : ∀ ent' ∈ [ent], ent'.event.resolution = none :=
    fun ent' h => by rwa [List.mem_singleton.1 h]
  cases h with
  | database background _ h =>
    refine quiet (List.append_nil _).symm (by simp) fun u r' hr' => ?_
    rcases h.background wf background (u := u) with hsame | ⟨hnone, r, hr, hst, -⟩
    · exact .inl ⟨r', hsame ▸ hr', rfl⟩
    · cases hr.symm.trans hr'
      exact .inr ⟨hnone, by rw [hst]; rfl⟩
  | committed hc done =>
    refine quiet rfl (fun ent hent => by rw [(mem_newEntries hent).2.2]; rfl) fun u r' hr' => .inl ?_
    rw [Db.row?_claimLocked] at hr'
    obtain ⟨r, hr, rfl⟩ := Option.map_eq_some_iff.1 hr'
    refine ⟨r, hr, ?_⟩
    split
    · rename_i hl
      obtain ⟨l, hl, hid⟩ := hl
      obtain ⟨r', hr', hst, -⟩ := wf.locks.held l (List.mem_filter.1 hl).1
      rw [hid, Db.row?_id hr, hr] at hr'
      cases hr'
      rw [hst]
      rfl
    · rfl
  | replied => exact quiet rfl (one rfl) fun u r hr => .inl ⟨r, hr, rfl⟩
  | @wrote _ began _ _ att e _ _ db _ split asks statement h =>
    have hmine := (followed.follows att (split ▸ List.mem_append_right _ List.mem_cons_self)).write_row asks
      (Io.outcome_of_statement statement)
    intro u r' hr'
    replace hr' : db.row? u = some r' := hr'
    rw [Db.row?_write statement h] at hr'
    obtain ⟨r, hr, rfl⟩ := Option.map_eq_some_iff.1 hr'
    have hold := inv u r hr
    rw [resolution_append, ← hold, hmine, Db.row?_id hr]
    by_cases hu : att.row = u
    · subst hu
      rw [if_pos rfl, Io.outcome_write (claimsOf s.log att.row)]
      simp [resolution]
    · rw [if_neg (fun heq => hu (Option.some.inj heq))]
      simp [resolution, hu]
  | @writeLost _ _ _ _ e =>
    exact quiet rfl (one (by cases e <;> rfl)) fun u r hr => .inl ⟨r, hr, rfl⟩
  | died =>
    refine quiet rfl (fun ent hent => ?_) fun u r hr => .inl ⟨r, hr, rfl⟩
    obtain ⟨att, -, rfl⟩ := List.mem_map.1 hent
    rfl
  | reaped h =>
    refine quiet (List.append_nil _).symm (by simp) fun u r' hr' => .inl ?_
    rw [Db.row?_reapStale h] at hr'
    obtain ⟨r, hr, rfl⟩ := Option.map_eq_some_iff.1 hr'
    refine ⟨r, hr, ?_⟩
    split
    · rename_i hst
      rw [hst.2.1]
      split <;> rfl
    · rfl

theorem recorded_run {now : Nat} {partitions : List Nat}
    (run : Runs (step advisoryLockKey cfg) anyStep (start now partitions) s) : s.Followed cfg ∧ s.Recorded := by
  refine run.invariant (fun s => s.Followed cfg ∧ s.Recorded) ⟨followed_start now partitions, ?_⟩
    fun _ _ _ inv h _ => ⟨inv.1.step (stepped h), inv.2.step inv.1 (stepped h)⟩
  intro u r hr
  cases hr

/-! ## `FAILED_CONFIRMED` -/

end Deployment

/-- The attempt made no call, or its one call ended by its deadline or was to be retried. -/
def Facts.Undecided (f : Facts) : Prop :=
  f.calls = [] ∨ ∃ m e, f.calls = [.invoked m, .settled m (.error e)] ∧ Dispatcher.isRetryable e

theorem Ruled.undecided {op : ClaimedOperation} {f : Facts} {e : Io} {o : ResolutionOutcome} {current : Nat}
    (ruled : Ruled cfg op f o) (ho : e.outcome = some o) (open' : (Event.wrote e true current).resolution = none) :
    f.Undecided := by
  cases e <;> cases ho
  case finalize => cases open'
  case requeue =>
    rcases ruled with ⟨m, e, ⟨hcalls, -⟩, hretry, -⟩ | ⟨hcalls, -⟩
    · exact .inr ⟨m, e, hcalls, hretry⟩
    · exact .inl hcalls
  case deferForReadback =>
    obtain ⟨-, m, e, ⟨hcalls, -⟩, hdead, -⟩ := ruled
    refine .inr ⟨m, e, hcalls, ?_⟩
    unfold Dispatcher.isRetryable
    rw [hdead, Bool.true_or]

namespace Deployment

/-- **What `FAILED_CONFIRMED` says.** The attempt that finalized the operation made one call, the one
that the operation asks for, and took its error for final. Each write that was applied before came
from an attempt that was undecided. -/
theorem failed_confirmed_by_its_call {now : Nat} {partitions : List Nat}
    (run : Runs (step advisoryLockKey cfg) anyStep (start now partitions) s) {r : Row}
    (hr : s.db.row? u = some r) (hst : r.status = .final .failedConfirmed) :
    ∃ before ent after, s.log = before ++ ent :: after ∧ ent.row = u ∧
      ent.event.resolution = some .failedConfirmed ∧
      (∃ op m reply, op.Describes r ∧ (s.facts ent.key).called op m reply ∧ Refused r.opType reply) ∧
      ∀ ent' ∈ before, ent'.row = u → ∀ e current, ent'.event = .wrote e true current →
        (s.facts ent'.key).Undecided := by
  obtain ⟨followed, recorded⟩ := recorded_run run
  have hres := recorded u r hr
  rw [hst] at hres
  obtain ⟨before, ent, after, hlog, hent, hbefore⟩ := List.findSome?_eq_some_iff.1 hres.symm
  have hrow : ent.row = u := by
    by_contra hne
    rw [if_neg hne] at hent
    cases hent
  rw [if_pos hrow] at hent
  have admitted {ent : Entry} (hmem : ent ∈ s.log) (hrow : ent.row = u) {e : Io} {applied : Bool} {current : Nat}
      (hev : ent.event = .wrote e applied current) :
      ∃ op o, op.Describes r ∧ e.outcome = some o ∧ Ruled cfg op (s.facts ent.key) o := by
    obtain ⟨r', op, f, hr', hop, hallowed, hwrote⟩ := followed.admitted ent hmem e (by rw [hev]; rfl)
    obtain ⟨rfl, hout⟩ := hwrote (by rw [hev]; rfl)
    rw [hrow, hr] at hr'
    cases hr'
    obtain ⟨o, ho⟩ := Option.isSome_iff_exists.1 hout
    exact ⟨op, o, hop, ho, (protocol_write hop hallowed ho).2.2⟩
  refine ⟨before, ent, after, hlog, hrow, hent, ?_, fun ent' hent' hrow' e current hev => ?_⟩
  · unfold Event.resolution at hent
    split at hent
    · rename_i heq
      cases hent
      obtain ⟨op, o, hop, ho, hruled⟩ := admitted (hlog ▸ List.mem_append_right _ List.mem_cons_self) hrow heq
      cases ho
      obtain ⟨m, reply, hcalled, href⟩ := hruled
      exact ⟨op, m, reply, hop, hcalled, hop.opType ▸ href⟩
    · cases hent
  · obtain ⟨op, o, hop, ho, hruled⟩ := admitted (hlog ▸ List.mem_append_left _ hent') hrow' hev
    have hopen := hbefore ent' hent'
    rw [if_pos hrow', hev] at hopen
    exact hruled.undecided ho hopen

end Deployment

end Provisioning
