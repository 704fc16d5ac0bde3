import Mathlib.Data.List.Induction
import Provisioning.Ops.MissRule
import Provisioning.Ops.RetryBudget

/-!
# The retry that a miss earns

The allowance of the read-back is read off `attempt_count`, which every requeue increments. So the
first miss of a create is followed by a retry unless the backoff has requeued the create before.
-/

namespace Provisioning

open Lib

variable {advisoryLockKey : String → BitVec 64} {cfg : ResolvedDispatcherConfig}

/-! ## What a history says -/

def Event.isFinalized : Event → Bool
  | .wrote (.finalize ..) applied _ => applied
  | _ => false

def Event.isApplied : Event → Bool
  | .wrote _ applied _ => applied
  | _ => false

def Stage.after : Stage → Event → Stage
  | _, .wrote (.requeue _) true _ => .requeued
  | .requeued, .claimed _ => .claimed
  | g, .heard e x => g.hear e x
  | _, _ => .other

def stageOf (history : List Event) : Stage := history.foldl Stage.after .other

theorem stageOf_snoc (history : List Event) (ev : Event) :
    stageOf (history ++ [ev]) = (stageOf history).after ev := List.foldl_append

/-- Whether the event is on the way to the create. An attempt leaves the way when it dies, when its
claim is not delivered, and when it gets no lease or no configuration. -/
def Stage.leads : Stage → Event → Prop
  | .requeued, .claimed _ => True
  | .requeued, _ => False
  | g, .heard e _ => g.next e
  | .claimed, .wrote .. | .leased, .wrote .. | .configured, .wrote .. | .timed, .wrote .. => False
  | _, _ => True

/-- After every requeue the create is issued again. -/
def Reissues : Stage → List Event → Prop
  | _, [] => True
  | g, ev :: rest => g.leads ev ∧ Reissues (g.after ev) rest

theorem Reissues.append {g : Stage} {events more : List Event} :
    Reissues g (events ++ more) ↔ Reissues g events ∧ Reissues (events.foldl Stage.after g) more := by
  induction events generalizing g with
  | nil => simp [Reissues]
  | cons ev rest ih => simp [Reissues, ih, and_assoc]

/-- `P` holds of every event that comes right after a miss, with what was before the miss. -/
def AfterMiss (P : List Event → Event → Prop) (history : List Event) : Prop :=
  ∀ before miss ev after, history = before ++ miss :: ev :: after → miss.isMiss → P before ev

theorem AfterMiss.snoc {P : List Event → Event → Prop} {history : List Event} {ev : Event}
    (h : AfterMiss P history)
    (hnew : ∀ before miss, history = before ++ [miss] → miss.isMiss → P before ev) :
    AfterMiss P (history ++ [ev]) := by
  intro before miss ev' after heq hmiss
  rcases List.eq_nil_or_concat after with rfl | ⟨after', last, rfl⟩
  · have heq' : history ++ [ev] = (before ++ [miss]) ++ [ev'] := by simpa using heq
    obtain ⟨hinit, hlast⟩ := List.append_inj' heq' rfl
    cases hlast
    exact hnew before miss hinit hmiss
  · have heq' : history ++ [ev] = (before ++ miss :: ev' :: after') ++ [last] := by simpa using heq
    obtain ⟨hinit, -⟩ := List.append_inj' heq' rfl
    exact h before miss ev' after' hinit hmiss

/-- `AfterMiss`, computed. -/
def afterMiss (check : List Event → Event → Bool) (history : List Event) : Bool :=
  (List.range history.length).all fun i =>
    !history[i]?.any Event.isMiss || history[i + 1]?.all (check (history.take i))

theorem AfterMiss.of_check {P : List Event → Event → Prop} {check : List Event → Event → Bool}
    {history : List Event} (sound : ∀ before ev, check before ev → P before ev)
    (h : afterMiss check history) : AfterMiss P history := by
  rintro before miss ev after rfl hmiss
  have hi := List.all_eq_true.1 h before.length (List.mem_range.2 (by simp))
  have hnext : (before ++ miss :: ev :: after)[before.length + 1]? = some ev := by
    rw [List.getElem?_append_right (by omega)]
    simp
  rw [hnext] at hi
  simp [hmiss] at hi
  exact sound before ev hi

/-- The first miss of a create is followed by its requeue and then by a new create, and the second
one by the verdict. -/
structure MissesRetried (history : List Event) : Prop where
  first : ∀ before miss after, history = before ++ miss :: after → miss.isMiss →
    before.countP Event.isMiss = 0 →
      after = [] ∨ ∃ id current rest, after = .wrote (.requeue id) true current :: rest ∧ Reissues .requeued rest
  second : ∀ before miss after, history = before ++ miss :: after → miss.isMiss →
    before.countP Event.isMiss = 1 →
      after = [] ∨ ∃ id current, after = [.wrote (.finalize id .indeterminate none (some "READBACK_MISS")) true current]

/-- An attempt that has heard a miss neither dies nor loses its write. -/
def MissWritesApplied : List Event → Prop := AfterMiss fun _ ev => ev.isApplied

/-- No requeue comes before the first miss. -/
def FirstMissUnspent : List Event → Prop :=
  AfterMiss fun before _ => before.countP Event.isMiss = 0 → before.countP Event.isRequeued = 0

/-- The write after a miss is decided by the requeues so far. -/
def MissRuled : List Event → Prop :=
  AfterMiss fun before ev => ev = .died ∨
    ∃ id applied current, ev = .wrote (missWrite id (before.countP Event.isRequeued)) applied current

/-- Nothing follows the last write. -/
def Closed (history : List Event) : Prop :=
  ∀ before ev after, history = before ++ ev :: after → ev.isFinalized → after = []

theorem split_at_count {q : Event → Bool} {n : Nat} {events : List Event} (h : n < events.countP q) :
    ∃ before ev after, events = before ++ ev :: after ∧ q ev ∧ before.countP q = n := by
  induction events using List.reverseRecOn with
  | nil => simp at h
  | append_singleton events last ih =>
    by_cases hlt : n < events.countP q
    · obtain ⟨before, ev, after, rfl, hq, hcount⟩ := ih hlt
      exact ⟨before, ev, after ++ [last], by simp, hq, hcount⟩
    · rw [countP_snoc] at h
      have hle := Bool.toNat_le (q last)
      cases hq : q last with
      | false =>
        simp only [hq, Bool.toNat_false] at h
        omega
      | true => exact ⟨events, last, [], rfl, hq, by omega⟩

theorem requeued_between {history before after : List Event} {miss : Event}
    (first : ∀ before miss after, history = before ++ miss :: after → miss.isMiss →
      before.countP Event.isMiss = 0 →
        after = [] ∨ ∃ id current rest, after = .wrote (.requeue id) true current :: rest ∧
          Reissues .requeued rest)
    (heq : history = before ++ miss :: after) (hmiss : miss.isMiss) (hsecond : before.countP Event.isMiss = 1) :
    0 < before.countP Event.isRequeued := by
  obtain ⟨b, m, c, rfl, hm, hb⟩ := split_at_count (n := 0) (by omega : 0 < before.countP Event.isMiss)
  rcases first b m (c ++ miss :: after) (by simpa using heq) hm hb with h | ⟨id, current, rest, h, -⟩
  · simp at h
  · cases c with
    | nil =>
      obtain ⟨rfl, -⟩ := List.cons.inj h
      cases hmiss
    | cons ev c =>
      obtain ⟨rfl, -⟩ := List.cons.inj h
      refine List.countP_pos_iff.2 ⟨.wrote (.requeue id) true current, by simp, rfl⟩

theorem missWrite_of_pos {id : String} {n : Nat} (h : 0 < n) :
    missWrite id n = .finalize id .indeterminate none (some "READBACK_MISS") := if_neg (by omega)

/-- What comes right after a miss is the write that the rule asks for, applied. -/
theorem write_after_miss {history before after : List Event} {miss ev : Event} (ruled : MissRuled history)
    (applied : MissWritesApplied history) (heq : history = before ++ miss :: ev :: after) (hmiss : miss.isMiss) :
    ∃ id current, ev = .wrote (missWrite id (before.countP Event.isRequeued)) true current := by
  have happlied := applied before miss ev after heq hmiss
  rcases ruled before miss ev after heq hmiss with rfl | ⟨id, a, current, rfl⟩
  · cases happlied
  · obtain rfl : a = true := happlied
    exact ⟨id, current, rfl⟩

theorem misses_retried {history : List Event} (ruled : MissRuled history) (led : Reissues .other history)
    (closed : Closed history) (applied : MissWritesApplied history) (unspent : FirstMissUnspent history) :
    MissesRetried history := by
  have first : ∀ before miss after, history = before ++ miss :: after → miss.isMiss →
      before.countP Event.isMiss = 0 →
        after = [] ∨ ∃ id current rest, after = .wrote (.requeue id) true current :: rest ∧
          Reissues .requeued rest := by
    intro before miss after heq hmiss hfirst
    cases after with
    | nil => exact .inl rfl
    | cons ev rest =>
      obtain ⟨id, current, rfl⟩ := write_after_miss ruled applied heq hmiss
      rw [unspent before miss _ rest heq hmiss hfirst] at heq ⊢
      refine .inr ⟨id, current, rest, rfl, ?_⟩
      rw [heq, Reissues.append] at led
      exact led.2.2.2
  refine ⟨first, ?_⟩
  intro before miss after heq hmiss hsecond
  cases after with
  | nil => exact .inl rfl
  | cons ev rest =>
    obtain ⟨id, current, rfl⟩ := write_after_miss ruled applied heq hmiss
    have spent : 0 < before.countP Event.isRequeued := requeued_between first heq hmiss hsecond
    rw [missWrite_of_pos spent] at heq ⊢
    have hrest : rest = [] := closed (before ++ [miss]) _ rest (by simpa using heq) rfl
    exact .inr ⟨id, current, by rw [hrest]⟩

/-- The retry is the exact condition. -/
theorem misses_retried_iff {history : List Event} (ruled : MissRuled history) (led : Reissues .other history)
    (closed : Closed history) :
    MissesRetried history ↔ MissWritesApplied history ∧ FirstMissUnspent history := by
  refine ⟨fun retried => ⟨?_, ?_⟩, fun h => misses_retried ruled led closed h.1 h.2⟩
  · intro before miss ev after heq hmiss
    rcases Nat.lt_or_ge 1 (before.countP Event.isMiss) with hmore | hle
    · -- The second miss was before this one, and the verdict came right after it.
      obtain ⟨b, m, c, rfl, hm, hb⟩ := split_at_count hmore
      rcases retried.second b m (c ++ miss :: ev :: after) (by simpa using heq) hm hb with h | ⟨id, current, h⟩
      · simp at h
      · have hlength := congrArg List.length h
        simp only [List.length_append, List.length_cons, List.length_nil] at hlength
        omega
    · rcases Nat.le_one_iff_eq_zero_or_eq_one.1 hle with hzero | hone
      · rcases retried.first before miss _ heq hmiss hzero with h | ⟨id, current, rest, h, -⟩
        · cases h
        · cases h
          rfl
      · rcases retried.second before miss _ heq hmiss hone with h | ⟨id, current, h⟩
        · cases h
        · cases h
          rfl
  · intro before miss ev after heq hmiss hzero
    rcases retried.first before miss _ heq hmiss hzero with h | ⟨id, current, rest, h, -⟩
    · cases h
    · cases h
      rcases ruled before miss _ _ heq hmiss with h | ⟨id', applied, current', h⟩
      · cases h
      · by_contra hne
        rw [missWrite_of_pos (by omega)] at h
        cases h

/-! ## Steps of a life -/

theorem Stage.after_requeued {g : Stage} {ev : Event} (h : g.after ev = .requeued) :
    ∃ id current, ev = .wrote (.requeue id) true current := by
  unfold Stage.after at h
  split at h
  · exact ⟨_, _, rfl⟩
  · cases h
  · unfold Stage.hear at h
    split at h <;> cases h
  · cases h

@[simp] theorem Stage.after_heard (g : Stage) (e : Io) (x : e.Answer) : g.after (.heard e x) = g.hear e x := by
  cases g <;> rfl

theorem Stage.hear_missed {g : Stage} {e : Io} {x : e.Answer} :
    g.hear e x = .missed ↔ (Event.heard e x).isMiss := by
  cases e with
  | search =>
    rcases x with e | _ | ⟨o, rest⟩ <;> cases g <;> simp [Stage.hear, Event.isMiss]
  | acquire => cases x <;> cases g <;> simp [Stage.hear, Event.isMiss]
  | configOf => rcases x with e | _ | c <;> cases g <;> simp [Stage.hear, Event.isMiss]
  | _ => cases g <;> simp [Stage.hear, Event.isMiss]

theorem Stage.after_missed {g : Stage} {ev : Event} (h : g.after ev = .missed) : ev.isMiss := by
  unfold Stage.after at h
  split at h
  · cases h
  · cases h
  · exact hear_missed.1 h
  · cases h

theorem Stage.after_of_isMiss {g : Stage} {ev : Event} (h : ev.isMiss) : g.after ev = .missed := by
  cases ev with
  | heard e x => rw [after_heard, hear_missed, h]
  | _ => cases h

namespace Life

structure Retries (l : Life) : Prop where
  /-- After a requeue the row is `PENDING`. -/
  requeued : stageOf l.history = .requeued → ∃ r, l.row = some r ∧ r.status = .live .pending
  /-- A miss is the last thing that its attempt has heard. -/
  missed : stageOf l.history = .missed → l.live.isSome
  /-- After the last write the row is terminal. -/
  finalized : (∃ before ev, l.history = before ++ [ev] ∧ ev.isFinalized) →
    ∃ r outcome, l.row = some r ∧ r.status = .final outcome
  closed : Closed l.history
  ruled : MissRuled l.history
  led : ∀ r, l.row = some r → r.opType = .create → Reissues .other l.history

/-- What a monitored attempt adds to a history. -/
def EventRuled (l t : Life) : Prop :=
  ∀ ev, t.history = l.history ++ [ev] → ∀ e, ev.effect = some e →
    (ev.isWrote → e.outcome.isSome) ∧
      ∃ op f, l.live = some (op, f) ∧ (missRule op).allows (stageOf l.history) e

variable {l t : Life} {ev : Event} {r : Row}

theorem Retries.snoc (inv : l.Retries) {p : OperationPendingStatus} (hr : l.row = some r)
    (status : r.status = .live p) (hhistory : t.history = l.history ++ [ev])
    (same : ∀ r', t.row = some r' → r'.opType = r.opType)
    (requeued : ∀ id current, ev = .wrote (.requeue id) true current →
      ∃ r, t.row = some r ∧ r.status = .live .pending)
    (missed : ev.isMiss → t.live.isSome)
    (finalized : ev.isFinalized → ∃ r outcome, t.row = some r ∧ r.status = .final outcome)
    (ruled : stageOf l.history = .missed → ev = .died ∨
      ∃ id applied current, ev = .wrote (missWrite id (l.history.countP Event.isRequeued)) applied current)
    (led : r.opType = .create → (stageOf l.history).leads ev) : t.Retries where
  requeued hst := by
    rw [hhistory, stageOf_snoc] at hst
    obtain ⟨id, current, rfl⟩ := Stage.after_requeued hst
    exact requeued id current rfl
  missed hst := by
    rw [hhistory, stageOf_snoc] at hst
    exact missed (Stage.after_missed hst)
  finalized := by
    rintro ⟨before, ev', heq, hfinal⟩
    obtain ⟨-, hlast⟩ := List.append_inj' (hhistory.symm.trans heq) rfl
    cases hlast
    exact finalized hfinal
  closed := by
    intro before ev' after heq hfinal
    rw [hhistory] at heq
    rcases List.eq_nil_or_concat after with rfl | ⟨after', last, rfl⟩
    · rfl
    · have heq' : l.history ++ [ev] = (before ++ ev' :: after') ++ [last] := by simpa using heq
      obtain ⟨hinit, -⟩ := List.append_inj' heq' rfl
      obtain rfl := inv.closed before ev' after' hinit hfinal
      obtain ⟨r', outcome, hr', hterminal⟩ := inv.finalized ⟨before, ev', hinit, hfinal⟩
      obtain rfl := Option.some.inj (hr.symm.trans hr')
      rw [status] at hterminal
      cases hterminal
  ruled := by
    rw [hhistory]
    refine inv.ruled.snoc fun before miss hinit hmiss => ?_
    have hquiet : miss.isRequeued = false := by
      cases miss with
      | heard => rfl
      | _ => cases hmiss
    have hcount : l.history.countP Event.isRequeued = before.countP Event.isRequeued := by
      rw [hinit, countP_snoc, hquiet]
      rfl
    rw [← hcount]
    refine ruled ?_
    rw [hinit, stageOf_snoc]
    exact Stage.after_of_isMiss hmiss
  led r' hr' hop := by
    have hop' : r.opType = .create := (same r' hr').symm.trans hop
    rw [hhistory, Reissues.append]
    exact ⟨inv.led r hr hop', led hop', trivial⟩

theorem Stage.leads_of_next {g : Stage} {e : Io} (hev : ev.effect = some e) (hne : g ≠ .requeued)
    (hwrite : ev.isWrote → e.outcome.isSome) (hnext : g.next e) : g.leads ev := by
  cases ev with
  | heard e' x =>
    cases hev
    cases g <;> first | exact absurd rfl hne | exact hnext
  | wrote e' applied current =>
    cases hev
    have hout := hwrite rfl
    -- No write is on the way to a create.
    cases e <;> cases hout <;> cases g <;> first | exact absurd rfl hne | exact hnext
  | claimed | died => cases hev

theorem Retries.step (inv : l.Retries) (coherent : l.Coherent) (ruled : l.EventRuled t) {act : LifeAction}
    (h : Step cfg l act t)
    (counted : ∀ r, l.row = some r → r.attemptCount = l.history.countP Event.isRequeued) : t.Retries := by
  have held {op : ClaimedOperation} {f : Facts} (hl : l.live = some (op, f)) :
      ∃ r, l.row = some r ∧ r.status = .live .running ∧ op.opType = r.opType ∧
        op.attemptCount = l.history.countP Event.isRequeued := by
    obtain ⟨r, p, now, hr, rfl, -⟩ := coherent.live op f hl
    exact ⟨r.claimed now, hr, rfl, rfl, counted (r.claimed now) hr⟩
  have busy {r : Row} (hr : l.row = some r) (running : r.status = .live .running) : stageOf l.history ≠ .requeued := by
    intro hst
    obtain ⟨r', hr', pending⟩ := inv.requeued hst
    obtain rfl := Option.some.inj (hr.symm.trans hr')
    rw [running] at pending
    cases pending
  -- After a miss there is the write that it decides.
  have written {e : Io} {applied : Bool} {current : Nat}
      (hhistory : t.history = l.history ++ [.wrote e applied current]) :
      stageOf l.history = .missed → Event.wrote e applied current = .died ∨
        ∃ id applied' current', Event.wrote e applied current =
          .wrote (missWrite id (l.history.countP Event.isRequeued)) applied' current' := by
    intro hst
    obtain ⟨-, op, f, hl, allowed, -⟩ := ruled _ hhistory e rfl
    obtain ⟨r, -, -, -, hcount⟩ := held hl
    rw [allowed hst, hcount]
    exact .inr ⟨op.id, applied, current, rfl⟩
  have led {ev : Event} {e : Io} {r : Row} (hhistory : t.history = l.history ++ [ev]) (hev : ev.effect = some e)
      (hr : l.row = some r) (running : r.status = .live .running) :
      r.opType = .create → (stageOf l.history).leads ev := by
    intro hop
    obtain ⟨hwrite, op, f, hl, -, hnext⟩ := ruled ev hhistory e hev
    obtain ⟨r', hr', -, hsame, -⟩ := held hl
    obtain rfl := Option.some.inj (hr.symm.trans hr')
    exact Stage.leads_of_next hev (busy hr running) hwrite (hnext (hsame.trans hop))
  cases h with
  | idle => exact inv
  | entered absent status =>
    have hempty := coherent.absent absent
    refine ⟨?_, ?_, ?_, ?_, ?_, ?_⟩ <;> simp [hempty, stageOf, Closed, MissRuled, AfterMiss, Reissues]
  | @claimed r p now proc delivered hr status waiting free =>
    refine inv.snoc hr status rfl ?_ (by simp) (by simp [Event.isMiss]) (by simp [Event.isFinalized]) (fun hst => ?_)
      fun _ => ?_
    · rintro r' ⟨⟩
      rfl
    · have hlive := inv.missed hst
      rw [free] at hlive
      cases hlive
    · cases stageOf l.history <;> trivial
  | @heard op f e x hl allowed quiet =>
    obtain ⟨r, hr, running, -⟩ := held hl
    refine inv.snoc hr running rfl ?_ (by simp) (fun _ => rfl) (by simp [Event.isFinalized]) (fun hst => ?_)
      (led rfl rfl hr running)
    · intro r' hr'
      rw [Option.some.inj (hr.symm.trans hr')]
    · obtain ⟨-, op', f', -, hwrite, -⟩ := ruled _ rfl e rfl
      have houtcome : e.outcome.isSome := by
        rw [hwrite hst]
        unfold missWrite
        split <;> rfl
      rw [quiet] at houtcome
      cases houtcome
  | @wrote op f r e o began current hl hr ho _ =>
    obtain ⟨r', hr', running, -⟩ := held hl
    obtain rfl := Option.some.inj (hr.symm.trans hr')
    refine inv.snoc hr running rfl ?_ ?_ (by simp [Event.isMiss]) (fun hfinal => ?_) (written rfl)
      (led rfl rfl hr running)
    · rintro r' ⟨⟩
      exact (Io.change_write e began r).sameOperation.opType
    · rintro id current' h
      cases h
      exact ⟨_, rfl, by simp [Io.write, running, Row.requeued]⟩
    · cases e <;> simp only [Event.isFinalized, Bool.false_eq_true] at hfinal
      case finalize id outcome result errorCode =>
        exact ⟨_, outcome, rfl, by simp [Io.write, running, OperationStatus.terminal, Row.finalized]⟩
  | @writeLost op f e current hl =>
    obtain ⟨r, hr, running, -⟩ := held hl
    refine inv.snoc hr running rfl ?_ (by simp) (by simp [Event.isMiss]) (fun hfinal => ?_) (written rfl)
      (led rfl rfl hr running)
    · intro r' hr'
      rw [Option.some.inj (hr.symm.trans hr')]
    · cases e <;> cases hfinal
  | died hl =>
    obtain ⟨r, hr, running, -⟩ := held hl
    refine inv.snoc hr running rfl ?_ (by simp) (by simp [Event.isMiss]) (by simp [Event.isFinalized])
      (fun _ => .inl rfl) fun _ => ?_
    · intro r' hr'
      rw [Option.some.inj (hr.symm.trans hr')]
    · have hne := busy hr running
      cases hg : stageOf l.history <;> first | exact absurd hg hne | trivial
  | @reaped r notBefore hr running free =>
    refine ⟨fun hst => absurd hst (busy hr running), fun hst => inv.missed hst, ?_, inv.closed, inv.ruled, ?_⟩
    · intro hfinal
      obtain ⟨r', outcome, hr', hterminal⟩ := inv.finalized hfinal
      obtain rfl := Option.some.inj (hr.symm.trans hr')
      rw [running] at hterminal
      cases hterminal
    · rintro r' ⟨⟩ hop
      refine inv.led r hr ?_
      split at hop
      · assumption
      · exact hop

end Life

/-! ## Steps of the deployment -/

namespace Deployment

variable {s s' : Deployment} {a : Action}

/-- Each live attempt is where its history says. -/
def Staged (s : Deployment) : Prop :=
  ∀ att ∈ s.attempts, Prog.Safe (missRule att.op) (fun _ _ => True) (stageOf (s.life att.row).history) att.prog

theorem life_history_other {more : List Entry} {u : Uuid} (hlog : s'.log = s.log ++ more)
    (hmore : ∀ ent ∈ more, ent.row ≠ u) : (s'.life u).history = (s.life u).history := by
  have hnone : more.filter (fun ent => ent.row = u) = [] :=
    List.filter_eq_nil_iff.2 fun ent hent => by simpa using hmore ent hent
  rw [life_history_append hlog, hnone, List.map_nil, List.append_nil]

theorem logged_of_gained {more : List Entry} {u : Uuid} {ev : Event} (hlog : s'.log = s.log ++ more)
    (hgained : (s'.life u).history = (s.life u).history ++ [ev]) : ∃ ent ∈ more, ent.row = u ∧ ent.event = ev := by
  rw [life_history_append hlog, List.append_cancel_left_eq] at hgained
  have hmem : ev ∈ (more.filter fun ent => ent.row = u).map Entry.event := by simp [hgained]
  obtain ⟨ent, hent, rfl⟩ := List.mem_map.1 hmem
  obtain ⟨hent, hrow⟩ := List.mem_filter.1 hent
  exact ⟨ent, hent, by simpa using hrow, rfl⟩

theorem Stepped.event_ruled (h : Stepped advisoryLockKey cfg s a s') (held : s.Held) (staged : s.Staged) (u : Uuid) :
    (s.life u).EventRuled (s'.life u) := by
  intro ev hgained e he
  have asked {before after : List Attempt} {att : Attempt} {k : e.Answer → Prog Dispatch (Except Failure Unit)}
      (split : s.attempts = before ++ att :: after) (asks : att.prog = .await e k) (hrow : att.row = u) :
      ∃ op f, (s.life u).live = some (op, f) ∧ (missRule op).allows (stageOf (s.life u).history) e := by
    subst hrow
    have hatt : att ∈ s.attempts := split ▸ List.mem_append_right _ List.mem_cons_self
    have safe := staged att hatt
    rw [asks] at safe
    exact ⟨att.op, _, life_live held hatt, safe.allowed⟩
  cases h with
  | database | reaped =>
    have heq : (s.life u).history = (s.life u).history ++ [ev] := hgained
    simp at heq
  | committed =>
    obtain ⟨ent, hent, -, rfl⟩ := logged_of_gained rfl hgained
    rw [(mem_newEntries hent).2.2] at he
    cases he
  | replied _ split asks =>
    obtain ⟨ent, hent, hrow, rfl⟩ := logged_of_gained rfl hgained
    obtain rfl := List.mem_singleton.1 hent
    cases he
    exact ⟨fun h => (by cases h), asked split asks hrow⟩
  | wrote _ split asks statement =>
    obtain ⟨ent, hent, hrow, rfl⟩ := logged_of_gained rfl hgained
    obtain rfl := List.mem_singleton.1 hent
    cases he
    exact ⟨fun _ => Io.outcome_of_statement statement, asked split asks hrow⟩
  | writeLost _ split asks statement =>
    obtain ⟨ent, hent, hrow, rfl⟩ := logged_of_gained rfl hgained
    obtain rfl := List.mem_singleton.1 hent
    cases he
    exact ⟨fun _ => Io.outcome_of_statement statement, asked split asks hrow⟩
  | died proc =>
    have hlog : (s.die proc).log = s.log ++
        (s.attempts.filter fun att => att.proc = proc).map fun att => ⟨att.row, att.claim, .died⟩ := rfl
    obtain ⟨ent, hent, -, rfl⟩ := logged_of_gained hlog hgained
    obtain ⟨att, -, rfl⟩ := List.mem_map.1 hent
    cases he

theorem Staged.kept (staged : s.Staged) {att : Attempt} (hatt : att ∈ s.attempts)
    (hsame : (s'.life att.row).history = (s.life att.row).history) :
    Prog.Safe (missRule att.op) (fun _ _ => True) (stageOf (s'.life att.row).history) att.prog := by
  rw [hsame]
  exact staged att hatt

theorem Staged.committed (staged : s.Staged) (followed : s.Followed cfg) (held : s.Held)
    (retries : ∀ u, (s.life u).Retries) {sid : Nat} {c : ClaimStatement} {delivered : Bool}
    (hdb : s'.db = (s.db.claimLocked sid c.snapshot.now).endClaim sid)
    (hatts : s'.attempts = s.attempts ++ if delivered then (s.db.returned sid).map (s.newAttempt cfg c) else [])
    (hlog : s'.log = s.log ++ (s.db.returned sid).map (s.newEntry c)) : s'.Staged := by
  intro att hatt
  rw [hatts] at hatt
  rcases List.mem_append.1 hatt with hatt | hatt
  · refine staged.kept hatt (life_history_other hlog fun ent hent heq => ?_)
    have hin := (mem_newEntries hent).1
    rw [heq] at hin
    have free := life_free held followed.wf hin
    rw [lookup_of_mem held.rows hatt] at free
    cases free
  · cases delivered with
    | false => cases hatt
    | true =>
      obtain ⟨⟨r, p⟩, hr, rfl⟩ := List.mem_map.1 hatt
      have hhistory : (s'.life r.id).history = (s.life r.id).history ++ [.claimed c.caller] :=
        congrArg Life.history (life_claimed followed held hdb hatts hlog hr)
      obtain ⟨hrow, status, -⟩ := Db.returned_lockable followed.wf hr
      refine Dispatcher.execute_missRule ?_
      change stageOf (s'.life r.id).history = .other ∨ stageOf (s'.life r.id).history = .claimed ∧ p ≠ .awaitingReadback
      rw [hhistory, stageOf_snoc]
      cases hst : stageOf (s.life r.id).history with
      | requeued =>
        obtain ⟨r', hr', pending⟩ := (retries r.id).requeued hst
        obtain rfl := Option.some.inj (hrow.symm.trans hr')
        obtain rfl := OperationStatus.live.inj (status.symm.trans pending)
        exact .inr ⟨rfl, by simp⟩
      | _ => exact .inl rfl

theorem Staged.other (staged : s.Staged) (held : s.Held) {before after : List Attempt} {att att' : Attempt}
    {ev : Event} (split : s.attempts = before ++ att :: after) (hatt' : att' ∈ before ++ after)
    (hlog : s'.log = s.log ++ [⟨att.row, att.claim, ev⟩]) :
    Prog.Safe (missRule att'.op) (fun _ _ => True) (stageOf (s'.life att'.row).history) att'.prog := by
  have hn := held.rows
  rw [split, List.map_append, List.map_cons, List.nodup_middle, List.nodup_cons, ← List.map_append] at hn
  refine staged.kept (split ▸ (by simp at hatt' ⊢; tauto)) (life_history_other hlog fun ent hent heq => ?_)
  rw [List.mem_singleton.1 hent] at heq
  have hrow : att.row = att'.row := heq
  exact hn.1 (hrow ▸ List.mem_map_of_mem hatt')

theorem Staged.replied (staged : s.Staged) (held : s.Held) {before after : List Attempt} {att : Attempt} {e : Io}
    {k : e.Answer → Prog Dispatch (Except Failure Unit)} {x : e.Answer}
    (split : s.attempts = before ++ att :: after) (asks : att.prog = .await e k)
    (hatts : s'.attempts = before ++ { att with prog := k x } :: after)
    (hlog : s'.log = s.log ++ [⟨att.row, att.claim, .heard e x⟩]) : s'.Staged := by
  intro att' hatt'
  rw [hatts, List.mem_append, List.mem_cons] at hatt'
  rcases hatt' with h | rfl | h
  · exact staged.other held split (List.mem_append_left _ h) hlog
  · have safe := staged att (split ▸ List.mem_append_right _ List.mem_cons_self)
    rw [asks] at safe
    have hown := life_own (u := att.row) rfl hlog
    change Prog.Safe _ _ (stageOf (s'.life att.row).history) (k x)
    rw [hown, stageOf_snoc, Stage.after_heard]
    exact safe.resume x trivial
  · exact staged.other held split (List.mem_append_right _ h) hlog

theorem Staged.step (staged : s.Staged) (followed : s.Followed cfg) (held : s.Held)
    (retries : ∀ u, (s.life u).Retries) (h : Stepped advisoryLockKey cfg s a s') : s'.Staged := by
  cases h with
  | database | reaped => exact fun att hatt => staged.kept hatt rfl
  | committed => exact staged.committed followed held retries rfl rfl rfl
  | replied _ split asks => exact staged.replied held split asks rfl rfl
  | wrote _ split | writeLost _ split => exact fun att' hatt' => staged.other held split hatt' rfl
  | died proc =>
    intro att hatt
    obtain ⟨hatt, hproc⟩ := List.mem_filter.1 hatt
    refine staged.kept hatt ?_
    have hlife := congrArg Life.history (life_die held proc att.row)
    have hother : att.proc ≠ proc := by simpa using hproc
    rw [lookup_of_mem held.rows hatt] at hlife
    simpa [Option.filter, hother] using hlife

end Deployment

/-! ## The result -/

namespace ReapedDeployment

variable {w : ReapedDeployment}

theorem of_run {now : Nat} {partitions : List Nat} {s : Deployment}
    (run : Runs (Deployment.step advisoryLockKey cfg) (Deployment.staysTimely cfg)
      (Deployment.start now partitions) s) :
    ∃ w, Runs (step advisoryLockKey cfg) (staysTimely cfg) (start now partitions) w ∧ s = w.deployment := by
  refine run.simulated (R := fun (s : Deployment) (w : ReapedDeployment) => s = w.deployment) rfl ?_
  rintro s a s' w rfl taken timely
  have hstep : w.step advisoryLockKey cfg a =
      some ⟨s', fun u => if a.reaps cfg w.deployment u then w.reaps u + 1 else w.reaps u⟩ := by
    rw [step, taken]
    rfl
  exact ⟨_, Runs.start.next hstep timely, rfl⟩

theorem retries_run {now : Nat} {partitions : List Nat}
    (run : Runs (step advisoryLockKey cfg) (staysTimely cfg) (start now partitions) w) :
    (∀ u, (w.deployment.life u).Retries) ∧ w.deployment.Staged := by
  induction run with
  | start =>
    refine ⟨fun u => ?_, fun att hatt => by cases hatt⟩
    rw [start, Deployment.life_start]
    refine ⟨?_, ?_, ?_, ?_, ?_, ?_⟩ <;> simp [stageOf, Closed, MissRuled, AfterMiss]
  | @next w w' a run taken timely ih =>
    obtain ⟨followed, held, lives⟩ := budgeted_run run
    obtain ⟨d, hd, rfl⟩ := Option.map_eq_some_iff.1 taken
    have hstep := Deployment.stepped hd
    refine ⟨fun u => ?_, ih.2.step followed held ih.1 hstep⟩
    obtain ⟨act, hlife, -⟩ := hstep.life_step followed held timely u
    exact (ih.1 u).step (lives u).1 (hstep.event_ruled held ih.2 u) hlife (lives u).2.counted

end ReapedDeployment

namespace Deployment

variable {s : Deployment}

/-- **The first miss earns a retry exactly when nothing was retried before.** -/
theorem misses_retried_run {now : Nat} {partitions : List Nat}
    (run : Runs (step advisoryLockKey cfg) (staysTimely cfg) (start now partitions) s) {u : Uuid} {r : Row}
    (hr : s.db.row? u = some r) (create : r.opType = .create) :
    MissesRetried (s.life u).history ↔
      MissWritesApplied (s.life u).history ∧ FirstMissUnspent (s.life u).history := by
  obtain ⟨w, reaped, rfl⟩ := ReapedDeployment.of_run run
  have retries := (ReapedDeployment.retries_run reaped).1 u
  exact misses_retried_iff retries.ruled (retries.led r hr create) retries.closed

def readBackCapable : ConnectorCapabilities := ⟨true, false, true⟩

/-- An attempt on the create that ends by its deadline and is parked, at this time. -/
def parked (sid now : Nat) : List Action :=
  claimedBy 1 sid 7 ++
    replied 0 [.lease (.ok ()), .config (.ok (some someRuntime)), .time now, .done,
      .settled (.error (.deadlineExpired "late")), .capabilities readBackCapable, .time now] ++
    [.write 0 (some now), .database (.tick 32000)]

def readBack (sid now : Nat) : List Action :=
  claimedBy 1 sid 7 ++
    replied 0 [.lease (.ok ()), .config (.ok (some someRuntime)), .schema (.ok ⟨[]⟩), .time now, .found (.ok [])] ++
    [.write 0 (some now)]

def missedTwice : List Action :=
  submitted 1 (request .create) 7 ++ parked 1 0 ++ readBack 2 32000 ++ parked 3 32000 ++ readBack 4 64000

theorem misses_retried_missedTwice :
    ∃ s r, exec (step (fun _ => 0) .DEFAULTS) (staysTimely .DEFAULTS) (start 0 [0]) missedTwice = some s ∧
      s.db.row? 7 = some r ∧ r.opType = .create ∧ (s.life 7).history.countP Event.isMiss = 2 ∧
      MissesRetried (s.life 7).history := by
  have h : (exec (step (fun _ => 0) .DEFAULTS) (staysTimely .DEFAULTS) (start 0 [0]) missedTwice).any fun s =>
      ((s.db.row? 7).any fun r => r.opType = .create) ∧ (s.life 7).history.countP Event.isMiss = 2 ∧
        afterMiss (fun _ ev => ev.isApplied) (s.life 7).history ∧
        afterMiss (fun before _ => decide (before.countP Event.isMiss = 0 → before.countP Event.isRequeued = 0))
          (s.life 7).history := by
    decide
  obtain ⟨s, hs, h⟩ := (Option.any_eq_true _ _).1 h
  simp only [decide_eq_true_eq] at h
  obtain ⟨hrow, htwo, happlied, hunspent⟩ := h
  obtain ⟨r, hr, hop⟩ := (Option.any_eq_true _ _).1 hrow
  simp only [decide_eq_true_eq] at hop
  have applied : MissWritesApplied (s.life 7).history := AfterMiss.of_check (fun _ _ h => h) happlied
  have unspent : FirstMissUnspent (s.life 7).history :=
    AfterMiss.of_check (fun _ _ h => of_decide_eq_true h) hunspent
  exact ⟨s, r, hs, hr, hop, htwo, (misses_retried_run (runs_of_exec hs) hr hop).2 ⟨applied, unspent⟩⟩

/-- The create is told to retry before it ends by its deadline. -/
def retriedThenMissed : List Action :=
  submitted 1 (request .create) 7 ++ claimedBy 1 1 7 ++
    replied 0 [.lease (.ok ()), .config (.ok (some someRuntime)), .time 0, .done,
      .settled (.error (.connector .connectionFailed true "reset")), .time 0, .done] ++
    [.write 0 (some 0)] ++ parked 2 0 ++ readBack 3 32000

/-- The first miss is already the last. -/
theorem retriedThenMissed_given_up :
    ∃ s r, exec (step (fun _ => 0) .DEFAULTS) (staysTimely .DEFAULTS) (start 0 [0]) retriedThenMissed = some s ∧
      s.db.row? 7 = some r ∧ r.opType = .create ∧ MissWritesApplied (s.life 7).history ∧
      r.status = .final .indeterminate ∧ ¬ MissesRetried (s.life 7).history := by
  have h : (exec (step (fun _ => 0) .DEFAULTS) (staysTimely .DEFAULTS) (start 0 [0]) retriedThenMissed).any fun s =>
      ((s.db.row? 7).any fun r => r.opType = .create ∧ r.status = .final .indeterminate) ∧
        afterMiss (fun _ ev => ev.isApplied) (s.life 7).history ∧
        ((s.life 7).history[23]?.any fun ev => ev.isMiss) ∧
        ((s.life 7).history.take 23).countP Event.isMiss = 0 ∧
        ((s.life 7).history[24]?.any fun ev => !ev.isRequeued) := by
    decide
  obtain ⟨s, hs, h⟩ := (Option.any_eq_true _ _).1 h
  simp only [decide_eq_true_eq] at h
  obtain ⟨hrow, happlied, hmiss, hfirst, hnext⟩ := h
  obtain ⟨r, hr, hstate⟩ := (Option.any_eq_true _ _).1 hrow
  simp only [decide_eq_true_eq] at hstate
  obtain ⟨miss, hat, hmiss⟩ := (Option.any_eq_true _ _).1 hmiss
  obtain ⟨next, hafter, hnext⟩ := (Option.any_eq_true _ _).1 hnext
  refine ⟨s, r, hs, hr, hstate.1, AfterMiss.of_check (fun _ _ h => h) happlied, hstate.2, fun retried => ?_⟩
  have hdrop : ((s.life 7).history.drop 24)[0]? = some next := by rwa [List.getElem?_drop]
  rcases retried.first _ miss _ (split_at hat) hmiss hfirst with h | ⟨id, current, rest, h, -⟩
  · rw [h] at hdrop
    cases hdrop
  · rw [h] at hdrop
    cases hdrop
    cases hnext

end Deployment

end Provisioning
