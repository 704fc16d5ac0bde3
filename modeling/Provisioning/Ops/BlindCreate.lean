import Provisioning.Ops.Life

/-!
# A create whose outcome is unknown

What the target may have done with the last create is followed along the history of the operation.
While that is unknown, the status of the row keeps every attempt from creating again.
-/

namespace Provisioning

open Lib

variable {advisoryLockKey : String → BitVec 64} {cfg : ResolvedDispatcherConfig}

/-! ## What a history says -/

def Event.isCreate : Event → Bool
  | .heard (.invoke (.create ..)) _ => true
  | _ => false

/-- A read-back search that found nothing. -/
def Event.isMiss : Event → Bool
  | .heard (.search ..) (.ok []) => true
  | _ => false

/-- How a call ended, from what happened after it: by its deadline or with its process. -/
def endedUnknown : List Event → Bool
  | [] => false
  | .heard (.settle _) (.error e) :: _ => e.isDeadlineExpired
  | .heard (.settle _) (.ok _) :: _ => false
  | .died :: _ => true
  | _ :: rest => endedUnknown rest

/-- Whether the target may still have the effect of a create that nobody accounts for. -/
inductive Footing where
  | clear
  | inFlight
  | unknown
  deriving DecidableEq

def Footing.after : Footing → Event → Footing
  | _, .heard (.invoke (.create ..)) _ => .inFlight
  | .inFlight, .heard (.settle _) (.error e) => if e.isDeadlineExpired then .unknown else .clear
  | .inFlight, .heard (.settle _) (.ok _) => .clear
  | .inFlight, .died => .unknown
  | _, .heard (.search ..) (.ok []) => .clear
  | g, _ => g

def footing (history : List Event) : Footing := history.foldl Footing.after .clear

theorem footing_append (history more : List Event) :
    footing (history ++ more) = more.foldl Footing.after (footing history) := List.foldl_append

theorem footing_snoc (history : List Event) (ev : Event) :
    footing (history ++ [ev]) = (footing history).after ev := footing_append history [ev]

theorem miss_of_unknown {events : List Event} (calm : ∀ ev ∈ events, ev.isCreate = false)
    (h : events.foldl Footing.after .unknown = .clear) : ∃ ev ∈ events, ev.isMiss := by
  induction events with
  | nil => cases h
  | cons ev rest ih =>
    by_cases hmiss : ev.isMiss
    · exact ⟨ev, List.mem_cons_self, hmiss⟩
    · have hsame : Footing.after .unknown ev = .unknown := by
        have hcalm := calm ev List.mem_cons_self
        unfold Footing.after
        split <;> simp_all [Event.isCreate, Event.isMiss]
      rw [List.foldl_cons, hsame] at h
      obtain ⟨ev', hev', hm⟩ := ih (fun ev' h' => calm ev' (List.mem_cons_of_mem _ h')) h
      exact ⟨ev', List.mem_cons_of_mem _ hev', hm⟩

theorem miss_of_inFlight {events : List Event} (calm : ∀ ev ∈ events, ev.isCreate = false)
    (ended : endedUnknown events) (h : events.foldl Footing.after .inFlight = .clear) :
    ∃ ev ∈ events, ev.isMiss := by
  induction events with
  | nil => cases h
  | cons ev rest ih =>
    have hrest : ∀ ev' ∈ rest, ev'.isCreate = false := fun ev' h' => calm ev' (List.mem_cons_of_mem _ h')
    have later (h : ∃ ev ∈ rest, ev.isMiss) : ∃ ev' ∈ ev :: rest, ev'.isMiss :=
      h.imp fun ev' h' => ⟨List.mem_cons_of_mem _ h'.1, h'.2⟩
    rw [List.foldl_cons] at h
    by_cases hmiss : ev.isMiss
    · exact ⟨ev, List.mem_cons_self, hmiss⟩
    · have hcalm := calm ev List.mem_cons_self
      unfold endedUnknown at ended
      split at ended
      · rename_i heq
        cases heq
      · rename_i heq
        cases heq
        simp only [Footing.after, ended, if_true] at h
        exact later (miss_of_unknown hrest h)
      · cases ended
      · rename_i heq
        cases heq
        exact later (miss_of_unknown hrest h)
      · rename_i hnotError hnotOk hnotDied heq
        cases heq
        have hsame : Footing.after .inFlight ev = .inFlight := by
          unfold Footing.after
          split
          · cases hcalm
          · exact absurd rfl (hnotError _ _)
          · exact absurd rfl (hnotOk _ _)
          · exact absurd rfl hnotDied
          · exact absurd rfl hmiss
          · rfl
        rw [hsame] at h
        exact later (ih hrest ended h)

/-! ## The invariant -/

/-- The effects that neither change the target nor search it. -/
def Io.isPlain : Io → Bool
  | .invoke _ | .settle _ | .search .. => false
  | _ => true

theorem Facts.hear_plain {e : Io} (h : e.isPlain) (f : Facts) (x : e.Answer) :
    (f.hear e x).calls = f.calls ∧ (f.hear e x).found = f.found := by
  cases e <;> try exact ⟨rfl, rfl⟩
  case configOf => cases x <;> exact ⟨rfl, rfl⟩
  all_goals cases h

theorem Footing.after_plain {e : Io} (h : e.isPlain) (g : Footing) (x : e.Answer) :
    g.after (.heard e x) = g := by
  cases e <;> cases g <;> first | rfl | cases h

/-- What the facts of an attempt at a create say about the last create of its operation. -/
structure Footing.Fits (g : Footing) (op : ClaimedOperation) (f : Facts) : Prop where
  fresh : f.calls = [] → op.priorStatus ≠ .awaitingReadback → g = .clear
  called : ∀ m, f.calls = [.invoked m] → g = .inFlight
  answered : ∀ m e, f.calls = [.invoked m, .settled m (.error e)] → ¬ e.isDeadlineExpired → g = .clear
  missed : f.calls = [] → f.found = some (.ok []) → g = .clear

theorem Footing.Fits.heard {g : Footing} {op : ClaimedOperation} {f : Facts} (h : g.Fits op f)
    (hcreate : op.opType = .create) {e : Io} (allowed : (protocol cfg op).allows f e) (x : e.Answer) :
    (g.after (.heard e x)).Fits op (f.hear e x) := by
  by_cases hplain : e.isPlain
  · obtain ⟨hcalls, hfound⟩ := Facts.hear_plain hplain f x
    rw [Footing.after_plain hplain]
    exact ⟨hcalls ▸ h.fresh, hcalls ▸ h.called, hcalls ▸ h.answered, by rw [hcalls, hfound]; exact h.missed⟩
  · cases e with
    | invoke m =>
      obtain ⟨-, hcalls, -, hfits⟩ := allowed
      have hcalls' : (f.hear (.invoke m) x).calls = [.invoked m] := by simp [Facts.hear, hcalls]
      cases m with
      | create => refine ⟨?_, fun _ _ => rfl, ?_, ?_⟩ <;> simp [hcalls']
      | _ => simp [Mutation.fits, hcreate] at hfits
    | settle m =>
      obtain ⟨-, hcalls⟩ := allowed
      have hcalls' : (f.hear (.settle m) x).calls = [.invoked m, .settled m x] := by simp [Facts.hear, hcalls]
      have hg := h.called m hcalls
      refine ⟨?_, ?_, ?_, ?_⟩ <;> simp only [hcalls', hg]
      · simp
      · simp
      · intro m' e' heq hdead
        simp only [List.cons.injEq, and_true] at heq
        obtain ⟨-, heq⟩ := heq
        cases heq
        simp only [Footing.after, hdead]
        rfl
      · simp
    | search objectClass nameAttribute nameValue deadline =>
      obtain ⟨-, hcalls, -, hprior⟩ := allowed
      have hcalls' : (f.hear (.search objectClass nameAttribute nameValue deadline) x).calls = [] := hcalls
      refine ⟨fun _ h => absurd hprior h, ?_, ?_, fun _ hfound => ?_⟩
      · simp [hcalls']
      · simp [hcalls']
      · cases Option.some.inj hfound
        cases g <;> rfl
    | _ => exact absurd rfl hplain

theorem Io.requeue_of_pending {e : Io} {o : ResolutionOutcome} {began : Nat} {r : Row} (ho : e.outcome = some o)
    (hrun : r.status = .live .running) (hst : (e.write began r).status = .live .pending) : o = .requeue := by
  cases e <;> cases ho
  case requeue => rfl
  all_goals simp [Io.write, hrun, Row.finalized, Row.deferred] at hst

/-- No create was issued while an earlier one was unknown. -/
def Grounded (history : List Event) : Prop :=
  ∀ before ev after, history = before ++ ev :: after → ev.isCreate → footing before = .clear

theorem Grounded.snoc {history : List Event} {ev : Event} (h : Grounded history)
    (hnew : ev.isCreate → footing history = .clear) : Grounded (history ++ [ev]) := by
  intro before ev' after heq hcreate
  rcases List.eq_nil_or_concat after with rfl | ⟨after', last, rfl⟩
  · obtain ⟨rfl, hev⟩ := List.append_inj' heq rfl
    cases hev
    exact hnew hcreate
  · rw [List.concat_eq_append, ← List.cons_append, ← List.append_assoc] at heq
    obtain ⟨hinit, -⟩ := List.append_inj' heq rfl
    exact h before ev' after' hinit hcreate

namespace Life

/-- What the row and the attempt of a create say about its last call. -/
structure Footed (l : Life) (r : Row) : Prop where
  pending : r.status = .live .pending → footing l.history = .clear
  live : ∀ op f, l.live = some (op, f) → (footing l.history).Fits op f

structure CreateSafe (l : Life) : Prop where
  grounded : Grounded l.history
  footed : ∀ r, l.row = some r → r.opType = .create → l.Footed r

variable {l l' : Life}

theorem CreateSafe.step (inv : l.CreateSafe) (coherent : l.Coherent) {act : LifeAction}
    (h : Step cfg l act l') : l'.CreateSafe := by
  -- An event that is no create, after which no attempt is live and the row is not `PENDING`.
  have quiet {ev : Event} (hev : ev.isCreate = false) : Grounded (l.history ++ [ev]) :=
    inv.grounded.snoc fun h => by rw [hev] at h; cases h
  have running {op : ClaimedOperation} {f : Facts} (hl : l.live = some (op, f)) {r : Row}
      (hr : l.row = some r) : r.status = .live .running ∧ op.opType = r.opType := by
    obtain ⟨r₀, p, now, hr₀, rfl, -⟩ := coherent.live _ _ hl
    cases hr.symm.trans hr₀
    exact ⟨rfl, rfl⟩
  have parked {ev : Event} (hev : ev.isCreate = false) {op : ClaimedOperation} {f : Facts}
      (hl : l.live = some (op, f)) : ({ l with live := none, history := l.history ++ [ev] } : Life).CreateSafe := by
    refine ⟨quiet hev, fun r hr _ => ⟨fun hst => ?_, by simp⟩⟩
    rw [(running hl hr).1] at hst
    cases hst
  cases h with
  | idle => exact inv
  | entered absent status =>
    refine ⟨inv.grounded, fun r hr _ => ⟨fun _ => ?_, fun op f hl => ?_⟩⟩
    · simp only [coherent.absent absent]
      rfl
    · obtain ⟨r₀, p, now, hr₀, -⟩ := coherent.live op f hl
      rw [absent] at hr₀
      cases hr₀
  | @claimed r p now proc delivered hr status waiting free =>
    refine ⟨quiet rfl, fun r' hr' hcreate => ⟨fun hst => ?_, fun op f hl => ?_⟩⟩
    · cases hr'
      cases hst
    · cases hr'
      have hsame : footing (l.history ++ [.claimed proc]) = footing l.history := by
        rw [footing_snoc]
        cases footing l.history <;> rfl
      cases delivered with
      | false => simp at hl
      | true =>
        simp only [if_true, Option.some.injEq, Prod.mk.injEq] at hl
        obtain ⟨rfl, rfl⟩ := hl
        rw [hsame]
        refine ⟨fun _ hprior => ?_, by simp [Facts.nothing], by simp [Facts.nothing], by simp [Facts.nothing]⟩
        refine (inv.footed r hr hcreate).pending (status.trans ?_)
        cases p with
        | pending => rfl
        | running => exact absurd rfl waiting
        | awaitingReadback => exact absurd rfl hprior
  | @heard op f e x hl allowed quiet =>
    refine ⟨inv.grounded.snoc fun hev => ?_, fun r hr hcreate => ⟨fun hst => ?_, fun op' f' hl' => ?_⟩⟩
    · obtain ⟨r, p, now, hr, rfl, -⟩ := coherent.live _ _ hl
      unfold Event.isCreate at hev
      split at hev
      · rename_i heq
        cases heq
        obtain ⟨-, hcalls, hprior, hfits⟩ := allowed
        exact ((inv.footed _ hr hfits.1).live _ _ hl).fresh hcalls hprior
      · cases hev
    · rw [(running hl hr).1] at hst
      cases hst
    · simp only [Option.some.injEq, Prod.mk.injEq] at hl'
      obtain ⟨rfl, rfl⟩ := hl'
      rw [footing_snoc]
      exact ((inv.footed r hr hcreate).live _ _ hl).heard ((running hl hr).2.trans hcreate) allowed x
  | @wrote op f r e o began current hl hr ho ruled =>
    refine ⟨quiet rfl, fun r' hr' hcreate => ⟨fun hst => ?_, by simp⟩⟩
    cases hr'
    have hsame : footing (l.history ++ [.wrote e true current]) = footing l.history := by
      rw [footing_snoc]
      cases footing l.history <;> rfl
    rw [hsame]
    have hop := (Io.change_write e began r).sameOperation.opType
    have fits := (inv.footed r hr (hop.symm.trans hcreate)).live _ _ hl
    obtain ⟨hrun, hopType⟩ := running hl hr
    obtain rfl := Io.requeue_of_pending ho hrun hst
    rcases ruled with ⟨m, e', ⟨hcalls, -⟩, -, halive, -⟩ | ⟨hcalls, -, hfound, -⟩
    · exact fits.answered m e' hcalls (halive (hopType.trans (hop.symm.trans hcreate)))
    · exact fits.missed hcalls hfound
  | writeLost hl => exact parked rfl hl
  | died hl => exact parked rfl hl
  | reaped hr status free =>
    refine ⟨inv.grounded, fun r hr' hcreate => ⟨fun hst => ?_, fun op f hl => ?_⟩⟩
    · cases hr'
      split at hst
      · cases hst
      · rename_i hother
        rw [if_neg hother] at hcreate
        exact absurd hcreate hother
    · simp only [free, reduceCtorEq] at hl

end Life

/-! ## The result -/

namespace Deployment

variable {s : Deployment}

/-- **No create is re-issued blind.** Between two consecutive creates of one operation, the first of
which ended by its deadline or with its process, a read-back search found nothing. -/
theorem unknown_create_is_read_back {now : Nat} {partitions : List Nat}
    (run : Runs (step advisoryLockKey cfg) (staysTimely cfg) (start now partitions) s) {u : Uuid}
    {before between after : List Event} {first second : Event}
    (history : (s.life u).history = before ++ first :: between ++ second :: after) (hfirst : first.isCreate)
    (hsecond : second.isCreate) (consecutive : ∀ ev ∈ between, ev.isCreate = false)
    (unknown : endedUnknown between) : ∃ ev ∈ between, ev.isMiss := by
  have inv := life_run Life.CreateSafe run (fun _ _ _ h => h)
    ⟨by intro before ev after h; simp at h, by simp⟩
    fun _ _ _ _ _ _ hstep _ coherent inv => inv.step coherent hstep
  have hclear := (inv.2.2 u).2.grounded _ second after history hsecond
  have hflight : Footing.after (footing before) first = .inFlight := by
    unfold Event.isCreate at hfirst
    split at hfirst
    · unfold Footing.after
      cases footing before <;> rfl
    · cases hfirst
  rw [footing_append, List.foldl_cons, hflight] at hclear
  exact miss_of_inFlight consecutive unknown hclear

/-- A process dies in a create, the row is reaped, the read-back misses, and the create is issued
once more. -/
def abandonedCreate : List Action :=
  submitted 1 (request .create) 7 ++ claimedBy 1 1 7 ++
    replied 0 [.lease (.ok ()), .config (.ok (some someRuntime)), .time 0, .done] ++
    [.die 1, .database (.tick 600001), .reap 2000 600001 [7], .database (.tick 2000)] ++ claimedBy 2 2 7 ++
    replied 0 [.lease (.ok ()), .config (.ok (some someRuntime)), .schema (.ok ⟨[]⟩), .time 0, .found (.ok [])] ++
    [.write 0 (some 0)] ++ claimedBy 2 3 7 ++
    replied 0 [.lease (.ok ()), .config (.ok (some someRuntime)), .time 0, .done]

theorem unknown_create_is_read_back_abandoned :
    ∃ s, exec (step (fun _ => 0) .DEFAULTS) (staysTimely .DEFAULTS) (start 0 [0]) abandonedCreate = some s ∧
      ((s.life 7).history.filter Event.isCreate).length = 2 ∧
      ∃ ev ∈ ((s.life 7).history.drop 5).take 12, ev.isMiss := by
  have h : (exec (step (fun _ => 0) .DEFAULTS) (staysTimely .DEFAULTS) (start 0 [0]) abandonedCreate).map
      (fun s =>
        let events := (s.life 7).history
        let between := (events.drop 5).take 12
        ((events.filter Event.isCreate).length, events[4]?.any Event.isCreate,
          (events.drop 5)[12]?.any Event.isCreate, between.any Event.isCreate, endedUnknown between)) =
      some (2, true, true, false, true) := by
    decide
  obtain ⟨s, hs, h⟩ := Option.map_eq_some_iff.1 h
  simp only [Prod.mk.injEq, Option.any_eq_true, List.any_eq_false, Bool.not_eq_true] at h
  obtain ⟨htwo, ⟨first, hfirst, hc⟩, ⟨second, hsecond, hc'⟩, hcalm, hunknown⟩ := h
  have history : (s.life 7).history =
      (s.life 7).history.take 4 ++ first :: ((s.life 7).history.drop 5).take 12 ++
        second :: ((s.life 7).history.drop 5).drop 13 := by
    rw [List.append_assoc, List.cons_append, ← split_at hsecond]
    exact split_at hfirst
  exact ⟨s, hs, htwo, unknown_create_is_read_back (runs_of_exec hs) history hc hc' hcalm hunknown⟩

end Deployment

end Provisioning
