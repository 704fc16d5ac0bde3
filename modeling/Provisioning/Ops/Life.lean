import Provisioning.Ops.Holding

/-!
# The life of one operation

The deployment as one operation sees it: its row, the attempt that holds the row, and what happened
to it so far. As long as each live attempt holds its row, every step of the deployment is a step of
this automaton.
-/

namespace Provisioning

open Lib

@[ext]
structure Life where
  row : Option Row
  /-- The attempt that holds the row, with what it has heard. -/
  live : Option (ClaimedOperation × Facts)
  history : List Event

inductive LifeAction where
  | idle
  | entered
  | claimed
  | heard
  | wrote
  | died
  | reaped

variable (cfg : ResolvedDispatcherConfig)

inductive Life.Step (l : Life) : LifeAction → Life → Prop
  | idle : Step l .idle l
  | entered {r : Row} (absent : l.row = none) (status : r.status = .live .pending) :
      Step l .entered { l with row := some r }
  /-- Without `delivered` the attempt never starts. -/
  | claimed {r : Row} {p : OperationPendingStatus} {now proc : Nat} (delivered : Bool) (hr : l.row = some r)
      (status : r.status = .live p) (waiting : p ≠ .running) (free : l.live = none) :
      Step l .claimed
        { row := some (r.claimed now)
          live := if delivered then some (r.toClaimed p, .nothing) else none
          history := l.history ++ [.claimed proc] }
  | heard {op : ClaimedOperation} {f : Facts} {e : Io} {x : e.Answer} (hl : l.live = some (op, f))
      (allowed : (protocol cfg op).allows f e) (quiet : e.outcome = none) :
      Step l .heard { l with live := some (op, f.hear e x), history := l.history ++ [.heard e x] }
  | wrote {op : ClaimedOperation} {f : Facts} {r : Row} {e : Io} {o : ResolutionOutcome} {began current : Nat}
      (hl : l.live = some (op, f)) (hr : l.row = some r) (ho : e.outcome = some o) (ruled : Ruled cfg op f o) :
      Step l .wrote
        { row := some (e.write began r), live := none, history := l.history ++ [.wrote e true current] }
  /-- The row stays `RUNNING`, and no attempt holds it. -/
  | writeLost {op : ClaimedOperation} {f : Facts} {e : Io} {current : Nat} (hl : l.live = some (op, f)) :
      Step l .wrote { l with live := none, history := l.history ++ [.wrote e false current] }
  | died {op : ClaimedOperation} {f : Facts} (hl : l.live = some (op, f)) :
      Step l .died { l with live := none, history := l.history ++ [.died] }
  | reaped {r : Row} {notBefore : Nat} (hr : l.row = some r) (status : r.status = .live .running)
      (free : l.live = none) :
      Step l .reaped
        { l with row := some (if r.opType = .create then r.deferred notBefore else r.reaped) }

/-! ## What holds in every life -/

namespace Life

/-- A live attempt has the row that its claim returned, and an absent row has no past. -/
structure Coherent (l : Life) : Prop where
  live : ∀ op f, l.live = some (op, f) → ∃ (r : Row) (p : OperationPendingStatus) (now : Nat),
    l.row = some (r.claimed now) ∧ op = r.toClaimed p ∧ p ≠ .running
  absent : l.row = none → l.history = []

variable {cfg}

theorem Coherent.step {l l' : Life} {act : LifeAction} (inv : l.Coherent) (h : Step cfg l act l') :
    l'.Coherent := by
  have present {op : ClaimedOperation} {f : Facts} (hl : l.live = some (op, f)) : l.row ≠ none := by
    obtain ⟨r, p, now, hr, -⟩ := inv.live op f hl
    rw [hr]
    exact Option.some_ne_none _
  cases h with
  | idle => exact inv
  | entered absent =>
    refine ⟨fun op f hl => ?_, by simp⟩
    exact absurd absent (present hl)
  | @claimed r p now _ delivered hr status waiting free =>
    refine ⟨fun op f hl => ?_, by simp⟩
    cases delivered with
    | false => simp only [Bool.false_eq_true, if_false, reduceCtorEq] at hl
    | true =>
      simp only [if_true, Option.some.injEq, Prod.mk.injEq] at hl
      exact ⟨r, p, now, rfl, hl.1.symm, waiting⟩
  | heard hl =>
    refine ⟨fun op' f' hl' => ?_, fun h => absurd h (present hl)⟩
    cases hl'
    exact inv.live _ _ hl
  | wrote => exact ⟨by simp, by simp⟩
  | writeLost hl | died hl => exact ⟨by simp, fun h => absurd h (present hl)⟩
  | reaped _ _ free =>
    refine ⟨fun op f hl => ?_, by simp⟩
    simp only [free, reduceCtorEq] at hl

end Life

/-! ## The deployment refines it -/

/-- The reaper finds the row in this pass. -/
def Action.reaps (s : Deployment) (u : Uuid) : Action → Prop
  | .reap _ began seen => ∃ r, s.db.row? u = some r ∧ u ∈ seen ∧ r.stale cfg.reaperThresholdMs began
  | _ => False

namespace Deployment

variable {advisoryLockKey : String → BitVec 64} {cfg} {s s' : Deployment} {a : Action} {u : Uuid}

def life (s : Deployment) (u : Uuid) : Life where
  row := s.db.row? u
  live := (lookup Attempt.row s.attempts u).map fun att => (att.op, s.facts att.key)
  history := (s.log.filter fun ent => ent.row = u).map Entry.event

theorem life_history_append {more : List Entry} (hlog : s'.log = s.log ++ more) :
    (s'.life u).history = (s.life u).history ++ (more.filter fun ent => ent.row = u).map Entry.event := by
  simp only [life, hlog, List.filter_append, List.map_append]

theorem life_live (held : s.Held) {att : Attempt} (hatt : att ∈ s.attempts) :
    (s.life att.row).live = some (att.op, s.facts att.key) := by
  simp only [life, lookup_of_mem held.rows hatt, Option.map_some]

theorem live_of_life {op : ClaimedOperation} {f : Facts} (h : (s.life u).live = some (op, f)) :
    ∃ att ∈ s.attempts, att.row = u ∧ att.op = op ∧ s.facts att.key = f := by
  obtain ⟨att, hatt, heq⟩ := Option.map_eq_some_iff.1 h
  cases heq
  exact ⟨att, (lookup_some_mem hatt).1, (lookup_some_mem hatt).2, rfl, rfl⟩

theorem life_eq {more : List Entry} (hrow : s'.db.row? u = s.db.row? u)
    (hlive : lookup Attempt.row s'.attempts u = lookup Attempt.row s.attempts u)
    (hlog : s'.log = s.log ++ more) (hmore : ∀ ent ∈ more, ent.row ≠ u) : s'.life u = s.life u := by
  have hnone : more.filter (fun ent => ent.row = u) = [] :=
    List.filter_eq_nil_iff.2 fun ent hent => by simpa using hmore ent hent
  have hhistory := life_history_append (u := u) hlog
  rw [hnone, List.map_nil, List.append_nil] at hhistory
  have hfacts : ∀ att, lookup Attempt.row s.attempts u = some att → s'.facts att.key = s.facts att.key := by
    intro att hatt
    simp only [facts, hlog]
    refine factsOf_append_other fun ent hent heq => hmore ent hent ?_
    exact heq.trans (lookup_some_mem hatt).2
  simp only [life, Life.mk.injEq] at hhistory ⊢
  refine ⟨hrow, ?_, hhistory⟩
  rw [hlive]
  cases hatt : lookup Attempt.row s.attempts u with
  | none => rfl
  | some att => rw [Option.map_some, Option.map_some, hfacts att hatt]

theorem life_own {ent : Entry} (hent : ent.row = u) (hlog : s'.log = s.log ++ [ent]) :
    (s'.life u).history = (s.life u).history ++ [ent.event] := by
  rw [life_history_append hlog]
  simp [hent]

theorem life_replied (held : s.Held) {before after : List Attempt} {att : Attempt} {e : Io} {x : e.Answer}
    {rest : Prog Dispatch (Except Failure Unit)} (split : s.attempts = before ++ att :: after)
    (hdb : s'.db = s.db) (hatts : s'.attempts = before ++ { att with prog := rest } :: after)
    (hlog : s'.log = s.log ++ [⟨att.row, att.claim, .heard e x⟩]) :
    s'.life att.row =
      { s.life att.row with
        live := some (att.op, (s.facts att.key).hear e x)
        history := (s.life att.row).history ++ [.heard e x] } := by
  have hfacts : s'.facts att.key = (s.facts att.key).hear e x := by rw [facts_heard hlog, if_pos rfl]
  have hlive : lookup Attempt.row s'.attempts att.row = some { att with prog := rest } := by
    have hn := held.rows
    rw [split] at hn
    rw [hatts]
    exact (lookup_replace hn { att with prog := rest } rfl).trans (if_pos rfl)
  refine Life.ext (congrArg (·.row? att.row) hdb) ?_ (life_own rfl hlog)
  simp only [life, hlive, Option.map_some]
  exact congrArg (fun f => some (att.op, f)) hfacts

theorem life_written (held : s.Held) {before after : List Attempt} {att : Attempt} {ev : Event}
    (split : s.attempts = before ++ att :: after) (hatts : s'.attempts = before ++ after)
    (hlog : s'.log = s.log ++ [⟨att.row, att.claim, ev⟩]) :
    s'.life att.row =
      { row := s'.db.row? att.row, live := none, history := (s.life att.row).history ++ [ev] } := by
  refine Life.ext rfl ?_ (life_own rfl hlog)
  have hlive : lookup Attempt.row s'.attempts att.row = none := by
    rw [hatts, lookup_remove (split ▸ held.rows), if_pos rfl]
  simp only [life, hlive, Option.map_none]

theorem life_free (held : s.Held) (wf : s.db.WellFormed) {sid : Nat}
    (hu : u ∈ (s.db.returned sid).map fun r => r.1.id) : lookup Attempt.row s.attempts u = none := by
  refine Option.eq_none_iff_forall_not_mem.2 fun att hatt => ?_
  obtain ⟨hmem, rfl⟩ := lookup_some_mem hatt
  rw [Db.ids_returned wf] at hu
  obtain ⟨l, hl, hid⟩ := List.mem_map.1 hu
  exact (held.holds att hmem).not_locked wf l (List.mem_filter.1 hl).1 hid

theorem life_claimed (followed : s.Followed cfg) (held : s.Held) {sid : Nat} {c : ClaimStatement} {delivered : Bool}
    (hdb : s'.db = (s.db.claimLocked sid c.snapshot.now).endClaim sid)
    (hatts : s'.attempts =
      s.attempts ++ if delivered then (s.db.returned sid).map (s.newAttempt cfg c) else [])
    (hlog : s'.log = s.log ++ (s.db.returned sid).map (s.newEntry c)) {r : Row} {p : OperationPendingStatus}
    (hr : (r, p) ∈ s.db.returned sid) :
    s'.life r.id =
      { row := some (r.claimed c.snapshot.now)
        live := if delivered then some (r.toClaimed p, .nothing) else none
        history := (s.life r.id).history ++ [.claimed c.caller] } := by
  have wf := followed.wf
  have hids : ((s.db.returned sid).map fun r => r.1.id).Nodup := Db.nodup_returned wf
  have hin : r.id ∈ (s.db.returned sid).map (fun r => r.1.id) := List.mem_map.2 ⟨(r, p), hr, rfl⟩
  obtain ⟨hrow, -⟩ := Db.returned_lockable wf hr
  refine Life.ext ?_ ?_ ?_
  · obtain ⟨l, hl, hl', -⟩ := Db.mem_returned.1 hr
    simp only [life]
    rw [hdb, Db.row?_claimLocked, hrow, Option.map_some, if_pos ⟨l, hl, (Db.row?_id hl').symm⟩]
  · simp only [life]
    rw [hatts, lookup_append, life_free held wf hin, Option.none_or]
    cases delivered with
    | false => rfl
    | true =>
      have hn : (((s.db.returned sid).map (s.newAttempt cfg c)).map Attempt.row).Nodup := by
        rw [List.map_map]
        exact hids
      have hfound := lookup_of_mem hn (List.mem_map_of_mem hr)
      have hfacts : s'.facts (s.newAttempt cfg c (r, p)).key = .nothing := by
        simp only [facts, hlog]
        rw [factsOf_append_silent (fun ent hent => by rw [(mem_newEntries hent).2.2]; rfl)]
        exact followed.facts_fresh _
      refine (congrArg (Option.map _) hfound).trans ?_
      rw [Option.map_some, hfacts]
      rfl
  · have hn : (((s.db.returned sid).map (s.newEntry c)).map Entry.row).Nodup := by
      rw [List.map_map]
      exact hids
    have hone := (filter_key (k := r.id) hn).trans
      (congrArg Option.toList (lookup_of_mem hn (List.mem_map_of_mem hr)))
    rw [life_history_append hlog, hone]
    rfl

theorem life_unclaimed (wf : s.db.WellFormed) {sid : Nat} {c : ClaimStatement} {delivered : Bool}
    (hdb : s'.db = (s.db.claimLocked sid c.snapshot.now).endClaim sid)
    (hatts : s'.attempts =
      s.attempts ++ if delivered then (s.db.returned sid).map (s.newAttempt cfg c) else [])
    (hlog : s'.log = s.log ++ (s.db.returned sid).map (s.newEntry c))
    (hu : u ∉ (s.db.returned sid).map fun r => r.1.id) : s'.life u = s.life u := by
  refine life_eq ?_ ?_ hlog fun ent hent heq => hu (heq ▸ (mem_newEntries hent).1)
  · rw [hdb, Db.row?_claimLocked]
    cases hr : s.db.row? u with
    | none => rfl
    | some r =>
      rw [Option.map_some, if_neg]
      rintro ⟨l, hl, hid⟩
      rw [Db.ids_returned wf] at hu
      exact hu (List.mem_map.2 ⟨l, hl, hid.trans (Db.row?_id hr)⟩)
  · have hnone : lookup Attempt.row (if delivered then (s.db.returned sid).map (s.newAttempt cfg c) else []) u =
        none := by
      refine lookup_none_iff.2 fun h => hu ?_
      cases delivered with
      | false => cases h
      | true =>
        rw [if_pos rfl, List.map_map] at h
        exact h
    rw [hatts, lookup_append, hnone, Option.or_none]

theorem life_die (held : s.Held) (proc : Nat) (u : Uuid) :
    (s.die proc).life u =
      { row := s.db.row? u
        live := ((lookup Attempt.row s.attempts u).filter fun att => att.proc ≠ proc).map
          fun att => (att.op, s.facts att.key)
        history := (s.life u).history ++
          (((lookup Attempt.row s.attempts u).filter fun att => att.proc = proc).toList.map fun _ => .died) } := by
  refine Life.ext rfl ?_ ?_
  · simp only [life, die, lookup_filter held.rows]
    refine congrArg (fun g => Option.map g _) (funext fun att => ?_)
    have : (s.die proc).facts att.key = s.facts att.key := by
      refine factsOf_append_silent fun ent hent => ?_
      obtain ⟨att', -, rfl⟩ := List.mem_map.1 hent
      rfl
    exact congrArg (fun f => (att.op, f)) this
  · have hlog : (s.die proc).log = s.log ++ (s.attempts.filter fun att => att.proc = proc).map
        fun att => ⟨att.row, att.claim, .died⟩ := rfl
    rw [life_history_append hlog, List.filter_map, List.map_map]
    have hkey := filter_key (k := u) (nodup_filter (q := fun att : Attempt => att.proc = proc) held.rows)
    rw [lookup_filter held.rows] at hkey
    exact congrArg (fun l => (s.life u).history ++ List.map (fun _ => Event.died) l) hkey

theorem lookup_resumed (held : s.Held) {before after : List Attempt} {att : Attempt}
    (split : s.attempts = before ++ att :: after) (hne : att.row ≠ u) {prog : Prog Dispatch (Except Failure Unit)} :
    lookup Attempt.row (before ++ { att with prog := prog } :: after) u = lookup Attempt.row s.attempts u := by
  have hn := held.rows
  rw [split] at hn
  rw [lookup_replace hn { att with prog := prog } rfl, if_neg hne, ← split]

theorem lookup_ended (held : s.Held) {before after : List Attempt} {att : Attempt}
    (split : s.attempts = before ++ att :: after) (hne : att.row ≠ u) :
    lookup Attempt.row (before ++ after) u = lookup Attempt.row s.attempts u := by
  have hn := held.rows
  rw [split] at hn
  rw [lookup_remove hn, if_neg hne, ← split]

/-- **Refinement.** Each step is one step of the life of each operation. -/
theorem Stepped.life_step (h : Stepped advisoryLockKey cfg s a s') (followed : s.Followed cfg) (held : s.Held)
    (timely : s'.Timely cfg) (u : Uuid) :
    ∃ act, Life.Step cfg (s.life u) act (s'.life u) ∧ (act = .reaped → a.reaps cfg s u) := by
  have wf := followed.wf
  have stutter (h : s'.life u = s.life u) :
      ∃ act, Life.Step cfg (s.life u) act (s'.life u) ∧ (act = .reaped → a.reaps cfg s u) :=
    ⟨.idle, h ▸ .idle, by simp⟩
  have elsewhere {att : Attempt} {ev : Event} (hne : att.row ≠ u) :
      ∀ ent ∈ [(⟨att.row, att.claim, ev⟩ : Entry)], ent.row ≠ u :=
    fun ent hent => by rwa [List.mem_singleton.1 hent]
  cases h with
  | @database a db background _ h =>
    rcases h.background wf background (u := u) with hrow | ⟨hnone, r, hr, hst, -⟩
    · exact stutter (Life.ext hrow rfl rfl)
    · have hlife : ({ s with db := db } : Deployment).life u = { s.life u with row := some r } :=
        Life.ext hr rfl rfl
      exact ⟨.entered, hlife ▸ .entered hnone hst, by simp⟩
  | @committed sid c delivered hc done =>
    by_cases hu : u ∈ (s.db.returned sid).map fun r => r.1.id
    · have free := life_free held wf hu
      obtain ⟨⟨r, p⟩, hr, rfl⟩ := List.mem_map.1 hu
      obtain ⟨hrow, hst, hidle⟩ := Db.returned_lockable wf hr
      refine ⟨.claimed, ?_, by simp⟩
      have hlife : ({ s with
          db := (s.db.claimLocked sid c.snapshot.now).endClaim sid
          attempts := s.attempts ++ if delivered then (s.db.returned sid).map (s.newAttempt cfg c) else []
          log := s.log ++ (s.db.returned sid).map (s.newEntry c) } : Deployment).life r.id = _ :=
        life_claimed followed held rfl rfl rfl hr
      rw [hlife]
      exact .claimed delivered hrow hst hidle (congrArg (Option.map _) free)
    · exact stutter (life_unclaimed wf rfl rfl rfl hu)
  | @replied _ _ before after att e k x _ split asks accepted =>
    by_cases hu : att.row = u
    · subst hu
      have hatt : att ∈ s.attempts := split ▸ List.mem_append_right _ List.mem_cons_self
      have hsafe := (followed.follows att hatt).safe
      rw [asks] at hsafe
      have hlife : ({ s with
          attempts := before ++ { att with prog := k x } :: after
          log := s.log ++ [⟨att.row, att.claim, .heard e x⟩] } : Deployment).life att.row = _ :=
        life_replied held split rfl rfl rfl
      refine ⟨.heard, ?_, by simp⟩
      rw [hlife]
      exact .heard (life_live held hatt) hsafe.allowed (Reply.outcome_of_accept accepted)
    · exact stutter (life_eq rfl (lookup_resumed held split hu) rfl (elsewhere hu))
  | @wrote _ began before after att e k _ db _ split asks statement h =>
    have hatt : att ∈ s.attempts := split ▸ List.mem_append_right _ List.mem_cons_self
    have hmine := (followed.follows att hatt).write_row asks (Io.outcome_of_statement statement)
    by_cases hu : att.row = u
    · subst hu
      have hsafe := (followed.follows att hatt).safe
      rw [asks] at hsafe
      obtain ⟨o, ho⟩ := Option.isSome_iff_exists.1 (Io.outcome_of_statement statement)
      obtain ⟨r, hr, hop⟩ := (followed.follows att hatt).about
      refine ⟨.wrote, ?_, by simp⟩
      have hlife : ({ s with
          db := db
          attempts := before ++ after
          log := s.log ++ [⟨att.row, att.claim, .wrote e true (claimsOf s.log att.row)⟩] } : Deployment).life
            att.row = _ := life_written held split rfl rfl
      rw [hlife]
      have hrow : db.row? att.row = some (e.write began r) := by
        rw [Db.row?_write statement h, hr, Option.map_some, if_pos (by rw [hmine, Db.row?_id hr])]
      simp only [hrow]
      exact .wrote (life_live held hatt) hr ho (protocol_write hop hsafe.allowed ho).2.2
    · refine stutter (life_eq ?_ ?_ rfl (elsewhere hu))
      · refine (Db.row?_write statement h).trans ?_
        cases hr : s.db.row? u with
        | none => rfl
        | some r =>
          rw [Option.map_some, if_neg]
          rw [hmine, Db.row?_id hr]
          exact fun heq => hu (Option.some.inj heq)
      · exact lookup_ended held split hu
  | @writeLost _ before after att e _ _ _ split asks statement =>
    have hatt : att ∈ s.attempts := split ▸ List.mem_append_right _ List.mem_cons_self
    by_cases hu : att.row = u
    · subst hu
      refine ⟨.wrote, ?_, by simp⟩
      have hlife : ({ s with
          attempts := before ++ after
          log := s.log ++ [⟨att.row, att.claim, .wrote e false (claimsOf s.log att.row)⟩] } : Deployment).life
            att.row = _ := life_written held split rfl rfl
      rw [hlife]
      exact .writeLost (life_live held hatt)
    · exact stutter (life_eq rfl (lookup_ended held split hu) rfl (elsewhere hu))
  | died proc =>
    cases hl : lookup Attempt.row s.attempts u with
    | none =>
      refine stutter ((life_die held proc u).trans ?_)
      simp [life, hl]
    | some att =>
      by_cases hp : att.proc = proc
      · refine ⟨.died, ?_, by simp⟩
        have hlife : (s.die proc).life u =
            { s.life u with live := none, history := (s.life u).history ++ [.died] } := by
          rw [life_die held proc u, hl]
          simp [hp, Option.filter, life]
        rw [hlife]
        exact .died (congrArg (Option.map _) hl)
      · refine stutter ((life_die held proc u).trans ?_)
        rw [hl]
        simp [hp, Option.filter, life, hl]
  | @reaped readBackDelayMs began seen db h =>
    have hrow := Db.row?_reapStale h (u := u)
    cases hr : s.db.row? u with
    | none => exact stutter (Life.ext (by rw [life, life, hrow, hr]; rfl) rfl rfl)
    | some r =>
      rw [hr, Option.map_some] at hrow
      split at hrow
      · rename_i hst
        have free : (s.life u).live = none := by
          refine Option.eq_none_iff_forall_not_mem.2 fun x hx => ?_
          obtain ⟨att, hatt, rfl, -, -⟩ := live_of_life hx
          exact held.spared h timely hatt hr hst.2
        refine ⟨.reaped, ?_, fun _ => ⟨r, hr, Db.row?_id hr ▸ hst.1, hst.2⟩⟩
        have hlife : ({ s with db := db } : Deployment).life u =
            { s.life u with
              row := some (if r.opType = .create then r.deferred (began + readBackDelayMs) else r.reaped) } :=
          Life.ext hrow rfl rfl
        rw [hlife]
        exact .reaped hr hst.2.1 free
      · exact stutter (Life.ext (hrow.trans hr.symm) rfl rfl)

theorem life_start (now : Nat) (partitions : List Nat) (u : Uuid) :
    (start now partitions).life u = ⟨none, none, []⟩ := rfl

/-- What every step of a life keeps holds of every life in every state of a run. -/
theorem life_run (Inv : Life → Prop) {ok : Deployment → Action → Deployment → Prop} {now : Nat}
    {partitions : List Nat} (run : Runs (step advisoryLockKey cfg) ok (start now partitions) s)
    (timely : ∀ s a s', ok s a s' → s'.Timely cfg) (init : Inv ⟨none, none, []⟩)
    (keeps : ∀ s a s' u act, ok s a s' → Life.Step cfg (s.life u) act (s'.life u) →
      (act = .reaped → a.reaps cfg s u) → (s.life u).Coherent → Inv (s.life u) → Inv (s'.life u)) :
    s.Followed cfg ∧ s.Held ∧ ∀ u, (s.life u).Coherent ∧ Inv (s.life u) := by
  refine run.invariant (fun s => s.Followed cfg ∧ s.Held ∧ ∀ u, (s.life u).Coherent ∧ Inv (s.life u)) ?_ ?_
  · refine ⟨followed_start now partitions, held_start now partitions, fun u => ⟨⟨?_, ?_⟩, init⟩⟩
    · simp [life_start]
    · simp [life_start]
  · rintro s a s' ⟨followed, held, lives⟩ h hok
    have hs := stepped h
    have htimely := timely s a s' hok
    refine ⟨followed.step hs, held.step followed hs htimely, fun u => ?_⟩
    obtain ⟨act, hstep, hreaped⟩ := hs.life_step followed held htimely u
    exact ⟨(lives u).1.step hstep, keeps s a s' u act hok hstep hreaped (lives u).1 (lives u).2⟩

end Deployment

end Provisioning
