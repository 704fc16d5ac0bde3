import Provisioning.Ops.Claims
import Provisioning.Ops.Fates

/-!
# What every attempt of a deployment has done

In any run, at any speed: each attempt follows the protocol with what it heard since its own claim,
and the log has nothing that the protocol does not allow.
-/

namespace Provisioning

open Lib

/-! ## The log -/

def Event.isHeard : Event → Bool
  | .heard .. => true
  | _ => false

theorem Facts.after_of_silent {ev : Event} (h : ev.isHeard = false) (f : Facts) : f.after ev = f := by
  cases ev with
  | heard => cases h
  | _ => rfl

theorem claimsOf_append {log more : List Entry} {u : Uuid} :
    claimsOf (log ++ more) u = claimsOf log u + claimsOf more u := List.countP_append

theorem claimsOf_unclaimed {more : List Entry} {u : Uuid} (h : ∀ ent ∈ more, ent.event.isClaimed = false) :
    claimsOf more u = 0 := by
  refine List.countP_eq_zero.2 fun ent hent => ?_
  simp [h ent hent]

theorem factsOf_append_silent {log more : List Entry} {u : Uuid} {claim : Nat}
    (h : ∀ ent ∈ more, ent.event.isHeard = false) :
    factsOf (log ++ more) u claim = factsOf log u claim := by
  simp only [factsOf, List.filter_append, List.foldl_append]
  generalize (log.filter _).foldl _ _ = f
  induction more with
  | nil => rfl
  | cons ent rest ih =>
    have hent := Facts.after_of_silent (h ent List.mem_cons_self)
    have hrest := ih fun ent hmem => h ent (List.mem_cons_of_mem _ hmem)
    rw [List.filter_cons]
    split
    · rw [List.foldl_cons, hent, hrest]
    · exact hrest

theorem factsOf_append_other {log more : List Entry} {u : Uuid} {claim : Nat} (h : ∀ ent ∈ more, ent.row ≠ u) :
    factsOf (log ++ more) u claim = factsOf log u claim := by
  have : more.filter (fun ent => ent.row = u ∧ ent.claim = claim) = [] :=
    List.filter_eq_nil_iff.2 fun ent hent => by simpa using fun hrow => absurd hrow (h ent hent)
  simp only [factsOf, List.filter_append, List.foldl_append, this, List.foldl_nil]

theorem factsOf_heard {log : List Entry} {u v : Uuid} {claim claim' : Nat} {e : Io} {a : e.Answer} :
    factsOf (log ++ [⟨u, claim, .heard e a⟩]) v claim' =
      if u = v ∧ claim = claim' then (factsOf log v claim').hear e a else factsOf log v claim' := by
  simp only [factsOf, List.filter_append, List.foldl_append, List.filter_cons, List.filter_nil]
  by_cases h : u = v ∧ claim = claim'
  · simp [h, Facts.after]
  · simp [h]

theorem factsOf_unknown {log : List Entry} {u : Uuid} {claim : Nat}
    (h : ∀ ent ∈ log, ent.row = u → ent.claim ≠ claim) : factsOf log u claim = .nothing := by
  have : log.filter (fun ent => ent.row = u ∧ ent.claim = claim) = [] :=
    List.filter_eq_nil_iff.2 fun ent hent => by simpa using h ent hent
  rw [factsOf, this, List.foldl_nil]

namespace Deployment

variable {cfg : ResolvedDispatcherConfig} {s : Deployment} {c : ClaimStatement} {sid : Nat}

theorem mem_newEntries {ent : Entry} (h : ent ∈ (s.db.returned sid).map (s.newEntry c)) :
    ent.row ∈ (s.db.returned sid).map (fun r => r.1.id) ∧ ent.claim = claimsOf s.log ent.row + 1 ∧
      ent.event = .claimed c.caller := by
  obtain ⟨r, hr, rfl⟩ := List.mem_map.1 h
  exact ⟨List.mem_map.2 ⟨r, hr, rfl⟩, rfl, rfl⟩

theorem claimsOf_newEntries (wf : s.db.WellFormed) {u : Uuid} :
    claimsOf ((s.db.returned sid).map (s.newEntry c)) u =
      if u ∈ (s.db.returned sid).map (fun r => r.1.id) then 1 else 0 := by
  have : claimsOf ((s.db.returned sid).map (s.newEntry c)) u =
      ((s.db.returned sid).map fun r => r.1.id).count u := by
    simp only [claimsOf, List.count, List.countP_map]
    refine List.countP_congr fun r _ => ?_
    simp [newEntry, Event.isClaimed]
  rw [this]
  split
  · rename_i h
    exact List.count_eq_one_of_mem (Db.nodup_returned wf) h
  · rename_i h
    exact List.count_eq_zero_of_not_mem h

end Deployment

/-! ## Attempts -/

/-- The operation is this row, as some claim of it saw it. -/
def ClaimedOperation.Describes (op : ClaimedOperation) (r : Row) : Prop :=
  ∃ (r₀ : Row) (prior : OperationPendingStatus), op = r₀.toClaimed prior ∧ r₀.SameOperation r

namespace ClaimedOperation.Describes

variable {op : ClaimedOperation} {r r' : Row}

theorem change (h : op.Describes r) (hc : r.Change r') : op.Describes r' := by
  obtain ⟨r₀, prior, hop, hsame⟩ := h
  exact ⟨r₀, prior, hop, hsame.trans hc.sameOperation⟩

theorem opType (h : op.Describes r) : op.opType = r.opType := by
  obtain ⟨r₀, prior, rfl, hsame⟩ := h
  exact hsame.opType.symm

theorem instanceId (h : op.Describes r) : op.instanceId = r.instanceId := by
  obtain ⟨r₀, prior, rfl, hsame⟩ := h
  exact hsame.instanceId.symm

theorem objectClass (h : op.Describes r) : op.objectClass = r.objectClass := by
  obtain ⟨r₀, prior, rfl, hsame⟩ := h
  exact hsame.objectClass.symm

theorem uid (h : op.Describes r) : op.uid = r.uid := by
  obtain ⟨r₀, prior, rfl, hsame⟩ := h
  exact hsame.uid.symm

theorem nameAttrValue (h : op.Describes r) : op.nameAttrValue = r.nameAttrValue := by
  obtain ⟨r₀, prior, rfl, hsame⟩ := h
  exact hsame.nameAttrValue.symm

theorem attrs (h : op.Describes r) : op.attrs = r.attrs := by
  obtain ⟨r₀, prior, rfl, hsame⟩ := h
  exact hsame.attrs.symm

theorem id (h : op.Describes r) : operationIdOf op.id = some r.id := by
  obtain ⟨r₀, prior, rfl, hsame⟩ := h
  rw [hsame.id]
  exact operationIdOf_text r₀.id

end ClaimedOperation.Describes

theorem Reply.outcome_of_accept {e : Io} {r : Reply} {a : e.Answer} (h : r.accept e = some a) :
    e.outcome = none := by
  cases e <;> first | rfl | (cases r <;> cases h)

theorem Io.outcome_of_statement {e : Io} {began : Nat} {a : DbAction} (h : e.statement began = some a) :
    e.outcome.isSome := by
  cases e <;> first | rfl | cases h

theorem Facts.wrote_hear {e : Io} (h : e.outcome = none) (f : Facts) (a : e.Answer) :
    (f.hear e a).wrote = f.wrote := by
  cases e <;> try rfl
  case configOf => cases a <;> rfl
  all_goals cases h

theorem Facts.capabilities_hear {e : Io} {f : Facts} {x : e.Answer} {caps : ConnectorCapabilities}
    (h : (f.hear e x).capabilities = some caps) :
    f.capabilities = some caps ∨ ∃ i, (⟨e, x⟩ : (e : Io) × e.Answer) = ⟨.capabilitiesOf i, caps⟩ := by
  cases e <;> try exact .inl h
  case configOf => cases x <;> exact .inl h
  case capabilitiesOf i =>
    cases h
    exact .inr ⟨i, rfl⟩

namespace Deployment

variable (cfg : ResolvedDispatcherConfig) (s : Deployment)

def facts (key : Uuid × Nat) : Facts := factsOf s.log key.1 key.2

/-- What each live attempt has done and may do. -/
structure Follows (att : Attempt) : Prop where
  numbered : att.claim ≤ claimsOf s.log att.row
  about : ∃ r, s.db.row? att.row = some r ∧ att.op.Describes r
  unwritten : (s.facts att.key).wrote = false
  safe : Prog.Safe (protocol cfg att.op) (fun f _ => f.wrote = true) (s.facts att.key) att.prog

/-- The protocol allowed the effect, for a write with all that its attempt had heard. -/
def Admitted (ent : Entry) : Prop :=
  ∀ e, ent.event.effect = some e → ∃ r op f, s.db.row? ent.row = some r ∧ op.Describes r ∧
    (protocol cfg op).allows f e ∧ (ent.event.isWrote → f = s.facts ent.key ∧ e.outcome.isSome)

structure Followed : Prop where
  wf : s.db.WellFormed
  keys : (s.attempts.map Attempt.key).Nodup
  follows : ∀ att ∈ s.attempts, s.Follows cfg att
  numbered : ∀ ent ∈ s.log, ent.claim ≤ claimsOf s.log ent.row
  closed : ∀ ent ∈ s.log, ent.event.isWrote → ∀ att ∈ s.attempts, att.key ≠ ent.key
  admitted : ∀ ent ∈ s.log, s.Admitted cfg ent

variable {cfg s}

theorem Followed.facts_fresh (inv : s.Followed cfg) (u : Uuid) :
    factsOf s.log u (claimsOf s.log u + 1) = .nothing := by
  refine factsOf_unknown fun ent hent hrow => ?_
  have := inv.numbered ent hent
  rw [hrow] at this
  omega

/-! ## Steps -/

variable {advisoryLockKey : String → BitVec 64} {s' : Deployment} {a : Action} {more : List Entry}

theorem Follows.quiet {att : Attempt} (h : s.Follows cfg att)
    (kept : ∀ u r, s.db.row? u = some r → ∃ r', s'.db.row? u = some r' ∧ r.Change r')
    (hlog : s'.log = s.log ++ more) (silent : ∀ ent ∈ more, ent.event.isHeard = false) :
    s'.Follows cfg att := by
  have hfacts : s'.facts att.key = s.facts att.key := by
    simp only [facts, hlog]
    exact factsOf_append_silent silent
  obtain ⟨r, hr, hop⟩ := h.about
  obtain ⟨r', hr', hc⟩ := kept _ r hr
  refine ⟨?_, ⟨r', hr', hop.change hc⟩, hfacts ▸ h.unwritten, hfacts ▸ h.safe⟩
  rw [hlog, claimsOf_append]
  have := h.numbered
  omega

theorem Admitted.quiet {ent : Entry} (h : s.Admitted cfg ent)
    (kept : ∀ u r, s.db.row? u = some r → ∃ r', s'.db.row? u = some r' ∧ r.Change r')
    (hfacts : ent.event.isWrote → s'.facts ent.key = s.facts ent.key) : s'.Admitted cfg ent := by
  intro e he
  obtain ⟨r, op, f, hr, hop, hallowed, hwrote⟩ := h e he
  obtain ⟨r', hr', hc⟩ := kept _ r hr
  exact ⟨r', op, f, hr', hop.change hc, hallowed, fun hw => ⟨(hwrote hw).1.trans (hfacts hw).symm, (hwrote hw).2⟩⟩

theorem Followed.quiet (inv : s.Followed cfg) (wf : s'.db.WellFormed)
    (kept : ∀ u r, s.db.row? u = some r → ∃ r', s'.db.row? u = some r' ∧ r.Change r')
    (hatts : s'.attempts.Sublist s.attempts) (hlog : s'.log = s.log ++ more)
    (silent : ∀ ent ∈ more, ent.event.isHeard = false)
    (numbered : ∀ ent ∈ more, ent.claim ≤ claimsOf s'.log ent.row)
    (closed : ∀ ent ∈ more, ent.event.isWrote → ∀ att ∈ s'.attempts, att.key ≠ ent.key)
    (admitted : ∀ ent ∈ more, s'.Admitted cfg ent) : s'.Followed cfg where
  wf := wf
  keys := inv.keys.sublist (hatts.map _)
  follows att hatt := (inv.follows att (hatts.subset hatt)).quiet kept hlog silent
  numbered ent hent := by
    rcases List.mem_append.1 (hlog ▸ hent) with hent | hent
    · rw [hlog, claimsOf_append]
      have := inv.numbered ent hent
      omega
    · exact numbered ent hent
  closed ent hent hw att hatt := by
    rcases List.mem_append.1 (hlog ▸ hent) with hent | hent
    · exact inv.closed ent hent hw att (hatts.subset hatt)
    · exact closed ent hent hw att hatt
  admitted ent hent := by
    rcases List.mem_append.1 (hlog ▸ hent) with hent | hent
    · refine (inv.admitted ent hent).quiet kept fun _ => ?_
      simp only [facts, hlog]
      exact factsOf_append_silent silent
    · exact admitted ent hent

theorem Followed.committed (inv : s.Followed cfg) {c : ClaimStatement} {sid : Nat} {fresh : List Attempt}
    (wf : s'.db.WellFormed)
    (kept : ∀ u r, s.db.row? u = some r → ∃ r', s'.db.row? u = some r' ∧ r.Change r')
    (hlog : s'.log = s.log ++ (s.db.returned sid).map (s.newEntry c))
    (hatts : s'.attempts = s.attempts ++ fresh)
    (hfresh : fresh.Sublist ((s.db.returned sid).map (s.newAttempt cfg c))) : s'.Followed cfg := by
  have hnew {ent : Entry} (hent : ent ∈ (s.db.returned sid).map (s.newEntry c)) := mem_newEntries hent
  have hclaims (u : Uuid) : claimsOf s'.log u = claimsOf s.log u +
      if u ∈ (s.db.returned sid).map (fun r => r.1.id) then 1 else 0 := by
    rw [hlog, claimsOf_append, claimsOf_newEntries inv.wf]
  have hmem {att : Attempt} (hatt : att ∈ fresh) :
      ∃ r ∈ s.db.returned sid, s.newAttempt cfg c r = att := List.mem_map.1 (hfresh.subset hatt)
  have base : ({ s' with attempts := s.attempts } : Deployment).Followed cfg := by
    refine inv.quiet wf kept (List.Sublist.refl _) hlog ?_ ?_ ?_ ?_
    · intro ent hent
      rw [(hnew hent).2.2]
      rfl
    · intro ent hent
      rw [hclaims, if_pos (hnew hent).1, (hnew hent).2.1]
    · intro ent hent hw
      rw [(hnew hent).2.2] at hw
      cases hw
    · intro ent hent e he
      rw [(hnew hent).2.2] at he
      cases he
  refine ⟨wf, ?_, ?_, base.numbered, ?_, base.admitted⟩
  · rw [hatts, List.map_append, List.nodup_append]
    refine ⟨inv.keys, ?_, ?_⟩
    · refine List.Nodup.sublist (hfresh.map _) ?_
      have : ((s.db.returned sid).map fun r => r.1.id).Nodup := Db.nodup_returned inv.wf
      rw [List.map_map]
      refine List.Nodup.of_map Prod.fst ?_
      rw [List.map_map]
      exact this
    · rintro k hk k' hk' rfl
      obtain ⟨att, hatt, rfl⟩ := List.mem_map.1 hk
      obtain ⟨att', hatt', heq⟩ := List.mem_map.1 hk'
      obtain ⟨r, -, rfl⟩ := hmem hatt'
      have hnum := (inv.follows att hatt).numbered
      simp only [Attempt.key, newAttempt, Prod.mk.injEq] at heq
      rw [← heq.1] at hnum
      omega
  · intro att hatt
    rw [hatts] at hatt
    rcases List.mem_append.1 hatt with hatt | hatt
    · exact { base.follows att hatt with }
    · obtain ⟨⟨r, p⟩, hr, rfl⟩ := hmem hatt
      obtain ⟨hrow, hst, hidle⟩ := Db.returned_lockable inv.wf hr
      obtain ⟨r', hr', hc⟩ := kept _ r hrow
      have hfacts : s'.facts (s.newAttempt cfg c (r, p)).key = .nothing := by
        simp only [facts, hlog]
        rw [factsOf_append_silent (fun ent hent => by rw [(hnew hent).2.2]; rfl)]
        exact inv.facts_fresh _
      refine ⟨?_, ⟨r', hr', r, p, rfl, hc.sameOperation⟩, by rw [hfacts]; rfl, ?_⟩
      · rw [hclaims, if_pos]
        · exact Nat.le_refl _
        · exact List.mem_map.2 ⟨(r, p), hr, rfl⟩
      · rw [hfacts]
        exact Dispatcher.execute_follows cfg _
  · intro ent hent hw att hatt
    rw [hatts] at hatt
    rcases List.mem_append.1 hatt with hatt | hatt
    · exact base.closed ent hent hw att hatt
    · obtain ⟨r, -, rfl⟩ := hmem hatt
      rw [hlog] at hent
      rcases List.mem_append.1 hent with hent | hent
      · have hnum := inv.numbered ent hent
        rintro heq
        simp only [Attempt.key, Entry.key, newAttempt, Prod.mk.injEq] at heq
        rw [heq.1] at heq
        omega
      · rw [(hnew hent).2.2] at hw
        cases hw

theorem key_ne_of_split {before after : List Attempt} {att : Attempt}
    (hn : ((before ++ att :: after).map Attempt.key).Nodup) : ∀ att' ∈ before ++ after, att'.key ≠ att.key := by
  intro att' hatt' heq
  rw [List.map_append, List.map_cons, List.nodup_middle, List.nodup_cons] at hn
  refine hn.1 (heq ▸ ?_)
  rw [← List.map_append]
  exact List.mem_map_of_mem hatt'

theorem facts_heard {att : Attempt} {e : Io} {x : e.Answer}
    (hlog : s'.log = s.log ++ [⟨att.row, att.claim, .heard e x⟩]) (key : Uuid × Nat) :
    s'.facts key = if att.key = key then (s.facts key).hear e x else s.facts key := by
  simp only [facts, hlog, factsOf_heard]
  refine if_congr ?_ rfl rfl
  simp [Attempt.key, Prod.ext_iff]

theorem Followed.replied (inv : s.Followed cfg) {before after : List Attempt} {att : Attempt} {e : Io}
    {k : e.Answer → Prog Dispatch (Except Failure Unit)} {x : e.Answer}
    (split : s.attempts = before ++ att :: after) (asks : att.prog = .await e k) (quiet : e.outcome = none)
    (hdb : s'.db = s.db) (hatts : s'.attempts = before ++ { att with prog := k x } :: after)
    (hlog : s'.log = s.log ++ [⟨att.row, att.claim, .heard e x⟩]) : s'.Followed cfg := by
  have hatt : att ∈ s.attempts := split ▸ List.mem_append_right _ List.mem_cons_self
  have own := inv.follows att hatt
  have hsafe := own.safe
  rw [asks] at hsafe
  have others := key_ne_of_split (split ▸ inv.keys)
  have hfacts := facts_heard hlog
  have hclaims (u : Uuid) : claimsOf s'.log u = claimsOf s.log u := by
    have hnone : ∀ ent ∈ [(⟨att.row, att.claim, .heard e x⟩ : Entry)], ent.event.isClaimed = false :=
      fun ent hent => by rw [List.mem_singleton.1 hent]; rfl
    rw [hlog, claimsOf_append, claimsOf_unclaimed hnone, Nat.add_zero]
  have other {att' : Attempt} (h : att' ∈ before ++ after) : s'.Follows cfg att' := by
    have hold := inv.follows att' (split ▸ by simp at h ⊢; tauto)
    have hsame : s'.facts att'.key = s.facts att'.key := (hfacts _).trans (if_neg (others att' h).symm)
    exact ⟨hclaims _ ▸ hold.numbered, hdb ▸ hold.about, hsame ▸ hold.unwritten, hsame ▸ hold.safe⟩
  have was {att' : Attempt} (h : att' ∈ s'.attempts) : ∃ old ∈ s.attempts, old.key = att'.key := by
    rw [hatts, List.mem_append, List.mem_cons] at h
    rcases h with h | rfl | h
    · exact ⟨att', split ▸ List.mem_append_left _ h, rfl⟩
    · exact ⟨att, hatt, rfl⟩
    · exact ⟨att', split ▸ List.mem_append_right _ (List.mem_cons_of_mem _ h), rfl⟩
  refine ⟨hdb ▸ inv.wf, ?_, ?_, ?_, ?_, ?_⟩
  · have := inv.keys
    rw [split] at this
    rw [hatts]
    simpa [Attempt.key] using this
  · intro att' hatt'
    rw [hatts, List.mem_append, List.mem_cons] at hatt'
    rcases hatt' with h | rfl | h
    · exact other (List.mem_append_left _ h)
    · have hown : s'.facts att.key = (s.facts att.key).hear e x := (hfacts _).trans (if_pos rfl)
      refine ⟨(hclaims _).symm ▸ own.numbered, hdb ▸ own.about, ?_, hown ▸ hsafe.resume x trivial⟩
      exact (congrArg Facts.wrote hown).trans ((Facts.wrote_hear quiet _ x).trans own.unwritten)
    · exact other (List.mem_append_right _ h)
  · intro ent hent
    rw [hclaims]
    rcases List.mem_append.1 (hlog ▸ hent) with hent | hent
    · exact inv.numbered ent hent
    · rw [List.mem_singleton.1 hent]
      exact own.numbered
  · intro ent hent hw att' hatt'
    rcases List.mem_append.1 (hlog ▸ hent) with hent | hent
    · obtain ⟨old, hold, hkey⟩ := was hatt'
      exact hkey ▸ inv.closed ent hent hw old hold
    · rw [List.mem_singleton.1 hent] at hw
      cases hw
  · intro ent hent
    rcases List.mem_append.1 (hlog ▸ hent) with hent | hent
    · refine (inv.admitted ent hent).quiet (fun u r hr => ⟨r, hdb ▸ hr, .same r⟩) fun hw => ?_
      exact (hfacts ent.key).trans (if_neg (inv.closed ent hent hw att hatt))
    · obtain rfl := List.mem_singleton.1 hent
      rintro _ ⟨⟩
      obtain ⟨r, hr, hop⟩ := own.about
      exact ⟨r, att.op, s.facts att.key, hdb ▸ hr, hop, hsafe.allowed, fun hw => by cases hw⟩

theorem Followed.written (inv : s.Followed cfg) {before after : List Attempt} {att : Attempt} {e : Io}
    {k : e.Answer → Prog Dispatch (Except Failure Unit)} {db : Db} {applied : Bool} {current : Nat}
    (split : s.attempts = before ++ att :: after) (asks : att.prog = .await e k) (hout : e.outcome.isSome)
    (wf : db.WellFormed) (kept : ∀ u r, s.db.row? u = some r → ∃ r', db.row? u = some r' ∧ r.Change r') :
    ({ s with
      db := db
      attempts := before ++ after
      log := s.log ++ [⟨att.row, att.claim, .wrote e applied current⟩] } : Deployment).Followed cfg := by
  have hatt : att ∈ s.attempts := split ▸ List.mem_append_right _ List.mem_cons_self
  have own := inv.follows att hatt
  have hsafe := own.safe
  rw [asks] at hsafe
  have others := key_ne_of_split (split ▸ inv.keys)
  have silent : ∀ ent ∈ [(⟨att.row, att.claim, .wrote e applied current⟩ : Entry)],
      ent.event.isHeard = false := fun ent hent => by rw [List.mem_singleton.1 hent]; rfl
  refine inv.quiet wf kept ?_ rfl silent ?_ ?_ ?_
  · rw [split]
    exact List.Sublist.append_left (List.sublist_cons_self _ _) _
  · intro ent hent
    rw [List.mem_singleton.1 hent, claimsOf_append]
    exact Nat.le_add_right_of_le own.numbered
  · intro ent hent _ att' hatt'
    rw [List.mem_singleton.1 hent]
    exact others att' hatt'
  · intro ent hent
    obtain rfl := List.mem_singleton.1 hent
    rintro _ ⟨⟩
    obtain ⟨r, hr, hop⟩ := own.about
    obtain ⟨r', hr', hc⟩ := kept _ r hr
    exact ⟨r', att.op, s.facts att.key, hr', hop.change hc, hsafe.allowed,
      fun _ => ⟨(factsOf_append_silent silent).symm, hout⟩⟩

/-- **Attempts follow the protocol** in every state of every run. -/
theorem Followed.step (inv : s.Followed cfg) (h : Stepped advisoryLockKey cfg s a s') : s'.Followed cfg := by
  have wf := h.wellFormed inv.wf
  have kept (u : Uuid) (r : Row) (hr : s.db.row? u = some r) := h.row_kept inv.wf hr
  have idle {db : Db} (wf : db.WellFormed)
      (kept : ∀ u r, s.db.row? u = some r → ∃ r', db.row? u = some r' ∧ r.Change r') :
      ({ s with db := db } : Deployment).Followed cfg :=
    have hlog : s.log = s.log ++ [] := (List.append_nil _).symm
    inv.quiet wf kept (List.Sublist.refl _) hlog (by simp) (by simp) (by simp) (by simp)
  cases h with
  | database | reaped => exact idle wf kept
  | @committed _ _ delivered =>
    refine inv.committed wf kept rfl rfl ?_
    cases delivered
    · exact List.nil_sublist _
    · exact List.Sublist.refl _
  | replied _ split asks accepted => exact inv.replied split asks (Reply.outcome_of_accept accepted) rfl rfl rfl
  | wrote _ split asks statement => exact inv.written split asks (Io.outcome_of_statement statement) wf kept
  | writeLost _ split asks statement =>
    exact inv.written split asks (Io.outcome_of_statement statement) wf kept
  | died proc =>
    have hdied {ent : Entry} (hent : ent ∈ (s.attempts.filter fun att => att.proc = proc).map fun att =>
        (⟨att.row, att.claim, .died⟩ : Entry)) : ∃ att ∈ s.attempts, ent = ⟨att.row, att.claim, .died⟩ := by
      obtain ⟨att, hatt, rfl⟩ := List.mem_map.1 hent
      exact ⟨att, (List.mem_filter.1 hatt).1, rfl⟩
    refine inv.quiet wf kept List.filter_sublist rfl ?_ ?_ ?_ ?_
    · intro ent hent
      obtain ⟨att, -, rfl⟩ := hdied hent
      rfl
    · intro ent hent
      obtain ⟨att, hatt, rfl⟩ := hdied hent
      have := (inv.follows att hatt).numbered
      simp only [die, claimsOf_append]
      omega
    · intro ent hent hw
      obtain ⟨att, -, rfl⟩ := hdied hent
      cases hw
    · intro ent hent e he
      obtain ⟨att, -, rfl⟩ := hdied hent
      cases he

theorem Followed.deferral (inv : s.Followed cfg) {att : Attempt} (hatt : att ∈ s.attempts) {id : String}
    {notBefore : Nat} {k : Except Failure Bool → Prog Dispatch (Except Failure Unit)}
    (asks : att.prog = .await (.deferForReadback id notBefore) k) {r : Row}
    (hid : operationIdOf id = some r.id) (hr : s.db.row? r.id = some r) :
    att.row = r.id ∧ att.op.Describes r ∧ Ruled cfg att.op (s.facts att.key) .deferReadback := by
  have own := inv.follows att hatt
  have safe := own.safe
  rw [asks] at safe
  obtain ⟨-, hop, hruled⟩ := safe.allowed
  obtain ⟨r₀, hr₀, hdescribes⟩ := own.about
  rw [hop, hdescribes.id] at hid
  have hsame := Option.some.inj hid
  have hrow := (Db.row?_id hr₀).symm.trans hsame
  rw [hrow, hr] at hr₀
  cases hr₀
  exact ⟨hrow, hdescribes, hruled⟩

theorem followed_start (now : Nat) (partitions : List Nat) : (start now partitions).Followed cfg where
  wf := Db.wellFormed_start now partitions
  keys := List.nodup_nil
  follows := by simp [start]
  numbered := by simp [start]
  closed := by simp [start]
  admitted := by simp [start]

end Deployment

end Provisioning
