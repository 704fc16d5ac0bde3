import Provisioning.Ops.Attempts

/-!
# How far an attempt is

What an attempt has heard decides what it does next, since `execute` has no other input. So a
property of every run of an attempt is a property of `execute` alone.
-/

namespace Provisioning

open Lib

abbrev Heard : Type := (e : Io) × e.Answer

def Event.heard? : Event → Option Heard
  | .heard e a => some ⟨e, a⟩
  | _ => none

/-- What the attempt of this claim has heard, in order. -/
def transcriptOf (log : List Entry) (u : Uuid) (claim : Nat) : List Heard :=
  (log.filter fun ent => ent.row = u ∧ ent.claim = claim).filterMap fun ent => ent.event.heard?

theorem transcriptOf_append {log more : List Entry} {u : Uuid} {claim : Nat} :
    transcriptOf (log ++ more) u claim = transcriptOf log u claim ++ transcriptOf more u claim := by
  simp only [transcriptOf, List.filter_append, List.filterMap_append]

theorem transcriptOf_silent {more : List Entry} {u : Uuid} {claim : Nat}
    (h : ∀ ent ∈ more, ent.row = u → ent.claim = claim → ent.event.isHeard = false) :
    transcriptOf more u claim = [] := by
  unfold transcriptOf
  rw [List.filterMap_eq_nil_iff]
  intro ent hent
  simp only [List.mem_filter, decide_eq_true_eq] at hent
  have hsilent := h ent hent.1 hent.2.1 hent.2.2
  cases hev : ent.event <;> simp [hev, Event.isHeard, Event.heard?] at hsilent ⊢

theorem mem_transcriptOf {log : List Entry} {u : Uuid} {claim : Nat} {e : Io} {a : e.Answer} :
    (⟨e, a⟩ : Heard) ∈ transcriptOf log u claim ↔ (⟨u, claim, .heard e a⟩ : Entry) ∈ log := by
  unfold transcriptOf
  simp only [List.mem_filterMap, List.mem_filter, decide_eq_true_eq]
  constructor
  · rintro ⟨⟨row, claim', ev⟩, ⟨hmem, rfl, rfl⟩, hev⟩
    cases ev <;> simp only [Event.heard?, Option.some.injEq, reduceCtorEq] at hev
    cases hev
    exact hmem
  · intro hmem
    exact ⟨_, ⟨hmem, rfl, rfl⟩, rfl⟩

/-- The event is the next thing after `before` in the transcript, and a write is the last thing. -/
def Event.ComesAfter (before heard : List Heard) : Event → Prop
  | .heard e a => before ++ [⟨e, a⟩] <+: heard
  | _ => before = heard

namespace Deployment

variable {advisoryLockKey : String → BitVec 64} {cfg : ResolvedDispatcherConfig} {s s' : Deployment} {a : Action}

def transcript (s : Deployment) (key : Uuid × Nat) : List Heard := transcriptOf s.log key.1 key.2

/-- Every effect is the one that `execute` comes to with what the attempt had heard. -/
def Logged (cfg : ResolvedDispatcherConfig) (s : Deployment) (ent : Entry) : Prop :=
  ∀ e, ent.event.effect = some e → ∃ r op before k, s.db.row? ent.row = some r ∧ op.Describes r ∧
    (Dispatcher.execute cfg op).run.Reaches before (.await e k) ∧
    ent.event.ComesAfter before (s.transcript ent.key)

structure Replays (cfg : ResolvedDispatcherConfig) (s : Deployment) : Prop where
  live : ∀ att ∈ s.attempts, (Dispatcher.execute cfg att.op).run.Reaches (s.transcript att.key) att.prog
  logged : ∀ ent ∈ s.log, s.Logged cfg ent

theorem Logged.kept {more : List Entry} {ent : Entry} (h : s.Logged cfg ent)
    (kept : ∀ u r, s.db.row? u = some r → ∃ r', s'.db.row? u = some r' ∧ r.Change r')
    (hlog : s'.log = s.log ++ more)
    (closed : ent.event.isWrote → transcriptOf more ent.row ent.claim = []) : s'.Logged cfg ent := by
  intro e he
  obtain ⟨r, op, before, k, hr, hop, hreach, hafter⟩ := h e he
  obtain ⟨r', hr', hc⟩ := kept _ r hr
  refine ⟨r', op, before, k, hr', hop.change hc, hreach, ?_⟩
  have hgrown : s'.transcript ent.key = s.transcript ent.key ++ transcriptOf more ent.row ent.claim := by
    unfold transcript
    rw [hlog, transcriptOf_append]
    rfl
  rw [hgrown]
  cases hev : ent.event with
  | heard e a =>
    rw [hev] at hafter
    exact hafter.trans (List.prefix_append _ _)
  | wrote e applied current =>
    rw [hev] at hafter
    rw [closed (by rw [hev]; rfl), List.append_nil]
    exact hafter
  | claimed | died =>
    rw [hev] at he
    cases he

theorem Replays.quiet {more : List Entry} (inv : s.Replays cfg)
    (kept : ∀ u r, s.db.row? u = some r → ∃ r', s'.db.row? u = some r' ∧ r.Change r')
    (hatts : s'.attempts ⊆ s.attempts) (hlog : s'.log = s.log ++ more)
    (silent : ∀ ent ∈ more, ent.event.isHeard = false) (logged : ∀ ent ∈ more, s'.Logged cfg ent) :
    s'.Replays cfg := by
  have hsame (u : Uuid) (claim : Nat) : transcriptOf more u claim = [] :=
    transcriptOf_silent fun ent hent _ _ => silent ent hent
  constructor
  · intro att hatt
    have hgrown : s'.transcript att.key = s.transcript att.key := by
      unfold transcript
      rw [hlog, transcriptOf_append, hsame, List.append_nil]
    rw [hgrown]
    exact inv.live att (hatts hatt)
  · intro ent hent
    rcases List.mem_append.1 (hlog ▸ hent) with hent | hent
    · exact (inv.logged ent hent).kept kept hlog fun _ => hsame _ _
    · exact logged ent hent

theorem Followed.about_kept (followed : s.Followed cfg)
    (kept : ∀ u r, s.db.row? u = some r → ∃ r', s'.db.row? u = some r' ∧ r.Change r') {att : Attempt}
    (hatt : att ∈ s.attempts) : ∃ r', s'.db.row? att.row = some r' ∧ att.op.Describes r' := by
  obtain ⟨r, hr, hop⟩ := (followed.follows att hatt).about
  obtain ⟨r', hr', hc⟩ := kept _ r hr
  exact ⟨r', hr', hop.change hc⟩

theorem Replays.committed (inv : s.Replays cfg) (followed : s.Followed cfg) {c : ClaimStatement} {sid : Nat}
    {fresh : List Attempt}
    (kept : ∀ u r, s.db.row? u = some r → ∃ r', s'.db.row? u = some r' ∧ r.Change r')
    (hlog : s'.log = s.log ++ (s.db.returned sid).map (s.newEntry c)) (hatts : s'.attempts = s.attempts ++ fresh)
    (hfresh : fresh ⊆ (s.db.returned sid).map (s.newAttempt cfg c)) : s'.Replays cfg := by
  have hnew {ent : Entry} (hent : ent ∈ (s.db.returned sid).map (s.newEntry c)) := mem_newEntries hent
  have silent : ∀ ent ∈ (s.db.returned sid).map (s.newEntry c), ent.event.isHeard = false := by
    intro ent hent
    rw [(hnew hent).2.2]
    rfl
  have base : ({ s' with attempts := s.attempts } : Deployment).Replays cfg := by
    refine inv.quiet kept (List.Subset.refl _) hlog silent fun ent hent e he => ?_
    rw [(hnew hent).2.2] at he
    cases he
  refine ⟨fun att hatt => ?_, base.logged⟩
  rw [hatts] at hatt
  rcases List.mem_append.1 hatt with hatt | hatt
  · exact base.live att hatt
  · obtain ⟨r, -, rfl⟩ := List.mem_map.1 (hfresh hatt)
    have hempty : s'.transcript (s.newAttempt cfg c r).key = [] := by
      unfold transcript
      rw [hlog, transcriptOf_append, transcriptOf_silent fun ent hent _ _ => silent ent hent, List.append_nil]
      apply transcriptOf_silent
      intro ent hent hrow hclaim
      have hnumbered := followed.numbered ent hent
      rw [hrow, hclaim] at hnumbered
      simp only [Attempt.key, newAttempt] at hnumbered
      omega
    rw [hempty]
    exact .start _

theorem Replays.replied (inv : s.Replays cfg) (followed : s.Followed cfg) {before after : List Attempt}
    {att : Attempt} {e : Io} {k : e.Answer → Prog Dispatch (Except Failure Unit)} {x : e.Answer}
    (split : s.attempts = before ++ att :: after) (asks : att.prog = .await e k) (hdb : s'.db = s.db)
    (hatts : s'.attempts = before ++ { att with prog := k x } :: after)
    (hlog : s'.log = s.log ++ [⟨att.row, att.claim, .heard e x⟩]) : s'.Replays cfg := by
  have hatt : att ∈ s.attempts := split ▸ List.mem_append_right _ List.mem_cons_self
  have kept : ∀ u r, s.db.row? u = some r → ∃ r', s'.db.row? u = some r' ∧ r.Change r' :=
    fun u r hr => ⟨r, hdb ▸ hr, .same r⟩
  have others := key_ne_of_split (split ▸ followed.keys)
  have hown : s'.transcript att.key = s.transcript att.key ++ [⟨e, x⟩] := by
    unfold transcript
    rw [hlog, transcriptOf_append]
    simp [transcriptOf, Attempt.key, Event.heard?]
  have hother (key : Uuid × Nat) (hne : key ≠ att.key) :
      transcriptOf [⟨att.row, att.claim, .heard e x⟩] key.1 key.2 = [] := by
    apply transcriptOf_silent
    intro ent hent hrow hclaim
    rw [List.mem_singleton.1 hent] at hrow hclaim
    exact absurd (Prod.ext hrow.symm hclaim.symm) hne
  have other {att' : Attempt} (h : att' ∈ before ++ after) :
      (Dispatcher.execute cfg att'.op).run.Reaches (s'.transcript att'.key) att'.prog := by
    have hgrown : s'.transcript att'.key = s.transcript att'.key := by
      unfold transcript
      rw [hlog, transcriptOf_append, hother _ (others att' h), List.append_nil]
    rw [hgrown]
    apply inv.live
    rw [split]
    simp only [List.mem_append, List.mem_cons] at h ⊢
    tauto
  have reached := inv.live att hatt
  rw [asks] at reached
  constructor
  · intro att' hatt'
    rw [hatts, List.mem_append, List.mem_cons] at hatt'
    rcases hatt' with h | rfl | h
    · exact other (List.mem_append_left _ h)
    · change (Dispatcher.execute cfg att.op).run.Reaches (s'.transcript att.key) (k x)
      rw [hown]
      exact reached.snoc x
    · exact other (List.mem_append_right _ h)
  · intro ent hent
    rcases List.mem_append.1 (hlog ▸ hent) with hent | hent
    · refine (inv.logged ent hent).kept kept hlog fun hw => hother ent.key ?_
      exact fun heq => followed.closed ent hent hw att hatt heq.symm
    · obtain rfl := List.mem_singleton.1 hent
      rintro _ ⟨⟩
      obtain ⟨r', hr', hop⟩ := followed.about_kept kept hatt
      refine ⟨r', att.op, s.transcript att.key, k, hr', hop, reached, ?_⟩
      change s.transcript att.key ++ [⟨e, x⟩] <+: s'.transcript att.key
      exact hown ▸ List.prefix_rfl

/-- **Attempts replay `execute`** in every state of every run. -/
theorem Replays.step (inv : s.Replays cfg) (followed : s.Followed cfg)
    (h : Stepped advisoryLockKey cfg s a s') : s'.Replays cfg := by
  have kept (u : Uuid) (r : Row) (hr : s.db.row? u = some r) := h.row_kept followed.wf hr
  have hnil : s.log = s.log ++ [] := (List.append_nil _).symm
  -- The write of an attempt is the last thing in its transcript.
  have written {before after : List Attempt} {att : Attempt} {e : Io} {applied : Bool}
      {k : e.Answer → Prog Dispatch (Except Failure Unit)} (split : s.attempts = before ++ att :: after)
      (asks : att.prog = .await e k) (hatts : s'.attempts = before ++ after)
      (hlog : s'.log = s.log ++ [⟨att.row, att.claim, .wrote e applied (claimsOf s.log att.row)⟩]) :
      s'.Replays cfg := by
    have hatt : att ∈ s.attempts := split ▸ List.mem_append_right _ List.mem_cons_self
    have silent : ∀ ent ∈ [(⟨att.row, att.claim, .wrote e applied (claimsOf s.log att.row)⟩ : Entry)],
        ent.event.isHeard = false := fun ent hent => by rw [List.mem_singleton.1 hent]; rfl
    refine inv.quiet kept ?_ hlog silent fun ent hent => ?_
    · rw [hatts, split]
      intro att' hatt'
      simp only [List.mem_append, List.mem_cons] at hatt' ⊢
      tauto
    · obtain rfl := List.mem_singleton.1 hent
      rintro _ ⟨⟩
      obtain ⟨r', hr', hop⟩ := followed.about_kept kept hatt
      have reached := inv.live att hatt
      rw [asks] at reached
      refine ⟨r', att.op, s.transcript att.key, k, hr', hop, reached, ?_⟩
      change s.transcript att.key = transcriptOf s'.log att.row att.claim
      rw [hlog, transcriptOf_append, transcriptOf_silent fun ent hent _ _ => silent ent hent, List.append_nil]
      rfl
  cases h with
  | database | reaped => exact inv.quiet kept (List.Subset.refl _) hnil (by simp) (by simp)
  | @committed _ _ delivered =>
    refine inv.committed followed kept rfl rfl ?_
    cases delivered
    · exact List.nil_subset _
    · exact List.Subset.refl _
  | replied _ split asks => exact inv.replied followed split asks rfl rfl rfl
  | wrote _ split asks => exact written split asks rfl rfl
  | writeLost _ split asks => exact written split asks rfl rfl
  | died proc =>
    refine inv.quiet kept (List.filter_subset_self _) rfl ?_ ?_
    · intro ent hent
      obtain ⟨att, -, rfl⟩ := List.mem_map.1 hent
      rfl
    · intro ent hent e he
      obtain ⟨att, -, rfl⟩ := List.mem_map.1 hent
      cases he

theorem replays_start (now : Nat) (partitions : List Nat) : (start now partitions).Replays cfg :=
  ⟨by simp [start], by simp [start]⟩

theorem replays_run {ok : Deployment → Action → Deployment → Prop} {now : Nat} {partitions : List Nat}
    (run : Runs (step advisoryLockKey cfg) ok (start now partitions) s) : s.Followed cfg ∧ s.Replays cfg :=
  run.invariant (fun s => s.Followed cfg ∧ s.Replays cfg)
    ⟨followed_start now partitions, replays_start now partitions⟩
    fun _ _ _ inv h _ => ⟨inv.1.step (stepped h), inv.2.step inv.1 (stepped h)⟩

theorem foldl_after (op : ClaimedOperation) (ents : List Entry) (f : Facts) :
    ents.foldl (fun f ent => f.after ent.event) f =
      (protocol cfg op).recall f (ents.filterMap fun ent => ent.event.heard?) := by
  induction ents generalizing f with
  | nil => rfl
  | cons ent rest ih =>
    obtain ⟨row, claim, ev⟩ := ent
    rw [List.foldl_cons, ih]
    cases ev <;> rfl

theorem facts_eq_recall (op : ClaimedOperation) (key : Uuid × Nat) :
    s.facts key = (protocol cfg op).recall .nothing (s.transcript key) := foldl_after op _ _

theorem capabilities_heard (op : ClaimedOperation) {key : Uuid × Nat} {caps : ConnectorCapabilities}
    (h : (s.facts key).capabilities = some caps) :
    ∃ i, (⟨key.1, key.2, .heard (.capabilitiesOf i) caps⟩ : Entry) ∈ s.log := by
  have hrecall : s.facts key = (protocol .DEFAULTS op).recall .nothing (s.transcript key) := facts_eq_recall op key
  rw [hrecall] at h
  obtain ⟨x, hx, f, hnot, hknown⟩ :=
    Prog.recall_learned (fun f : Facts => f.capabilities = some caps) (by simp [Facts.nothing]) h
  rcases Facts.capabilities_hear hknown with hold | ⟨i, heq⟩
  · exact absurd hold hnot
  · refine ⟨i, mem_transcriptOf.1 ?_⟩
    rw [← heq]
    exact hx

theorem found_learned {e : Io} {f : Facts} {x : e.Answer} {r : Except Failure (List ConnectorObject)}
    (h : (f.hear e x).found = some r) :
    f.found = some r ∨ ∃ o a v d, (⟨e, x⟩ : Heard) = ⟨.search o a v d, r⟩ := by
  cases e <;> try exact .inl h
  case configOf => cases x <;> exact .inl h
  case search =>
    cases h
    exact .inr ⟨_, _, _, _, rfl⟩

theorem search_heard (op : ClaimedOperation) {key : Uuid × Nat} {r : Except Failure (List ConnectorObject)}
    (h : (s.facts key).found = some r) : ∃ o a v d, (⟨.search o a v d, r⟩ : Heard) ∈ s.transcript key := by
  have hrecall : s.facts key = (protocol .DEFAULTS op).recall .nothing (s.transcript key) := facts_eq_recall op key
  rw [hrecall] at h
  obtain ⟨x, hx, f, hnot, hknown⟩ :=
    Prog.recall_learned (fun f : Facts => f.found = some r) (by simp [Facts.nothing]) h
  obtain ⟨o, a, v, d, heq⟩ := (found_learned hknown).resolve_left hnot
  exact ⟨o, a, v, d, heq ▸ hx⟩

/-! ## What a monitor of `execute` says about a run -/

variable {M : Type} {mon : ClaimedOperation → Monitor Dispatch M} {m : M} {post : M → Except Failure Unit → Prop}

/-- The attempt of this claim has come to the effect. -/
def Issued (s : Deployment) (key : Uuid × Nat) (e : Io) : Prop :=
  (∃ att ∈ s.attempts, att.key = key ∧ ∃ k, att.prog = .await e k) ∨
    ∃ ent ∈ s.log, ent.key = key ∧ ent.event.effect = some e

/-- What a monitor allows of `execute`, it allows of every effect of a run, with what the attempt had
heard before it. -/
theorem Replays.issued (inv : s.Replays cfg) (followed : s.Followed cfg)
    (safe : ∀ op, Prog.Safe (mon op) post m (Dispatcher.execute cfg op).run)
    (expects : ∀ op e x, (mon op).expects e x) {key : Uuid × Nat} {e : Io} (h : s.Issued key e) :
    ∃ r op before, s.db.row? key.1 = some r ∧ op.Describes r ∧ (mon op).allows ((mon op).recall m before) e ∧
      before <+: s.transcript key := by
  have allowed {op : ClaimedOperation} {before : List Heard} {k : e.Answer → Prog Dispatch (Except Failure Unit)}
      (hreach : (Dispatcher.execute cfg op).run.Reaches before (.await e k)) :
      (mon op).allows ((mon op).recall m before) e :=
    ((safe op).reaches hreach fun x _ => expects op x.1 x.2).allowed
  rcases h with ⟨att, hatt, rfl, k, asks⟩ | ⟨ent, hent, rfl, he⟩
  · obtain ⟨r, hr, hop⟩ := (followed.follows att hatt).about
    have reached := inv.live att hatt
    rw [asks] at reached
    exact ⟨r, att.op, _, hr, hop, allowed reached, List.prefix_rfl⟩
  · obtain ⟨r, op, before, k, hr, hop, hreach, hafter⟩ := inv.logged ent hent e he
    refine ⟨r, op, before, hr, hop, allowed hreach, ?_⟩
    cases hev : ent.event with
    | heard e' x =>
      rw [hev] at hafter
      exact (List.prefix_append _ _).trans hafter
    | wrote e' applied current =>
      rw [hev] at hafter
      exact hafter ▸ List.prefix_rfl
    | claimed | died =>
      rw [hev] at he
      cases he

end Deployment

end Provisioning
