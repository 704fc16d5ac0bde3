import Provisioning.Ops.Evidence
import Provisioning.Ops.Holding
import Provisioning.Ops.StatusRetention

/-!
# Which create an account belongs to

A target mints the uid of an account for one call. A create that succeeds reports the uid that its
call returned, or the one of the account that holds its name when it is read back.
-/

namespace Provisioning

open Lib

/-! ## What a row reports -/

namespace Deployment

variable {advisoryLockKey : String → BitVec 64} {cfg : ResolvedDispatcherConfig} {s s' : Deployment} {a : Action}

/-- The outcome and the result of a row are those of a write that was applied. -/
def Reported (s : Deployment) : Prop :=
  ∀ u r o, s.db.row? u = some r → r.status = .final o → ∃ claim id errorCode current,
    (⟨u, claim, .wrote (.finalize id o r.result errorCode) true current⟩ : Entry) ∈ s.log

theorem Reported.step (inv : s.Reported) (followed : s.Followed cfg) (untold : s.db.Untold)
    (h : Stepped advisoryLockKey cfg s a s') : s'.Reported := by
  intro u r' o hr' hst
  rcases h.final_origin followed.wf hr' hst with hsame | ⟨r, att, id, result, errorCode, began, k, hr, hopen, rfl, hid,
    hatt, asks, hlogged⟩
  · obtain ⟨claim, id, errorCode, current, hlog⟩ := inv u r' o hsame hst
    exact ⟨claim, id, errorCode, current, h.log_prefix.subset hlog⟩
  · have hrow : operationIdOf id = some att.row := (followed.follows att hatt).write_row asks rfl
    obtain rfl : u = att.row := Option.some.inj (hid.symm.trans hrow)
    have hresult : (r.finalized o result errorCode began).result = result := by
      simp [Row.finalized, untold r (lookup_some_mem hr).1 hopen]
    rw [hresult]
    exact ⟨att.claim, id, errorCode, _, hlogged⟩

theorem reported_run {now : Nat} {partitions : List Nat}
    (run : Runs (step advisoryLockKey cfg) anyStep (start now partitions) s) :
    (s.Followed cfg ∧ s.Replays cfg) ∧ s.Reported := by
  have inv : (s.Followed cfg ∧ s.Replays cfg) ∧ s.db.Untold ∧ s.Reported := by
    refine run.invariant (fun s => (s.Followed cfg ∧ s.Replays cfg) ∧ s.db.Untold ∧ s.Reported) ?_ ?_
    · refine ⟨⟨followed_start now partitions, replays_start now partitions⟩, ?_, ?_⟩
      · simp [start, Db.start, Db.Untold]
      · intro u r o hr
        simp [start, Db.start, Db.row?, Tables.row?, lookup] at hr
    · rintro s a s' ⟨⟨followed, replays⟩, untold, reported⟩ h -
      have hs := stepped h
      refine ⟨⟨followed.step hs, replays.step followed hs⟩, ?_, reported.step followed untold hs⟩
      rcases hs.database_step with hdb | ⟨b, hdb⟩
      · exact hdb ▸ untold
      · exact untold.step followed.wf hdb
  exact ⟨inv.1, inv.2.2⟩

end Deployment

/-! ## The target -/

structure Account where
  instanceId : String
  objectClass : String
  name : String
  uid : String

/-- A call of `create` that the target has received and not applied. -/
structure ReceivedCreate where
  row : Uuid
  claim : Nat
  instanceId : String
  objectClass : String
  attrs : Json

/-- A uid that was minted for a call. -/
structure Mint where
  instanceId : String
  uid : String
  row : Uuid
  claim : Nat
  deriving DecidableEq

structure Target where
  accounts : List Account
  received : List ReceivedCreate
  minted : List Mint

def Attempt.awaited (att : Attempt) : Option Io :=
  match att.prog with
  | .await e _ => some e
  | .pure _ => none

namespace Target

variable (t : Target)

def holders (instanceId objectClass name : String) : List Account :=
  t.accounts.filter fun acc => acc.instanceId = instanceId ∧ acc.objectClass = objectClass ∧ acc.name = name

/-- The target applies a call, perhaps long after its deadline. It refuses a name that is in use, and the
uid is a fresh one. -/
def apply (nameOf : String → String → Json → Option String) (i : Nat) (uid : String) : Option Target :=
  match t.received[i]? with
  | none => none
  | some c =>
    match nameOf c.instanceId c.objectClass c.attrs with
    | none => none
    | some name =>
      if t.holders c.instanceId c.objectClass name = [] ∧
          (∀ m ∈ t.minted, ¬ (m.instanceId = c.instanceId ∧ m.uid = uid)) ∧
          ∀ acc ∈ t.accounts, ¬ (acc.instanceId = c.instanceId ∧ acc.uid = uid) then
        some
          { accounts := t.accounts ++ [⟨c.instanceId, c.objectClass, name, uid⟩]
            received := t.received.eraseIdx i
            minted := t.minted ++ [⟨c.instanceId, uid, c.row, c.claim⟩] }
      else none

/-- A create returns the object that was made for this call. A search by name is exact. A call may fail
whatever the target did. -/
def answers (att : Attempt) (r : Reply) : Bool :=
  match att.awaited, r with
  | some (.settle (.create ..)), .settled (.ok (some o)) =>
    decide (⟨att.op.instanceId, o.uid, att.row, att.claim⟩ ∈ t.minted)
  | some (.search objectClass _ name _), .found (.ok os) =>
    let holders := t.holders att.op.instanceId objectClass name
    os.all (fun o => holders.any fun acc => acc.uid = o.uid) && (holders.isEmpty || !os.isEmpty)
  | _, _ => true

/-- The call is on its way once it is made. -/
def hears (att : Attempt) : Target :=
  match att.awaited with
  | some (.invoke (.create objectClass attrs _)) =>
    { t with received := t.received ++ [⟨att.row, att.claim, att.op.instanceId, objectClass, attrs⟩] }
  | _ => t

end Target

/-! ## A deployment over a target -/

structure World where
  deployment : Deployment
  target : Target

inductive WorldAction where
  | deployment (a : Action)
  | apply (i : Nat) (uid : String)
  /-- Others change the accounts. -/
  | others (accounts : List Account)

namespace World

variable (advisoryLockKey : String → BitVec 64) (cfg : ResolvedDispatcherConfig)
  (nameOf : String → String → Json → Option String)

def start (now : Nat) (partitions : List Nat) : World := ⟨Deployment.start now partitions, ⟨[], [], []⟩⟩

/-- What the target makes of an action of the deployment, if it lets it happen. -/
def targetAfter (w : World) : Action → Option Target
  | .reply i r =>
    match w.deployment.attempts[i]? with
    | none => none
    | some att => if w.target.answers att r then some (w.target.hears att) else none
  | _ => some w.target

def step (w : World) : WorldAction → Option World
  | .deployment a =>
    match w.targetAfter a with
    | none => none
    | some t => (w.deployment.step advisoryLockKey cfg a).map fun d => ⟨d, t⟩
  | .apply i uid => (w.target.apply nameOf i uid).map fun t => { w with target := t }
  | .others accounts => some { w with target := { w.target with accounts := accounts } }

/-- The name that the attempt searches for is held by no account but those that were made for calls of its
own operation. -/
def holdsOwn (w : World) (att : Attempt) : Bool :=
  match att.awaited with
  | some (.search objectClass _ name _) =>
    (w.target.holders att.op.instanceId objectClass name).all fun acc =>
      w.target.minted.any fun m => m.instanceId = acc.instanceId ∧ m.uid = acc.uid ∧ m.row = att.row
  | _ => true

/-- The runs in which a read-back that is answered looks for a name that no one else holds. -/
def searchesOwn (w : World) (a : WorldAction) (_ : World) : Prop :=
  match a with
  | .deployment (.reply i (.found (.ok _))) => w.deployment.attempts[i]?.all w.holdsOwn
  | _ => True

instance (w : World) (a : WorldAction) (w' : World) : Decidable (searchesOwn w a w') :=
  match a with
  | .deployment (.reply i (.found (.ok _))) =>
    inferInstanceAs (Decidable (w.deployment.attempts[i]?.all w.holdsOwn = true))
  | .deployment (.reply _ (.found (.error _))) => .isTrue trivial
  | .deployment (.reply _ (.time _)) | .deployment (.reply _ (.lease _)) | .deployment (.reply _ (.config _))
  | .deployment (.reply _ (.capabilities _)) | .deployment (.reply _ (.schema _))
  | .deployment (.reply _ (.settled _)) | .deployment (.reply _ .done) => .isTrue trivial
  | .deployment (.database _) | .deployment (.commitClaim ..) | .deployment (.write ..) | .deployment (.die _)
  | .deployment (.reap ..) | .apply .. | .others _ => .isTrue trivial

/-! ## The invariant -/

end World

/-- The uids that an answer attributes to the operation. -/
def Event.uids : Event → List String
  | .heard (.settle (.create ..)) (.ok (some o) : Except Failure (Option ConnectorObject)) => [o.uid]
  | .heard (.search ..) (.ok os : Except Failure (List ConnectorObject)) => os.map ConnectorObject.uid
  | _ => []

namespace World

structure Attributed (w : World) : Prop where
  minted : (w.target.minted.map fun m => (m.instanceId, m.uid)).Nodup
  own : ∀ ent ∈ w.deployment.log, ∀ uid ∈ ent.event.uids, ∃ r claim, w.deployment.db.row? ent.row = some r ∧
    (⟨r.instanceId, uid, ent.row, claim⟩ : Mint) ∈ w.target.minted

variable {advisoryLockKey cfg nameOf} {w w' : World} {a : WorldAction}

theorem minted_hears (t : Target) (att : Attempt) : (t.hears att).minted = t.minted := by
  unfold Target.hears
  split <;> rfl

theorem minted_of_answers {att : Attempt} {r : Reply} {e : Io} {x : e.Answer} (asks : att.awaited = some e)
    (accepted : r.accept e = some x) (answers : w.target.answers att r)
    (own : (∃ os, r = .found (.ok os)) → w.holdsOwn att) {uid : String} (huid : uid ∈ (Event.heard e x).uids) :
    ∃ claim, (⟨att.op.instanceId, uid, att.row, claim⟩ : Mint) ∈ w.target.minted := by
  unfold Event.uids at huid
  split at huid
  · rename_i objectClass attrs options o hev
    cases hev
    cases r <;> cases accepted
    simp only [Target.answers, asks, decide_eq_true_eq] at answers
    rw [List.mem_singleton.1 huid]
    exact ⟨_, answers⟩
  · rename_i objectClass nameAttribute name deadline os hev
    cases hev
    cases r <;> cases accepted
    have hown := own ⟨os, rfl⟩
    simp only [holdsOwn, asks, List.all_eq_true, List.any_eq_true, decide_eq_true_eq] at hown
    simp only [Target.answers, asks, Bool.and_eq_true, List.all_eq_true, List.any_eq_true, decide_eq_true_eq] at answers
    obtain ⟨o, ho, rfl⟩ := List.mem_map.1 huid
    obtain ⟨acc, hacc, hsame⟩ := answers.1 o ho
    obtain ⟨⟨inst, uid, row, claim⟩, hm, hinst, huid', hrow⟩ := hown acc hacc
    have hholder := of_decide_eq_true (List.mem_filter.1 hacc).2
    subst hinst huid' hrow
    rw [← hholder.1, ← hsame]
    exact ⟨claim, hm⟩
  · cases huid

theorem minted_targetAfter {b : Action} {t : Target} (h : w.targetAfter b = some t) : t.minted = w.target.minted := by
  unfold targetAfter at h
  split at h
  · split at h
    · cases h
    · split at h <;> cases h
      exact minted_hears _ _
  · cases h
    rfl

theorem deployment_step (h : w.step advisoryLockKey cfg nameOf a = some w') :
    (∃ b, a = .deployment b ∧ w.targetAfter b = some w'.target ∧
      w.deployment.step advisoryLockKey cfg b = some w'.deployment) ∨
    w'.deployment = w.deployment ∧ ((∃ i uid, w.target.apply nameOf i uid = some w'.target) ∨
      w'.target.minted = w.target.minted) := by
  cases a with
  | deployment b =>
    simp only [step] at h
    split at h
    · cases h
    · rename_i t ht
      obtain ⟨d, hd, rfl⟩ := Option.map_eq_some_iff.1 h
      exact .inl ⟨b, rfl, ht, hd⟩
  | apply i uid =>
    simp only [step] at h
    obtain ⟨t, ht, rfl⟩ := Option.map_eq_some_iff.1 h
    exact .inr ⟨rfl, .inl ⟨i, uid, ht⟩⟩
  | others accounts =>
    cases h
    exact .inr ⟨rfl, .inr rfl⟩

theorem minted_apply {t t' : Target} {i : Nat} {uid : String} (h : t.apply nameOf i uid = some t') :
    ∃ m, t'.minted = t.minted ++ [m] ∧ (m.instanceId, m.uid) ∉ t.minted.map fun m => (m.instanceId, m.uid) := by
  unfold Target.apply at h
  split at h
  · cases h
  · rename_i c hc
    split at h
    · cases h
    · simp only [Option.ite_none_right_eq_some, Option.some.injEq] at h
      obtain ⟨⟨-, fresh, -⟩, rfl⟩ := h
      refine ⟨_, rfl, fun hmem => ?_⟩
      obtain ⟨m, hm, heq⟩ := List.mem_map.1 hmem
      simp only [Prod.mk.injEq] at heq
      exact fresh m hm heq

theorem Attributed.step (inv : w.Attributed) (followed : w.deployment.Followed cfg) (own : searchesOwn w a w')
    (h : w.step advisoryLockKey cfg nameOf a = some w') : w'.Attributed := by
  rcases deployment_step h with ⟨b, rfl, ht, hd⟩ | ⟨hsame, ⟨i, uid, happly⟩ | hminted⟩
  · have hs := Deployment.stepped hd
    have hminted := minted_targetAfter ht
    have kept {ent : Entry} {r : Row} {uid : String} {claim : Nat} (hr : w.deployment.db.row? ent.row = some r)
        (hm : (⟨r.instanceId, uid, ent.row, claim⟩ : Mint) ∈ w.target.minted) :
        ∃ r' claim, w'.deployment.db.row? ent.row = some r' ∧
          (⟨r'.instanceId, uid, ent.row, claim⟩ : Mint) ∈ w'.target.minted := by
      obtain ⟨r', hr', hc⟩ := hs.row_kept followed.wf hr
      exact ⟨r', claim, hr', by rw [hminted, hc.sameOperation.instanceId]; exact hm⟩
    refine ⟨hminted ▸ inv.minted, fun ent hent uid huid => ?_⟩
    obtain ⟨e, x, hev⟩ : ∃ e x, ent.event = .heard e x := by
      cases hev : ent.event with
      | heard e x => exact ⟨e, x, rfl⟩
      | _ => simp [hev, Event.uids] at huid
    rcases hs.heard_origin hent hev with hold | ⟨i, r, att, k, rfl, hi, hkey, asks, accepted⟩
    · obtain ⟨r, claim, hr, hm⟩ := inv.own ent hold uid huid
      exact kept hr hm
    · obtain ⟨r', hr', hop⟩ := (followed.follows att (List.mem_of_getElem? hi)).about
      have hrow : att.row = ent.row := congrArg Prod.fst hkey
      have answers : w.target.answers att r := by
        simp only [targetAfter, hi] at ht
        split at ht
        · assumption
        · cases ht
      have awaited : att.awaited = some e := by
        unfold Attempt.awaited
        rw [asks]
      have holdsOwn : (∃ os, r = .found (.ok os)) → w.holdsOwn att := by
        rintro ⟨os, rfl⟩
        simpa [searchesOwn, hi] using own
      obtain ⟨claim, hm⟩ := minted_of_answers awaited accepted answers holdsOwn (hev ▸ huid)
      rw [hop.instanceId, hrow] at hm
      exact kept (hrow ▸ hr') hm
  · obtain ⟨m, hm, fresh⟩ := minted_apply happly
    constructor
    · rw [hm]
      exact nodup_append_singleton inv.minted fresh
    · intro ent hent uid huid
      rw [hsame] at hent ⊢
      obtain ⟨r, claim, hr, hmem⟩ := inv.own ent hent uid huid
      exact ⟨r, claim, hr, hm ▸ List.mem_append_left _ hmem⟩
  · refine ⟨hminted ▸ inv.minted, fun ent hent uid huid => ?_⟩
    rw [hsame] at hent ⊢
    rw [hminted]
    exact inv.own ent hent uid huid

theorem deployment_run {ok : World → WorldAction → World → Prop} {now : Nat} {partitions : List Nat}
    (run : Runs (step advisoryLockKey cfg nameOf) ok (start now partitions) w) :
    Runs (Deployment.step advisoryLockKey cfg) anyStep (Deployment.start now partitions) w.deployment := by
  have sim : ∀ w a w' d, w.deployment = d → step advisoryLockKey cfg nameOf w a = some w' → ok w a w' →
      ∃ d', Runs (Deployment.step advisoryLockKey cfg) anyStep d d' ∧ w'.deployment = d' := by
    rintro w a w' _ rfl h -
    rcases deployment_step h with ⟨b, -, -, hb⟩ | ⟨hsame, -⟩
    · exact ⟨w'.deployment, .next .start hb trivial, rfl⟩
    · exact ⟨w.deployment, .start, hsame⟩
  obtain ⟨d, hd, rfl⟩ := run.simulated (R := fun w d => w.deployment = d) rfl sim
  exact hd

/-! ## The result -/

/-- The uid that a create reports. -/
def uidOf (r : Row) : Option Json := r.result.bind (Json.field "uid")

/-- What a create that succeeded reports was minted for one of its calls. -/
theorem uid_minted (attributed : w.Attributed) (followed : w.deployment.Followed cfg)
    (replays : w.deployment.Replays cfg) (reported : w.deployment.Reported) {u : Uuid} {r : Row}
    (hr : w.deployment.db.row? u = some r) (hop : r.opType = .create) (hst : r.status = .final .succeeded) :
    ∃ uid claim, uidOf r = some (.str uid) ∧ (⟨r.instanceId, uid, u, claim⟩ : Mint) ∈ w.target.minted := by
  obtain ⟨claim, id, errorCode, current, hlog⟩ := reported u r _ hr hst
  have own {ent : Entry} (hent : ent ∈ w.deployment.log) (hrow : ent.row = u) {uid : String}
      (huid : uid ∈ ent.event.uids) :
      ∃ claim, (⟨r.instanceId, uid, u, claim⟩ : Mint) ∈ w.target.minted := by
    obtain ⟨r', claim, hr', hm⟩ := attributed.own ent hent uid huid
    rw [hrow] at hr' hm
    cases hr.symm.trans hr'
    exact ⟨claim, hm⟩
  obtain ⟨r', op, before, hr', hdescribes, supported, hbefore⟩ := replays.issued followed
    (Dispatcher.execute_grounded cfg) (fun _ _ _ => trivial) (.inr ⟨_, hlog, rfl, rfl⟩)
  cases hr.symm.trans hr'
  rcases supported with ⟨o, rest, hfound, hresult⟩ | ⟨-, o, hsettled, hresult⟩ | ⟨hother, -⟩
  · obtain ⟨_, _, _, _, hx⟩ := found_heard hfound
    have hent := mem_transcriptOf.1 (hbefore.subset hx)
    obtain ⟨claim, hm⟩ := own hent rfl (show o.uid ∈ _ by simp [Event.uids])
    exact ⟨o.uid, claim, by simp [uidOf, hresult, readBackResult, Json.field], hm⟩
  · obtain ⟨m, hx⟩ := settled_heard hsettled
    have hent := mem_transcriptOf.1 (hbefore.subset hx)
    obtain ⟨r'', op', before', hr'', hdescribes', hcreate, -⟩ := replays.issued followed
      (Dispatcher.execute_grounded cfg) (fun _ _ _ => trivial) (.inr ⟨_, hent, rfl, rfl⟩)
    cases hr.symm.trans hr''
    have hm : m.isCreate := hcreate (hdescribes'.opType.trans hop)
    cases m <;> simp only [Mutation.isCreate, Bool.false_eq_true] at hm
    obtain ⟨claim, hm⟩ := own hent rfl (show o.uid ∈ _ by simp [Event.uids])
    exact ⟨o.uid, claim, by simp [uidOf, hresult, createdResult, Json.field], hm⟩
  · exact absurd (hdescribes.opType.trans hop) hother

/-- **An account is attributed to the create that made it**, and so to at most one, in the runs in which a
read-back looks for a name that no one else holds. -/
theorem uid_of_its_own_create {now : Nat} {partitions : List Nat}
    (run : Runs (step advisoryLockKey cfg nameOf) searchesOwn (start now partitions) w) :
    (∀ u r, w.deployment.db.row? u = some r → r.opType = .create → r.status = .final .succeeded →
      ∃ uid claim, uidOf r = some (.str uid) ∧ (⟨r.instanceId, uid, u, claim⟩ : Mint) ∈ w.target.minted) ∧
    ∀ u u' r r', w.deployment.db.row? u = some r → w.deployment.db.row? u' = some r' → r.opType = .create →
      r'.opType = .create → r.status = .final .succeeded → r'.status = .final .succeeded →
      r.instanceId = r'.instanceId → uidOf r = uidOf r' → u = u' := by
  have attributed : w.deployment.Followed cfg ∧ w.Attributed := by
    refine run.invariant (fun w => w.deployment.Followed cfg ∧ w.Attributed) ?_ ?_
    · exact ⟨Deployment.followed_start now partitions, by simp [start], by simp [start, Deployment.start]⟩
    · rintro w a w' ⟨followed, attributed⟩ h own
      refine ⟨?_, attributed.step followed own h⟩
      rcases deployment_step h with ⟨b, -, -, hb⟩ | ⟨hsame, -⟩
      · exact followed.step (Deployment.stepped hb)
      · exact hsame ▸ followed
  obtain ⟨⟨followed, replays⟩, reported⟩ := Deployment.reported_run (deployment_run run)
  have minted := fun u r => @uid_minted cfg w attributed.2 followed replays reported u r
  refine ⟨fun u r => minted u r, fun u u' r r' hr hr' hop hop' hst hst' hinst huid => ?_⟩
  obtain ⟨uid, claim, h, hm⟩ := minted u r hr hop hst
  obtain ⟨uid', claim', h', hm'⟩ := minted u' r' hr' hop' hst'
  rw [h, h', Option.some.injEq, Json.str.injEq] at huid
  subst huid
  -- The target mints a uid once.
  have heq := eq_of_key_eq attributed.2.minted hm hm' (by simp [hinst])
  exact congrArg Mint.row heq

/-! ## Two runs -/

def createNamed (key : String) : EnqueueInput :=
  { Deployment.request .create with
    idempotencyKey := key
    attrs := some (.obj [("userName", .str "ada")]) }

def userName (_ _ : String) (attrs : Json) : Option String := attrs.fieldText "userName"

/-- A create is claimed and called. -/
def calledAt (sid now : Nat) (u : Uuid) : List Action :=
  Deployment.claimedBy 1 sid u ++
    Deployment.replied 0 [.lease (.ok ()), .config (.ok (some Deployment.someRuntime)), .time now, .done]

/-- Its deadline expires, and the read-back finds account "1". -/
def foundAfter (sid now : Nat) (u : Uuid) : List Action :=
  Deployment.replied 0 [.settled (.error (.deadlineExpired "late")), .capabilities ⟨true, true, true⟩, .time now] ++
    [.write 0 (some now), .database (.tick 32001)] ++ Deployment.claimedBy 1 sid u ++
    Deployment.replied 0 [.lease (.ok ()), .config (.ok (some Deployment.someRuntime)), .schema (.ok ⟨[]⟩),
      .time (now + 32001), .found (.ok [⟨"User", "1", some "ada", []⟩])] ++
    [.write 0 (some (now + 32001))]

/-- The target applies the create of row 7. -/
def appliedLate : List WorldAction :=
  (Deployment.submitted 1 (createNamed "a") 7 ++ calledAt 1 0 7).map .deployment ++ [.apply 0 "1"] ++
    (foundAfter 2 0 7).map .deployment

/-- Later it refuses the one of row 8, which is not answered in time either. -/
def refusedLate : List WorldAction :=
  (Deployment.submitted 2 (createNamed "b") 8 ++ calledAt 3 32001 8 ++ foundAfter 4 32001 8).map .deployment

/-- The row is a create on instance "i" that succeeded with this uid. -/
def succeededWith (w : World) (uid : String) (u : Uuid) : Bool :=
  (w.deployment.db.row? u).any fun r => r.opType = .create ∧ r.status = .final .succeeded ∧ r.instanceId = "i" ∧
    r.result.bind (Json.fieldText "uid") = some uid

theorem succeeded_of {uid : String} {u : Uuid} (h : w.succeededWith uid u) :
    ∃ r, w.deployment.db.row? u = some r ∧ r.opType = .create ∧ r.status = .final .succeeded ∧
      r.instanceId = "i" ∧ r.result.bind (Json.fieldText "uid") = some uid := by
  obtain ⟨r, hr, h⟩ := (Option.any_eq_true _ _).1 h
  exact ⟨r, hr, of_decide_eq_true h⟩

theorem one_account_two_creates :
    ∃ w r r', Runs (step (fun _ => 0) .DEFAULTS userName) anyStep (start 0 [0]) w ∧
      w.deployment.db.row? 7 = some r ∧ w.deployment.db.row? 8 = some r' ∧
      (r.opType = .create ∧ r.status = .final .succeeded) ∧ (r'.opType = .create ∧ r'.status = .final .succeeded) ∧
      r.instanceId = r'.instanceId ∧ r.result.bind (Json.fieldText "uid") = some "1" ∧
      r'.result.bind (Json.fieldText "uid") = some "1" := by
  have h : (exec (step (fun _ => 0) .DEFAULTS userName) anyStep (start 0 [0]) (appliedLate ++ refusedLate)).map
      (fun w => (w.succeededWith "1" 7, w.succeededWith "1" 8)) = some (true, true) := by
    decide
  obtain ⟨w, hw, h⟩ := Option.map_eq_some_iff.1 h
  simp only [Prod.mk.injEq] at h
  obtain ⟨r, hr, hop, hst, hinst, huid⟩ := succeeded_of h.1
  obtain ⟨r', hr', hop', hst', hinst', huid'⟩ := succeeded_of h.2
  exact ⟨w, r, r', runs_of_exec hw, hr, hr', ⟨hop, hst⟩, ⟨hop', hst'⟩, hinst.trans hinst'.symm, huid, huid'⟩

theorem uid_of_its_own_create_read_back :
    ∃ w r, exec (step (fun _ => 0) .DEFAULTS userName) searchesOwn (start 0 [0]) appliedLate = some w ∧
      w.deployment.db.row? 7 = some r ∧
      ∃ uid claim, uidOf r = some (.str uid) ∧ (⟨r.instanceId, uid, 7, claim⟩ : Mint) ∈ w.target.minted := by
  have h : (exec (step (fun _ => 0) .DEFAULTS userName) searchesOwn (start 0 [0]) appliedLate).map
      (fun w => w.succeededWith "1" 7) = some true := by
    decide
  obtain ⟨w, hw, h⟩ := Option.map_eq_some_iff.1 h
  obtain ⟨r, hr, hop, hst, -⟩ := succeeded_of h
  exact ⟨w, r, hw, hr, (uid_of_its_own_create (runs_of_exec hw)).1 7 r hr hop hst⟩

end World

end Provisioning
