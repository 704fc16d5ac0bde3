import Provisioning.Ops.Admission
import Provisioning.Ops.Answerable
import Provisioning.Ops.Holding

/-!
# The naming attribute of a row

The route of a create and the read-back resolve the naming attribute each for itself, and the row
keeps only its value.
-/

namespace Provisioning

open Lib

/-! ## Where the transactions come from -/

namespace Db

variable {advisoryLockKey : String → BitVec 64} {db db' : Db} {a : DbAction}

theorem Stepped.enqueue_origin (h : db.Stepped advisoryLockKey a db') {e : EnqueueTxn} (he : e ∈ db'.enqueues) :
    (∃ e₀ ∈ db.enqueues, e₀.sid = e.sid ∧ e₀.op = e.op) ∨ a = .beginEnqueue e.sid e.op ∧ e.phase = .begun := by
  have moved {db : Db} {sid : Nat} {phase : EnqueuePhase} (h : e ∈ (db.setPhase sid phase).enqueues) :
      ∃ e₀ ∈ db.enqueues, e₀.sid = e.sid ∧ e₀.op = e.op := by
    obtain ⟨e₀, he₀, rfl⟩ := mem_setPhase.1 h
    exact ⟨e₀, he₀, by split <;> rfl, by split <;> rfl⟩
  cases h with
  | beginEnqueue op fresh =>
    rcases List.mem_append.1 he with he | he
    · exact .inl ⟨e, he, rfl, rfl⟩
    · rw [List.mem_singleton.1 he]
      exact .inr ⟨rfl, rfl⟩
  | lockKey | lookupFound | lookupMissing | inserted => exact .inl (moved he)
  | insertFailed | commitFound | commitFoundLost | commitInserted | commitInsertedLost | abortEnqueue =>
    exact .inl ⟨e, (mem_endEnqueue.1 he).1, rfl, rfl⟩
  | _ => exact .inl ⟨e, he, rfl, rfl⟩

end Db

namespace Deployment

variable {advisoryLockKey : String → BitVec 64} {cfg : ResolvedDispatcherConfig} {s s' : Deployment} {a : Action}

theorem Stepped.enqueues_step (h : Stepped advisoryLockKey cfg s a s') :
    s'.db.enqueues = s.db.enqueues ∨ ∃ b, a = .database b ∧ s.db.Stepped advisoryLockKey b s'.db := by
  cases h with
  | database _ _ h => exact .inr ⟨_, rfl, h⟩
  | @wrote _ _ _ _ _ e _ _ _ _ _ _ statement h =>
    cases e <;> cases statement <;> cases h <;> exact .inl rfl
  | reaped h =>
    cases h
    exact .inl rfl
  | committed | replied | writeLost | died => exact .inl rfl

theorem Stepped.begin_fresh {sid : Nat} {op : EnqueueInput}
    (h : Stepped advisoryLockKey cfg s (.database (.beginEnqueue sid op)) s') :
    sid ∉ s.db.enqueues.map EnqueueTxn.sid := by
  cases h with
  | database _ _ h =>
    cases h with
    | beginEnqueue _ fresh => exact lookup_none_iff.1 fresh

end Deployment

/-! ## The routes over a deployment -/

/-- A deployment with the requests that its rows come from. -/
structure Service where
  deployment : Deployment
  /-- The request that a transaction is for. -/
  asked : Nat → Option MutationRequest
  /-- The request that a row was inserted for. -/
  admitted : Uuid → Option MutationRequest

inductive ServiceAction where
  /-- A route calls `store.enqueue`. -/
  | enqueue (sid : Nat) (req : MutationRequest)
  | deployment (a : Action)

def Action.isEnqueue : Action → Bool
  | .database (.beginEnqueue ..) => true
  | _ => false

namespace Service

variable (advisoryLockKey : String → BitVec 64) (cfg : ResolvedDispatcherConfig)

def start (now : Nat) (partitions : List Nat) : Service :=
  ⟨Deployment.start now partitions, fun _ => none, fun _ => none⟩

def admittedBy (s : Service) (a : Action) (u : Uuid) : Option MutationRequest :=
  match a with
  | .database (.insertOperation sid newId) =>
    if u = newId ∧ u ∉ s.deployment.db.usedIds then s.asked sid else s.admitted u
  | _ => s.admitted u

/-- A request that a route refuses changes nothing. -/
def step (s : Service) : ServiceAction → Option Service
  | .enqueue sid req =>
    match req.enqueueRoute with
    | .error _ => some s
    | .ok op =>
      (s.deployment.step advisoryLockKey cfg (.database (.beginEnqueue sid op))).map fun d =>
        { s with
          deployment := d
          asked := fun sid' => if sid' = sid then some req else s.asked sid' }
  | .deployment a =>
    if a.isEnqueue then none
    else
      (s.deployment.step advisoryLockKey cfg a).map fun d =>
        { s with
          deployment := d
          admitted := s.admittedBy a }

/-! ## A fixed schema -/

/-- What `schema()` can answer. -/
def Answers (schema : ConnectorSchema) : Except Failure ConnectorSchema → Prop
  | .ok answer => answer = schema
  | .error _ => True

/-- Each call of `schema()` returns the schema of its instance or throws. -/
def fixedSchema (schemaOf : String → ConnectorSchema) (s : Service) : ServiceAction → Service → Prop
  | .enqueue _ req, _ => Answers (schemaOf req.instanceId) req.schema
  | .deployment (.reply i (.schema answer)), _ =>
    ∀ att ∈ s.deployment.attempts[i]?, Answers (schemaOf att.op.instanceId) answer
  | .deployment _, _ => True

deriving instance DecidableEq for SchemaObjectClass, ConnectorSchema

instance (schema : ConnectorSchema) (answer : Except Failure ConnectorSchema) : Decidable (Answers schema answer) :=
  match answer with
  | .ok answer => inferInstanceAs (Decidable (answer = schema))
  | .error _ => .isTrue trivial

instance (schemaOf : String → ConnectorSchema) (s : Service) (a : ServiceAction) (s' : Service) :
    Decidable (fixedSchema schemaOf s a s') :=
  match a with
  | .enqueue _ req => inferInstanceAs (Decidable (Answers (schemaOf req.instanceId) req.schema))
  | .deployment a =>
    match a with
    | .reply i r =>
      match r with
      | .schema answer =>
        inferInstanceAs (Decidable (∀ att ∈ s.deployment.attempts[i]?, Answers (schemaOf att.op.instanceId) answer))
      | .time _ | .lease _ | .config _ | .capabilities _ | .found _ | .settled _ | .done => .isTrue trivial
    | .database _ | .commitClaim .. | .write .. | .die _ | .reap .. => .isTrue trivial

/-- The row was inserted for the request. -/
def Admits (req : MutationRequest) (r : Row) : Prop :=
  ∃ op id now, req.enqueueRoute = .ok op ∧ (op.newRow id now).SameOperation r

variable (schemaOf : String → ConnectorSchema)

structure Admitted (s : Service) : Prop where
  enqueues : ∀ e ∈ s.deployment.db.enqueues, ∃ req, s.asked e.sid = some req ∧ req.enqueueRoute = .ok e.op ∧
    Answers (schemaOf req.instanceId) req.schema
  inserted : ∀ e ∈ s.deployment.db.enqueues, ∀ row, e.phase = .inserted row → s.admitted row.id = s.asked e.sid
  rows : ∀ r ∈ s.deployment.db.tables.operations, ∃ req, s.admitted r.id = some req ∧ Admits req r ∧
    Answers (schemaOf req.instanceId) req.schema
  heard : ∀ ent ∈ s.deployment.log, ∀ answer, ent.event = .heard .schema answer →
    ∃ r, s.deployment.db.row? ent.row = some r ∧ Answers (schemaOf r.instanceId) answer

variable {advisoryLockKey cfg schemaOf} {s s' : Service} {a : ServiceAction}

/-! ## Steps -/

theorem deployment_step (h : s.step advisoryLockKey cfg a = some s') :
    s' = s ∨ (∃ sid req op, a = .enqueue sid req ∧ req.enqueueRoute = .ok op ∧
      Deployment.Stepped advisoryLockKey cfg s.deployment (.database (.beginEnqueue sid op)) s'.deployment ∧
      (s'.asked = fun sid' => if sid' = sid then some req else s.asked sid') ∧ s'.admitted = s.admitted) ∨
    ∃ b, a = .deployment b ∧ b.isEnqueue = false ∧
      Deployment.Stepped advisoryLockKey cfg s.deployment b s'.deployment ∧ s'.asked = s.asked ∧
      s'.admitted = s.admittedBy b := by
  cases a with
  | enqueue sid req =>
    simp only [step] at h
    split at h
    · cases h
      exact .inl rfl
    · rename_i op hop
      obtain ⟨d, hd, rfl⟩ := Option.map_eq_some_iff.1 h
      exact .inr (.inl ⟨sid, req, op, rfl, hop, Deployment.stepped hd, rfl, rfl⟩)
  | deployment b =>
    simp only [step] at h
    split at h
    · cases h
    · rename_i hb
      obtain ⟨d, hd, rfl⟩ := Option.map_eq_some_iff.1 h
      exact .inr (.inr ⟨b, rfl, by simpa using hb, Deployment.stepped hd, rfl, rfl⟩)

theorem Admitted.kept (inv : s.Admitted schemaOf) (followed : s.deployment.Followed cfg) {b : Action}
    (h : Deployment.Stepped advisoryLockKey cfg s.deployment b s'.deployment)
    (asked : ∀ e ∈ s.deployment.db.enqueues, s'.asked e.sid = s.asked e.sid)
    (admitted : ∀ u ∈ s.deployment.db.usedIds, s'.admitted u = s.admitted u)
    (begun : ∀ sid op, b = .database (.beginEnqueue sid op) → ∃ req, s'.asked sid = some req ∧
      req.enqueueRoute = .ok op ∧ Answers (schemaOf req.instanceId) req.schema)
    (inserted : ∀ sid newId, b = .database (.insertOperation sid newId) → newId ∉ s.deployment.db.usedIds →
      s'.admitted newId = s.asked sid)
    (heard : ∀ ent ∈ s'.deployment.log, ∀ answer, ent.event = .heard .schema answer → ent ∈ s.deployment.log ∨
      ∃ att ∈ s.deployment.attempts, att.key = ent.key ∧ Answers (schemaOf att.op.instanceId) answer) :
    s'.Admitted schemaOf := by
  have wf := followed.wf
  constructor
  · intro e he
    have old {e₀ : EnqueueTxn} (he₀ : e₀ ∈ s.deployment.db.enqueues) (hsid : e₀.sid = e.sid) (hop : e₀.op = e.op) :
        ∃ req, s'.asked e.sid = some req ∧ req.enqueueRoute = .ok e.op ∧
          Answers (schemaOf req.instanceId) req.schema := by
      rw [← hsid, ← hop, asked e₀ he₀]
      exact inv.enqueues e₀ he₀
    rcases h.enqueues_step with hsame | ⟨c, rfl, hc⟩
    · exact old (hsame ▸ he) rfl rfl
    · rcases hc.enqueue_origin he with ⟨e₀, he₀, hsid, hop⟩ | ⟨rfl, -⟩
      · exact old he₀ hsid hop
      · exact begun _ _ rfl
  · intro e he row hrow
    have old (he : e ∈ s.deployment.db.enqueues) : s'.admitted row.id = s'.asked e.sid := by
      rw [asked e he, admitted _ (wf.ids.uncommitted e he row hrow).1]
      exact inv.inserted e he row hrow
    rcases h.enqueues_step with hsame | ⟨c, rfl, hc⟩
    · exact old (hsame ▸ he)
    · rcases hc.uncommitted_origin he hrow with he | ⟨rfl, fresh⟩
      · exact old he
      · rw [inserted _ _ rfl fresh]
        rcases hc.enqueue_origin he with ⟨e₀, he₀, hsid, -⟩ | ⟨hbegin, -⟩
        · rw [← hsid, asked e₀ he₀]
        · cases hbegin
  · intro r' hr'
    have old {r : Row} (hr : r ∈ s.deployment.db.tables.operations) (hc : r.Change r') :
        ∃ req, s'.admitted r'.id = some req ∧ Admits req r' ∧ Answers (schemaOf req.instanceId) req.schema := by
      obtain ⟨req, hreq, ⟨op, id, now, hop, same⟩, hanswer⟩ := inv.rows r hr
      rw [hc.sameOperation.id, admitted _ (wf.ids.used _ (List.mem_map_of_mem hr))]
      exact ⟨req, hreq, ⟨op, id, now, hop, same.trans hc.sameOperation⟩, hanswer⟩
    rcases h.database_step with hsame | ⟨c, hc⟩
    · exact old (hsame ▸ hr') (.same r')
    · rcases (hc.rows wf).origin hr' with ⟨r, hr, hchange⟩ | ⟨e, he, hrow⟩
      · exact old hr hchange
      · obtain ⟨hused, -, hnew⟩ := wf.ids.uncommitted e he r' hrow
        obtain ⟨req, hreq, hop, hanswer⟩ := inv.enqueues e he
        refine ⟨req, ?_, ⟨e.op, r'.id, e.startedAt, hop, ?_⟩, hanswer⟩
        · rw [admitted _ hused, inv.inserted e he r' hrow, hreq]
        · rw [← hnew]
          exact (Row.Change.same r').sameOperation
  · intro ent hent answer hev
    have known {r : Row} (hr : s.deployment.db.row? ent.row = some r)
        (hanswer : Answers (schemaOf r.instanceId) answer) :
        ∃ r', s'.deployment.db.row? ent.row = some r' ∧ Answers (schemaOf r'.instanceId) answer := by
      obtain ⟨r', hr', hc⟩ := h.row_kept wf hr
      exact ⟨r', hr', hc.sameOperation.instanceId ▸ hanswer⟩
    rcases heard ent hent answer hev with hold | ⟨att, hatt, hkey, hanswer⟩
    · obtain ⟨r, hr, hanswer⟩ := inv.heard ent hold answer hev
      exact known hr hanswer
    · obtain ⟨r, hr, hop⟩ := (followed.follows att hatt).about
      have hrow : att.row = ent.row := congrArg Prod.fst hkey
      rw [hop.instanceId] at hanswer
      exact known (hrow ▸ hr) hanswer

theorem schema_reply {d d' : Deployment} {b : Action} (h : Deployment.Stepped advisoryLockKey cfg d b d')
    {ent : Entry} (hent : ent ∈ d'.log) {answer : Except Failure ConnectorSchema}
    (hev : ent.event = .heard .schema answer) :
    ent ∈ d.log ∨ ∃ i att, b = .reply i (.schema answer) ∧ d.attempts[i]? = some att ∧ att.key = ent.key := by
  rcases h.heard_origin hent hev with hold | ⟨i, r, att, k, rfl, hi, hkey, -, haccept⟩
  · exact .inl hold
  · cases r <;> cases haccept
    exact .inr ⟨i, att, rfl, hi, hkey⟩

theorem Admitted.step (inv : s.Admitted schemaOf) (followed : s.deployment.Followed cfg)
    (fixed : fixedSchema schemaOf s a s') (h : s.step advisoryLockKey cfg a = some s') : s'.Admitted schemaOf := by
  rcases deployment_step h with rfl | ⟨sid, req, op, rfl, hop, hs, hasked, hadmitted⟩ |
    ⟨b, rfl, hb, hs, hasked, hadmitted⟩
  · exact inv
  · refine inv.kept followed hs ?_ (fun u _ => by rw [hadmitted]) ?_ (by simp) fun ent hent answer hev => ?_
    · intro e he
      rw [hasked]
      refine if_neg fun hsid => hs.begin_fresh ?_
      rw [← hsid]
      exact List.mem_map_of_mem he
    · rintro _ _ ⟨⟩
      rw [hasked]
      exact ⟨req, if_pos rfl, hop, fixed⟩
    · rcases schema_reply hs hent hev with hold | ⟨i, att, hreply, -⟩
      · exact .inl hold
      · cases hreply
  · refine inv.kept followed hs (fun e _ => by rw [hasked]) ?_ ?_ ?_ fun ent hent answer hev => ?_
    · intro u hu
      rw [hadmitted]
      unfold admittedBy
      split
      · exact if_neg fun h => h.2 hu
      · rfl
    · rintro _ _ rfl
      cases hb
    · rintro sid newId rfl fresh
      rw [hadmitted]
      exact if_pos ⟨rfl, fresh⟩
    · rcases schema_reply hs hent hev with hold | ⟨i, att, rfl, hi, hkey⟩
      · exact .inl hold
      · exact .inr ⟨att, List.mem_of_getElem? hi, hkey, fixed att hi⟩

theorem followed_step (inv : s.deployment.Followed cfg ∧ s.deployment.Replays cfg)
    (h : s.step advisoryLockKey cfg a = some s') : s'.deployment.Followed cfg ∧ s'.deployment.Replays cfg := by
  rcases deployment_step h with rfl | ⟨_, _, _, -, -, hs, -⟩ | ⟨_, -, -, hs, -⟩
  · exact inv
  · exact ⟨inv.1.step hs, inv.2.step inv.1 hs⟩
  · exact ⟨inv.1.step hs, inv.2.step inv.1 hs⟩

/-! ## The result -/

/-- The class declares no other attribute than the default, or both calls of `schema()` returned, or both
threw. -/
def Agree (schema : ConnectorSchema) (objectClass : String) (a b : Except Failure ConnectorSchema) : Prop :=
  nameAttributeFrom objectClass (.ok schema) = "__NAME__" ∨ (a.isOk ↔ b.isOk)

theorem nameAttribute_eq_iff {schema : ConnectorSchema} {objectClass : String} {a b : Except Failure ConnectorSchema}
    (ha : Answers schema a) (hb : Answers schema b) :
    nameAttributeFrom objectClass b = nameAttributeFrom objectClass a ↔ Agree schema objectClass a b := by
  have default (f : Failure) : nameAttributeFrom objectClass (.error f) = "__NAME__" := rfl
  unfold Agree
  cases a with
  | ok a =>
    obtain rfl : a = schema := ha
    cases b with
    | ok b =>
      obtain rfl : b = a := hb
      simp [Except.isOk, Except.toBool]
    | error f =>
      rw [default]
      simp [Except.isOk, Except.toBool, eq_comm]
  | error f =>
    rw [default]
    cases b with
    | ok b =>
      obtain rfl : b = schema := hb
      simp [Except.isOk, Except.toBool]
    | error f' =>
      rw [default]
      simp [Except.isOk, Except.toBool]

/-- **A read-back asks for the attribute that admission read**, exactly when the two calls of `schema()` agree.
A miss is the answer of such a search. -/
theorem same_naming_attribute_iff {now : Nat} {partitions : List Nat}
    (run : Runs (step advisoryLockKey cfg) (fixedSchema schemaOf) (start now partitions) s) :
    (∀ key objectClass nameAttribute nameValue deadlineEpochMs,
      s.deployment.Issued key (.search objectClass nameAttribute nameValue deadlineEpochMs) →
      ∃ r req attrs answer, s.deployment.db.row? key.1 = some r ∧ s.admitted key.1 = some req ∧
        r.opType = .create ∧ r.objectClass = objectClass ∧ r.nameAttrValue = some nameValue ∧
        r.attrs = some attrs ∧ attrs.field req.nameAttribute = some (.str nameValue) ∧
        (⟨key.1, key.2, .heard .schema answer⟩ : Entry) ∈ s.deployment.log ∧
        (nameAttribute = req.nameAttribute ↔
          Agree (schemaOf r.instanceId) objectClass req.schema answer)) ∧
    ∀ ent ∈ s.deployment.log, ent.event.isWrote → (s.deployment.facts ent.key).found = some (.ok []) →
      ∃ objectClass nameAttribute nameValue deadlineEpochMs,
        (⟨ent.row, ent.claim, .heard (.search objectClass nameAttribute nameValue deadlineEpochMs) (.ok [])⟩ : Entry) ∈
          s.deployment.log := by
  have inv : (s.deployment.Followed cfg ∧ s.deployment.Replays cfg) ∧ s.Admitted schemaOf := by
    refine run.invariant (fun s => (s.deployment.Followed cfg ∧ s.deployment.Replays cfg) ∧ s.Admitted schemaOf) ?_ ?_
    · refine ⟨⟨Deployment.followed_start now partitions, Deployment.replays_start now partitions⟩, ?_⟩
      constructor <;> simp [start, Deployment.start, Db.start]
    · intro s a s' inv h fixed
      exact ⟨followed_step inv.1 h, inv.2.step inv.1.1 fixed h⟩
  obtain ⟨⟨followed, replays⟩, admitted⟩ := inv
  constructor
  · intro key objectClass nameAttribute nameValue deadlineEpochMs issued
    obtain ⟨r, op, before, hr, hop, ⟨hclass, hvalue, answer, hschema, hname⟩, hbefore⟩ :=
      replays.issued followed (Dispatcher.execute_grounded cfg) (fun _ _ _ => trivial) issued
    rw [hop.objectClass] at hclass hname
    rw [hop.nameAttrValue] at hvalue
    obtain ⟨hmem, hid⟩ := lookup_some_mem hr
    obtain ⟨req, hreq, ⟨input, id, at', hroute, same⟩, hadmission⟩ := admitted.rows r hmem
    obtain ⟨hinst, hreqClass, hreqOp, htaken⟩ := enqueueRoute_ok hroute
    obtain ⟨hcreate, attrs, hattrs, hfield⟩ := htaken nameValue (same.nameAttrValue.symm.trans hvalue)
    have heard := mem_transcriptOf.1 (hbefore.subset (schema_heard hschema))
    obtain ⟨r', hr', hanswer⟩ := admitted.heard _ heard answer rfl
    cases hr.symm.trans hr'
    have hclassReq : req.objectClass = r.objectClass := hreqClass.symm.trans same.objectClass.symm
    have hinstReq : req.instanceId = r.instanceId := hinst.symm.trans same.instanceId.symm
    rw [hinstReq] at hadmission
    refine ⟨r, req, attrs, answer, hr, hid ▸ hreq, ?_, hclass.symm, hvalue, ?_, hfield, heard, ?_⟩
    · exact same.opType.trans (hreqOp.trans hcreate)
    · exact same.attrs.trans hattrs
    · unfold MutationRequest.nameAttribute
      rw [hname, hclassReq, hclass]
      exact nameAttribute_eq_iff hadmission hanswer
  · intro ent hent hwrote hfound
    obtain ⟨e, he⟩ : ∃ e, ent.event.effect = some e := by
      cases hev : ent.event <;> simp [hev, Event.isWrote, Event.effect] at hwrote ⊢
    obtain ⟨-, op, -⟩ := replays.logged ent hent e he
    obtain ⟨o, a, v, d, hx⟩ := s.deployment.search_heard op hfound
    exact ⟨o, a, v, d, mem_transcriptOf.1 hx⟩

/-! ## Two runs -/

def userSchema : ConnectorSchema := ⟨[⟨"User", some "userName"⟩]⟩

def createAda : MutationRequest where
  opType := .create
  instanceId := "i"
  objectClass := "User"
  uid := none
  body := some (.obj [("attributes", .obj [("userName", .str "ada")])])
  idempotencyKey := none
  randomUUID := "k"
  ensureApplication := .ok ()
  acquire := .ok ()
  schema := .ok userSchema
  pendingCounts := .ok ⟨0, 0⟩

/-- The create of row 7 is called, and its deadline expires. The read-back resolves the attribute by
`answer` and finds nothing, and the create is called again. -/
def calledTwice (answer : Except Failure ConnectorSchema) : List Action :=
  [.database (.lockKey 1), .database (.lookupKey 1), .database (.insertOperation 1 7),
    .database (.commitEnqueue 1 true)] ++
  Deployment.claimedBy 1 1 7 ++
  Deployment.replied 0 [.lease (.ok ()), .config (.ok (some Deployment.someRuntime)), .time 0, .done,
    .settled (.error (.deadlineExpired "late")), .capabilities ⟨true, true, true⟩, .time 0] ++
  [.write 0 (some 0), .database (.tick 32001)] ++ Deployment.claimedBy 1 2 7 ++
  Deployment.replied 0 [.lease (.ok ()), .config (.ok (some Deployment.someRuntime)), .schema answer, .time 32001,
    .found (.ok [])] ++
  [.write 0 (some 32001)] ++ Deployment.claimedBy 1 3 7 ++
  Deployment.replied 0 [.lease (.ok ()), .config (.ok (some Deployment.someRuntime)), .time 32001, .done]

def admittedThen (answer : Except Failure ConnectorSchema) : List ServiceAction :=
  .enqueue 1 createAda :: (calledTwice answer).map .deployment

/-- A search for the user "ada" under this attribute. -/
def searches (nameAttribute : String) (ent : Entry) : Bool :=
  match ent.event with
  | .heard (.search "User" a "ada" 62001) _ => ent.key = (7, 2) ∧ a = nameAttribute
  | _ => false

theorem issued_of_searches {d : Deployment} {nameAttribute : String} (h : d.log.any (searches nameAttribute)) :
    d.Issued (7, 2) (.search "User" nameAttribute "ada" 62001) := by
  obtain ⟨ent, hent, hsearches⟩ := List.any_eq_true.1 h
  unfold searches at hsearches
  split at hsearches
  · rename_i a answer hev
    obtain ⟨hkey, rfl⟩ := of_decide_eq_true hsearches
    exact .inr ⟨ent, hent, hkey, by rw [hev]; rfl⟩
  · cases hsearches

def calls (ent : Entry) : Bool :=
  match ent.event with
  | .heard (.invoke _) _ => ent.row = 7
  | _ => false

theorem other_naming_attribute :
    ∃ s, Runs (step (fun _ => 0) .DEFAULTS) (fixedSchema fun _ => userSchema) (start 0 [0]) s ∧
      s.deployment.Issued (7, 2) (.search "User" "__NAME__" "ada" 62001) ∧
      (s.admitted 7).map MutationRequest.nameAttribute = some "userName" ∧ s.deployment.log.countP calls = 2 := by
  have h : (exec (step (fun _ => 0) .DEFAULTS) (fixedSchema fun _ => userSchema) (start 0 [0])
      (admittedThen (.error (.other "unavailable")))).map (fun s => (s.deployment.log.any (searches "__NAME__"),
        (s.admitted 7).map MutationRequest.nameAttribute, s.deployment.log.countP calls)) =
      some (true, some "userName", 2) := by
    decide
  obtain ⟨s, hs, h⟩ := Option.map_eq_some_iff.1 h
  simp only [Prod.mk.injEq] at h
  exact ⟨s, runs_of_exec hs, issued_of_searches h.1, h.2.1, h.2.2⟩

theorem same_naming_attribute_iff_declared :
    ∃ s, exec (step (fun _ => 0) .DEFAULTS) (fixedSchema fun _ => userSchema) (start 0 [0])
        (admittedThen (.ok userSchema)) = some s ∧
      ∃ req answer, s.admitted 7 = some req ∧ Agree userSchema "User" req.schema answer := by
  have h : (exec (step (fun _ => 0) .DEFAULTS) (fixedSchema fun _ => userSchema) (start 0 [0])
      (admittedThen (.ok userSchema))).map (fun s => (s.deployment.log.any (searches "userName"),
        (s.admitted 7).map MutationRequest.nameAttribute)) = some (true, some "userName") := by
    decide
  obtain ⟨s, hs, h⟩ := Option.map_eq_some_iff.1 h
  simp only [Prod.mk.injEq, Option.map_eq_some_iff] at h
  obtain ⟨hsearch, req₀, hreq₀, hname⟩ := h
  obtain ⟨r, req, attrs, answer, -, hreq, -, -, -, -, -, -, hiff⟩ :=
    (same_naming_attribute_iff (runs_of_exec hs)).1 _ _ _ _ _ (issued_of_searches hsearch)
  cases hreq₀.symm.trans hreq
  exact ⟨s, hs, req₀, answer, hreq₀, hiff.1 hname.symm⟩

end Service

end Provisioning
