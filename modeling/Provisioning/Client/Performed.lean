import Provisioning.Client.Mutations
import Provisioning.Ops.Achieved
import Provisioning.Ops.NamingAttribute

/-!
# From the client to the target

Dispatchers work on a store whose operations were enqueued for calls of the client. What they do on a target is what
a client asked for.
-/

namespace Provisioning.Client

open Lib Http

/-! ## A store behind the service -/

/-- A request of the call comes to enqueue this. -/
structure Enqueues (config : JwtConfig) (c : Call) (args : MutationArgs) (input : EnqueueInput) : Prop where
  plain : c.Plain
  named : ∀ x ∈ c.components, x ≠ ""
  reached : ∃ token randomUUID heard k,
    (app config (c.sent token args randomUUID)).run.Reaches heard (.await (HttpIo.enqueue input) k)

/-- The runs in which every `enqueue` is one of the service, for a call of the client. -/
def servesClients (config : JwtConfig) (_ : Deployment) (a : Action) (_ : Deployment) : Prop :=
  ∀ sid input, a = .database (.beginEnqueue sid input) → ∃ c args, Enqueues config c args input

/-- The call on the target is what the caller asked for. -/
def Call.Performs (c : Call) (args : MutationArgs) (instanceId : String) : Mutation → Prop
  | .create objectClass attrs _ => c = .createObject instanceId objectClass ∧ attrs = args.attributes
  | .update objectClass uid attrs _ =>
    ∃ u, uid = some u ∧ c = .replaceObject instanceId objectClass u ∧ attrs = args.attributes
  | .delete objectClass uid _ => ∃ u, uid = some u ∧ c = .deleteObject instanceId objectClass u
  | .addAttributeValues objectClass uid attrs _ =>
    c = .addValues instanceId objectClass uid ∧ attrs = args.attributes
  | .removeAttributeValues objectClass uid attrs _ =>
    c = .removeValues instanceId objectClass uid ∧ attrs = args.attributes

/-! ## Where a row comes from -/

/-- The row was inserted for a call. -/
def Requested (config : JwtConfig) (r : Row) : Prop :=
  ∃ c args input id now, Enqueues config c args input ∧ (input.newRow id now).SameOperation r

structure Originates (config : JwtConfig) (s : Deployment) : Prop where
  enqueues : ∀ e ∈ s.db.enqueues, ∃ c args, Enqueues config c args e.op
  rows : ∀ r ∈ s.db.tables.operations, Requested config r

variable {config : JwtConfig} {advisoryLockKey : String → BitVec 64} {cfg : ResolvedDispatcherConfig}
  {s s' : Deployment} {a : Action}

theorem Requested.change {r r' : Row} (h : Requested config r) (hc : r.Change r') : Requested config r' := by
  obtain ⟨c, args, input, id, now, asked, same⟩ := h
  exact ⟨c, args, input, id, now, asked, same.trans hc.sameOperation⟩

theorem Originates.step (inv : Originates config s) (wf : s.db.WellFormed)
    (h : Deployment.Stepped advisoryLockKey cfg s a s') (serves : servesClients config s a s') :
    Originates config s' := by
  constructor
  · intro e he
    rcases h.enqueues_step with hsame | ⟨b, rfl, hb⟩
    · exact inv.enqueues e (hsame ▸ he)
    · rcases hb.enqueue_origin he with ⟨e₀, he₀, -, hop⟩ | ⟨rfl, -⟩
      · exact hop ▸ inv.enqueues e₀ he₀
      · exact serves _ _ rfl
  · intro r' hr'
    rcases h.database_step with hsame | ⟨b, hb⟩
    · exact inv.rows r' (hsame ▸ hr')
    · rcases (hb.rows wf).origin hr' with ⟨r, hr, hchange⟩ | ⟨e, he, hrow⟩
      · exact (inv.rows r hr).change hchange
      · obtain ⟨c, args, asked⟩ := inv.enqueues e he
        obtain ⟨-, -, hnew⟩ := wf.ids.uncommitted e he r' hrow
        refine ⟨c, args, e.op, r'.id, e.startedAt, asked, ?_⟩
        rw [← hnew]
        exact (Row.Change.same r').sameOperation

theorem originates_run {now : Nat} {partitions : List Nat}
    (run : Runs (Deployment.step advisoryLockKey cfg) (servesClients config) (Deployment.start now partitions) s) :
    Originates config s := by
  have inv : s.Followed cfg ∧ Originates config s := by
    refine run.invariant (fun s => s.Followed cfg ∧ Originates config s) ?_ ?_
    · refine ⟨Deployment.followed_start now partitions, ?_, ?_⟩ <;> simp [Deployment.start, Db.start]
    · intro s a s' inv h serves
      have hs := Deployment.stepped h
      exact ⟨inv.1.step hs, inv.2.step inv.1.wf hs serves⟩
  exact inv.2

/-! ## What a row asks of the target -/

theorem performs_of_fits {c : Call} {args : MutationArgs} {input : EnqueueInput} {op : ClaimedOperation} {r : Row}
    {m : Mutation} {id : Uuid} {now : Nat} {randomUUID : String} (asked : c.AskedFor args randomUUID input)
    (same : (input.newRow id now).SameOperation r) (describes : op.Describes r) (fits : m.fits op) :
    c.Performs args op.instanceId m := by
  have hopType : input.opType = op.opType := (describes.opType.trans same.opType).symm
  have hclass : op.objectClass = c.objectClass :=
    (describes.objectClass.trans same.objectClass).trans asked.objectClass
  have huid : op.uid = c.uid := (describes.uid.trans same.uid).trans asked.uid
  have hattrs : op.opType ≠ .delete → Dispatcher.attrsOf op = args.attributes := by
    intro hne
    unfold Dispatcher.attrsOf
    rw [describes.attrs.trans same.attrs]
    change input.attrs.getD _ = _
    rw [asked.attrs, if_neg (hopType ▸ hne)]
    rfl
  rw [(describes.instanceId.trans same.instanceId).trans asked.instanceId]
  obtain ⟨flag, hhandler⟩ := asked.opType
  rw [hopType] at hhandler
  cases m with
  | create objectClass attrs options =>
    obtain ⟨hop, rfl, rfl⟩ := fits
    rw [hop] at hhandler
    refine ⟨?_, hattrs (by simp [hop])⟩
    rw [hclass]
    cases c <;> simp [Call.handler] at hhandler
    rfl
  | update objectClass uid attrs options =>
    obtain ⟨hop, rfl, rfl, rfl⟩ := fits
    rw [hop] at hhandler
    rw [huid, hclass]
    cases c <;> simp [Call.handler] at hhandler
    exact ⟨_, rfl, rfl, hattrs (by simp [hop])⟩
  | delete objectClass uid options =>
    obtain ⟨hop, rfl, rfl⟩ := fits
    rw [hop] at hhandler
    rw [huid, hclass]
    cases c <;> simp [Call.handler] at hhandler
    exact ⟨_, rfl, rfl⟩
  | addAttributeValues objectClass uid attrs options | removeAttributeValues objectClass uid attrs options =>
    obtain ⟨hop, rfl, hsome, -, rfl⟩ := fits
    rw [hop] at hhandler
    refine ⟨?_, hattrs (by simp [hop])⟩
    rw [huid] at hsome
    rw [hclass]
    cases c <;> simp [Call.handler] at hhandler
    obtain rfl := Option.some.inj hsome
    rfl

/-! ## The result -/

/-- **Nothing is done on a target but what a client asked for.** In every run of the dispatchers over a store that the
service alone fills, a call on a target is one that the client was called for, with its arguments, and on a lease of
the instance that it names. -/
theorem performed_was_asked {now : Nat} {partitions : List Nat}
    (run : Runs (Deployment.step advisoryLockKey cfg) (servesClients config) (Deployment.start now partitions) s)
    {u : Uuid} {claim : Nat} {m : Mutation} (h : (⟨.invoke m, ()⟩ : Heard) ∈ s.transcript (u, claim)) :
    ∃ c args input instanceId, Enqueues config c args input ∧ c.Performs args instanceId m ∧
      (⟨.acquire instanceId, .ok ()⟩ : Heard) ∈ s.transcript (u, claim) := by
  have hlog : (⟨u, claim, .heard (.invoke m) ()⟩ : Entry) ∈ s.log := mem_transcriptOf.1 h
  obtain ⟨⟨followed, replays⟩, -⟩ := Deployment.reported_run (run.mono fun _ _ _ _ => trivial)
  obtain ⟨r, _, _, hr, -⟩ := followed.admitted _ hlog _ rfl
  obtain ⟨op, before, describes, ⟨leased, fits⟩, hbefore⟩ := replays.testified followed hr (.inr ⟨_, hlog, rfl, rfl⟩)
  obtain ⟨c, args, input, id, at', asked, same⟩ := (originates_run run).rows r (lookup_some_mem hr).1
  obtain ⟨token, randomUUID, heard, k, reached⟩ := asked.reached
  have askedFor : c.AskedFor args randomUUID input :=
    Call.askedFor_of_admits asked.plain asked.named
      ((admitted_app config _).reaches reached fun _ _ => trivial).allowed
  exact ⟨c, args, input, op.instanceId, asked, performs_of_fits askedFor same describes fits, leased.mono hbefore⟩

/-! ## A delete, from the client to the target -/

def leaver : MutationArgs := ⟨.null, none, some " k "⟩

def leaverHeard : HttpHeard :=
  (app plainJwtConfig ((Call.deleteObject "hr" "User" "42").sent "abcdefghijklmnopqrstuvwxyz" leaver
    "00000000-0000-4000-8000-000000000000")).run.transcript quietService

def leaverInput : EnqueueInput where
  instanceId := "hr"
  objectClass := "User"
  opType := .delete
  laneKey := "uid:User:42"
  idempotencyKey := "k"
  priority := some .batch
  uid := some "42"
  nameAttrValue := none
  attrs := none

theorem leaver_enqueues : Enqueues plainJwtConfig (.deleteObject "hr" "User" "42") leaver leaverInput := by
  refine ⟨.of_written (by decide +kernel) (by decide +kernel), by decide, "abcdefghijklmnopqrstuvwxyz",
    "00000000-0000-4000-8000-000000000000", leaverHeard.take 3, ?_⟩
  have h : ((leaverHeard.drop 3).head?.bind fun x => x.1.input.map fun input =>
      decide (input.instanceId = "hr" ∧ input.objectClass = "User" ∧ input.opType = .delete ∧
        input.laneKey = "uid:User:42" ∧ input.idempotencyKey = "k" ∧ input.priority = some .batch ∧
        input.uid = some "42" ∧ input.nameAttrValue = none ∧ input.attrs.isNone)) = some true := by
    decide +kernel
  obtain ⟨x, hx, h⟩ := Option.bind_eq_some_iff.1 h
  obtain ⟨input, hinput, hfields⟩ := Option.map_eq_some_iff.1 h
  have heq : input = leaverInput := by
    have fields := of_decide_eq_true hfields
    cases input
    obtain ⟨rfl, rfl, rfl, rfl, rfl, rfl, rfl, rfl, hattrs⟩ := fields
    cases Option.isNone_iff_eq_none.1 hattrs
    rfl
  obtain ⟨after, hafter⟩ := List.head?_eq_some_iff.1 hx
  have hsplit : leaverHeard = leaverHeard.take 3 ++ x :: after := by
    rw [← hafter]
    exact (List.take_append_drop 3 leaverHeard).symm
  obtain ⟨k, hk⟩ := @Prog.reaches_before HttpEffects _ quietService _ _ _ _ hsplit
  obtain ⟨e, a⟩ := x
  obtain rfl := eq_enqueue hinput
  exact ⟨k, heq ▸ hk⟩

def leaverRun : List Action :=
  Deployment.submitted 1 leaverInput 7 ++
    [.database (.beginClaim 1 1 ⟨100, [], [("hr", ⟨10, 10⟩)]⟩ fun _ => 0), .database (.lockRow 1 7 false),
      .commitClaim 1 true] ++
    Deployment.replied 0 [.lease (.ok ()), .config (.ok (some Deployment.someRuntime)), .time 0, .done]

theorem leaverRun_serves : ∀ a ∈ leaverRun, ∀ s s', servesClients plainJwtConfig s a s' := by
  intro a ha s s' sid input heq
  subst heq
  simp [leaverRun, Deployment.submitted, Deployment.replied] at ha
  obtain ⟨-, rfl⟩ := ha
  exact ⟨_, _, leaver_enqueues⟩

def isInvoked : Event → Bool
  | .heard (.invoke _) _ => true
  | _ => false

theorem performed_was_asked_delete :
    ∃ s claim m,
      Runs (Deployment.step (fun _ => 0) .DEFAULTS) (servesClients plainJwtConfig) (Deployment.start 0 [0]) s ∧
      (⟨.invoke m, ()⟩ : Heard) ∈ s.transcript (7, claim) ∧
      ∃ c args input instanceId, Enqueues plainJwtConfig c args input ∧ c.Performs args instanceId m := by
  have h : (exec (Deployment.step (fun _ => 0) .DEFAULTS) anyStep (Deployment.start 0 [0]) leaverRun).map
      (fun s => s.log.any fun ent => ent.row = 7 ∧ isInvoked ent.event) = some true := by
    decide +kernel
  obtain ⟨s, hs, h⟩ := Option.map_eq_some_iff.1 h
  obtain ⟨⟨row, claim, event⟩, hent, h⟩ := List.any_eq_true.1 h
  obtain ⟨hrow, hinvoked⟩ := of_decide_eq_true h
  obtain rfl : row = 7 := hrow
  have run := runs_of_exec_all hs leaverRun_serves
  cases event with
  | heard e a =>
    cases e with
    | invoke m =>
      have invoked : (⟨.invoke m, ()⟩ : Heard) ∈ s.transcript (7, claim) := mem_transcriptOf.2 hent
      obtain ⟨c, args, input, instanceId, asked, performs, -⟩ := performed_was_asked run invoked
      exact ⟨s, claim, m, run, invoked, c, args, input, instanceId, asked, performs⟩
    | _ => simp [isInvoked] at hinvoked
  | _ => simp [isInvoked] at hinvoked

end Provisioning.Client
