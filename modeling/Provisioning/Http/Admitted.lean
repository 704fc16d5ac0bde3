import Provisioning.Http.Footprint

/-!
# What a request enqueues

The handler of a mutation asks step by step for what `MutationRequest` has as a whole. Whatever it is answered, the
input of its `enqueue` is the one that the request, with these answers, admits.
-/

namespace Provisioning.Http

open Lib

/-! ## The monitor -/

/-- The last answers of `schema` and `pendingCounts`, with the instances that they are of. -/
structure Asked where
  /-- The instance of the lease that was just taken. -/
  leased : Option String
  schema : Option (String × Except Failure ConnectorSchema)
  counts : Option (String × PendingCounts)

def Asked.start : Asked := ⟨none, none, none⟩

def Asked.next (m : Asked) : (e : HttpIo) → e.Answer → Asked
  | .acquire id, .ok _ => { m with leased := some id }
  | .schema, answer => { m with leased := none, schema := m.leased.map (·, answer) }
  | .pendingCounts id, .ok counts => { m with leased := none, counts := some (id, counts) }
  | _, _ => { m with leased := none }

/-- The request, as the route that it takes reads it, with what was answered. -/
def answeredRequest (base : MutationRequest) (schema : Except Failure ConnectorSchema) (counts : PendingCounts) :
    MutationRequest :=
  { base with schema := schema, pendingCounts := .ok counts }

/-- The request takes this route. -/
def Mutates (req : HttpRequest) (base : MutationRequest) : Prop :=
  ∃ body opType flag params, req.body = .ok body ∧
    handle req.method req.segments = some (.enqueueRoute opType flag, params) ∧
    base = mutationRequest req body opType params

/-- A create reads the schema of its instance. -/
def Admits (req : HttpRequest) (m : Asked) (input : EnqueueInput) : Prop :=
  ∃ base counts schema, Mutates req base ∧ m.counts = some (base.instanceId, counts) ∧
    (base.opType = .create → m.schema = some (base.instanceId, schema)) ∧
    (answeredRequest base schema counts).enqueueRoute = .ok input

def Asked.allows (req : HttpRequest) (m : Asked) : HttpIo → Prop
  | .enqueue input => Admits req m input
  | _ => True

def admission (req : HttpRequest) : Monitor HttpEffects Asked where
  allows := Asked.allows req
  expects _ _ := True
  next := Asked.next

def HttpIo.isEnqueue : HttpIo → Bool
  | .enqueue _ => true
  | _ => false

/-- The program enqueues nothing. -/
abbrev Idle {α : Type} (x : HttpProg α) : Prop := Async.Only (fun e => HttpIo.isEnqueue e = false) x

section Steps

variable {req : HttpRequest} {base : MutationRequest} {m : Asked} {α β : Type}

theorem Idle.admitted {x : HttpProg α} (h : Idle x) (m : Asked) :
    Async.Safe (admission req) (fun _ _ => True) m x := by
  apply Prog.Only.allowed h
  intro m e he
  cases e with
  | enqueue input => simp [HttpIo.isEnqueue] at he
  | _ => trivial

/-! ## Programs that enqueue nothing -/

theorem idle_of {P : HttpIo → Prop} {x : HttpProg α} (hx : Async.Only P x) (h : ∀ input, ¬ P (.enqueue input)) :
    Idle x := by
  apply hx.mono
  intro e he
  cases e with
  | enqueue input => exact absurd he (h input)
  | _ => rfl

theorem idle_tell {e : HttpIo} (h : e.isEnqueue = false) : Idle (tell e) := only_tell h

theorem idle_unhandled (req : HttpRequest) : Idle (unhandled req) := by
  unfold unhandled
  split <;> exact idle_tell rfl

theorem idle_next (e : HttpError) : Idle (next false e) := only_next (fun _ => rfl) e

/-! ## The handler of a mutation -/

theorem enqueueRoute_of_parts {base : MutationRequest} {priority : Option OperationPriority} {attrs : Option Json}
    {name : Option String} {input : EnqueueInput} (registered : base.ensureApplication = .ok ())
    (hpriority : base.priorityOf = .ok priority) (hattrs : base.attrs = .ok attrs)
    (hname : base.nameAttrValueOf attrs = .ok name)
    (hadmitted : Provisioning.admitAndEnqueue (admitInput base priority attrs name) ⟨none, none⟩ base.pendingCounts =
      .ok input) :
    base.enqueueRoute = .ok input := by
  unfold MutationRequest.enqueueRoute
  rw [registered, hpriority, hattrs]
  show (base.nameAttrValueOf attrs >>= _) = _
  rw [hname]
  exact hadmitted

theorem orThrow_safe (x : Except RouteError α) :
    Async.Safe (admission req) (fun m' r => m' = m ∧ ∀ a, r = .ok a → x = .ok a) m (orThrow x) := by
  cases x with
  | ok a => exact ⟨rfl, fun b hb => by cases hb; rfl⟩
  | error e => exact ⟨rfl, nofun⟩

theorem safe_bind (mid : Asked → Except HttpError β → Prop) {x : HttpProg β} {f : β → HttpProg α}
    (hx : Async.Safe (admission req) mid m x)
    (hf : ∀ m' b, mid m' (.ok b) → Async.Safe (admission req) (fun _ _ => True) m' (f b)) :
    Async.Safe (admission req) (fun _ _ => True) m (x >>= f) :=
  Async.Safe.bind mid hx hf fun _ _ _ => trivial

/-- The monitor remembers the schema that a create reads. -/
def Reads (base : MutationRequest) (schema : Except Failure ConnectorSchema) (m : Asked) : Prop :=
  base.opType = .create → m.schema = some (base.instanceId, schema)

theorem safe_resolveNameAttribute (id : String) :
    Async.Safe (admission req) (fun m' r => ∀ schema, r = .ok schema → m'.schema = some (id, schema)) m
      (resolveNameAttribute id) := by
  refine Async.Safe.bind (fun m' r => ∀ u, r = .ok u → m'.leased = some id) ?_ (fun m' u h => ?_) fun _ _ _ => nofun
  · refine Async.Safe.call trivial fun (answer : Except Failure Unit) _ u hu => ?_
    cases answer with
    | error f => cases hu
    | ok u' => rfl
  · refine Async.Safe.andFinally (fun m' r => ∀ schema, r = .ok schema → m'.schema = some (id, schema)) ?_
      fun m' r h => ?_
    · refine Async.Safe.ask trivial fun answer _ schema hschema => ?_
      obtain rfl := Except.ok.inj hschema
      show m'.leased.map (·, answer) = _
      rw [h u rfl]
      rfl
    · exact Async.Safe.ask trivial fun _ _ => ⟨fun _ _ => h, nofun⟩

theorem safe_nameAttrValueOf (base : MutationRequest) (attrs : Option Json) :
    Async.Safe (admission req)
      (fun m' r => ∀ name, r = .ok name →
        ∃ schema, Reads base schema m' ∧ { base with schema := schema }.nameAttrValueOf attrs = .ok name) m
      (nameAttrValueOf base attrs) := by
  unfold nameAttrValueOf
  split
  · refine Async.Safe.bind _ (safe_resolveNameAttribute base.instanceId) ?_ fun _ _ _ => nofun
    intro m' schema h
    refine Async.Safe.mono (orThrow_safe _) fun m'' r hthrow name hname => ⟨schema, fun _ => ?_, ?_⟩
    · rw [hthrow.1]
      exact h schema rfl
    · exact hthrow.2 name hname
  · rename_i hother
    intro name hname
    obtain rfl := Except.ok.inj hname
    refine ⟨base.schema, fun hcreate => absurd hcreate hother, ?_⟩
    unfold MutationRequest.nameAttrValueOf
    rw [if_neg hother]
    rfl

theorem admitted_enqueueRoute (mutates : Mutates req base) (registered : base.ensureApplication = .ok ())
    (m : Asked) :
    Async.Safe (admission req) (fun _ _ => True) m (enqueueRoute base) := by
  refine Async.Safe.catching (fun _ _ => True) ?_ (fun _ _ _ => trivial) fun m' e _ => (idle_next e).admitted m'
  refine safe_bind _ (orThrow_safe base.priorityOf) fun m₁ priority hpriority => ?_
  refine safe_bind _ (orThrow_safe base.attrs) fun m₂ attrs hattrs => ?_
  refine safe_bind _ (safe_nameAttrValueOf base attrs) fun m₃ name hname => ?_
  obtain ⟨schema, hreads, hname⟩ := hname name rfl
  refine safe_bind (fun _ _ => True) ?_ fun m₄ result _ => (idle_tell rfl).admitted m₄
  refine safe_bind (fun m' r => ∀ counts, r = .ok counts →
    m'.counts = some (base.instanceId, counts) ∧ m'.schema = m₃.schema) ?_ ?_
  · refine Async.Safe.call trivial fun (answer : Except Failure PendingCounts) _ counts hcounts => ?_
    cases answer with
    | error f => cases hcounts
    | ok counts' =>
      obtain rfl := Except.ok.inj hcounts
      exact ⟨rfl, rfl⟩
  · intro m₅ counts hcounts
    obtain ⟨hcounts, hschema⟩ := hcounts counts rfl
    refine safe_bind _ (orThrow_safe _) fun m₆ input hinput => ?_
    refine Async.Safe.call ?_ fun _ _ => trivial
    refine ⟨base, counts, schema, mutates, by rw [hinput.1, hcounts], fun hcreate => ?_, ?_⟩
    · rw [hinput.1, hschema]
      exact hreads hcreate
    · exact enqueueRoute_of_parts registered (hpriority.2 priority rfl) (hattrs.2 attrs rfl) hname
        (hinput.2 input rfl)

/-! ## The application -/

theorem admitted_runHandler {body : Option Json} (hbody : req.body = .ok body) {handler : Handler}
    {params : List (String × String)} (routed : handle req.method req.segments = some (handler, params)) (m : Asked) :
    Async.Safe (admission req) (fun _ _ => True) m (runHandler req body params handler) := by
  have only := runHandler_only req body params handler
  cases handler with
  | enqueueRoute opType flag =>
    exact admitted_enqueueRoute ⟨body, opType, flag, params, hbody, routed, rfl⟩ rfl m
  | _ => exact (idle_of only fun _ => id).admitted m

theorem admitted_ifThen {x : HttpProg Bool} {y : HttpProg Unit} (hx : Idle x)
    (hy : ∀ m, Async.Safe (admission req) (fun _ _ => True) m y) :
    Async.Safe (admission req) (fun _ _ => True) m (do if ← x then y) := by
  refine safe_bind _ (hx.admitted m) fun m' b _ => ?_
  cases b with
  | true => exact hy m'
  | false => trivial

theorem admitted_app (config : JwtConfig) (req : HttpRequest) :
    Async.Safe (admission req) (fun _ _ => True) .start (app config req) := by
  unfold app
  split
  · exact (idle_next _).admitted _
  · rename_i body hbody
    split
    · rename_i handler raw hprobe
      obtain ⟨-, hprobe⟩ := Option.filter_eq_some_iff.1 hprobe
      have only := runHandler_only req body [] handler
      cases handler with
      | healthz | readyz => exact (idle_of only fun _ => id).admitted _
      | _ => simp [Handler.isProbe] at hprobe
    · split
      · exact (idle_tell rfl).admitted _
      refine admitted_ifThen (idle_of (requireJwt_only config req) fun _ => id) fun m => ?_
      refine admitted_ifThen (idle_of (ensureRegistered_only req) fun _ => id) fun m' => ?_
      split
      · exact (idle_next _).admitted m'
      · split
        · exact (idle_unhandled req).admitted m'
        · rename_i handler params hrouted
          exact admitted_runHandler hbody hrouted m'

end Steps

/-! ## Where the answers come from -/

/-- The store has answered with these counts of the instance. -/
def CountsHeard (heard : HttpHeard) (instanceId : String) (counts : PendingCounts) : Prop :=
  (⟨HttpIo.pendingCounts instanceId, (Except.ok counts : Except Failure PendingCounts)⟩ : (e : HttpIo) × e.Answer) ∈
    heard

/-- A lease of the instance was taken, as the last thing that was heard. -/
def JustLeased (heard : HttpHeard) (instanceId : String) : Prop :=
  ∃ before u, heard = before ++
    [(⟨HttpIo.acquire instanceId, (Except.ok u : Except Failure Unit)⟩ : (e : HttpIo) × e.Answer)]

/-- The connector of the instance has answered with this schema, under a lease of the instance. -/
def SchemaHeard (heard : HttpHeard) (instanceId : String) (schema : Except Failure ConnectorSchema) : Prop :=
  ∃ before after, JustLeased before instanceId ∧
    heard = before ++ (⟨HttpIo.schema, schema⟩ : (e : HttpIo) × e.Answer) :: after

/-- The answers that the monitor remembers were heard. -/
structure Asked.Heard (heard : HttpHeard) (m : Asked) : Prop where
  leased : ∀ id, m.leased = some id → JustLeased heard id
  counts : ∀ id counts, m.counts = some (id, counts) → CountsHeard heard id counts
  schema : ∀ id schema, m.schema = some (id, schema) → SchemaHeard heard id schema

section Answers

variable {heard : HttpHeard} {m : Asked}

theorem Asked.Heard.kept (inv : m.Heard heard) (x : (e : HttpIo) × e.Answer) :
    Asked.Heard (heard ++ [x]) { m with leased := none } where
  leased := nofun
  counts id counts h := List.mem_append_left _ (inv.counts id counts h)
  schema id schema h := by
    obtain ⟨before, after, hleased, rfl⟩ := inv.schema id schema h
    exact ⟨before, after ++ [x], hleased, by simp⟩

theorem Asked.Heard.snoc (inv : m.Heard heard) (e : HttpIo) (a : e.Answer) :
    (m.next e a).Heard (heard ++ [⟨e, a⟩]) := by
  have kept := inv.kept ⟨e, a⟩
  cases e with
  | acquire id =>
    cases (a : Except Failure Unit) with
    | error f => exact kept
    | ok u =>
      refine { kept with leased := fun id' h => ?_ }
      obtain rfl := Option.some.inj h
      exact ⟨heard, u, rfl⟩
  | schema =>
    refine { kept with schema := fun id schema h => ?_ }
    obtain ⟨id', hleased, heq⟩ := Option.map_eq_some_iff.1 h
    obtain ⟨rfl, rfl⟩ := Prod.mk.inj heq
    exact ⟨heard, [], inv.leased id' hleased, rfl⟩
  | pendingCounts id =>
    cases (a : Except Failure PendingCounts) with
    | error f => exact kept
    | ok counts =>
      refine { kept with counts := fun id' counts' h => ?_ }
      obtain ⟨rfl, rfl⟩ := Prod.mk.inj (Option.some.inj h)
      exact List.mem_append_right _ List.mem_cons_self
  | _ => exact kept

end Answers

/-- **What a request enqueues is what it admits**: the input is the one that `MutationRequest` makes of the route, the
body and the headers, with the pending counts of its instance that were heard, and for a create with the schema that
was heard under a lease of its instance. -/
theorem enqueue_admitted {config : JwtConfig} {req : HttpRequest} {heard : HttpHeard} {input : EnqueueInput}
    {k : Except Failure EnqueueResult → Prog HttpEffects (Except HttpError Unit)}
    (h : (app config req).run.Reaches heard (.await (HttpIo.enqueue input) k)) :
    ∃ base counts schema, Mutates req base ∧ CountsHeard heard base.instanceId counts ∧
      (base.opType = .create → SchemaHeard heard base.instanceId schema) ∧
      (answeredRequest base schema counts).enqueueRoute = .ok input := by
  have allowed := ((admitted_app config req).reaches h fun _ _ => trivial).allowed
  have init : Asked.Heard [] .start := ⟨nofun, nofun, nofun⟩
  have remembered := Prog.Safe.history (fun heard m => Asked.Heard heard m) (fun _ _ e a inv _ _ => inv.snoc e a)
    init (admitted_app config req) h fun _ _ => trivial
  obtain ⟨base, counts, schema, mutates, hcounts, hschema, hinput⟩ := allowed
  exact ⟨base, counts, schema, mutates, remembered.counts _ counts hcounts,
    fun hcreate => remembered.schema _ schema (hschema hcreate), hinput⟩

def HttpIo.input : HttpIo → Option EnqueueInput
  | .enqueue input => some input
  | _ => none

theorem eq_enqueue {e : HttpIo} {input : EnqueueInput} (h : e.input = some input) : e = .enqueue input := by
  cases e <;> simp_all [HttpIo.input]

theorem enqueue_admitted_delete :
    ∃ heard input k base counts schema, (app plainJwtConfig deleteRequest).run.Reaches heard
        (.await (HttpIo.enqueue input) k) ∧ input.laneKey = "uid:User:42" ∧
      (answeredRequest base schema counts).enqueueRoute = .ok input := by
  have h : ((deleteHeard.drop 3).head?.bind fun x => x.1.input.map (·.laneKey)) = some "uid:User:42" := by
    decide +kernel
  obtain ⟨x, hx, h⟩ := Option.bind_eq_some_iff.1 h
  obtain ⟨input, hinput, hlane⟩ := Option.map_eq_some_iff.1 h
  obtain ⟨after, hafter⟩ := List.head?_eq_some_iff.1 hx
  have hsplit : deleteHeard = deleteHeard.take 3 ++ x :: after := by
    rw [← hafter]
    exact (List.take_append_drop 3 deleteHeard).symm
  obtain ⟨k, hk⟩ := @Prog.reaches_before HttpEffects _ quietService _ _ _ _ hsplit
  obtain ⟨e, a⟩ := x
  obtain rfl := eq_enqueue hinput
  obtain ⟨base, counts, schema, -, -, -, hroute⟩ := enqueue_admitted hk
  exact ⟨_, input, k, base, counts, schema, hk, hlane, hroute⟩

end Provisioning.Http
