import Provisioning.Ops.Transcript

/-!
# What a report rests on

A read-back searches for the value of the row under the attribute that this attempt resolved. A
success of a create reports the object that the call returned, or the one that the search found.
-/

namespace Provisioning

open Lib

/-- What `resolveNameAttribute` makes of the answer of `schema()`. -/
def nameAttributeFrom (objectClass : String) : Except Failure ConnectorSchema → String
  | .ok schema =>
    match (schema.objectClasses.find? fun c => c.name = objectClass).bind (·.nameAttribute) with
    | some name => if name = "" then "__NAME__" else name
    | none => "__NAME__"
  | .error _ => "__NAME__"

def createdResult (o : ConnectorObject) : Json := .obj [("uid", .str o.uid), ("object", o.toJson)]

def readBackResult (o : ConnectorObject) : Json :=
  .obj [("uid", .str o.uid), ("object", o.toJson), ("viaReadBack", .bool true)]

/-- The last answers of the connector. -/
structure Evidence where
  schema : Option (Except Failure ConnectorSchema)
  found : Option (Except Failure (List ConnectorObject))
  settled : Option (Except Failure (Option ConnectorObject))

def Evidence.none : Evidence := ⟨.none, .none, .none⟩

def Evidence.hear (t : Evidence) : (e : Io) → e.Answer → Evidence
  | .schema, r => { t with schema := some r }
  | .search .., r => { t with found := some r }
  | .settle _, r => { t with settled := some r }
  | _, _ => t

variable (op : ClaimedOperation)

/-- The result of a success is what was found, or what the create returned, or that of another call. -/
def Supported (t : Evidence) (result : Option Json) : Prop :=
  (∃ o rest, t.found = some (.ok (o :: rest)) ∧ result = some (readBackResult o)) ∨
  (op.opType = .create ∧ ∃ o, t.settled = some (.ok (some o)) ∧ result = some (createdResult o)) ∨
  (op.opType ≠ .create ∧ result.bind (Json.field "viaReadBack") = .none)

def Mutation.isCreate : Mutation → Bool
  | .create .. => true
  | _ => false

def evidence : Monitor Dispatch Evidence where
  allows t
    | .search objectClass nameAttribute nameValue _ =>
      objectClass = op.objectClass ∧ op.nameAttrValue = some nameValue ∧
        ∃ r, t.schema = some r ∧ nameAttribute = nameAttributeFrom op.objectClass r
    | .settle m => op.opType = .create → m.isCreate
    | .finalize _ .succeeded result _ => Supported op t result
    | _ => True
  expects _ _ := True
  next := Evidence.hear

/-! ## Where the evidence comes from -/

section Origin

variable {op : ClaimedOperation} {heard : List Heard}

theorem found_heard {r : Except Failure (List ConnectorObject)}
    (h : ((evidence op).recall .none heard).found = some r) :
    ∃ objectClass nameAttribute nameValue deadlineEpochMs,
      (⟨.search objectClass nameAttribute nameValue deadlineEpochMs, r⟩ : Heard) ∈ heard := by
  obtain ⟨⟨e, x⟩, hx, t, hnot, hknown⟩ :=
    Prog.recall_learned (fun t : Evidence => t.found = some r) (by simp [Evidence.none]) h
  cases e <;> try exact absurd hknown hnot
  case search =>
    cases hknown
    exact ⟨_, _, _, _, hx⟩

theorem schema_heard {r : Except Failure ConnectorSchema}
    (h : ((evidence op).recall .none heard).schema = some r) : (⟨.schema, r⟩ : Heard) ∈ heard := by
  obtain ⟨⟨e, x⟩, hx, t, hnot, hknown⟩ :=
    Prog.recall_learned (fun t : Evidence => t.schema = some r) (by simp [Evidence.none]) h
  cases e <;> try exact absurd hknown hnot
  case schema =>
    cases hknown
    exact hx

theorem settled_heard {r : Except Failure (Option ConnectorObject)}
    (h : ((evidence op).recall .none heard).settled = some r) : ∃ m, (⟨.settle m, r⟩ : Heard) ∈ heard := by
  obtain ⟨⟨e, x⟩, hx, t, hnot, hknown⟩ :=
    Prog.recall_learned (fun t : Evidence => t.settled = some r) (by simp [Evidence.none]) h
  cases e <;> try exact absurd hknown hnot
  case settle =>
    cases hknown
    exact ⟨_, hx⟩

end Origin

namespace Dispatcher

variable {cfg : ResolvedDispatcherConfig} {op : ClaimedOperation} {t : Evidence}

/-- A resolution is a success only on evidence. -/
def Grounded (op : ClaimedOperation) (t : Evidence) : Except Failure Resolution → Prop
  | .ok r => r.outcome = .final .succeeded → Supported op t r.result
  | .error _ => True

theorem grounded_of_other {t : Evidence} {r : Resolution} (h : r.outcome ≠ .final .succeeded) :
    Grounded op t (.ok r) := fun hs => absurd hs h

@[simp] theorem backoffOrGiveUp_outcome (code : String) :
    (backoffOrGiveUp cfg op code .indeterminate).outcome ≠ .final .succeeded := by
  unfold backoffOrGiveUp
  split <;> simp [Resolution.failed]

theorem perform_grounded {e : Io} {post : Evidence → Except Failure e.Answer → Prop}
    (allowed : (evidence op).allows t e) (h : ∀ a, post (t.hear e a) (.ok a)) :
    Async.Safe (evidence op) post t (perform e) := Async.Safe.ask allowed fun a _ => h a

theorem facade_grounded {m : Mutation} (hm : op.opType = .create → m.isCreate) :
    Async.Safe (evidence op) (fun t' r => t'.settled = some r) t (facade m) := by
  unfold facade
  refine Async.Safe.bind (fun _ r => ∃ u, r = .ok u) (perform_grounded trivial fun u => ⟨u, rfl⟩) ?_ ?_
  · intro t' u _
    exact Async.Safe.call hm fun r _ => rfl
  · rintro t' e ⟨u, h⟩
    cases h

theorem resolveCreateAfterDeadline_grounded {runtime : ResolvedInstanceConfig} :
    Async.Safe (evidence op) (Grounded op) t (resolveCreateAfterDeadline cfg op runtime) := by
  unfold resolveCreateAfterDeadline
  refine Async.Safe.bind (fun _ _ => True) (perform_grounded trivial fun _ => trivial) ?_ fun _ _ _ => trivial
  intro t' caps _
  split
  · exact Async.Safe.pure (grounded_of_other (by simp [Resolution.failed]))
  · split <;> exact Async.Safe.pure (grounded_of_other (by simp [Resolution.failed]))

theorem attemptCreate_grounded {runtime : ResolvedInstanceConfig} {options : OperationOptions}
    (hop : op.opType = .create) :
    Async.Safe (evidence op) (Grounded op) t (attemptCreate cfg op runtime options) := by
  unfold attemptCreate
  refine Async.Safe.catching (Grounded op) ?_ (fun _ _ h => h) ?_
  · refine Async.Safe.bind _ (facade_grounded fun _ => rfl) ?_ fun _ _ _ => trivial
    intro t' o hsettled
    cases o with
    | none => exact Async.Safe.throw trivial
    | some created => exact Async.Safe.pure fun _ => .inr (.inl ⟨hop, created, hsettled, rfl⟩)
  · intro t' e _
    split
    · exact Async.Safe.pure (grounded_of_other (by simp [Resolution.failed]))
    · split
      · exact resolveCreateAfterDeadline_grounded
      · split
        · exact Async.Safe.pure (grounded_of_other (backoffOrGiveUp_outcome _))
        · exact Async.Safe.pure (grounded_of_other (by simp [Resolution.failed]))

theorem resolveNameAttribute_grounded :
    Async.Safe (evidence op)
      (fun t' r => ∃ s, t'.schema = some s ∧ r = .ok (nameAttributeFrom op.objectClass s)) t
      (resolveNameAttribute op) := by
  unfold resolveNameAttribute
  -- Only `schema()` throws, and then the default is the answer.
  refine Async.Safe.catching (fun t' r => ∃ s, t'.schema = some s ∧
    (∀ name, r = .ok name → name = nameAttributeFrom op.objectClass s) ∧
    ∀ e, r = .error e → nameAttributeFrom op.objectClass s = "__NAME__") ?_ ?_ ?_
  · refine Async.Safe.bind (fun t' r => t'.schema = some r) (Async.Safe.call trivial fun r _ => rfl) ?_ ?_
    · intro t' schema hschema
      split
      · rename_i name hname
        refine Async.Safe.pure ⟨_, hschema, ?_, by simp⟩
        simp [nameAttributeFrom, hname]
      · rename_i hnone
        refine Async.Safe.pure ⟨_, hschema, ?_, by simp⟩
        simp [nameAttributeFrom, hnone]
    · intro t' e hschema
      exact ⟨_, hschema, by simp, fun _ _ => rfl⟩
  · rintro t' name ⟨s, hs, hname, -⟩
    exact ⟨s, hs, by rw [hname name rfl]⟩
  · rintro t' e ⟨s, hs, -, hdefault⟩
    exact Async.Safe.pure ⟨s, hs, by rw [hdefault e rfl]⟩

theorem readBackByName_grounded {nameAttribute nameValue : String} {runtime : ResolvedInstanceConfig}
    {s : Except Failure ConnectorSchema} (hvalue : op.nameAttrValue = some nameValue) (hs : t.schema = some s)
    (hname : nameAttribute = nameAttributeFrom op.objectClass s) :
    Async.Safe (evidence op)
      (fun t' r => ∀ o, r = .ok o → ∃ results, t'.found = some (.ok results) ∧ o = results.head?) t
      (readBackByName op nameAttribute nameValue runtime) := by
  unfold readBackByName
  refine Async.Safe.bind (fun t' r => t'.schema = some s ∧ ∃ now, r = .ok now)
    (perform_grounded trivial fun now => ⟨hs, now, rfl⟩) ?_ ?_
  · rintro t' now ⟨hs, -⟩
    refine Async.Safe.bind (fun t' r => t'.found = some r) ?_ ?_ ?_
    · exact Async.Safe.call ⟨rfl, hvalue, s, hs, hname⟩ fun r _ => rfl
    · intro t' results hfound
      refine Async.Safe.pure fun o ho => ⟨results, hfound, ?_⟩
      cases ho
      rfl
    · intro t' e _ o ho
      cases ho
  · rintro t' e ⟨-, now, h⟩
    cases h

theorem resumeReadBack_grounded {runtime : ResolvedInstanceConfig} :
    Async.Safe (evidence op) (Grounded op) t (resumeReadBack op runtime) := by
  unfold resumeReadBack
  split
  · exact Async.Safe.pure (grounded_of_other (by simp [Resolution.failed]))
  · rename_i nameValue hvalue
    refine Async.Safe.bind _ resolveNameAttribute_grounded ?_ ?_
    · rintro t' name ⟨s, hs, hname⟩
      refine Async.Safe.catching (Grounded op) ?_ (fun _ _ h => h) ?_
      · refine Async.Safe.bind _ (readBackByName_grounded hvalue hs (Except.ok.inj hname)) ?_ fun _ _ _ => trivial
        intro t' o ho
        obtain ⟨results, hfound, hhead⟩ := ho o rfl
        refine Async.Safe.pure fun hout => ?_
        cases results with
        | nil =>
          subst hhead
          unfold readBackVerdict at hout
          simp only [List.head?_nil] at hout
          split at hout <;> simp [Resolution.failed] at hout
        | cons found rest =>
          subst hhead
          exact .inl ⟨found, rest, hfound, rfl⟩
      · intro t' e _
        exact Async.Safe.pure (grounded_of_other (by simp [Resolution.failed]))
    · rintro t' e ⟨s, -, h⟩
      cases h

/-! ## The other operations -/

theorem updatedResult_field (updated : Option ConnectorObject) :
    (updatedResult op updated).field "viaReadBack" = none := by
  unfold updatedResult
  cases updated <;> simp [Json.field]

theorem optionsFor_grounded {runtime : ResolvedInstanceConfig} :
    Async.Safe (evidence op) (fun _ r => ∃ o, r = .ok o) t (optionsFor op runtime) := by
  unfold optionsFor
  refine Async.Safe.bind (fun _ r => ∃ now, r = .ok now) (perform_grounded trivial fun now => ⟨now, rfl⟩) ?_ ?_
  · intro t' now _
    exact Async.Safe.pure ⟨_, rfl⟩
  · rintro t' e ⟨now, h⟩
    cases h

theorem attemptUpdate_grounded {options : OperationOptions} (hop : op.opType ≠ .create) :
    Async.Safe (evidence op) (Grounded op) t (attemptUpdate cfg op options) := by
  unfold attemptUpdate
  refine Async.Safe.catching (Grounded op) ?_ (fun _ _ h => h) ?_
  · refine Async.Safe.bind _ (facade_grounded fun h => absurd h hop) ?_ fun _ _ _ => trivial
    intro t' updated _
    exact Async.Safe.pure fun _ => .inr (.inr ⟨hop, updatedResult_field updated⟩)
  · intro t' e _
    split
    · exact Async.Safe.pure (grounded_of_other (by simp [Resolution.failed]))
    · split
      · exact Async.Safe.pure (grounded_of_other (by simp [Resolution.failed]))
      · exact Async.Safe.pure (grounded_of_other (backoffOrGiveUp_outcome _))

theorem attemptDelete_grounded {options : OperationOptions} (hop : op.opType ≠ .create) :
    Async.Safe (evidence op) (Grounded op) t (attemptDelete cfg op options) := by
  unfold attemptDelete
  refine Async.Safe.catching (Grounded op) ?_ (fun _ _ h => h) ?_
  · refine Async.Safe.bind _ (facade_grounded fun h => absurd h hop) ?_ fun _ _ _ => trivial
    intro t' o _
    exact Async.Safe.pure fun _ => .inr (.inr ⟨hop, by simp [Resolution.resolved, Json.field]⟩)
  · intro t' e _
    split
    · exact Async.Safe.pure fun _ => .inr (.inr ⟨hop, by simp [Resolution.resolved, Json.field]⟩)
    · split
      · exact Async.Safe.pure (grounded_of_other (by simp [Resolution.failed]))
      · exact Async.Safe.pure (grounded_of_other (backoffOrGiveUp_outcome _))

theorem attemptDelta_grounded {options : OperationOptions} (hop : op.opType ≠ .create) :
    Async.Safe (evidence op) (Grounded op) t (attemptDelta cfg op options) := by
  unfold attemptDelta
  split
  · exact Async.Safe.pure (grounded_of_other (by simp [Resolution.failed]))
  · exact Async.Safe.pure (grounded_of_other (by simp [Resolution.failed]))
  · refine Async.Safe.catching (Grounded op) ?_ (fun _ _ h => h) ?_
    · split <;>
      · refine Async.Safe.bind _ (facade_grounded fun h => absurd h hop) ?_ fun _ _ _ => trivial
        intro t' updated _
        exact Async.Safe.pure fun _ => .inr (.inr ⟨hop, updatedResult_field updated⟩)
    · intro t' e _
      split
      · exact Async.Safe.pure (grounded_of_other (by simp [Resolution.failed]))
      · split
        · exact Async.Safe.pure (grounded_of_other (by simp [Resolution.failed]))
        · refine Async.Safe.bind (fun _ _ => True) (perform_grounded trivial fun _ => trivial) ?_
            fun _ _ _ => trivial
          intro t' caps _
          split
          · exact Async.Safe.pure (grounded_of_other (by simp [Resolution.failed]))
          · exact Async.Safe.pure (grounded_of_other (backoffOrGiveUp_outcome _))

theorem attempt_grounded : Async.Safe (evidence op) (Grounded op) t (attempt cfg op) := by
  unfold attempt
  refine Async.Safe.bind (fun _ _ => True) (Async.Safe.call trivial fun _ _ => trivial) ?_ fun _ _ _ => trivial
  intro t' c _
  split
  · exact Async.Safe.pure (grounded_of_other (by simp [Resolution.failed]))
  · split
    · exact resumeReadBack_grounded
    · refine Async.Safe.bind _ optionsFor_grounded ?_ fun _ _ _ => trivial
      intro t' options _
      split
      · exact attemptCreate_grounded ‹_›
      · exact attemptUpdate_grounded (by simp [*])
      · exact attemptDelete_grounded (by simp [*])
      · exact attemptDelta_grounded (by simp [*])
      · exact attemptDelta_grounded (by simp [*])

/-! ## The write -/

theorem logged_grounded {e : Io} {result : e.Answer → Except Failure Bool} (allowed : (evidence op).allows t e) :
    Async.Safe (evidence op) (fun _ _ => True) t (logged e result) := by
  unfold logged
  refine Async.Safe.catching (fun _ _ => True) ?_ (fun _ _ _ => trivial) fun _ _ _ => Async.Safe.pure trivial
  refine Async.Safe.bind (fun _ _ => True) (Async.Safe.call allowed fun _ _ => trivial) ?_ fun _ _ _ => trivial
  exact fun _ _ _ => Async.Safe.pure trivial

theorem finalize_grounded {r : Resolution} (h : Grounded op t (.ok r)) :
    Async.Safe (evidence op) (fun _ _ => True) t (finalize op r) := by
  unfold finalize
  split
  · refine Async.Safe.bind (fun _ _ => True) (perform_grounded trivial fun _ => trivial) ?_ fun _ _ _ => trivial
    exact fun _ _ _ => logged_grounded trivial
  · split
    · refine Async.Safe.bind (fun _ _ => True) (perform_grounded trivial fun _ => trivial) ?_ fun _ _ _ => trivial
      intro t' now _
      refine Async.Safe.bind (fun _ _ => True) (perform_grounded trivial fun _ => trivial) ?_ fun _ _ _ => trivial
      exact fun _ _ _ => logged_grounded trivial
    · exact logged_grounded trivial
  · rename_i outcome hout
    refine logged_grounded ?_
    cases outcome with
    | succeeded => exact h hout
    | _ => exact trivial

/-- **What `execute` reports, it has evidence for.** -/
theorem execute_grounded (cfg : ResolvedDispatcherConfig) (op : ClaimedOperation) :
    Async.Safe (evidence op) (fun _ _ => True) Evidence.none (execute cfg op) := by
  unfold execute
  refine Async.Safe.bind (fun _ _ => True) (perform_grounded trivial fun _ => trivial) ?_ fun _ _ _ => trivial
  intro t leased _
  split
  · exact finalize_grounded (grounded_of_other (by simp))
  · refine Async.Safe.andFinally (fun _ _ => True) ?_ fun t' r _ =>
      perform_grounded trivial fun _ => ⟨fun _ _ => trivial, fun _ _ => trivial⟩
    refine Async.Safe.catching (fun _ _ => True) ?_ (fun _ _ _ => trivial) fun t' e _ =>
      finalize_grounded (grounded_of_other (by simp))
    exact Async.Safe.bind _ attempt_grounded (fun _ _ h => finalize_grounded h) fun _ _ _ => trivial

end Dispatcher

end Provisioning
