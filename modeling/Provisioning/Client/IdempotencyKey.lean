import Provisioning.Ops.Admission
import Provisioning.Ops.AnswerKeys

/-!
# The idempotency keys of the client

`clients/node/src/idempotencyKey.js`. A key is four components with `:` between them. The type of the
operation is not one of them, and a component may contain `:`. The routes trim the key before the store sees it.
-/

namespace Provisioning

open Lib

namespace Client

def assertNonEmpty (value name : String) : Except String Unit :=
  if trim value = "" then
    throw ("idempotencyKey: " ++ name ++ " must be a non-empty string, got " ++ Json.quote value)
  else pure ()

def buildKey (instanceId objectClass identity orderingKey : String) : Except String String := do
  assertNonEmpty instanceId "instanceId"
  assertNonEmpty objectClass "objectClass"
  assertNonEmpty identity "identity"
  assertNonEmpty orderingKey "orderingKey"
  return instanceId ++ ":" ++ objectClass ++ ":" ++ identity ++ ":" ++ orderingKey

def buildMutationKey (instanceId objectClass uid orderingKey : String) : Except String String :=
  buildKey instanceId objectClass uid orderingKey

def buildCreateKey (instanceId objectClass nameAttrValue orderingKey : String) : Except String String :=
  buildKey instanceId objectClass nameAttrValue orderingKey

/-- A mutation for which the caller builds a key. No component is blank. -/
structure MutationCall where
  opType : OperationType
  instanceId : String
  objectClass : String
  identity : String
  orderingKey : String
  instanceId_nonBlank : trim instanceId ≠ ""
  objectClass_nonBlank : trim objectClass ≠ ""
  identity_nonBlank : trim identity ≠ ""
  orderingKey_nonBlank : trim orderingKey ≠ ""

namespace MutationCall

def key (c : MutationCall) : Except String String :=
  if c.opType = .create then buildCreateKey c.instanceId c.objectClass c.identity c.orderingKey
  else buildMutationKey c.instanceId c.objectClass c.identity c.orderingKey

def components (c : MutationCall) : List String := [c.instanceId, c.objectClass, c.identity, c.orderingKey]

/-- What stands between the colons of a key with these components. -/
def piecesOf (components : List String) : List (List Char) := components.flatMap fun s => s.toList.splitOn ':'

def pieces (c : MutationCall) : List (List Char) := piecesOf c.components

/-- The components as the store gets to see them. -/
def arrived (c : MutationCall) : List String :=
  [String.ofList (c.instanceId.toList.dropWhile isSpace), c.objectClass, c.identity,
    String.ofList (c.orderingKey.toList.rdropWhile isSpace)]

/-- The request carries the key of the call. -/
def SentIn (c : MutationCall) (req : MutationRequest) : Prop := ∃ k, c.key = .ok k ∧ req.idempotencyKey = some k

/-- No component contains the delimiter. -/
def Plain (c : MutationCall) : Prop := ∀ s ∈ c.components, ':' ∉ s.toList

instance (c : MutationCall) : Decidable c.Plain := inferInstanceAs (Decidable (∀ s ∈ _, _))

end MutationCall

/-! ## Keys and pieces -/

theorem assertNonEmpty_ok {value name : String} (h : trim value ≠ "") : assertNonEmpty value name = .ok () := by
  unfold assertNonEmpty
  rw [if_neg h]
  rfl

namespace MutationCall

variable {a b c : MutationCall}

/-- Four components with the delimiter between them. -/
def joined (instanceId objectClass identity orderingKey : String) : String :=
  instanceId ++ ":" ++ objectClass ++ ":" ++ identity ++ ":" ++ orderingKey

theorem key_eq (c : MutationCall) : c.key = .ok (joined c.instanceId c.objectClass c.identity c.orderingKey) := by
  have hbuild : buildKey c.instanceId c.objectClass c.identity c.orderingKey =
      .ok (joined c.instanceId c.objectClass c.identity c.orderingKey) := by
    unfold buildKey
    rw [assertNonEmpty_ok c.instanceId_nonBlank, assertNonEmpty_ok c.objectClass_nonBlank,
      assertNonEmpty_ok c.identity_nonBlank, assertNonEmpty_ok c.orderingKey_nonBlank]
    rfl
  unfold key buildCreateKey buildMutationKey
  rw [hbuild, ite_self]

theorem splitOn_joined (i o d k : String) : (joined i o d k).toList.splitOn ':' = piecesOf [i, o, d, k] := by
  have hcolon : ":".toList = [':'] := rfl
  unfold joined piecesOf
  simp only [String.toList_append, hcolon, List.append_assoc, List.cons_append, List.nil_append,
    List.splitOn_append_cons_self, List.flatMap_cons, List.flatMap_nil, List.append_nil]

theorem joined_eq_iff {i o d k i' o' d' k' : String} :
    joined i o d k = joined i' o' d' k' ↔ piecesOf [i, o, d, k] = piecesOf [i', o', d', k'] := by
  rw [← splitOn_joined, ← splitOn_joined]
  constructor
  · exact fun h => by rw [h]
  · intro h
    have hjoin := congrArg ([':'].intercalate) h
    rw [List.intercalate_splitOn, List.intercalate_splitOn] at hjoin
    exact String.toList_injective hjoin

theorem key_eq_iff : a.key = b.key ↔ a.pieces = b.pieces := by
  rw [key_eq, key_eq, Except.ok.injEq, joined_eq_iff]
  rfl

theorem piecesOf_plain {components : List String} (h : ∀ s ∈ components, ':' ∉ s.toList) :
    piecesOf components = components.map String.toList := by
  have hone : ∀ s ∈ components, s.toList.splitOn ':' = [s.toList] := fun s hs => List.splitOn_eq_singleton (h s hs)
  unfold piecesOf
  rw [List.flatMap_congr hone, List.map_eq_flatMap]

theorem piecesOf_eq_iff_of_plain {cs cs' : List String} (h : ∀ s ∈ cs, ':' ∉ s.toList)
    (h' : ∀ s ∈ cs', ':' ∉ s.toList) : piecesOf cs = piecesOf cs' ↔ cs = cs' := by
  rw [piecesOf_plain h, piecesOf_plain h']
  exact (List.map_injective_iff.2 fun _ _ => String.toList_injective).eq_iff

/-! ## The key that the store sees -/

theorem dropWhile_append_of_not {p : Char → Bool} {cs rest : List Char} (h : ∃ x ∈ cs, ¬ p x) :
    (cs ++ rest).dropWhile p = cs.dropWhile p ++ rest := by
  have hne : cs.dropWhile p ≠ [] := by
    obtain ⟨x, hx, hp⟩ := h
    exact fun hnil => hp (List.dropWhile_eq_nil_iff.1 hnil x hx)
  rw [List.dropWhile_append, if_neg (by simpa using hne)]

theorem rdropWhile_append_of_not {p : Char → Bool} {cs rest : List Char} (h : ∃ x ∈ rest, ¬ p x) :
    (cs ++ rest).rdropWhile p = cs ++ rest.rdropWhile p := by
  unfold List.rdropWhile
  rw [List.reverse_append, dropWhile_append_of_not (by simpa using h), List.reverse_append, List.reverse_reverse]

theorem exists_of_nonBlank {s : String} (h : trim s ≠ "") : ∃ x ∈ s.toList, ¬ isSpace x := by
  by_contra hall
  refine h (String.toList_injective ?_)
  have hnil : s.toList.dropWhile isSpace = [] := List.dropWhile_eq_nil_iff.2 fun x hx => by
    by_contra hspace
    exact hall ⟨x, hx, hspace⟩
  rw [trim_toList, hnil]
  rfl

theorem trim_joined {i o d k : String} (hi : trim i ≠ "") (hk : trim k ≠ "") :
    trim (joined i o d k) =
      joined (String.ofList (i.toList.dropWhile isSpace)) o d (String.ofList (k.toList.rdropWhile isSpace)) := by
  have hcolon : ":".toList = [':'] := rfl
  refine String.toList_injective ?_
  rw [trim_toList]
  unfold joined
  simp only [String.toList_append, hcolon, String.toList_ofList, List.append_assoc]
  rw [dropWhile_append_of_not (exists_of_nonBlank hi)]
  have hend : ∀ pre : List Char, (pre ++ k.toList).rdropWhile isSpace = pre ++ k.toList.rdropWhile isSpace :=
    fun _ => rdropWhile_append_of_not (exists_of_nonBlank hk)
  simpa only [List.append_assoc] using
    hend (i.toList.dropWhile isSpace ++ ([':'] ++ (o.toList ++ ([':'] ++ (d.toList ++ [':'])))))

theorem trim_joined_ne (i o d k : String) : trim (joined i o d k) ≠ "" := by
  intro hblank
  have hall : ∀ x ∈ (joined i o d k).toList, isSpace x := by
    rw [← String.toList_eq_nil_iff, trim_toList, List.rdropWhile_eq_nil_iff] at hblank
    rw [← List.dropWhile_eq_nil_iff]
    cases hdrop : (joined i o d k).toList.dropWhile isSpace with
    | nil => rfl
    | cons x rest =>
      have hhead := List.head?_dropWhile_not isSpace (joined i o d k).toList
      rw [hdrop] at hhead hblank
      have hspace := hblank x List.mem_cons_self
      simp [hspace] at hhead
  have hmem : ':' ∈ (joined i o d k).toList := by simp [joined]
  exact absurd (hall ':' hmem) (by decide)

theorem SentIn.idempotencyKeyOf {req : MutationRequest} (h : c.SentIn req) :
    req.idempotencyKeyOf = joined (String.ofList (c.instanceId.toList.dropWhile isSpace)) c.objectClass c.identity
      (String.ofList (c.orderingKey.toList.rdropWhile isSpace)) := by
  obtain ⟨k, hk, hreq⟩ := h
  rw [key_eq] at hk
  obtain rfl := Except.ok.inj hk
  unfold MutationRequest.idempotencyKeyOf
  rw [hreq]
  simp only
  rw [if_neg (trim_joined_ne _ _ _ _), trim_joined c.instanceId_nonBlank c.orderingKey_nonBlank]

theorem SentIn.eq_iff {req req' : MutationRequest} (h : a.SentIn req) (h' : b.SentIn req') :
    req.idempotencyKeyOf = req'.idempotencyKeyOf ↔ piecesOf a.arrived = piecesOf b.arrived := by
  rw [h.idempotencyKeyOf, h'.idempotencyKeyOf, joined_eq_iff]
  rfl

theorem Plain.arrived (h : c.Plain) : ∀ s ∈ c.arrived, ':' ∉ s.toList := by
  intro s hs
  simp only [MutationCall.arrived, List.mem_cons, List.not_mem_nil, or_false] at hs
  have plain {x : String} (hx : x ∈ c.components) : ':' ∉ x.toList := h x hx
  rcases hs with rfl | rfl | rfl | rfl
  · rw [String.toList_ofList]
    exact fun hmem => plain (by simp [components]) (List.dropWhile_subset _ hmem)
  · exact plain (by simp [components])
  · exact plain (by simp [components])
  · rw [String.toList_ofList]
    exact fun hmem => plain (x := c.orderingKey) (by simp [components]) ((List.rdropWhile_prefix _ _).subset hmem)

end MutationCall

/-! ## The result -/

/-- **What a key tells apart.** Every call has a key. Two keys are equal exactly when the pieces between
the colons are, so calls without a colon in a component share a key exactly when they share all four
components. The store sees the key without the blanks before its first component and after its last one.
And no call of `enqueue` is answered with the operation of another key that it saw. -/
theorem keys_of_calls (advisoryLockKey : String → BitVec 64) (a b : MutationCall) :
    (∃ k, a.key = .ok k) ∧ (a.key = b.key ↔ a.pieces = b.pieces) ∧
      (a.Plain → b.Plain → (a.key = b.key ↔ a.components = b.components)) ∧
      ∀ reqA reqB : MutationRequest, a.SentIn reqA → b.SentIn reqB →
        (reqA.idempotencyKeyOf = reqB.idempotencyKeyOf ↔
          MutationCall.piecesOf a.arrived = MutationCall.piecesOf b.arrived) ∧
        (a.Plain → b.Plain → (reqA.idempotencyKeyOf = reqB.idempotencyKeyOf ↔ a.arrived = b.arrived)) ∧
        ∀ db, Db.Reachable advisoryLockKey db → ∀ x ∈ db.answers, ∀ y ∈ db.answers,
          x.key = reqA.idempotencyKeyOf → y.key = reqB.idempotencyKeyOf →
          reqA.idempotencyKeyOf ≠ reqB.idempotencyKeyOf → x.result.id ≠ y.result.id := by
  refine ⟨⟨_, a.key_eq⟩, MutationCall.key_eq_iff, fun ha hb => ?_,
    fun reqA reqB hA hB => ⟨hA.eq_iff hB, fun ha hb => ?_, ?_⟩⟩
  · exact MutationCall.key_eq_iff.trans (MutationCall.piecesOf_eq_iff_of_plain ha hb)
  · exact (hA.eq_iff hB).trans (MutationCall.piecesOf_eq_iff_of_plain ha.arrived hb.arrived)
  · intro db reachable x hx y hy hxkey hykey hne hid
    rw [← hxkey, ← hykey] at hne
    exact hne (reachable.key_of_id hx hy hid)

def replaceAda : MutationCall := ⟨.update, "hr", "User", "ada", "t1", by decide, by decide, by decide, by decide⟩

def replaceBob : MutationCall := ⟨.update, "hr", "User", "bob", "t1", by decide, by decide, by decide, by decide⟩

def requestWith (c : MutationCall) (key : String) : MutationRequest where
  opType := c.opType
  instanceId := c.instanceId
  objectClass := c.objectClass
  uid := some c.identity
  body := none
  idempotencyKey := some key
  randomUUID := ""
  ensureApplication := .ok ()
  acquire := .ok ()
  schema := .ok ⟨[]⟩
  pendingCounts := .error (.other "")

def sent (sid : Nat) (c : MutationCall) (key : String) : List DbAction :=
  [.beginEnqueue sid ⟨c.instanceId, c.objectClass, c.opType, c.identity, key, none, some c.identity, none, none⟩,
    .lockKey sid, .lookupKey sid]

def bothReplaced : List DbAction :=
  sent 1 replaceAda "hr:User:ada:t1" ++ [.insertOperation 1 7, .commitEnqueue 1 true] ++
    sent 2 replaceBob "hr:User:bob:t1" ++ [.insertOperation 2 8, .commitEnqueue 2 true]

theorem keys_of_calls_apart :
    ∃ db, Db.Reachable (fun _ => 0) db ∧ ∃ x ∈ db.answers, ∃ y ∈ db.answers,
      replaceAda.key = .ok x.key ∧ replaceBob.key = .ok y.key ∧ x.result.id ≠ y.result.id := by
  have h : (exec (Db.step fun _ => 0) anyStep (Db.start 0 [0]) bothReplaced).map Db.answers =
      some [⟨"hr:User:ada:t1", ⟨Uuid.text 7, false⟩⟩, ⟨"hr:User:bob:t1", ⟨Uuid.text 8, false⟩⟩] := by
    decide
  obtain ⟨db, hdb, hanswers⟩ := Option.map_eq_some_iff.1 h
  have reachable : Db.Reachable (fun _ => 0) db := ⟨0, [0], runs_of_exec hdb⟩
  have hada : replaceAda.SentIn (requestWith replaceAda "hr:User:ada:t1") := ⟨_, replaceAda.key_eq, rfl⟩
  have hbob : replaceBob.SentIn (requestWith replaceBob "hr:User:bob:t1") := ⟨_, replaceBob.key_eq, rfl⟩
  have apart := (keys_of_calls (fun _ => 0) replaceAda replaceBob).2.2.2 _ _ hada hbob
  refine ⟨db, reachable, _, by rw [hanswers]; exact List.mem_cons_self, _,
    by rw [hanswers]; exact List.mem_cons_of_mem _ List.mem_cons_self, replaceAda.key_eq, replaceBob.key_eq, ?_⟩
  refine apart.2.2 db reachable _ ?_ _ ?_ rfl rfl ((apart.2.1 (by decide) (by decide)).not.2 (by decide))
  · rw [hanswers]
    exact List.mem_cons_self
  · rw [hanswers]
    exact List.mem_cons_of_mem _ List.mem_cons_self

/-! ## Two writes with one key -/

/-- A delete of the object that is updated under the same task id. -/
def deleteAda : MutationCall := ⟨.delete, "hr", "User", "ada", "t1", by decide, by decide, by decide, by decide⟩

def replacedThenDeleted : List DbAction :=
  sent 1 replaceAda "hr:User:ada:t1" ++ [.insertOperation 1 7, .commitEnqueue 1 true] ++
    sent 2 deleteAda "hr:User:ada:t1" ++ [.commitEnqueue 2 true]

def colonInIdentity : MutationCall := ⟨.update, "hr", "User", "a:b", "c", by decide, by decide, by decide, by decide⟩

def colonInOrderingKey : MutationCall := ⟨.update, "hr", "User", "a", "b:c", by decide, by decide, by decide, by decide⟩

def blankInOrderingKey : MutationCall :=
  ⟨.update, "hr", "User", "ada", "t1 ", by decide, by decide, by decide, by decide⟩

/-- The delete is answered with the operation of the update. The two writes with a colon share a key. And two keys that
differ in a blank at the end are one for the store. -/
theorem key_merges_writes :
    (∃ k db, replaceAda.key = .ok k ∧ deleteAda.key = .ok k ∧ replaceAda.opType ≠ deleteAda.opType ∧
      Db.Reachable (fun _ => 0) db ∧
        db.answers = [⟨k, ⟨Uuid.text 7, false⟩⟩, ⟨k, ⟨Uuid.text 7, true⟩⟩]) ∧
      (colonInIdentity.components ≠ colonInOrderingKey.components ∧ colonInIdentity.key = colonInOrderingKey.key) ∧
      replaceAda.key ≠ blankInOrderingKey.key ∧
      ∀ req req', replaceAda.SentIn req → blankInOrderingKey.SentIn req' →
        req.idempotencyKeyOf = req'.idempotencyKeyOf := by
  have h : (exec (Db.step fun _ => 0) anyStep (Db.start 0 [0]) replacedThenDeleted).map Db.answers =
      some [⟨"hr:User:ada:t1", ⟨Uuid.text 7, false⟩⟩, ⟨"hr:User:ada:t1", ⟨Uuid.text 7, true⟩⟩] := by
    decide
  obtain ⟨db, hdb, hanswers⟩ := Option.map_eq_some_iff.1 h
  refine ⟨?_, ⟨by decide, MutationCall.key_eq_iff.2 (by decide)⟩, ?_, fun req req' h h' => ?_⟩
  · exact ⟨_, db, replaceAda.key_eq, deleteAda.key_eq, by decide, ⟨0, [0], runs_of_exec hdb⟩, hanswers⟩
  · exact MutationCall.key_eq_iff.not.2 (by decide)
  · exact (h.eq_iff h').2 (by decide)

end Client

end Provisioning
