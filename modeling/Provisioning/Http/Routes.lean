import Mathlib.Data.List.Sort
import Provisioning.Lib.UrlPath
import Provisioning.Ops.Types

/-!
# The routes of the server

The routing table that `src/http/app.ts` puts together, and how Express reads the path of a request with it:
a parameter is one segment that is not empty, and is percent-decoded.
-/

namespace Provisioning.Http

open Lib Lib.UrlPath

inductive Method where
  | get
  | post
  | put
  | delete
  | head
  | options
  /-- `PATCH` and the rest, which no route is for. -/
  | other (name : String)
  deriving DecidableEq, Repr

def Method.text : Method → String
  | .get => "GET"
  | .post => "POST"
  | .put => "PUT"
  | .delete => "DELETE"
  | .head => "HEAD"
  | .options => "OPTIONS"
  | .other name => name

/-- A segment of the path of a route. -/
inductive Piece where
  | text (t : String)
  | param (name : String)
  deriving DecidableEq, Repr

inductive Handler where
  | healthz
  | readyz
  | enqueueRoute (opType : OperationType) (requiresAttributes : Bool)
  | getObject
  | search
  | getOperation
  deriving DecidableEq, Repr

structure Route where
  method : Method
  path : List Piece
  handler : Handler

/-! ## The table -/

/-- `/instances/:instanceId/objects/:objectClass` -/
def objectsPath : List Piece := [.text "instances", .param "instanceId", .text "objects", .param "objectClass"]

/-- `/instances/:instanceId/objects/:objectClass/:uid` -/
def objectPath : List Piece := objectsPath ++ [.param "uid"]

def createHealthRouter : List Route :=
  [⟨.get, [.text "healthz"], .healthz⟩, ⟨.get, [.text "readyz"], .readyz⟩]

def createObjectsRouter : List Route :=
  [⟨.post, objectsPath, .enqueueRoute .create true⟩,
    ⟨.put, objectPath, .enqueueRoute .update true⟩,
    ⟨.delete, objectPath, .enqueueRoute .delete false⟩,
    ⟨.post, objectPath ++ [.text "add-values"], .enqueueRoute .addValues true⟩,
    ⟨.post, objectPath ++ [.text "remove-values"], .enqueueRoute .removeValues true⟩,
    ⟨.get, objectPath, .getObject⟩,
    ⟨.get, objectsPath, .search⟩]

def createOperationsRouter : List Route := [⟨.get, [.text "operations", .param "operationId"], .getOperation⟩]

def createApp : List Route := createHealthRouter ++ createObjectsRouter ++ createOperationsRouter

/-! ## Routing -/

/-- The parameters of a path that matches, not decoded yet. A slash at the end is allowed, and the case of the
texts does not matter. -/
def exec : List Piece → List (List Char) → Option (List (String × List Char))
  | [], segments => if segments = [] ∨ segments = [[]] then some [] else none
  | .text t :: pieces, segment :: segments =>
    if segment.map Char.toLower = t.toList.map Char.toLower then exec pieces segments else none
  | .param name :: pieces, segment :: segments =>
    if segment = [] then none else (exec pieces segments).map ((name, segment) :: ·)
  | _ :: _, [] => none

/-- `req.params`. A parameter that cannot be decoded fails the request. -/
def decodeParams : List (String × List Char) → Option (List (String × String))
  | [] => some []
  | (name, segment) :: rest =>
    (decodeURIComponent segment).bind fun value => (decodeParams rest).map ((name, String.ofList value) :: ·)

/-- A route for GET serves HEAD as well. -/
def Route.serves (route : Route) (method : Method) : Bool :=
  route.method = method ∨ (method = .head ∧ route.method = .get)

/-- The first route of the method whose path matches. -/
def findRoute (method : Method) (segments : List (List Char)) : Option (Handler × List (String × List Char)) :=
  createApp.findSome? fun route =>
    if route.serves method then (exec route.path segments).map (route.handler, ·) else none

/-- The handler that a request for the path gets to, with `req.params`. -/
def handle (method : Method) (segments : List (List Char)) : Option (Handler × List (String × String)) :=
  (findRoute method segments).bind fun found => (decodeParams found.2).map (found.1, ·)

/-- What a router answers to OPTIONS, when one of its routes has the path. -/
def allowed (router : List Route) (segments : List (List Char)) : Option String :=
  let methods := (router.filter fun route => (exec route.path segments).isSome).flatMap fun route =>
    route.method.text :: if route.method = .get then [Method.head.text] else []
  if methods = [] then none else some (", ".intercalate (methods.dedup.insertionSort (· ≤ ·)))

example : allowed createObjectsRouter (["instances", "hr", "objects", "User", "42"].map String.toList) =
    some "DELETE, GET, HEAD, PUT" := by
  decide +kernel

/-! ## The path of a route -/

/-- The path that a route has for these parameters. -/
def fill : List Piece → List String → List (List Char)
  | .text t :: pieces, values => t.toList :: fill pieces values
  | .param _ :: pieces, value :: values => value.toList :: fill pieces values
  | _, _ => []

def names : List Piece → List String
  | [] => []
  | .text _ :: pieces => names pieces
  | .param name :: pieces => name :: names pieces

/-- The text of the piece is not empty, and is written without escapes. -/
def Piece.Clean : Piece → Prop
  | .text t => t.toList ≠ [] ∧ '%' ∉ (percentEncode inPathSet t.toList).map Char.toLower
  | .param _ => True

instance : DecidablePred Piece.Clean := fun piece =>
  match piece with
  | .text _ => inferInstanceAs (Decidable (_ ∧ _))
  | .param _ => inferInstanceAs (Decidable True)

theorem clean_createApp : ∀ route ∈ createApp, ∀ piece ∈ route.path, piece.Clean := by decide

theorem percentEncode_text {t : String} (clean : (Piece.text t).Clean) :
    percentEncode inPathSet t.toList = t.toList :=
  percentEncode_eq_self fun hmem => clean.2 (List.mem_map_of_mem hmem)

/-- A path with the texts of the one can have those of the other. -/
def overlap : List Piece → List Piece → Bool
  | [], [] => true
  | .text t :: pieces, .text u :: others =>
    t.toList.map Char.toLower = u.toList.map Char.toLower && overlap pieces others
  | _ :: pieces, _ :: others => overlap pieces others
  | _, _ => false

/-- **No two routes of a method overlap**, so their order does not matter. -/
theorem routes_disjoint :
    createApp.Pairwise fun route other => route.method = other.method → overlap route.path other.path = false := by
  decide

theorem serves_iff {route other : Route} (hroute : route ∈ createApp) :
    other.serves route.method ↔ other.method = route.method := by
  have hhead : ∀ route ∈ createApp, route.method ≠ .head := by decide
  simp [Route.serves, hhead route hroute]

theorem findRoute_options (segments : List (List Char)) : findRoute .options segments = none := by
  have hnone : ∀ route ∈ createApp, route.serves .options = false := by decide
  unfold findRoute
  refine List.findSome?_eq_none_iff.2 fun route hroute => ?_
  rw [hnone route hroute]
  rfl

variable {pieces : List Piece} {segments : List (List Char)} {raw : List (String × List Char)}
  {params : List (String × String)}

/-! ## A path that is filled -/

section Filled

variable {others : List Piece} {values : List String}

theorem exec_fill (clean : ∀ piece ∈ pieces, piece.Clean) (hne : ∀ v ∈ values, v.toList ≠ [])
    (hcount : (names pieces).length = values.length) :
    exec pieces ((fill pieces values).map (percentEncode inPathSet)) =
      some ((names pieces).zip (values.map fun v => percentEncode inPathSet v.toList)) := by
  induction pieces generalizing values with
  | nil => simp [fill, exec, names]
  | cons piece pieces ih =>
    have hrest := fun p hp => clean p (List.mem_cons_of_mem piece hp)
    cases piece with
    | text t =>
      rw [fill, List.map_cons, exec, percentEncode_text (clean _ List.mem_cons_self), if_pos rfl]
      exact ih hrest hne hcount
    | param name =>
      cases values with
      | nil => simp [names] at hcount
      | cons value values =>
        rw [fill, List.map_cons, exec, if_neg (percentEncode_ne_nil (hne value List.mem_cons_self)),
          ih hrest (fun v hv => hne v (List.mem_cons_of_mem _ hv)) (by simpa [names] using hcount)]
        rfl

theorem exec_disjoint (clean : ∀ piece ∈ others, piece.Clean) (hne : ∀ v ∈ values, v.toList ≠ [])
    (hcount : (names others).length = values.length) (h : overlap pieces others = false) :
    exec pieces ((fill others values).map (percentEncode inPathSet)) = none := by
  induction pieces generalizing others values with
  | nil =>
    cases others with
    | nil => simp [overlap] at h
    | cons other others =>
      have hsegment : ∃ s segments, fill (other :: others) values = s :: segments ∧ s ≠ [] := by
        cases other with
        | text t => exact ⟨_, _, rfl, (clean _ List.mem_cons_self).1⟩
        | param name =>
          cases values with
          | nil => simp [names] at hcount
          | cons value values => exact ⟨_, _, rfl, hne value List.mem_cons_self⟩
      obtain ⟨s, segments, hfill, hs⟩ := hsegment
      rw [hfill, exec, if_neg]
      simp [percentEncode_ne_nil hs]
  | cons piece pieces ih =>
    cases others with
    | nil => cases piece <;> simp [fill, exec]
    | cons other others =>
      have hrest := fun p hp => clean p (List.mem_cons_of_mem other hp)
      cases other with
      | text t =>
        have htext := percentEncode_text (clean _ List.mem_cons_self)
        cases piece with
        | text u =>
          rw [fill, List.map_cons, exec, htext]
          split
          · rename_i heq
            exact ih hrest hne hcount (by simpa [overlap, heq] using h)
          · rfl
        | param name =>
          rw [fill, List.map_cons, exec, ih hrest hne hcount (by simpa [overlap] using h)]
          simp
      | param name =>
        cases values with
        | nil => simp [names] at hcount
        | cons value values =>
          have hvalues := ih hrest (fun v hv => hne v (List.mem_cons_of_mem _ hv)) (by simpa [names] using hcount)
            (by cases piece <;> simpa [overlap] using h)
          cases piece with
          | text u =>
            rw [fill, List.map_cons, exec, hvalues]
            simp
          | param name' =>
            rw [fill, List.map_cons, exec, hvalues]
            simp

theorem mem_fill {segment : List Char} (h : segment ∈ fill pieces values) :
    (∃ t, .text t ∈ pieces ∧ segment = t.toList) ∨ ∃ v ∈ values, segment = v.toList := by
  induction pieces generalizing values with
  | nil => simp [fill] at h
  | cons piece pieces ih =>
    cases piece with
    | text t =>
      rcases List.mem_cons.1 h with rfl | h
      · exact .inl ⟨t, List.mem_cons_self, rfl⟩
      · exact (ih h).imp_left fun ⟨u, hu, heq⟩ => ⟨u, List.mem_cons_of_mem _ hu, heq⟩
    | param name =>
      cases values with
      | nil => simp [fill] at h
      | cons value values =>
        rcases List.mem_cons.1 h with rfl | h
        · exact .inr ⟨value, List.mem_cons_self, rfl⟩
        · exact (ih h).imp (fun ⟨u, hu, heq⟩ => ⟨u, List.mem_cons_of_mem _ hu, heq⟩)
            fun ⟨v, hv, heq⟩ => ⟨v, List.mem_cons_of_mem _ hv, heq⟩

/-- **A filled path finds its route.** -/
theorem findRoute_fill {route : Route} (hroute : route ∈ createApp) (hne : ∀ v ∈ values, v.toList ≠ [])
    (hcount : (names route.path).length = values.length) :
    findRoute route.method ((fill route.path values).map (percentEncode inPathSet)) =
      some (route.handler, (names route.path).zip (values.map fun v => percentEncode inPathSet v.toList)) := by
  have clean := clean_createApp route hroute
  have disjoint := routes_disjoint
  obtain ⟨before, after, hsplit⟩ := List.append_of_mem hroute
  rw [hsplit] at disjoint
  have hbefore : ∀ other ∈ before, other.method = route.method → overlap other.path route.path = false :=
    fun other hother => (List.pairwise_append.1 disjoint).2.2 other hother route List.mem_cons_self
  unfold findRoute
  rw [hsplit, List.findSome?_append, List.findSome?_eq_none_iff.2, Option.none_or, List.findSome?_cons]
  · rw [if_pos ((serves_iff hroute).2 rfl), exec_fill clean hne hcount]
    rfl
  · intro other hother
    split
    · rename_i hserves
      rw [exec_disjoint clean hne hcount (hbefore other hother ((serves_iff hroute).1 hserves))]
      rfl
    · rfl

theorem decodeParams_zip {keys : List String} (plain : ∀ v ∈ values, PlainSegment v.toList) :
    decodeParams (keys.zip (values.map fun v => percentEncode inPathSet v.toList)) = some (keys.zip values) := by
  induction values generalizing keys with
  | nil => simp [decodeParams]
  | cons value values ih =>
    cases keys with
    | nil => rfl
    | cons key keys =>
      have hdecode : decodeURIComponent (percentEncode inPathSet value.toList) = some value.toList :=
        decodeURIComponent_encode fun c hc heq => absurd heq ((plain value List.mem_cons_self).text c hc).2
      rw [List.map_cons, List.zip_cons_cons, decodeParams, hdecode, Option.bind_some, String.ofList_toList,
        ih fun v hv => plain v (List.mem_cons_of_mem _ hv)]
      rfl

end Filled

/-! ## What a match costs -/

theorem length_of_text {t : String} {segment : List Char} (clean : (Piece.text t).Clean)
    (h : (percentEncode inPathSet segment).map Char.toLower = t.toList.map Char.toLower) :
    segment.length = t.toList.length := by
  have htext := percentEncode_text clean
  have hclean : '%' ∉ percentEncode inPathSet segment := fun hmem => by
    have hlower := @List.mem_map_of_mem _ _ _ _ Char.toLower hmem
    rw [h, ← htext] at hlower
    exact clean.2 hlower
  rw [percentEncode_eq_self hclean] at h
  simpa using congrArg List.length h

/-- **A path that matches is no shorter** than the one that the route has for the parameters, and as short
only when the parameters are segments of it. -/
theorem exec_weight (clean : ∀ piece ∈ pieces, piece.Clean)
    (hexec : exec pieces (segments.map (percentEncode inPathSet)) = some raw)
    (hparams : decodeParams raw = some params) :
    weight (fill pieces (params.map Prod.snd)) ≤ weight segments ∧
      (weight segments ≤ weight (fill pieces (params.map Prod.snd)) →
        ∀ p ∈ params, p.2.toList ∈ segments ∧ '%' ∉ p.2.toList) := by
  induction pieces generalizing segments raw params with
  | nil =>
    have hraw : raw = [] := by
      unfold exec at hexec
      split at hexec
      · exact (Option.some.inj hexec).symm
      · simp at hexec
    subst hraw
    obtain rfl : [] = params := Option.some.inj hparams
    simp [fill]
  | cons piece pieces ih =>
    have hrest := fun p hp => clean p (List.mem_cons_of_mem piece hp)
    cases segments with
    | nil => cases piece <;> simp [exec] at hexec
    | cons segment segments =>
      cases piece with
      | text t =>
        rw [List.map_cons, exec] at hexec
        split at hexec
        · rename_i htext
          have hlength := length_of_text (clean _ List.mem_cons_self) htext
          obtain ⟨hle, hmem⟩ := ih hrest hexec hparams
          rw [fill, weight_cons, weight_cons]
          refine ⟨by omega, fun hge p hp => ?_⟩
          obtain ⟨hp, hpercent⟩ := hmem (by omega) p hp
          exact ⟨List.mem_cons_of_mem _ hp, hpercent⟩
        · simp at hexec
      | param name =>
        rw [List.map_cons, exec] at hexec
        split at hexec
        · simp at hexec
        · obtain ⟨raw', hexec', rfl⟩ := Option.map_eq_some_iff.1 hexec
          rw [decodeParams] at hparams
          obtain ⟨value, hvalue, hparams⟩ := Option.bind_eq_some_iff.1 hparams
          obtain ⟨params', hparams', rfl⟩ := Option.map_eq_some_iff.1 hparams
          have hcost := decodeURIComponent_length (by decide) hvalue
          obtain ⟨hle, hmem⟩ := ih hrest hexec' hparams'
          rw [List.map_cons, fill, weight_cons, weight_cons, String.toList_ofList]
          refine ⟨by omega, fun hge => ?_⟩
          have hnone : '%' ∉ segment := List.count_eq_zero.1 (by omega)
          have hsame : value = segment := by
            have hdecode := @decodeURIComponent_encode inPathSet segment fun c hc heq => absurd (heq ▸ hc) hnone
            rw [hvalue] at hdecode
            exact Option.some.inj hdecode
          refine List.forall_mem_cons.2 ⟨?_, fun p hp => ?_⟩
          · rw [String.toList_ofList, hsame]
            exact ⟨List.mem_cons_self, hnone⟩
          · obtain ⟨hp, hpercent⟩ := hmem (by omega) p hp
            exact ⟨List.mem_cons_of_mem _ hp, hpercent⟩

/-- **A path that brings its own parameters** was written without anything that URLs read in another way. -/
theorem plain_of_exec {query : List Char} (hquery : IsQuery query) (clean : ∀ piece ∈ pieces, piece.Clean)
    (hexec : exec pieces (parsePath (render (fill pieces (params.map Prod.snd)) ++ query)) = some raw)
    (hparams : decodeParams raw = some params) :
    Readable (render (fill pieces (params.map Prod.snd))) query ∧ ∀ p ∈ params, PlainSegment p.2.toList := by
  obtain ⟨kept, hkept, hle, heq⟩ := @parsePath_kept (render (fill pieces (params.map Prod.snd))) query hquery
  rw [hkept] at hexec
  rw [length_render] at hle heq
  obtain ⟨hweight, hmem⟩ := exec_weight clean hexec hparams
  obtain ⟨readable, hplain⟩ := heq hweight
  refine ⟨readable, fun p hp => ?_⟩
  obtain ⟨hkeptp, hpercent⟩ := hmem hle p hp
  obtain ⟨hslash, hdots⟩ := hplain _ hkeptp
  rw [isDots_encode hpercent] at hdots
  exact ⟨fun c hc => ⟨hslash c hc, fun heq => hpercent (heq ▸ hc)⟩, not_or.1 hdots⟩

end Provisioning.Http
