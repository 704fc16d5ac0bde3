import Provisioning.Http.Routes

/-!
# The paths of the client

`clients/node/src/objects.js` writes the components of a path into it as they are. A request reaches its own
route with its own parameters exactly when the URL reads every component as it is written.
-/

namespace Provisioning.Client

open Lib Lib.UrlPath Http

/-! ## The requests -/

/-- The method and the URL of a request, without the origin. -/
structure Request where
  method : Method
  path : String

def createObject (instanceId objectClass : String) : Request :=
  ⟨.post, s!"/instances/{instanceId}/objects/{objectClass}"⟩

def replaceObject (instanceId objectClass uid : String) : Request :=
  ⟨.put, s!"/instances/{instanceId}/objects/{objectClass}/{uid}"⟩

def deleteObject (instanceId objectClass uid : String) : Request :=
  ⟨.delete, s!"/instances/{instanceId}/objects/{objectClass}/{uid}"⟩

def addValues (instanceId objectClass uid : String) : Request :=
  ⟨.post, s!"/instances/{instanceId}/objects/{objectClass}/{uid}/add-values"⟩

def removeValues (instanceId objectClass uid : String) : Request :=
  ⟨.post, s!"/instances/{instanceId}/objects/{objectClass}/{uid}/remove-values"⟩

def getObject (instanceId objectClass uid : String) : Request :=
  ⟨.get, s!"/instances/{instanceId}/objects/{objectClass}/{uid}"⟩

/-- The filter is encoded, and an empty one is left out. -/
def filterQuery : Option String → String
  | none => ""
  | some filter => if filter = "" then "" else "?filter=" ++ String.ofList (encodeURIComponent filter.toList)

def search (instanceId objectClass : String) (filter : Option String) : Request :=
  ⟨.get, s!"/instances/{instanceId}/objects/{objectClass}{filterQuery filter}"⟩

/-- A call of one of the client's methods. -/
inductive Call where
  | createObject (instanceId objectClass : String)
  | replaceObject (instanceId objectClass uid : String)
  | deleteObject (instanceId objectClass uid : String)
  | addValues (instanceId objectClass uid : String)
  | removeValues (instanceId objectClass uid : String)
  | getObject (instanceId objectClass uid : String)
  | search (instanceId objectClass : String) (filter : Option String)

namespace Call

def request : Call → Request
  | createObject instanceId objectClass => Client.createObject instanceId objectClass
  | replaceObject instanceId objectClass uid => Client.replaceObject instanceId objectClass uid
  | deleteObject instanceId objectClass uid => Client.deleteObject instanceId objectClass uid
  | addValues instanceId objectClass uid => Client.addValues instanceId objectClass uid
  | removeValues instanceId objectClass uid => Client.removeValues instanceId objectClass uid
  | getObject instanceId objectClass uid => Client.getObject instanceId objectClass uid
  | search instanceId objectClass filter => Client.search instanceId objectClass filter

/-- The handler that the method is for. -/
def handler : Call → Handler
  | createObject .. => .enqueueRoute .create true
  | replaceObject .. => .enqueueRoute .update true
  | deleteObject .. => .enqueueRoute .delete false
  | addValues .. => .enqueueRoute .addValues true
  | removeValues .. => .enqueueRoute .removeValues true
  | getObject .. => .getObject
  | search .. => .search

/-- The components, under the names that the server has for them. -/
def params : Call → List (String × String)
  | createObject instanceId objectClass | search instanceId objectClass _ =>
    [("instanceId", instanceId), ("objectClass", objectClass)]
  | replaceObject instanceId objectClass uid | deleteObject instanceId objectClass uid
  | addValues instanceId objectClass uid | removeValues instanceId objectClass uid
  | getObject instanceId objectClass uid =>
    [("instanceId", instanceId), ("objectClass", objectClass), ("uid", uid)]

def components (c : Call) : List String := c.params.map Prod.snd

/-- The component that the URL ends with. -/
def lastComponent : Call → Option String
  | createObject _ objectClass => some objectClass
  | replaceObject _ _ uid | deleteObject _ _ uid | getObject _ _ uid => some uid
  | addValues .. | removeValues .. => none
  | search _ objectClass filter => if filterQuery filter = "" then some objectClass else none

/-- What the server makes of the request that the call sends. -/
def routed (c : Call) : Option (Handler × List (String × String)) :=
  handle c.request.method (parsePath c.request.path.toList)

/-- The components are read in a URL as they are written. -/
structure Plain (c : Call) : Prop where
  text : ∀ x ∈ c.components, ∀ ch ∈ x.toList, ch ∉ ['/', '\\', '?', '#', '%', '\t', '\n', '\r']
  dots : ∀ x ∈ c.components, x ≠ "." ∧ x ≠ ".."
  last : ∀ x ∈ c.lastComponent, ∀ ch ∈ x.toList.getLast?, ¬ isC0OrSpace ch

/-! ## The path of a request -/

/-- The path of the route that the method is for. -/
def piecesOf : Call → List Piece
  | createObject .. | search .. => objectsPath
  | replaceObject .. | deleteObject .. | getObject .. => objectPath
  | addValues .. => objectPath ++ [.text "add-values"]
  | removeValues .. => objectPath ++ [.text "remove-values"]

def segments (c : Call) : List (List Char) := fill c.piecesOf c.components

def query : Call → List Char
  | search _ _ filter => (filterQuery filter).toList
  | _ => []

theorem isQuery_filterQuery (filter : Option String) : IsQuery (filterQuery filter).toList := by
  rcases filter with _ | filter
  · exact .inl rfl
  · rw [filterQuery]
    split
    · exact .inl rfl
    · rw [String.toList_append]
      exact .inr ⟨_, rfl⟩

theorem isQuery (c : Call) : IsQuery c.query := by
  cases c with
  | search instanceId objectClass filter => exact isQuery_filterQuery filter
  | _ => exact .inl rfl

theorem path_toList (c : Call) : c.request.path.toList = render c.segments ++ c.query := by
  cases c <;>
    simp [request, Client.createObject, Client.replaceObject, Client.deleteObject, Client.addValues,
      Client.removeValues, Client.getObject, Client.search, segments, piecesOf, components, params, fill, query, render,
      objectPath, objectsPath, toString]

/-! ## A request that reaches its own route -/

/-- The route that the method is for. -/
def own (c : Call) : Route := ⟨c.request.method, c.piecesOf, c.handler⟩

theorem own_mem (c : Call) : c.own ∈ createApp := by
  unfold createApp createObjectsRouter
  cases c <;> simp [own, request, piecesOf, handler, Client.createObject, Client.replaceObject, Client.deleteObject,
    Client.addValues, Client.removeValues, Client.getObject, Client.search]

theorem eq_own {c : Call} {route : Route} (hroute : route ∈ createApp) (h : route.handler = c.handler) :
    route.path = c.piecesOf := by
  simp only [createApp, createHealthRouter, createObjectsRouter, createOperationsRouter, List.mem_append,
    List.mem_cons, List.not_mem_nil, or_false] at hroute
  rcases hroute with ((rfl | rfl) | rfl | rfl | rfl | rfl | rfl | rfl | rfl) | rfl <;> cases c <;>
    simp [handler] at h <;> rfl

theorem exec_of_findRoute {c : Call} {segments : List (List Char)} {raw : List (String × List Char)}
    (h : findRoute c.request.method segments = some (c.handler, raw)) : exec c.piecesOf segments = some raw := by
  unfold findRoute at h
  obtain ⟨route, hroute, h⟩ := List.exists_of_findSome?_eq_some h
  split at h
  · obtain ⟨raw', hraw, heq⟩ := Option.map_eq_some_iff.1 h
    obtain ⟨hhandler, rfl⟩ := Prod.mk.inj heq
    rw [← eq_own hroute hhandler]
    exact hraw
  · simp at h

theorem params_eq_zip (c : Call) : c.params = (names c.piecesOf).zip c.components := by
  cases c <;> rfl

theorem names_length (c : Call) : (names c.piecesOf).length = c.components.length := by
  cases c <;> rfl

/-! ## The texts of the routes -/

/-- The text is read in a URL as it is written. -/
structure Written (text : List Char) : Prop where
  chars : ∀ ch ∈ text, ch ∉ ['/', '\\', '?', '#', '%', '\t', '\n', '\r']
  dots : text ≠ ['.'] ∧ text ≠ ['.', '.']

instance : DecidablePred Written := fun text =>
  decidable_of_iff ((text.all fun ch => ch ∉ ['/', '\\', '?', '#', '%', '\t', '\n', '\r']) ∧
      text ≠ ['.'] ∧ text ≠ ['.', '.'])
    ⟨fun h => ⟨fun ch hch => of_decide_eq_true (List.all_eq_true.1 h.1 ch hch), h.2⟩,
      fun h => ⟨List.all_eq_true.2 fun ch hch => decide_eq_true (h.chars ch hch), h.dots⟩⟩

theorem written_text (c : Call) {t : String} (h : .text t ∈ c.piecesOf) : Written t.toList := by
  have htexts : t ∈ ["instances", "objects", "add-values", "remove-values"] := by
    cases c <;> simp [piecesOf, objectPath, objectsPath] at h <;> simp <;> tauto
  have hall : ∀ t ∈ ["instances", "objects", "add-values", "remove-values"], Written t.toList := by decide
  exact hall t htexts

theorem lastComponent_getLast? {c : Call} {x : String} (h : c.lastComponent = some x) :
    c.query = [] ∧ c.segments.getLast? = some x.toList := by
  cases c <;> simp_all [lastComponent, query, segments, piecesOf, objectPath, objectsPath, fill, components, params]

theorem lastComponent_mem {c : Call} {x : String} (h : c.lastComponent = some x) : x ∈ c.components := by
  cases c <;> simp_all [lastComponent, components, params]

theorem endsVisibly_of_all {t : List Char} (h : t.getLast?.all fun ch => ¬ isC0OrSpace ch) :
    ∀ ch ∈ t.getLast?, ¬ isC0OrSpace ch := by
  intro ch hch
  rw [Option.mem_def.1 hch] at h
  exact of_decide_eq_true h

theorem last_of_text {c : Call} (h : c.lastComponent = none) (hquery : c.query = []) :
    ∃ t, c.segments.getLast? = some t ∧ t ≠ [] ∧ ∀ ch ∈ t.getLast?, ¬ isC0OrSpace ch := by
  cases c with
  | addValues instanceId objectClass uid =>
    exact ⟨"add-values".toList, rfl, by decide, endsVisibly_of_all (by decide)⟩
  | removeValues instanceId objectClass uid =>
    exact ⟨"remove-values".toList, rfl, by decide, endsVisibly_of_all (by decide)⟩
  | search instanceId objectClass filter =>
    have hnil : filterQuery filter = "" := by simpa [query] using hquery
    simp [lastComponent, hnil] at h
  | _ => simp [lastComponent] at h

theorem Written.plainSegment {text : List Char} (h : Written text) : PlainSegment text := by
  refine ⟨fun c hc => ?_, h.dots⟩
  have hmem := h.chars c hc
  simp only [List.mem_cons, not_or] at hmem
  refine ⟨?_, hmem.2.2.2.2.1⟩
  simp only [isSlash, List.mem_cons, List.not_mem_nil, or_false, decide_eq_true_eq]
  tauto

theorem Plain.written {c : Call} (h : c.Plain) : ∀ s ∈ c.segments, Written s := by
  intro s hs
  rcases mem_fill hs with ⟨t, ht, rfl⟩ | ⟨v, hv, rfl⟩
  · exact written_text c ht
  · refine ⟨h.text v hv, fun heq => (h.dots v hv).1 ?_, fun heq => (h.dots v hv).2 ?_⟩
    · exact String.toList_injective heq
    · exact String.toList_injective heq

theorem Plain.of_written {c : Call} (h : ∀ x ∈ c.components, Written x.toList)
    (hlast : ∀ x ∈ c.lastComponent, x.toList.getLast?.all fun ch => ¬ isC0OrSpace ch) : c.Plain where
  text x hx := (h x hx).chars
  dots x hx := ⟨fun heq => (h x hx).dots.1 (by rw [heq]; rfl), fun heq => (h x hx).dots.2 (by rw [heq]; rfl)⟩
  last x hx := endsVisibly_of_all (hlast x hx)

theorem component_mem_segments {c : Call} {x : String} (h : x ∈ c.components) : x.toList ∈ c.segments := by
  cases c <;> simp_all [components, params, segments, piecesOf, objectPath, objectsPath, fill] <;> tauto

theorem Plain.written_component {c : Call} (h : c.Plain) {x : String} (hx : x ∈ c.components) : Written x.toList :=
  h.written _ (component_mem_segments hx)

theorem Plain.readable {c : Call} (h : c.Plain) (hne : ∀ x ∈ c.components, x ≠ "") :
    Readable (render c.segments) c.query := by
  constructor
  · refine (forall_mem_render (by decide)).2 fun s hs ch hch => ?_
    have hmem := (h.written s hs).chars ch hch
    simp only [List.mem_cons, not_or] at hmem
    simp only [isTabOrNewline, endsPath, List.mem_cons, List.not_mem_nil, or_false, decide_eq_true_eq]
    tauto
  · intro hquery
    cases hlast : c.lastComponent with
    | some x =>
      obtain ⟨-, hsegment⟩ := lastComponent_getLast? hlast
      have hx : x.toList ≠ [] := fun hnil => hne x (lastComponent_mem hlast) (String.toList_eq_nil_iff.1 hnil)
      rw [getLast?_render hsegment hx]
      exact h.last x hlast
    | none =>
      obtain ⟨t, ht, hne, hspace⟩ := last_of_text hlast hquery
      rwa [getLast?_render ht hne]

/-- What reaches its own route with its own parameters is plain. -/
theorem Plain.of_readable {c : Call} (hne : ∀ x ∈ c.components, x ≠ "")
    (readable : Readable (render c.segments) c.query) (hplain : ∀ x ∈ c.components, PlainSegment x.toList) :
    c.Plain := by
  refine ⟨fun x hx ch hch => ?_, fun x hx => ⟨?_, ?_⟩, fun x hx ch hch => ?_⟩
  · obtain ⟨hslash, hpercent⟩ := (hplain x hx).text ch hch
    obtain ⟨htab, hends⟩ := (forall_mem_render (by decide)).1 readable.kept _ (component_mem_segments hx) ch hch
    simp only [isTabOrNewline, endsPath, isSlash, List.mem_cons, List.not_mem_nil, or_false,
      decide_eq_true_eq] at htab hends hslash
    simp only [List.mem_cons, List.not_mem_nil, or_false]
    tauto
  · rintro rfl
    exact (hplain _ hx).dots.1 rfl
  · rintro rfl
    exact (hplain _ hx).dots.2 rfl
  · obtain ⟨hquery, hsegment⟩ := lastComponent_getLast? hx
    have hxne : x.toList ≠ [] := fun hnil => hne x (lastComponent_mem hx) (String.toList_eq_nil_iff.1 hnil)
    have htrimmed := readable.trimmed hquery
    rw [getLast?_render hsegment hxne] at htrimmed
    exact htrimmed ch hch

/-- **A call reaches its own route with its own parameters** exactly when the URL reads its components as they
are written. -/
theorem routed_iff (c : Call) (hne : ∀ x ∈ c.components, x ≠ "") :
    c.routed = some (c.handler, c.params) ↔ c.Plain := by
  have hpath := c.path_toList
  constructor
  · intro h
    obtain ⟨found, hfound, hparams⟩ := Option.bind_eq_some_iff.1 h
    obtain ⟨params, hdecode, heq⟩ := Option.map_eq_some_iff.1 hparams
    obtain ⟨hhandler, rfl⟩ := Prod.mk.inj heq
    have hexec : exec c.piecesOf (parsePath c.request.path.toList) = some found.2 := by
      refine exec_of_findRoute ?_
      rw [hfound, ← hhandler]
    rw [hpath] at hexec
    obtain ⟨readable, hplain⟩ := plain_of_exec c.isQuery (clean_createApp c.own c.own_mem) hexec hdecode
    exact .of_readable hne readable fun x hx => by
      obtain ⟨p, hp, rfl⟩ := List.mem_map.1 hx
      exact hplain p hp
  · intro h
    have hparse : parsePath c.request.path.toList = c.segments.map (percentEncode inPathSet) := by
      rw [hpath]
      exact parsePath_render c.isQuery (h.readable hne) fun s hs => (h.written s hs).plainSegment
    have hvalues : ∀ v ∈ c.components, v.toList ≠ [] := fun v hv hnil => hne v hv (String.toList_eq_nil_iff.1 hnil)
    have hfind : findRoute c.request.method (c.segments.map (percentEncode inPathSet)) = _ :=
      findRoute_fill c.own_mem hvalues c.names_length
    have hdecode : decodeParams _ = some ((names c.piecesOf).zip c.components) :=
      decodeParams_zip fun v hv => (h.written_component hv).plainSegment
    unfold routed handle
    rw [hparse, hfind, Option.bind_some, params_eq_zip]
    exact congrArg (Option.map _) hdecode

theorem routed_email :
    (getObject "hr" "User" "ada.lovelace+1@example.org").routed =
      some (.getObject, [("instanceId", "hr"), ("objectClass", "User"), ("uid", "ada.lovelace+1@example.org")]) :=
  (routed_iff (getObject "hr" "User" "ada.lovelace+1@example.org") (by decide)).2
    (.of_written (by decide +kernel) (by decide +kernel))

/-- A delete that is asked for one object reaches another one. -/
theorem delete_reaches_other :
    (deleteObject "hr" "User" "ada/../bob").routed =
        some (.enqueueRoute .delete false, [("instanceId", "hr"), ("objectClass", "User"), ("uid", "bob")]) ∧
      ¬ ∀ c : Call, (∀ x ∈ c.components, x ≠ "") → c.routed = some (c.handler, c.params) := by
  have hother : (deleteObject "hr" "User" "ada/../bob").routed =
      some (.enqueueRoute .delete false, [("instanceId", "hr"), ("objectClass", "User"), ("uid", "bob")]) := by
    decide +kernel
  refine ⟨hother, fun h => ?_⟩
  have hown := h (deleteObject "hr" "User" "ada/../bob") (by decide)
  rw [hother] at hown
  exact absurd hown (by decide)

end Call

end Provisioning.Client
