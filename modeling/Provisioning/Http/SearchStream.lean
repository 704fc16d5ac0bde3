import Provisioning.Client.Search
import Provisioning.Lib.Transition

/-!
# A search and its client

The search route of `src/http/objectsRoutes.ts` hands the facade a handler that writes to the response. A call
of the handler waits for nothing but `drain`. That the client is gone, or that the response has ended, it reads
only when it runs.
-/

namespace Provisioning.Http

open Lib

/-! ## The route -/

/-- What the search route asks once it has its lease. -/
inductive SearchIo where
  | search
  | headersSent
  | endResponse
  | next
  | release

/-- `search` returns or throws. -/
def SearchIo.Answer : SearchIo → Type
  | .search => Except Unit Unit
  | .headersSent => Bool
  | .endResponse | .next | .release => Unit

def SearchSignature : Signature := ⟨SearchIo, SearchIo.Answer⟩

def asks (e : SearchIo) : Async SearchSignature Unit e.Answer := @Async.ask SearchSignature Unit e

/-- `try { await search; res.end() } catch { .. } finally { lease.release() }` -/
def searchRoute : Async SearchSignature Unit Unit :=
  Async.andFinally
    (Async.catching
      (do
        @Async.call SearchSignature Unit Unit SearchIo.search fun r => r
        asks .endResponse)
      fun _ => do
        let sent : Bool ← asks .headersSent
        if sent then asks .endResponse else asks .next)
    (asks .release)

namespace SearchStream

/-! ## The state -/

/-- The response and its connection. -/
structure Response where
  clientGone : Bool
  writableEnded : Bool
  headersSent : Bool

/-- `woken` is after `drain` and before the `await` goes on. -/
inductive Call where
  | waiting (rest : Prog Sink Bool)
  | woken (rest : Prog Sink Bool)
  | resolved (goOn : Bool)

structure State where
  res : Response
  /-- Every call of the handler so far. -/
  calls : List Call
  /-- What is left of the route. -/
  route : Prog SearchSignature (Except Unit Unit)
  leaseHeld : Bool

def start : State := ⟨⟨false, false, false⟩, [], searchRoute.run, true⟩

inductive Event where
  /-- `ok` is what `write()` returns, if the call writes. -/
  | offer (obj : Json) (ok : Bool)
  | drain
  | resume (call : Nat)
  | endResponse
  | close
  /-- `search` returns or throws. The facade has a deadline for it, so this may be at any time. -/
  | settle (result : Except Unit Unit)

/-! ## The steps -/

/-- The handler runs until it waits for `drain`. -/
def Response.runs (ok : Bool) (res : Response) : Prog Sink Bool → Response × Call
  | .pure goOn => (res, .resolved goOn)
  | .await .isClientGone k => res.runs ok (k res.clientGone)
  | .await .writableEnded k => res.runs ok (k res.writableEnded)
  | .await (.write _) k => Response.runs ok { res with headersSent := true } (k ok)
  | .await .drain k => (res, .waiting (k ()))

def Response.ended (res : Response) : Response := { res with writableEnded := true, headersSent := true }

/-- The route runs until it awaits a search. The error handler behind `next` answers the request. -/
def State.proceeds (s : State) : Prog SearchSignature (Except Unit Unit) → State
  | .pure r => { s with route := .pure r }
  | .await .search k => { s with route := .await .search k }
  | .await .headersSent k => s.proceeds (k s.res.headersSent)
  | .await .endResponse k => State.proceeds { s with res := s.res.ended } (k ())
  | .await .next k => State.proceeds { s with res := s.res.ended } (k ())
  | .await .release k => State.proceeds { s with leaseHeld := false } (k ())

/-- A client that is gone drains nothing. `drainsAfterEnd`: the buffer may drain after the response has ended. -/
def State.canDrain (drainsAfterEnd : Bool) (s : State) : Bool :=
  !s.res.clientGone && (drainsAfterEnd || !s.res.writableEnded)

def Call.wake : Call → Call
  | .waiting rest => .woken rest
  | c => c

def step (drainsAfterEnd : Bool) (s : State) : Event → Option State
  | .offer obj ok =>
    let (res, call) := s.res.runs ok (makeNdjsonHandler obj)
    some { s with res, calls := s.calls ++ [call] }
  | .drain => if s.canDrain drainsAfterEnd then some { s with calls := s.calls.map Call.wake } else none
  | .resume call =>
    match s.calls[call]? with
    | some (.woken rest) =>
      -- nothing is written after the wait, so it does not matter what `write()` would return
      let (res, c) := s.res.runs true rest
      some { s with res, calls := s.calls.set call c }
    | _ => none
  | .endResponse => some { s with res := s.res.ended }
  | .close => some { s with res := { s.res with clientGone := true } }
  | .settle result =>
    match s.route with
    | .await .search k => some (s.proceeds (k result))
    | _ => none

/-! ## What is asked of a state -/

/-- The client is gone, or the response has ended. -/
def Response.Departed (res : Response) : Prop := res.clientGone = true ∨ res.writableEnded = true

instance (res : Response) : Decidable res.Departed := inferInstanceAs (Decidable (_ ∨ _))

def Call.IsResolved : Call → Prop
  | .resolved _ => True
  | .waiting _ | .woken _ => False

def Call.IsWaiting : Call → Prop
  | .waiting _ => True
  | .woken _ | .resolved _ => False

/-- The call has been made and has not been resolved. -/
def State.Pending (s : State) (i : Nat) : Prop := ∃ c, s.calls[i]? = some c ∧ ¬ c.IsResolved

/-- Nothing drains after the event. -/
def Event.endsDrains (drainsAfterEnd : Bool) : Event → Prop
  | .close => True
  | .endResponse | .settle _ => drainsAfterEnd = false
  | .offer .. | .drain | .resume _ => False

/-- No call waits for `drain` when the drains end. -/
def undisturbed (drainsAfterEnd : Bool) (s : State) (e : Event) (_ : State) : Prop :=
  e.endsDrains drainsAfterEnd → ∀ c ∈ s.calls, ¬ c.IsWaiting

/-- `return !isClientGone() && !sink.writableEnded` -/
def lastLook : Prog Sink Bool :=
  (onSink .isClientGone).bind fun (gone : Bool) =>
    if gone then .pure false else (onSink .writableEnded).bind fun (ended : Bool) => .pure (!ended)

theorem runs_lastLook (ok : Bool) (res : Response) :
    res.runs ok lastLook = (res, .resolved (!decide res.Departed)) := by
  obtain ⟨gone, ended, sent⟩ := res
  cases gone <;> cases ended <;> rfl

theorem runs_handler (ok : Bool) (res : Response) (obj : Json) :
    res.runs ok (makeNdjsonHandler obj) =
      if res.Departed then (res, .resolved false)
      else ({ res with headersSent := true }, if ok then .resolved true else .waiting lastLook) := by
  obtain ⟨gone, ended, sent⟩ := res
  cases gone <;> cases ended <;> cases ok <;> rfl

/-! ## The invariant of every run -/

/-- A call has nothing left but the last line of the handler. -/
def Call.AtLastLook : Call → Prop
  | .waiting rest | .woken rest => rest = lastLook
  | .resolved _ => True

/-- Either the route awaits its search, or it is over and has no lease. -/
structure State.Sound (s : State) : Prop where
  calls : ∀ c ∈ s.calls, c.AtLastLook
  route : s.route = searchRoute.run ∨ (∃ r, s.route = .pure r) ∧ s.leaseHeld = false

theorem Call.AtLastLook.wake {c : Call} (h : c.AtLastLook) : c.wake.AtLastLook := by
  cases c <;> exact h

/-- However the search settles, the response ends and the lease is released. -/
theorem settle_search (d : Bool) {s : State} (h : s.route = searchRoute.run) (result : Except Unit Unit) :
    step d s (.settle result) =
      some { s with res := s.res.ended, route := .pure (.ok ()), leaseHeld := false } := by
  obtain ⟨⟨gone, ended, sent⟩, calls, route, held⟩ := s
  subst h
  cases result with
  | ok _ => rfl
  | error _ => cases sent <;> rfl

theorem settle_over (d : Bool) {s : State} {r : Except Unit Unit} (h : s.route = .pure r)
    (result : Except Unit Unit) : step d s (.settle result) = none := by
  simp only [step, h]

/-- What a step does to a sound state. -/
inductive Moves (d : Bool) (s : State) : Event → State → Prop
  | refused (obj : Json) (ok : Bool) (departed : s.res.Departed) :
      Moves d s (.offer obj ok) { s with calls := s.calls ++ [.resolved false] }
  | written (obj : Json) (ok : Bool) (present : ¬ s.res.Departed) :
      Moves d s (.offer obj ok)
        { s with
          res := { s.res with headersSent := true }
          calls := s.calls ++ [if ok then .resolved true else .waiting lastLook] }
  | drained (can : s.canDrain d = true) : Moves d s .drain { s with calls := s.calls.map Call.wake }
  | resumed (i : Nat) (woken : s.calls[i]? = some (.woken lastLook)) :
      Moves d s (.resume i) { s with calls := s.calls.set i (.resolved (!decide s.res.Departed)) }
  | ended : Moves d s .endResponse { s with res := s.res.ended }
  | closed : Moves d s .close { s with res := { s.res with clientGone := true } }
  | settled (result : Except Unit Unit) (searching : s.route = searchRoute.run) :
      Moves d s (.settle result) { s with res := s.res.ended, route := .pure (.ok ()), leaseHeld := false }

theorem step_moves {d : Bool} {s s' : State} {e : Event} (sound : s.Sound) (taken : step d s e = some s') :
    Moves d s e s' := by
  cases e with
  | offer obj ok =>
    simp only [step, runs_handler] at taken
    split at taken
    · rename_i departed
      cases taken
      exact .refused obj ok departed
    · rename_i present
      cases taken
      exact .written obj ok present
  | drain =>
    simp only [step] at taken
    split at taken
    · rename_i can
      cases taken
      exact .drained can
    · cases taken
  | resume i =>
    simp only [step] at taken
    split at taken
    · rename_i rest woken
      obtain rfl : rest = lastLook := sound.calls _ (List.mem_of_getElem? woken)
      rw [runs_lastLook] at taken
      cases taken
      exact .resumed i woken
    · cases taken
  | endResponse =>
    cases taken
    exact .ended
  | close =>
    cases taken
    exact .closed
  | settle result =>
    rcases sound.route with searching | ⟨⟨r, returned⟩, -⟩
    · rw [settle_search d searching] at taken
      cases taken
      exact .settled result searching
    · rw [settle_over d returned] at taken
      cases taken

theorem Moves.sound {d : Bool} {s s' : State} {e : Event} (moves : Moves d s e s') (sound : s.Sound) :
    s'.Sound := by
  obtain ⟨calls, route⟩ := sound
  cases moves with
  | refused obj ok _ =>
    refine ⟨?_, route⟩
    simp only [List.mem_append, List.mem_singleton]
    rintro c (hc | rfl)
    · exact calls c hc
    · trivial
  | written obj ok _ =>
    refine ⟨?_, route⟩
    simp only [List.mem_append, List.mem_singleton]
    rintro c (hc | rfl)
    · exact calls c hc
    · cases ok
      · rfl
      · trivial
  | drained _ =>
    refine ⟨?_, route⟩
    intro c hc
    obtain ⟨c₀, hc₀, rfl⟩ := List.mem_map.mp hc
    exact (calls c₀ hc₀).wake
  | resumed i _ =>
    refine ⟨?_, route⟩
    intro c hc
    rcases List.mem_or_eq_of_mem_set hc with hc | rfl
    · exact calls c hc
    · trivial
  | ended => exact ⟨calls, route⟩
  | closed => exact ⟨calls, route⟩
  | settled result _ => exact ⟨calls, .inr ⟨⟨_, rfl⟩, rfl⟩⟩

theorem Moves.departed {d : Bool} {s s' : State} {e : Event} (moves : Moves d s e s') (h : s.res.Departed) :
    s'.res.Departed := by
  cases moves with
  | closed => exact .inl rfl
  | ended | settled _ _ => exact .inr rfl
  | refused | written | drained | resumed => exact h

theorem canDrain_of_present (d : Bool) {s : State} (h : ¬ s.res.Departed) : s.canDrain d = true := by
  simp only [Response.Departed, not_or, Bool.not_eq_true] at h
  simp [State.canDrain, h.1, h.2]

theorem Moves.canDrain {d : Bool} {s s' : State} {e : Event} (moves : Moves d s e s') :
    s'.canDrain d = true ↔ s.canDrain d = true ∧ ¬ e.endsDrains d := by
  cases moves with
  | closed => simp [State.canDrain, Event.endsDrains]
  | ended | settled _ _ => cases d <;> simp [State.canDrain, Event.endsDrains, Response.ended]
  | refused | written | drained | resumed => simp [State.canDrain, Event.endsDrains]

theorem Moves.endsDrains {d : Bool} {s s' : State} {e : Event} (moves : Moves d s e s') (h : e.endsDrains d) :
    s'.res.Departed ∧ s'.calls = s.calls := by
  cases moves with
  | closed => exact ⟨.inl rfl, rfl⟩
  | ended | settled _ _ => exact ⟨.inr rfl, rfl⟩
  | refused | written | drained | resumed => exact h.elim

theorem Moves.waits {d : Bool} {s s' : State} {e : Event} (moves : Moves d s e s') (h : s.canDrain d = false)
    {i : Nat} {rest : Prog Sink Bool} (hi : s.calls[i]? = some (.waiting rest)) :
    s'.calls[i]? = some (.waiting rest) := by
  cases moves with
  | drained can => simp [h] at can
  | resumed j woken =>
    have hne : j ≠ i := by
      rintro rfl
      rw [hi] at woken
      cases woken
    rw [List.getElem?_set_ne hne]
    exact hi
  | refused | written =>
    rw [List.getElem?_append_left (List.getElem?_eq_some_iff.mp hi).1]
    exact hi
  | ended | closed | settled _ _ => exact hi

/-- A call that waits can still be woken. -/
def State.Live (d : Bool) (s : State) : Prop := ∀ c ∈ s.calls, c.IsWaiting → s.canDrain d = true

theorem Moves.live {d : Bool} {s s' : State} {e : Event} (moves : Moves d s e s')
    (good : undisturbed d s e s') (live : s.Live d) : s'.Live d := by
  intro c hc waiting
  by_cases ends : e.endsDrains d
  · rw [(moves.endsDrains ends).2] at hc
    exact absurd waiting (good ends c hc)
  rw [moves.canDrain]
  refine ⟨?_, ends⟩
  cases moves with
  | refused obj ok _ =>
    simp only [List.mem_append, List.mem_singleton] at hc
    rcases hc with hc | rfl
    · exact live c hc waiting
    · exact waiting.elim
  | written obj ok present => exact canDrain_of_present d present
  | drained can => exact can
  | resumed i _ =>
    rcases List.mem_or_eq_of_mem_set hc with hc | rfl
    · exact live c hc waiting
    · exact waiting.elim
  | ended => exact live c hc waiting
  | closed => exact live c hc waiting
  | settled _ _ => exact live c hc waiting

/-- After the departure a call that has been woken is told to stop. -/
theorem resumes {d : Bool} {s : State} (departed : s.res.Departed) {i : Nat}
    (woken : s.calls[i]? = some (.woken lastLook)) :
    ∃ s', Runs (step d) (undisturbed d) s s' ∧ s'.calls[i]? = some (.resolved false) := by
  have taken : step d s (.resume i) = some { s with calls := s.calls.set i (.resolved false) } := by
    simp [step, woken, runs_lastLook, departed]
  refine ⟨_, Runs.start.next taken ?_, ?_⟩
  · exact fun ends => ends.elim
  · rw [List.getElem?_set_self (List.getElem?_eq_some_iff.mp woken).1]

theorem Live.resolves {d : Bool} {s : State} (live : s.Live d) (sound : s.Sound) (departed : s.res.Departed)
    {i : Nat} (pending : s.Pending i) :
    ∃ s', Runs (step d) (undisturbed d) s s' ∧ s'.calls[i]? = some (.resolved false) := by
  obtain ⟨c, hc, hpending⟩ := pending
  have hmem := List.mem_of_getElem? hc
  have look := sound.calls c hmem
  cases c with
  | resolved goOn => exact absurd trivial hpending
  | woken rest =>
    obtain rfl : rest = lastLook := look
    exact resumes departed hc
  | waiting rest =>
    obtain rfl : rest = lastLook := look
    have taken : step d s .drain = some { s with calls := s.calls.map Call.wake } := by
      simp [step, live _ hmem trivial]
    have first : Runs (step d) (undisturbed d) s { s with calls := s.calls.map Call.wake } :=
      Runs.start.next taken fun ends => ends.elim
    obtain ⟨s', more, hs'⟩ := resumes (d := d) (s := { s with calls := s.calls.map Call.wake }) departed
      (show (s.calls.map Call.wake)[i]? = some (.woken lastLook) by simp [hc, Call.wake])
    exact ⟨s', first.trans more, hs'⟩

end SearchStream

end Provisioning.Http
