import Provisioning.Lib.Transition
import Provisioning.Ops.MaintenancePass

/-!
# The maintainer and its timer

`start`, `stop` and the timer of `src/ops/PartitionMaintainer.ts`. Nothing awaits a pass but `stop`, and that awaits
the last one.
-/

namespace Provisioning

open Lib MaintenancePass

/-! ## The maintainer -/

/-- A call of `runPass`. -/
structure PassCall where
  rest : Prog Maintenance (Except String Unit)
  heard : Heard

/-- A call of `stop`. -/
inductive StopCall where
  | waiting (pass : Nat)
  | resolved
  | rejected (message : String)

structure Maintainer where
  timer : Bool
  stopped : Bool
  /-- The last pass. -/
  inFlight : Option Nat
  /-- Every pass of `start` and of the timer. -/
  passes : List PassCall
  stops : List StopCall
  /-- The passes that rejected when no call of `stop` awaited them. -/
  unhandled : List Nat

inductive MaintainerEvent where
  | start
  | tick
  | stop
  /-- The pass hears the answer to what it awaits. -/
  | answer (pass : Nat) (answers : (e : MaintenanceIo) → e.Answer)

/-! ## The steps -/

/-- The pass is over. -/
def StopCall.hears (pass : Nat) (r : Except String Unit) : StopCall → StopCall
  | .waiting i =>
    if i = pass then
      match r with
      | .ok _ => .resolved
      | .error message => .rejected message
    else .waiting i
  | c => c

@[simp] theorem StopCall.hears_ok (pass : Nat) (u : Unit) :
    (StopCall.waiting pass).hears pass (.ok u) = .resolved := by simp [hears]

@[simp] theorem StopCall.hears_error (pass : Nat) (message : String) :
    (StopCall.waiting pass).hears pass (.error message) = .rejected message := by simp [hears]

theorem StopCall.hears_of_ne {i pass : Nat} (h : i ≠ pass) (r : Except String Unit) :
    (StopCall.waiting i).hears pass r = .waiting i := by simp [hears, h]

def StopCall.Awaits (pass : Nat) : StopCall → Prop
  | .waiting i => i = pass
  | .resolved | .rejected _ => False

instance (pass : Nat) : DecidablePred (StopCall.Awaits pass)
  | .waiting i => inferInstanceAs (Decidable (i = pass))
  | .resolved | .rejected _ => .isFalse id

namespace Maintainer

def initial : Maintainer := ⟨false, false, none, [], [], []⟩

/-- `this.inFlight = this.runPass()` -/
def launch (config : PartitionMaintainerConfig) (m : Maintainer) : Maintainer :=
  { m with passes := m.passes ++ [⟨(runPass config m.stopped).run, []⟩], inFlight := some m.passes.length }

/-- `await this.inFlight` -/
def awaitInFlight (m : Maintainer) : StopCall :=
  match m.inFlight with
  | none => .resolved
  | some i =>
    match m.passes[i]?.map PassCall.rest with
    | some (.pure r) => (StopCall.waiting i).hears i r
    | _ => .waiting i

/-- A pass is over. A rejection that nobody awaits is unhandled. -/
def settle (pass : Nat) (m : Maintainer) : Prog Maintenance (Except String Unit) → Maintainer
  | .pure (.ok u) => { m with stops := m.stops.map (StopCall.hears pass (.ok u)) }
  | .pure (.error message) =>
    { m with
      stops := m.stops.map (StopCall.hears pass (.error message))
      unhandled := if ∃ c ∈ m.stops, c.Awaits pass then m.unhandled else m.unhandled ++ [pass] }
  | .await _ _ => m

/-- The pass has come to `call`. -/
def advance (pass : Nat) (call : PassCall) (m : Maintainer) : Maintainer :=
  settle pass { m with passes := m.passes.set pass call } call.rest

def step (config : PartitionMaintainerConfig) (m : Maintainer) : MaintainerEvent → Option Maintainer
  | .start =>
    if m.timer then some m else some { launch config { m with stopped := false } with timer := true }
  | .tick => if m.timer then some (launch config m) else none
  | .stop => some { m with stopped := true, timer := false, stops := m.stops ++ [m.awaitInFlight] }
  | .answer pass answers =>
    match m.passes[pass]? with
    | some ⟨.await e k, heard⟩ =>
      some (advance pass ⟨k (answers e), heard ++ [⟨e, answers e⟩]⟩ m)
    | _ => none

/-! ## What is asked of a run -/

/-- The event is a pass that is refused a connection. -/
def Refusal (m : Maintainer) : MaintainerEvent → Prop
  | .answer pass answers =>
    ∃ k heard, m.passes[pass]? = some ⟨.await .connect k, heard⟩ ∧ Refuses .connect (answers .connect)
  | .start | .tick | .stop => False

/-- No pass is refused a connection. -/
def connected (m : Maintainer) (e : MaintainerEvent) (_ : Maintainer) : Prop := ¬ m.Refusal e

/-- The pass hears what `answer` says, and nothing else happens. -/
def answeredBy (pass : Nat) (answer : Heard → (e : MaintenanceIo) → e.Answer) (m : Maintainer) (e : MaintainerEvent)
    (_ : Maintainer) : Prop :=
  ∃ call, m.passes[pass]? = some call ∧ e = .answer pass (answer call.heard)

/-- Passes do what they have to do, and no one has to handle a rejection. -/
structure Calm (config : PartitionMaintainerConfig) (m : Maintainer) : Prop where
  passes : ∀ call ∈ m.passes, ∀ r, call.rest = .pure r → Contained (ledgerOf call.heard) r
  unhandled : m.unhandled = []
  stops : ∀ message, .rejected message ∉ m.stops
  /-- However its pass fails from here on, a call of `stop` resolves. -/
  resolves : ∀ (j pass : Nat), m.stops[j]? = some (StopCall.waiting pass) →
    ∀ answer : Heard → (e : MaintenanceIo) → e.Answer, (∀ heard, ¬ Refuses .connect (answer heard .connect)) →
      ∃ m', Runs (step config) (answeredBy pass answer) m m' ∧ m'.stops[j]? = some StopCall.resolved

/-! ## The invariant of every run -/

variable {config : PartitionMaintainerConfig} {m m' : Maintainer} {e : MaintainerEvent}

end Maintainer

/-- The pass has come to where it is by what it heard. -/
def PassCall.Follows (config : PartitionMaintainerConfig) (call : PassCall) : Prop :=
  ∃ stopped, (runPass config stopped).run.Reaches call.heard call.rest

def PassCall.Running (call : PassCall) : Prop := ∃ e k, call.rest = .await e k

theorem PassCall.pure_or_running (call : PassCall) : (∃ r, call.rest = .pure r) ∨ call.Running := by
  unfold PassCall.Running
  cases call.rest with
  | pure r => exact .inl ⟨r, rfl⟩
  | await e k => exact .inr ⟨e, k, rfl⟩

theorem PassCall.Follows.outcome {config : PartitionMaintainerConfig} {call : PassCall} (h : call.Follows config)
    {r : Except String Unit} (hrest : call.rest = .pure r) : Outcome (ledgerOf call.heard) r := by
  obtain ⟨stopped, hreach⟩ := h
  rw [hrest] at hreach
  exact Prog.Safe.reaches (runPass_outcome config stopped) hreach fun _ _ => trivial

theorem PassCall.Follows.contained {config : PartitionMaintainerConfig} {call : PassCall} (h : call.Follows config)
    {r : Except String Unit} (hrest : call.rest = .pure r) (hconnects : Connects call.heard) :
    Contained (ledgerOf call.heard) r := by
  have houtcome := h.outcome hrest
  unfold Outcome at houtcome
  rwa [if_neg (by simp [(connects_iff _).1 hconnects])] at houtcome

theorem PassCall.Follows.rejected {config : PartitionMaintainerConfig} {call : PassCall} (h : call.Follows config)
    (hrefused : ¬ Connects call.heard) : ∃ message, call.rest = .pure (.error message) := by
  have hledger : (ledgerOf call.heard).refused = true := by
    rw [connects_iff] at hrefused
    simpa using hrefused
  cases hrest : call.rest with
  | pure r =>
    have houtcome := h.outcome hrest
    unfold Outcome at houtcome
    rw [if_pos hledger] at houtcome
    obtain ⟨message, rfl⟩ := houtcome
    exact ⟨message, rfl⟩
  | await e k =>
    obtain ⟨stopped, hreach⟩ := h
    have safe := Prog.Safe.reaches (runPass_outcome config stopped) hreach fun _ _ => trivial
    rw [hrest] at safe
    have hpresent : (ledgerOf call.heard).refused = false := safe.allowed
    rw [hledger] at hpresent
    cases hpresent

namespace Maintainer

variable {config : PartitionMaintainerConfig} {m m' : Maintainer} {e : MaintainerEvent}

structure Followed (config : PartitionMaintainerConfig) (m : Maintainer) : Prop where
  passes : ∀ call ∈ m.passes, call.Follows config
  waiting : ∀ pass, .waiting pass ∈ m.stops → ∃ call, m.passes[pass]? = some call ∧ call.Running
  inFlight : ∀ pass, m.inFlight = some pass → pass < m.passes.length

theorem initial_followed : initial.Followed config := by
  constructor <;> simp [initial]

theorem waiting_append {pass : Nat} {passes more : List PassCall}
    (h : ∃ call, passes[pass]? = some call ∧ call.Running) :
    ∃ call, (passes ++ more)[pass]? = some call ∧ call.Running := by
  obtain ⟨call, hcall, running⟩ := h
  refine ⟨call, ?_, running⟩
  rw [List.getElem?_append_left (List.getElem?_eq_some_iff.1 hcall).1]
  exact hcall

theorem Followed.launch (followed : m.Followed config) : (launch config m).Followed config where
  passes call hcall := by
    rcases List.mem_append.1 hcall with hcall | hcall
    · exact followed.passes call hcall
    · obtain rfl := List.mem_singleton.1 hcall
      exact ⟨m.stopped, .start _⟩
  waiting pass hpass := waiting_append (followed.waiting pass hpass)
  inFlight pass hpass := by
    obtain rfl : m.passes.length = pass := Option.some.inj hpass
    simp [Maintainer.launch]

theorem hears_eq_waiting {pass i : Nat} {r : Except String Unit} {c : StopCall} (h : c.hears pass r = .waiting i) :
    c = .waiting i ∧ i ≠ pass := by
  cases c with
  | waiting j =>
    by_cases hj : j = pass
    · subst hj
      cases r <;> simp at h
    · rw [StopCall.hears_of_ne hj] at h
      cases h
      exact ⟨rfl, hj⟩
  | resolved => cases h
  | rejected message => cases h

theorem awaitInFlight_cases (followed : m.Followed config) :
    m.awaitInFlight = .resolved ∨ ∃ pass call, m.passes[pass]? = some call ∧
      ((∃ r, call.rest = .pure r ∧ m.awaitInFlight = (StopCall.waiting pass).hears pass r) ∨
        (call.Running ∧ m.awaitInFlight = .waiting pass)) := by
  unfold awaitInFlight
  cases hflight : m.inFlight with
  | none => exact .inl rfl
  | some i =>
    obtain ⟨call, hcall⟩ : ∃ call, m.passes[i]? = some call :=
      ⟨_, List.getElem?_eq_getElem (followed.inFlight i hflight)⟩
    refine .inr ⟨i, call, hcall, ?_⟩
    simp only [hcall, Option.map_some]
    rcases call.pure_or_running with ⟨r, hrest⟩ | ⟨e, k, hrest⟩
    · exact .inl ⟨r, hrest, by rw [hrest]⟩
    · exact .inr ⟨⟨e, k, hrest⟩, by rw [hrest]⟩

theorem awaitInFlight_waiting (followed : m.Followed config) {pass : Nat} (h : m.awaitInFlight = .waiting pass) :
    ∃ call, m.passes[pass]? = some call ∧ call.Running := by
  rcases awaitInFlight_cases followed with hresolved | ⟨i, call, hcall, ⟨r, -, hover⟩ | ⟨running, hwaits⟩⟩
  · rw [hresolved] at h
    cases h
  · rw [hover] at h
    obtain ⟨hsame, hne⟩ := hears_eq_waiting h
    cases hsame
    exact absurd rfl hne
  · rw [hwaits] at h
    cases h
    exact ⟨call, hcall, running⟩

/-- What a step does. -/
inductive Moves (config : PartitionMaintainerConfig) (m : Maintainer) : MaintainerEvent → Maintainer → Prop
  | started (running : m.timer = true) : Moves config m .start m
  | launched : Moves config m .start { launch config { m with stopped := false } with timer := true }
  | ticked : Moves config m .tick (launch config m)
  | stopped : Moves config m .stop { m with stopped := true, timer := false, stops := m.stops ++ [m.awaitInFlight] }
  | answered (pass : Nat) (answers : (e : MaintenanceIo) → e.Answer) (io : MaintenanceIo)
      (k : io.Answer → Prog Maintenance (Except String Unit)) (heard : Heard)
      (asks : m.passes[pass]? = some ⟨.await io k, heard⟩) :
      Moves config m (.answer pass answers) (advance pass ⟨k (answers io), heard ++ [⟨io, answers io⟩]⟩ m)

theorem step_moves (taken : step config m e = some m') : Moves config m e m' := by
  cases e with
  | start =>
    simp only [step] at taken
    split at taken
    · rename_i running
      cases taken
      exact .started running
    · cases taken
      exact .launched
  | tick =>
    simp only [step] at taken
    split at taken
    · cases taken
      exact .ticked
    · cases taken
  | stop =>
    cases taken
    exact .stopped
  | answer pass answers =>
    simp only [step] at taken
    split at taken
    · rename_i io k heard asks
      cases taken
      exact .answered pass answers io k heard asks
    · cases taken

theorem advance_passes (pass : Nat) (call : PassCall) (m : Maintainer) :
    (advance pass call m).passes = m.passes.set pass call ∧ (advance pass call m).inFlight = m.inFlight := by
  obtain ⟨rest, heard⟩ := call
  cases rest with
  | pure r => cases r <;> exact ⟨rfl, rfl⟩
  | await e k => exact ⟨rfl, rfl⟩

theorem advance_pure {pass : Nat} {call : PassCall} {r : Except String Unit} (h : call.rest = .pure r) :
    (advance pass call m).stops = m.stops.map (StopCall.hears pass r) := by
  unfold advance
  rw [h]
  cases r <;> rfl

theorem advance_running {pass : Nat} {call : PassCall} (h : call.Running) :
    advance pass call m = { m with passes := m.passes.set pass call } := by
  obtain ⟨e, k, hrest⟩ := h
  unfold advance
  rw [hrest]
  rfl

theorem waiting_advance {pass i : Nat} {call : PassCall} (h : .waiting i ∈ (advance pass call m).stops) :
    .waiting i ∈ m.stops ∧ (i = pass → call.Running) := by
  rcases call.pure_or_running with ⟨r, hrest⟩ | running
  · rw [advance_pure hrest] at h
    obtain ⟨c, hc, heq⟩ := List.mem_map.1 h
    obtain ⟨rfl, hne⟩ := hears_eq_waiting heq
    exact ⟨hc, fun h => absurd h hne⟩
  · rw [advance_running running] at h
    exact ⟨h, fun _ => running⟩

theorem Followed.moved (followed : m.Followed config) (moves : Moves config m e m') : m'.Followed config := by
  cases moves with
  | started _ => exact followed
  | launched =>
    have fresh : Followed config { m with stopped := false } := ⟨followed.passes, followed.waiting, followed.inFlight⟩
    exact ⟨fresh.launch.passes, fresh.launch.waiting, fresh.launch.inFlight⟩
  | ticked => exact followed.launch
  | stopped =>
    refine ⟨followed.passes, fun pass hpass => ?_, followed.inFlight⟩
    rcases List.mem_append.1 hpass with hpass | hpass
    · exact followed.waiting pass hpass
    · exact awaitInFlight_waiting followed (List.mem_singleton.1 hpass).symm
  | answered pass answers io k heard asks =>
    obtain ⟨hpasses, hflight⟩ := advance_passes pass ⟨k (answers io), heard ++ [⟨io, answers io⟩]⟩ m
    constructor
    · intro call hcall
      rw [hpasses] at hcall
      rcases List.mem_or_eq_of_mem_set hcall with hcall | rfl
      · exact followed.passes call hcall
      · obtain ⟨stopped, hreach⟩ := followed.passes _ (List.mem_of_getElem? asks)
        exact ⟨stopped, hreach.snoc (answers io)⟩
    · intro i hi
      obtain ⟨hstops, hpass⟩ := waiting_advance hi
      rw [hpasses]
      by_cases h : i = pass
      · subst h
        exact ⟨_, List.getElem?_set_self (List.getElem?_eq_some_iff.1 asks).1, hpass rfl⟩
      · obtain ⟨call, hcall, running⟩ := followed.waiting i hstops
        refine ⟨call, ?_, running⟩
        rw [List.getElem?_set_ne (Ne.symm h)]
        exact hcall
    · intro i hi
      rw [hflight] at hi
      rw [hpasses, List.length_set]
      exact followed.inFlight i hi

/-! ## Runs in which every pass gets its connection -/

/-- No pass was refused a connection, and no rejection has been seen. -/
structure Quiet (config : PartitionMaintainerConfig) (m : Maintainer) : Prop where
  followed : m.Followed config
  connects : ∀ call ∈ m.passes, Connects call.heard
  unhandled : m.unhandled = []
  stops : ∀ message, .rejected message ∉ m.stops

theorem initial_quiet : initial.Quiet config := by
  refine ⟨initial_followed, ?_, rfl, ?_⟩ <;> simp [initial]

theorem Quiet.launch (quiet : m.Quiet config) : (launch config m).Quiet config where
  followed := quiet.followed.launch
  connects call hcall := by
    rcases List.mem_append.1 hcall with hcall | hcall
    · exact quiet.connects call hcall
    · obtain rfl := List.mem_singleton.1 hcall
      exact fun x hx => absurd hx List.not_mem_nil
  unhandled := quiet.unhandled
  stops := quiet.stops

theorem awaitInFlight_quiet (quiet : m.Quiet config) (message : String) : m.awaitInFlight ≠ .rejected message := by
  intro h
  rcases awaitInFlight_cases quiet.followed with hresolved | ⟨i, call, hcall, ⟨r, hrest, hover⟩ | ⟨-, hwaits⟩⟩
  · rw [hresolved] at h
    cases h
  · have hmem := List.mem_of_getElem? hcall
    have contained := (quiet.followed.passes call hmem).contained hrest (quiet.connects call hmem)
    rw [hover, contained.resolved, StopCall.hears_ok] at h
    cases h
  · rw [hwaits] at h
    cases h

theorem advance_quiet {pass : Nat} {call : PassCall} (hrest : ∀ r, call.rest = .pure r → r = .ok ())
    (unhandled : m.unhandled = []) (stops : ∀ message, .rejected message ∉ m.stops) :
    (advance pass call m).unhandled = [] ∧ ∀ message, .rejected message ∉ (advance pass call m).stops := by
  rcases call.pure_or_running with ⟨r, hpure⟩ | running
  · obtain rfl := hrest r hpure
    constructor
    · unfold advance
      rw [hpure]
      exact unhandled
    · intro message h
      rw [advance_pure hpure] at h
      obtain ⟨c, hc, heq⟩ := List.mem_map.1 h
      cases c with
      | waiting j =>
        by_cases hj : j = pass
        · subst hj
          simp at heq
        · simp [StopCall.hears_of_ne hj] at heq
      | resolved => cases heq
      | rejected message' =>
        cases heq
        exact stops message hc
  · rw [advance_running running]
    exact ⟨unhandled, stops⟩

theorem connects_snoc {heard : Heard} {io : MaintenanceIo} {a : io.Answer} (h : Connects heard) (ha : ¬ Refuses io a) :
    Connects (heard ++ [⟨io, a⟩]) := by
  intro x hx
  rcases List.mem_append.1 hx with hx | hx
  · exact h x hx
  · obtain rfl := List.mem_singleton.1 hx
    exact ha

theorem Quiet.advanced (quiet : m.Quiet config) {pass : Nat} {call : PassCall}
    (followed : (advance pass call m).Followed config) (hlt : pass < m.passes.length)
    (hconnects : Connects call.heard) : (advance pass call m).Quiet config := by
  have hpasses := (advance_passes pass call m).1
  have hcall : call.Follows config := by
    apply followed.passes
    rw [hpasses]
    exact List.mem_set hlt call
  have hresolved : ∀ r, call.rest = .pure r → r = .ok () := fun r hr => (hcall.contained hr hconnects).resolved
  obtain ⟨hunhandled, hstops⟩ := advance_quiet hresolved quiet.unhandled quiet.stops
  refine ⟨followed, fun call' hcall' => ?_, hunhandled, hstops⟩
  rw [hpasses] at hcall'
  rcases List.mem_or_eq_of_mem_set hcall' with hcall' | rfl
  · exact quiet.connects call' hcall'
  · exact hconnects

theorem Quiet.moved (quiet : m.Quiet config) (moves : Moves config m e m') (good : ¬ m.Refusal e) :
    m'.Quiet config := by
  have followed := quiet.followed.moved moves
  cases moves with
  | started _ => exact quiet
  | launched =>
    have fresh : Quiet config { m with stopped := false } :=
      ⟨⟨quiet.followed.passes, quiet.followed.waiting, quiet.followed.inFlight⟩, quiet.connects, quiet.unhandled,
        quiet.stops⟩
    exact ⟨followed, fresh.launch.connects, quiet.unhandled, quiet.stops⟩
  | ticked => exact quiet.launch
  | stopped =>
    refine ⟨followed, quiet.connects, quiet.unhandled, fun message h => ?_⟩
    rcases List.mem_append.1 h with h | h
    · exact quiet.stops message h
    · exact awaitInFlight_quiet quiet message (List.mem_singleton.1 h).symm
  | answered pass answers io k heard asks =>
    have hmem := List.mem_of_getElem? asks
    have haccepted : ¬ Refuses io (answers io) := by
      cases io with
      | connect => exact fun h => good ⟨k, heard, asks, h⟩
      | query | warn | counter | gauge | error | release => exact id
    exact quiet.advanced followed (List.getElem?_eq_some_iff.1 asks).1
      (connects_snoc (quiet.connects _ hmem) haccepted)

theorem Quiet.resolves (quiet : m.Quiet config) {j pass : Nat} (hstop : m.stops[j]? = some (.waiting pass))
    (answer : Heard → (e : MaintenanceIo) → e.Answer) (accepts : ∀ heard, ¬ Refuses .connect (answer heard .connect))
    {rest : Prog Maintenance (Except String Unit)} {heard : Heard} (hcall : m.passes[pass]? = some ⟨rest, heard⟩) :
    ∃ m', Runs (step config) (answeredBy pass answer) m m' ∧ m'.stops[j]? = some .resolved := by
  induction rest generalizing m heard with
  | pure r =>
    obtain ⟨call, hcall', e, k, hrest⟩ := quiet.followed.waiting pass (List.mem_of_getElem? hstop)
    obtain rfl : ⟨.pure r, heard⟩ = call := Option.some.inj (hcall.symm.trans hcall')
    cases hrest
  | await io k ih =>
    obtain ⟨call, hnew⟩ : ∃ call : PassCall, call = ⟨k (answer heard io), heard ++ [⟨io, answer heard io⟩]⟩ :=
      ⟨_, rfl⟩
    have taken : step config m (.answer pass (answer heard)) = some (advance pass call m) := by
      simp only [step, hcall, hnew]
    have first := Runs.start.next taken (show answeredBy pass answer m _ _ from ⟨_, hcall, rfl⟩)
    have next : (advance pass call m).Quiet config := by
      refine quiet.moved (step_moves taken) ?_
      rintro ⟨k', heard', -, hrefuses⟩
      exact accepts heard hrefuses
    have hself : (advance pass call m).passes[pass]? = some call := by
      rw [(advance_passes pass call m).1]
      exact List.getElem?_set_self (List.getElem?_eq_some_iff.1 hcall).1
    have hmem := List.mem_of_getElem? hself
    rcases call.pure_or_running with ⟨r, hpure⟩ | running
    · have contained := (next.followed.passes _ hmem).contained hpure (next.connects _ hmem)
      obtain rfl := contained.resolved
      refine ⟨_, first, ?_⟩
      rw [advance_pure hpure, List.getElem?_map, hstop]
      simp
    · have hstill : (advance pass call m).stops[j]? = some (.waiting pass) := by
        rw [advance_running running]
        exact hstop
      obtain ⟨m', more, hresolved⟩ := ih (answer heard io) next hstill (hself.trans (congrArg some hnew))
      exact ⟨m', first.trans more, hresolved⟩

theorem Quiet.calm (quiet : m.Quiet config) : m.Calm config where
  passes call hcall r hrest := (quiet.followed.passes call hcall).contained hrest (quiet.connects call hcall)
  unhandled := quiet.unhandled
  stops := quiet.stops
  resolves j pass hstop answer accepts := by
    obtain ⟨call, hcall, -⟩ := quiet.followed.waiting pass (List.mem_of_getElem? hstop)
    exact quiet.resolves hstop answer accepts hcall

/-! ## A pass that is refused a connection -/

theorem advance_rejected {pass : Nat} {call : PassCall} {message : String} (h : call.rest = .pure (.error message)) :
    pass ∈ (advance pass call m).unhandled ∨ .rejected message ∈ (advance pass call m).stops := by
  by_cases hawaited : ∃ c ∈ m.stops, c.Awaits pass
  · obtain ⟨c, hc, hawaits⟩ := hawaited
    right
    rw [advance_pure h]
    refine List.mem_map.2 ⟨c, hc, ?_⟩
    cases c with
    | waiting i =>
      obtain rfl : i = pass := hawaits
      simp
    | resolved => exact hawaits.elim
    | rejected message' => exact hawaits.elim
  · left
    unfold advance
    rw [h]
    simp only [settle, if_neg hawaited]
    exact List.mem_append_right _ List.mem_cons_self

theorem rejected_of_refusal (followed : m.Followed config) (taken : step config m e = some m') (h : m.Refusal e) :
    ¬ m'.Calm config ∧ ∃ pass message, pass ∈ m'.unhandled ∨ .rejected message ∈ m'.stops := by
  have moves := step_moves taken
  have followed' := followed.moved moves
  cases moves with
  | answered pass answers io k heard asks =>
    obtain ⟨k', heard', hcall, hrefuses⟩ := h
    obtain ⟨hprog, rfl⟩ := PassCall.mk.inj (Option.some.inj (asks.symm.trans hcall))
    cases hprog
    have hmem : ⟨k' (answers .connect), heard ++ [⟨.connect, answers .connect⟩]⟩ ∈
        (advance pass ⟨k' (answers .connect), heard ++ [⟨.connect, answers .connect⟩]⟩ m).passes := by
      rw [(advance_passes _ _ m).1]
      exact List.mem_set (List.getElem?_eq_some_iff.1 asks).1 _
    have hrefused : ¬ Connects (heard ++ [⟨.connect, answers .connect⟩]) := fun hconnects =>
      hconnects _ (List.mem_append_right _ List.mem_cons_self) hrefuses
    have follows : PassCall.Follows config ⟨k' (answers .connect), heard ++ [⟨.connect, answers .connect⟩]⟩ :=
      followed'.passes _ hmem
    obtain ⟨message, hrest⟩ := follows.rejected hrefused
    refine ⟨fun calm => ?_, pass, message, advance_rejected hrest⟩
    have contained := calm.passes _ hmem _ hrest
    cases contained.resolved
  | started | launched | ticked | stopped => exact h.elim

/-- **A maintenance pass** does what it has to do exactly when it gets its connection, whatever else fails. In a
run in which every pass gets one, nothing rejects. A pass that gets none leaves an unhandled rejection, or a call
of `stop` that rejects. -/
theorem passes_contained_iff (config : PartitionMaintainerConfig) :
    (∀ stopped (answer : Heard → (e : Maintenance.Effect) → Maintenance.Answer e), ∃ heard r,
      (runPass config stopped).run.Reaches heard (.pure r) ∧ Prog.AnsweredBy answer heard ∧
        (Contained (ledgerOf heard) r ↔ Connects heard)) ∧
      (∀ m, Runs (step config) connected initial m → m.Calm config) ∧
      ∀ m e m', Runs (step config) anyStep initial m → step config m e = some m' → ¬ connected m e m' →
        ¬ m'.Calm config ∧ ∃ pass message, pass ∈ m'.unhandled ∨ .rejected message ∈ m'.stops := by
  refine ⟨fun stopped answer => ?_, fun m run => ?_, fun m e m' run taken refused => ?_⟩
  · obtain ⟨heard, r, reached, answered⟩ := Prog.reaches_end answer (runPass config stopped).run
    have follows : PassCall.Follows config ⟨.pure r, heard⟩ := ⟨stopped, reached⟩
    refine ⟨heard, r, reached, answered, fun contained => ?_, follows.contained rfl⟩
    by_contra hrefused
    obtain ⟨message, hrest⟩ := follows.rejected hrefused
    cases hrest
    cases contained.resolved
  · have quiet : m.Quiet config := by
      apply run.invariant (Quiet config) initial_quiet
      intro m e m' quiet taken good
      exact quiet.moved (step_moves taken) good
    exact quiet.calm
  · have followed : m.Followed config := by
      apply run.invariant (Followed config) initial_followed
      intro m e m' followed taken _
      exact followed.moved (step_moves taken)
    exact rejected_of_refusal followed taken (not_not.1 refused)

/-- A connection on which every statement fails, the `ROLLBACK` too. -/
def brokenConnection : (e : MaintenanceIo) → e.Answer
  | .connect => .ok ()
  | .query _ => .error "Connection terminated unexpectedly"
  | .warn _ | .counter _ | .gauge _ | .error _ | .release => ()

theorem passes_contained_broken :
    ∃ heard r, (runPass ⟨30, none, none⟩ false).run.Reaches heard (.pure r) ∧
      Prog.AnsweredBy (fun _ => brokenConnection) heard ∧ Contained (ledgerOf heard) r := by
  obtain ⟨heard, r, reached, answered, hiff⟩ :=
    (passes_contained_iff ⟨30, none, none⟩).1 false fun _ => brokenConnection
  refine ⟨heard, r, reached, answered, hiff.2 fun x hx => ?_⟩
  obtain ⟨before, after, heq⟩ := List.append_of_mem hx
  have haccepts : ∀ e : MaintenanceIo, ¬ Refuses e (brokenConnection e) := by
    intro e
    cases e <;> exact id
  rw [answered before x after heq]
  exact haccepts x.1

/-- The database cannot be reached. -/
def unreachable : (e : MaintenanceIo) → e.Answer
  | .connect => .error "connect ECONNREFUSED 127.0.0.1:5432"
  | .query _ => .error "connect ECONNREFUSED 127.0.0.1:5432"
  | .warn _ | .counter _ | .gauge _ | .error _ | .release => ()

/-- The first pass of `start` is refused its connection. -/
theorem start_unreachable :
    ¬ ∀ config m, Runs (step config) anyStep initial m → m.Calm config := by
  intro h
  let config : PartitionMaintainerConfig := ⟨30, none, none⟩
  have started : step config initial .start =
      some ⟨true, false, some 0, [⟨(runPass config false).run, []⟩], [], []⟩ := rfl
  have refused : step config ⟨true, false, some 0, [⟨(runPass config false).run, []⟩], [], []⟩ (.answer 0 unreachable) =
      some ⟨true, false, some 0,
        [⟨.pure (.error "connect ECONNREFUSED 127.0.0.1:5432"), [⟨.connect, unreachable .connect⟩]⟩], [], [0]⟩ := rfl
  have calm := h config _ ((Runs.start.next started trivial).next refused trivial)
  cases calm.unhandled

end Maintainer

end Provisioning
