import Provisioning.Config.Wiring
import Provisioning.Lib.Numeral
import Provisioning.Lib.Transition

/-!
# The token providers

`src/config/IgaTokenProvider.ts` and `clients/node/src/tokenProvider.js`: one protocol with two rules. A call that finds
no token to hand out asks the endpoint by itself, so that requests overlap, and `invalidate` may come while some are
under way. An action runs the code from one `await` to the next.
-/

namespace Provisioning

open Lib

/-- How a request for a token settles. -/
inductive TokenReply where
  /-- `fetch` rejects. -/
  | failed (message : String)
  /-- A response that is not `ok`, and its text if that can be read. -/
  | refused (status : Nat) (statusText : String) (text : Option String)
  | answered (json : Except String Json)

/-- What each provider does in its own way. -/
structure TokenRule where
  label : String
  body : IgaConfig → List (String × String)
  expiresInSec : Option Json → Double
  earlyExpiryMs : Nat
  beforeExpiry : Nat → Double → Bool
  /-- On integers that are doubles the margin is kept. -/
  margin : ∀ now expiresAt : Nat, now + earlyExpiryMs < 2 ^ 53 → expiresAt < 2 ^ 53 →
    beforeExpiry now (.finite expiresAt) = decide (now + earlyExpiryMs < expiresAt)

/-- The entries of a form that are left out when they are empty. -/
def formEntries (entries : List (String × Option String)) : List (String × String) :=
  entries.filterMap fun (key, value) => (value.filter (· ≠ "")).map fun v => (key, v)

def grant (options : IgaConfig) : List (String × String) :=
  [("grant_type", "client_credentials"), ("client_id", options.clientId), ("client_secret", options.clientSecret)]

namespace IgaTokenProvider

def earlyExpiryMs : Nat := 30000

def expiresInSec (raw : Option Json) : Double :=
  let expires := match raw with
    | some (.num text) => Numeral.number text.toList
    | some (.str text) => parseInt text
    | _ => .nan
  if expires ≠ .infinite false ∧ expires.above 0 then expires else .finite 300

def rule : TokenRule where
  label := "OAuth token"
  body options := grant options ++
    formEntries [("scope", options.scope), ("audience", options.audience), ("resource", options.resource)]
  expiresInSec := expiresInSec
  earlyExpiryMs := earlyExpiryMs
  beforeExpiry now expiresAt := ((Double.finite now).add (.finite earlyExpiryMs)).lt expiresAt
  margin _ _ hnow _ := Double.add_lt_natCast hnow

end IgaTokenProvider

namespace ClientTokenProvider

def DEFAULT_EARLY_EXPIRY_MS : Nat := 30000

def DEFAULT_EXPIRES_IN_SEC : Nat := 300

def expiresInSec (raw : Option Json) : Double :=
  match raw with
  | some (.num text) =>
    if (Numeral.number text.toList).above 0 then Numeral.number text.toList else .finite DEFAULT_EXPIRES_IN_SEC
  | _ => .finite DEFAULT_EXPIRES_IN_SEC

def rule (earlyExpiryMs : Nat) : TokenRule where
  label := "token"
  body options := grant options ++
    formEntries [("audience", options.audience), ("scope", options.scope), ("resource", options.resource)]
  expiresInSec := expiresInSec
  earlyExpiryMs := earlyExpiryMs
  beforeExpiry now expiresAt := (Double.finite now).lt (expiresAt.add (Double.finite earlyExpiryMs).neg)
  margin now _ hnow hexpires := Double.lt_add_neg_natCast hexpires (Nat.lt_of_le_of_lt (Nat.le_add_left _ now) hnow)

end ClientTokenProvider

/-- The first `n` UTF-16 units. Half of a pair is not a character. -/
def sliceUnits : Nat → List Char → List Char
  | _, [] => []
  | 0, _ => []
  | n + 1, c :: text =>
    if c.toNat < 0x10000 then c :: sliceUnits n text
    else match n with
      | 0 => [Char.ofNat 0xFFFD]
      | n + 1 => c :: sliceUnits n text

namespace TokenRule

variable (rule : TokenRule)

def accessTokenOf (json : Json) : Except String String :=
  match json with
  | .null => .error "Cannot read properties of null (reading 'access_token')"
  | _ =>
    match json.field "access_token" with
    | some (.str token) => if token = "" then .error (rule.label ++ " response missing access_token") else .ok token
    | _ => .error (rule.label ++ " response missing access_token")

/-- The token of a reply, and how many seconds it is good for. -/
def read : TokenReply → Except String (String × Double)
  | .failed message | .answered (.error message) => .error message
  | .refused status statusText text =>
    .error (rule.label ++ " request failed (" ++ toString status ++ " " ++ statusText ++ "): " ++
      String.ofList (sliceUnits 200 (text.getD "").toList))
  | .answered (.ok json) => do
    let token ← rule.accessTokenOf json
    .ok (token, rule.expiresInSec (json.field "expires_in"))

end TokenRule

/-! ## The state -/

inductive TokenEvent where
  /-- A call sends this form to the endpoint. -/
  | asked (call moment : Nat) (tokenUrl : String) (form : List (String × String))
  | received (call : Nat) (token : String) (expiresInSec : Double) (moment : Nat)
  | failed (call : Nat) (message : String)
  /-- A call resolves. -/
  | handed (call : Nat) (token : String) (moment : Nat)
  | invalidated
  deriving DecidableEq

structure TokenProvider where
  accessToken : Option String
  expiresAt : Double
  now : Nat
  /-- The number of the next call. -/
  next : Nat
  /-- The calls whose request is under way. -/
  asking : List Nat
  /-- What has happened, the last thing first. -/
  log : List TokenEvent

inductive TokenAction where
  | clock (now : Nat)
  | getToken
  | settled (call : Nat) (reply : TokenReply)
  | invalidate

namespace TokenProvider

def initial (now : Nat) : TokenProvider := ⟨none, .finite 0, now, 0, [], []⟩

def deadline (moment : Nat) (expiresInSec : Double) : Double := (Double.finite moment).add (expiresInSec.times 1000)

variable (rule : TokenRule) (options : IgaConfig)

def getToken (s : TokenProvider) : TokenProvider :=
  match s.accessToken, rule.beforeExpiry s.now s.expiresAt with
  | some token, true => { s with next := s.next + 1, log := .handed s.next token s.now :: s.log }
  | _, _ =>
    { s with
      next := s.next + 1
      asking := s.next :: s.asking
      log := .asked s.next s.now options.tokenUrl (rule.body options) :: s.log }

def settled (call : Nat) (reply : TokenReply) (s : TokenProvider) : TokenProvider :=
  match rule.read reply with
  | .error message => { s with asking := s.asking.erase call, log := .failed call message :: s.log }
  | .ok (token, expiresInSec) =>
    { s with
      accessToken := some token
      expiresAt := deadline s.now expiresInSec
      asking := s.asking.erase call
      log := .handed call token s.now :: .received call token expiresInSec s.now :: s.log }

def invalidate (s : TokenProvider) : TokenProvider :=
  { s with accessToken := none, expiresAt := .finite 0, log := .invalidated :: s.log }

def step (s : TokenProvider) : TokenAction → Option TokenProvider
  | .clock now => some { s with now }
  | .getToken => some (s.getToken rule options)
  | .settled call reply => if call ∈ s.asking then some (s.settled rule call reply) else none
  | .invalidate => some s.invalidate

/-! ## What the log explains -/

/-- An entry after which an older token is no more handed out. -/
def Replaces : TokenEvent → Prop
  | .received .. | .invalidated => True
  | _ => False

/-- The last token that was received, unless it was invalidated, and its deadline. -/
def held : List TokenEvent → Option (String × Double)
  | [] => none
  | .received _ token expiresInSec moment :: _ => some (token, deadline moment expiresInSec)
  | .invalidated :: _ => none
  | _ :: before => held before

/-- Why an entry stands behind these. -/
def Accounts (before : List TokenEvent) : TokenEvent → Prop
  | .asked _ moment .. =>
    ∀ token expiresAt, held before = some (token, expiresAt) → ¬ rule.beforeExpiry moment expiresAt
  | .received call .. | .failed call _ => ∃ moment tokenUrl form, .asked call moment tokenUrl form ∈ before
  | .handed call token moment =>
    (∃ expiresInSec, before.head? = some (.received call token expiresInSec moment)) ∨
      ∃ expiresAt, held before = some (token, expiresAt) ∧ rule.beforeExpiry moment expiresAt
  | .invalidated => True

def Accounted : List TokenEvent → Prop
  | [] => True
  | e :: before => Accounts rule before e ∧ Accounted before

structure Sound (s : TokenProvider) : Prop where
  cached : s.accessToken.map (·, s.expiresAt) = held s.log
  asking : ∀ call ∈ s.asking, ∃ moment tokenUrl form, .asked call moment tokenUrl form ∈ s.log
  accounted : Accounted rule s.log

variable {rule options} {s s' : TokenProvider}

theorem Accounted.of_append {after before : List TokenEvent} {e : TokenEvent}
    (h : Accounted rule (after ++ e :: before)) : Accounts rule before e ∧ Accounted rule before := by
  induction after with
  | nil => exact h
  | cons e' after ih => exact ih h.2

theorem held_cons {e : TokenEvent} (h : ¬ Replaces e) (log : List TokenEvent) : held (e :: log) = held log := by
  cases e with
  | received | invalidated => exact absurd trivial h
  | _ => rfl

theorem held_append {since : List TokenEvent} (h : ∀ e ∈ since, ¬ Replaces e) (log : List TokenEvent) :
    held (since ++ log) = held log := by
  induction since with
  | nil => rfl
  | cons e since ih =>
    rw [List.cons_append, held_cons (h e List.mem_cons_self), ih fun e he => h e (List.mem_cons_of_mem _ he)]

theorem received_of_held {log : List TokenEvent} {token : String} {expiresAt : Double}
    (h : held log = some (token, expiresAt)) :
    ∃ since fetched expiresInSec received earlier,
      log = since ++ .received fetched token expiresInSec received :: earlier ∧ (∀ e ∈ since, ¬ Replaces e) ∧
        expiresAt = deadline received expiresInSec := by
  induction log with
  | nil => cases h
  | cons e log ih =>
    by_cases hreplaces : Replaces e
    · cases e with
      | received fetched token' expiresInSec received =>
        obtain ⟨rfl, rfl⟩ := Prod.mk.inj (Option.some.inj h)
        exact ⟨[], fetched, expiresInSec, received, log, rfl, by simp, rfl⟩
      | invalidated => cases h
      | _ => cases hreplaces
    · rw [held_cons hreplaces] at h
      obtain ⟨since, fetched, expiresInSec, received, earlier, rfl, hsince, hexpires⟩ := ih h
      refine ⟨e :: since, fetched, expiresInSec, received, earlier, rfl, ?_, hexpires⟩
      intro e' he'
      rcases List.mem_cons.1 he' with rfl | he'
      · exact hreplaces
      · exact hsince e' he'

theorem asked_cons {call : Nat} {log : List TokenEvent} (e : TokenEvent)
    (h : ∃ moment tokenUrl form, .asked call moment tokenUrl form ∈ log) :
    ∃ moment tokenUrl form, .asked call moment tokenUrl form ∈ e :: log := by
  obtain ⟨moment, tokenUrl, form, hasked⟩ := h
  exact ⟨moment, tokenUrl, form, List.mem_cons_of_mem e hasked⟩

theorem sound_initial (now : Nat) : (initial now).Sound rule where
  cached := rfl
  asking := by simp [initial]
  accounted := trivial

theorem Sound.getToken (h : s.Sound rule) : (s.getToken rule options).Sound rule := by
  unfold TokenProvider.getToken
  split
  · rename_i token htoken hvalid
    have hheld : held s.log = some (token, s.expiresAt) := by
      rw [← h.cached, htoken]
      rfl
    constructor
    · exact h.cached
    · exact fun call hcall => asked_cons _ (h.asking call hcall)
    · exact ⟨.inr ⟨s.expiresAt, hheld, hvalid⟩, h.accounted⟩
  · rename_i hnone
    constructor
    · exact h.cached
    · intro call hcall
      rcases List.mem_cons.1 hcall with rfl | hcall
      · exact ⟨s.now, options.tokenUrl, rule.body options, List.mem_cons_self⟩
      · exact asked_cons _ (h.asking call hcall)
    · refine ⟨?_, h.accounted⟩
      intro token expiresAt hheld hvalid
      rw [← h.cached] at hheld
      obtain ⟨token', htoken, heq⟩ := Option.map_eq_some_iff.1 hheld
      obtain ⟨rfl, rfl⟩ := Prod.mk.inj heq
      exact hnone token' htoken hvalid

theorem Sound.settled (h : s.Sound rule) {call : Nat} (hasking : call ∈ s.asking) (reply : TokenReply) :
    (s.settled rule call reply).Sound rule := by
  have hasked := h.asking call hasking
  have others : ∀ call' ∈ s.asking.erase call, ∃ moment tokenUrl form, .asked call' moment tokenUrl form ∈ s.log :=
    fun call' hcall => h.asking call' (List.mem_of_mem_erase hcall)
  unfold TokenProvider.settled
  split
  · constructor
    · exact h.cached
    · exact fun call' hcall => asked_cons _ (others call' hcall)
    · exact ⟨hasked, h.accounted⟩
  · constructor
    · rfl
    · exact fun call' hcall => asked_cons _ (asked_cons _ (others call' hcall))
    · exact ⟨.inl ⟨_, rfl⟩, hasked, h.accounted⟩

theorem Sound.invalidate (h : s.Sound rule) : s.invalidate.Sound rule where
  cached := rfl
  asking call hcall := asked_cons _ (h.asking call hcall)
  accounted := ⟨trivial, h.accounted⟩

theorem sound_step (h : s.Sound rule) {a : TokenAction} (hstep : s.step rule options a = some s') : s'.Sound rule := by
  cases a with
  | clock now =>
    obtain rfl := Option.some.inj hstep
    exact ⟨h.cached, h.asking, h.accounted⟩
  | getToken =>
    obtain rfl := Option.some.inj hstep
    exact h.getToken
  | settled call reply =>
    simp only [step] at hstep
    split at hstep
    · rename_i hasking
      obtain rfl := Option.some.inj hstep
      exact h.settled hasking reply
    · cases hstep
  | invalidate =>
    obtain rfl := Option.some.inj hstep
    exact h.invalidate

theorem sound_run {now : Nat} (run : Runs (step rule options) anyStep (initial now) s) : s.Sound rule :=
  run.invariant (Sound rule) (sound_initial now) fun _ _ _ h hstep _ => sound_step h hstep

theorem before_deadline {moment received seconds : Nat}
    (h : rule.beforeExpiry moment (deadline received (.finite seconds)))
    (hmoment : moment + rule.earlyExpiryMs < 2 ^ 53)
    (hreceived : received + seconds * 1000 < 2 ^ 53) : moment + rule.earlyExpiryMs < received + seconds * 1000 := by
  have hdeadline : deadline received (.finite seconds) = .finite (received + seconds * 1000 : Nat) := by
    unfold deadline
    rw [Double.times_natCast (by omega), Double.add_natCast hreceived]
  rw [hdeadline, rule.margin moment _ hmoment hreceived] at h
  exact of_decide_eq_true h

/-- **A token is handed out in time, and asked for when it is needed.** What a call resolves with is what it has
received itself, or what another call has received since the last `invalidate`, as the last one, with the margin left
to its deadline. A call asks the endpoint only if there is no such token. -/
theorem handed_in_time {now : Nat} (run : Runs (step rule options) anyStep (initial now) s) :
    (∀ after before call token moment, s.log = after ++ .handed call token moment :: before →
      ∃ since fetched expiresInSec received earlier,
        before = since ++ .received fetched token expiresInSec received :: earlier ∧ (∀ e ∈ since, ¬ Replaces e) ∧
        (∃ sent tokenUrl form, .asked fetched sent tokenUrl form ∈ earlier) ∧
        ((fetched = call ∧ since = [] ∧ received = moment) ∨
          rule.beforeExpiry moment (deadline received expiresInSec) ∧
            ∀ seconds : Nat, expiresInSec = .finite seconds → moment + rule.earlyExpiryMs < 2 ^ 53 →
              received + seconds * 1000 < 2 ^ 53 → moment + rule.earlyExpiryMs < received + seconds * 1000)) ∧
    (∀ after before call moment tokenUrl form, s.log = after ++ .asked call moment tokenUrl form :: before →
      ∀ since fetched token expiresInSec received earlier,
        before = since ++ .received fetched token expiresInSec received :: earlier → (∀ e ∈ since, ¬ Replaces e) →
        ¬ rule.beforeExpiry moment (deadline received expiresInSec)) := by
  have accounted := (sound_run run).accounted
  constructor
  · intro after before call token moment hlog
    rw [hlog] at accounted
    obtain ⟨hhanded, hbefore⟩ := accounted.of_append
    rcases hhanded with ⟨expiresInSec, hhead⟩ | ⟨expiresAt, hheld, hvalid⟩
    · obtain ⟨earlier, rfl⟩ := List.head?_eq_some_iff.1 hhead
      exact ⟨[], call, expiresInSec, moment, earlier, rfl, by simp, hbefore.1, .inl ⟨rfl, rfl, rfl⟩⟩
    · obtain ⟨since, fetched, expiresInSec, received, earlier, rfl, hsince, rfl⟩ := received_of_held hheld
      refine ⟨since, fetched, expiresInSec, received, earlier, rfl, hsince, hbefore.of_append.1, .inr ⟨hvalid, ?_⟩⟩
      rintro seconds rfl hmoment hreceived
      exact before_deadline hvalid hmoment hreceived
  · intro after before call moment tokenUrl form hlog since fetched token expiresInSec received earlier hbefore hsince
    rw [hlog] at accounted
    apply accounted.of_append.1 token
    rw [hbefore, held_append hsince]
    rfl

/-! Two requests are under way at an `invalidate`. The token of the first is kept, and handed to a third call. -/

def hrIga : IgaConfig := ⟨"https://am.example.com/token", "provisioning", "secret", none, some "iga", none⟩

def renewal : List TokenAction :=
  [.getToken, .getToken, .invalidate,
    .settled 0 (.answered (.ok (.obj [("access_token", .str "t"), ("expires_in", .num "3600")]))),
    .clock 1000, .getToken]

/-- The provider with this rule comes through the renewal. -/
def Renews (rule : TokenRule) : Prop :=
  ∃ s before, Runs (step rule hrIga) anyStep (initial 0) s ∧ s.asking = [1] ∧ s.log = .handed 2 "t" 1000 :: before ∧
    ∃ since fetched expiresInSec received earlier,
      before = since ++ .received fetched "t" expiresInSec received :: earlier ∧ ∀ e ∈ since, ¬ Replaces e

theorem handed_in_time_renewed :
    Renews IgaTokenProvider.rule ∧ Renews (ClientTokenProvider.rule ClientTokenProvider.DEFAULT_EARLY_EXPIRY_MS) := by
  have renews : ∀ rule : TokenRule, (Lib.exec (step rule hrIga) anyStep (initial 0) renewal).map
      (fun s => (s.asking, s.log.head?)) = some ([1], some (.handed 2 "t" 1000)) → Renews rule := by
    intro rule h
    obtain ⟨s, hs, h⟩ := Option.map_eq_some_iff.1 h
    obtain ⟨hasking, hhead⟩ := Prod.mk.inj h
    obtain ⟨before, hlog⟩ := List.head?_eq_some_iff.1 hhead
    have run := runs_of_exec hs
    obtain ⟨since, fetched, expiresInSec, received, earlier, hbefore, hsince, -⟩ :=
      (handed_in_time run).1 [] before 2 "t" 1000 hlog
    exact ⟨s, before, run, hasking, hlog, since, fetched, expiresInSec, received, earlier, hbefore, hsince⟩
  constructor
  · exact renews _ (by decide +kernel)
  · exact renews _ (by decide +kernel)

end TokenProvider

end Provisioning
