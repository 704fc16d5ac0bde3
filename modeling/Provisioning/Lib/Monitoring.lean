import Provisioning.Lib.Program

/-!
# From one monitor to another

What a program is known to do under one monitor it does under every monitor that the first one
simulates. A program that keeps to some effects leaves alone what these effects do not touch.
-/

namespace Lib

variable {S : Signature} {M M' α β ε : Type}

namespace Prog

/-- If `R` holds along the way, whatever the first monitor allows the second allows too. -/
theorem Safe.simulate {mon : Monitor S M} {mon' : Monitor S M'} {post : M → α → Prop} (R : M → M' → Prop)
    (allows : ∀ m m' e, R m m' → mon.allows m e → mon'.allows m' e)
    (expects : ∀ e a, mon'.expects e a → mon.expects e a)
    (next : ∀ m m' e a, R m m' → mon.allows m e → R (mon.next m e a) (mon'.next m' e a)) {m : M} {m' : M'}
    {p : Prog S α} (safe : Safe mon post m p) (h : R m m') :
    Safe mon' (fun m' a => ∃ m, R m m' ∧ post m a) m' p := by
  induction p generalizing m m' with
  | pure a => exact ⟨m, h, safe⟩
  | await e k ih =>
    refine ⟨allows m m' e h safe.allowed, fun a ha => ?_⟩
    exact ih a (safe.resume a (expects e a ha)) (next m m' e a h safe.allowed)

theorem Safe.allowed_heard {mon : Monitor S M} {post : M → α → Prop} {m : M} {p q : Prog S α}
    {heard : List ((e : S.Effect) × S.Answer e)} (safe : Safe mon post m p) (h : p.Reaches heard q)
    (expected : ∀ x ∈ heard, mon.expects x.1 x.2) : ∀ x ∈ heard, ∃ m', mon.allows m' x.1 := by
  induction h generalizing m with
  | start => simp
  | @answer e k a rest q h ih =>
    intro x hx
    rcases List.mem_cons.1 hx with rfl | hx
    · exact ⟨m, safe.allowed⟩
    · have resumed := safe.resume a (expected ⟨e, a⟩ List.mem_cons_self)
      exact ih resumed (fun y hy => expected y (List.mem_cons_of_mem _ hy)) x hx

/-- What is recorded of the answers agrees with what the monitor remembers, if each answer that was allowed keeps it
so. -/
theorem Safe.history {mon : Monitor S M} {post : M → α → Prop} (R : List ((e : S.Effect) × S.Answer e) → M → Prop)
    (keeps : ∀ before m e a, R before m → mon.allows m e → mon.expects e a → R (before ++ [⟨e, a⟩]) (mon.next m e a))
    {m : M} {p q : Prog S α} {before heard : List ((e : S.Effect) × S.Answer e)} (init : R before m)
    (safe : Safe mon post m p) (h : p.Reaches heard q) (expected : ∀ x ∈ heard, mon.expects x.1 x.2) :
    R (before ++ heard) (mon.recall m heard) := by
  induction h generalizing m before with
  | start =>
    rw [List.append_nil]
    exact init
  | @answer e k a rest q h ih =>
    have ha : mon.expects e a := expected ⟨e, a⟩ List.mem_cons_self
    have next := ih (keeps before m e a init safe.allowed ha) (safe.resume a ha) fun x hx =>
      expected x (List.mem_cons_of_mem _ hx)
    rw [List.append_assoc] at next
    exact next

/-! ## Effects -/

/-- Every effect on every path is one of these. -/
def Only (P : S.Effect → Prop) : Prog S α → Prop
  | .pure _ => True
  | .await e k => P e ∧ ∀ a, Only P (k a)

variable {P : S.Effect → Prop}

theorem Only.bind {p : Prog S α} {f : α → Prog S β} (hp : Only P p) (hf : ∀ a, Only P (f a)) :
    Only P (p.bind f) := by
  induction p with
  | pure a => exact hf a
  | await e k ih => exact ⟨hp.1, fun a => ih a (hp.2 a)⟩

theorem Only.mono {Q : S.Effect → Prop} {p : Prog S α} (hp : Only P p) (h : ∀ e, P e → Q e) : Only Q p := by
  induction p with
  | pure a => trivial
  | await e k ih => exact ⟨h e hp.1, fun a => ih a (hp.2 a)⟩

theorem Only.asked {p : Prog S α} {heard : List ((e : S.Effect) × S.Answer e)} {e : S.Effect}
    {k : S.Answer e → Prog S α} (hp : Only P p) (h : p.Reaches heard (.await e k)) : P e := by
  generalize hq : Prog.await e k = q at h
  induction h with
  | start =>
    subst hq
    exact hp.1
  | answer a h ih => exact ih (hp.2 a) hq

theorem Only.heard {p q : Prog S α} {heard : List ((e : S.Effect) × S.Answer e)} (hp : Only P p)
    (h : p.Reaches heard q) : ∀ x ∈ heard, P x.1 := by
  induction h with
  | start => simp
  | answer a h ih =>
    intro x hx
    rcases List.mem_cons.1 hx with rfl | hx
    · exact hp.1
    · exact ih (hp.2 a) x hx

theorem Only.safe {mon : Monitor S M} {m : M} {p : Prog S α} (h : Only P p)
    (untouched : ∀ e, P e → mon.allows m e ∧ ∀ a, mon.next m e a = m) : Safe mon (fun m' _ => m' = m) m p := by
  induction p with
  | pure a => rfl
  | await e k ih =>
    obtain ⟨allowed, same⟩ := untouched e h.1
    refine ⟨allowed, fun a _ => ?_⟩
    rw [same a]
    exact ih a (h.2 a)

theorem Only.allowed {mon : Monitor S M} {m : M} {p : Prog S α} (h : Only P p)
    (allowed : ∀ m e, P e → mon.allows m e) : Safe mon (fun _ _ => True) m p := by
  induction p generalizing m with
  | pure a => trivial
  | await e k ih => exact ⟨allowed m e h.1, fun a _ => ih a (h.2 a)⟩

/-! ## Termination -/

/-- The answers are those that `answer` gives after what was heard before. -/
def AnsweredBy (answer : List ((e : S.Effect) × S.Answer e) → (e : S.Effect) → S.Answer e)
    (heard : List ((e : S.Effect) × S.Answer e)) : Prop :=
  ∀ before x after, heard = before ++ x :: after → x.2 = answer before x.1

/-- Whatever it is answered, a program comes to its end. -/
theorem reaches_end (answer : List ((e : S.Effect) × S.Answer e) → (e : S.Effect) → S.Answer e) (p : Prog S α) :
    ∃ heard a, p.Reaches heard (.pure a) ∧ AnsweredBy answer heard := by
  induction p generalizing answer with
  | pure a => exact ⟨[], a, .start _, fun before x after h => by simp at h⟩
  | await e k ih =>
    obtain ⟨heard, a, reached, answered⟩ :=
      ih (answer [] e) fun before e' => answer (⟨e, answer [] e⟩ :: before) e'
    refine ⟨⟨e, answer [] e⟩ :: heard, a, .answer _ reached, ?_⟩
    intro before x after heq
    cases before with
    | nil =>
      obtain ⟨rfl, -⟩ := List.cons.inj heq
      rfl
    | cons y before =>
      obtain ⟨rfl, htail⟩ := List.cons.inj heq
      exact answered before x after htail

/-! ## An environment that answers an effect always alike -/

section Steady

variable (answer : (e : S.Effect) → S.Answer e)

def transcript : Prog S α → List ((e : S.Effect) × S.Answer e)
  | .pure _ => []
  | .await e k => ⟨e, answer e⟩ :: transcript (k (answer e))

def result : Prog S α → α
  | .pure a => a
  | .await e k => result (k (answer e))

theorem reaches_transcript (p : Prog S α) : p.Reaches (p.transcript answer) (.pure (p.result answer)) := by
  induction p with
  | pure a => exact .start _
  | await e k ih => exact .answer _ (ih (answer e))

theorem answer_of_mem_transcript {p : Prog S α} {x : (e : S.Effect) × S.Answer e} (h : x ∈ p.transcript answer) :
    x.2 = answer x.1 := by
  induction p with
  | pure a => simp [transcript] at h
  | await e k ih =>
    rcases List.mem_cons.1 h with rfl | h
    · rfl
    · exact ih (answer e) h

theorem reaches_before {p : Prog S α} {before after : List ((e : S.Effect) × S.Answer e)}
    {x : (e : S.Effect) × S.Answer e} (h : p.transcript answer = before ++ x :: after) :
    ∃ k, p.Reaches before (.await x.1 k) := by
  induction p generalizing before with
  | pure a => simp [transcript] at h
  | await e k ih =>
    cases before with
    | nil =>
      obtain ⟨rfl, -⟩ := List.cons.inj h
      exact ⟨k, .start _⟩
    | cons y before =>
      obtain ⟨rfl, htail⟩ := List.cons.inj h
      obtain ⟨k', hk'⟩ := ih (answer e) htail
      exact ⟨k', .answer _ hk'⟩

end Steady

end Prog

/-! ## Effects of programs that fail -/

namespace Async

/-- What the program asks for, whether it fails or not. -/
def Only (P : S.Effect → Prop) (x : Async S ε α) : Prop := Prog.Only P x.run

variable {P : S.Effect → Prop} {x : Async S ε α}

theorem Only.pure {a : α} : Only P (Pure.pure a : Async S ε α) := trivial

theorem Only.throw {e : ε} : Only P (throw e : Async S ε α) := trivial

theorem Only.ask {e : S.Effect} (h : P e) : Only P (Async.ask e : Async S ε (S.Answer e)) := ⟨h, fun _ => trivial⟩

theorem Only.call {e : S.Effect} {result : S.Answer e → Except ε α} (h : P e) : Only P (Async.call e result) :=
  ⟨h, fun _ => trivial⟩

theorem Only.bind {f : α → Async S ε β} (hx : Only P x) (hf : ∀ a, Only P (f a)) : Only P (x >>= f) := by
  refine Prog.Only.bind hx fun r => ?_
  cases r with
  | ok a => exact hf a
  | error e => trivial

theorem Only.mono {Q : S.Effect → Prop} (hx : Only P x) (h : ∀ e, P e → Q e) : Only Q x := Prog.Only.mono hx h

theorem Only.catching {handler : ε → Async S ε α} (hx : Only P x) (hf : ∀ e, Only P (handler e)) :
    Only P (catching x handler) := by
  refine Prog.Only.bind hx fun r => ?_
  cases r with
  | ok a => trivial
  | error e => exact hf e

end Async

end Lib
