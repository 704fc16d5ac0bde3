import Mathlib.Logic.Basic

/-!
# Programs that await

A program asks its environment for one thing at a time and goes on with the answer. The
environment is free to give any answer. A monitor watches the effects and the answers, and
`Safe` says that no answers lead the program to an effect that the monitor forbids.
-/

namespace Lib

structure Signature where
  Effect : Type
  Answer : Effect → Type

inductive Prog (S : Signature) (α : Type) where
  | pure (a : α)
  | await (e : S.Effect) (k : S.Answer e → Prog S α)

namespace Prog

variable {S : Signature} {α β γ : Type}

def bind : Prog S α → (α → Prog S β) → Prog S β
  | .pure a, f => f a
  | .await e k, f => .await e fun a => (k a).bind f

instance : Monad (Prog S) where
  pure := .pure
  bind := bind

/-- The program that asks once and returns the answer. -/
def ask (e : S.Effect) : Prog S (S.Answer e) := .await e .pure

@[simp] theorem pure_bind (a : α) (f : α → Prog S β) : (Prog.pure a).bind f = f a := rfl

@[simp] theorem await_bind (e : S.Effect) (k : S.Answer e → Prog S α) (f : α → Prog S β) :
    (Prog.await e k).bind f = .await e fun a => (k a).bind f := rfl

end Prog

/-! ## Monitors -/

/-- `M` is what the monitor remembers. `expects` is the part of the environment's freedom that
is left: an answer it rules out is never given. -/
structure Monitor (S : Signature) (M : Type) where
  allows : M → S.Effect → Prop
  expects : (e : S.Effect) → S.Answer e → Prop
  next : M → (e : S.Effect) → S.Answer e → M

namespace Prog

variable {S : Signature} {M α β : Type}

/-- Every effect on every path is allowed, and every path ends in `post`. -/
def Safe (mon : Monitor S M) (post : M → α → Prop) : M → Prog S α → Prop
  | m, .pure a => post m a
  | m, .await e k => mon.allows m e ∧ ∀ a, mon.expects e a → Safe mon post (mon.next m e a) (k a)

variable {mon : Monitor S M}

theorem Safe.allowed {post : M → α → Prop} {m : M} {e : S.Effect} {k : S.Answer e → Prog S α}
    (h : Safe mon post m (.await e k)) : mon.allows m e := h.1

theorem Safe.resume {post : M → α → Prop} {m : M} {e : S.Effect} {k : S.Answer e → Prog S α}
    (h : Safe mon post m (.await e k)) (a : S.Answer e) (ha : mon.expects e a) :
    Safe mon post (mon.next m e a) (k a) := h.2 a ha

/-- The bind rule: what the first part ends in is where the second part starts. -/
theorem Safe.bind {mid : M → α → Prop} {post : M → β → Prop} {m : M} {p : Prog S α}
    {f : α → Prog S β} (hp : Safe mon mid m p) (hf : ∀ m' a, mid m' a → Safe mon post m' (f a)) :
    Safe mon post m (p.bind f) := by
  induction p generalizing m with
  | pure a => exact hf m a hp
  | await e k ih => exact ⟨hp.1, fun a ha => ih a (hp.2 a ha)⟩

theorem Safe.mono {post post' : M → α → Prop} {m : M} {p : Prog S α} (hp : Safe mon post m p)
    (h : ∀ m' a, post m' a → post' m' a) : Safe mon post' m p := by
  induction p generalizing m with
  | pure a => exact h m a hp
  | await e k ih => exact ⟨hp.1, fun a ha => ih a (hp.2 a ha)⟩

end Prog

/-! ## Transcripts

A program is deterministic, so what it heard decides how far it is. -/

/-- From `p`, hearing these answers leads to `q`. -/
inductive Prog.Reaches {S : Signature} {α : Type} :
    Prog S α → List ((e : S.Effect) × S.Answer e) → Prog S α → Prop
  | start (p : Prog S α) : Reaches p [] p
  | answer {e : S.Effect} {k : S.Answer e → Prog S α} (a : S.Answer e)
      {rest : List ((e : S.Effect) × S.Answer e)} {q : Prog S α} (h : Reaches (k a) rest q) :
      Reaches (.await e k) (⟨e, a⟩ :: rest) q

/-- What the monitor remembers after a transcript. -/
def Monitor.recall {S : Signature} {M : Type} (mon : Monitor S M) (m : M)
    (heard : List ((e : S.Effect) × S.Answer e)) : M := heard.foldl (fun m x => mon.next m x.1 x.2) m

namespace Prog

variable {S : Signature} {M α : Type} {mon : Monitor S M} {p q : Prog S α}
  {heard : List ((e : S.Effect) × S.Answer e)}

theorem Reaches.snoc {e : S.Effect} {k : S.Answer e → Prog S α} (h : p.Reaches heard (.await e k))
    (a : S.Answer e) : p.Reaches (heard ++ [⟨e, a⟩]) (k a) := by
  generalize hq : Prog.await e k = q at h
  induction h with
  | start p =>
    subst hq
    exact .answer a (.start _)
  | answer b h ih => exact .answer b (ih hq)

theorem recall_learned (Q : M → Prop) {m : M} (unknown : ¬ Q m) (known : Q (mon.recall m heard)) :
    ∃ x ∈ heard, ∃ m', ¬ Q m' ∧ Q (mon.next m' x.1 x.2) := by
  induction heard generalizing m with
  | nil => exact absurd known unknown
  | cons x rest ih =>
    by_cases hx : Q (mon.next m x.1 x.2)
    · exact ⟨x, List.mem_cons_self, m, unknown, hx⟩
    · obtain ⟨y, hy, hlearned⟩ := ih hx known
      exact ⟨y, List.mem_cons_of_mem _ hy, hlearned⟩

/-- A safe program is still safe after any transcript that the monitor expects. -/
theorem Safe.reaches {post : M → α → Prop} {m : M} (safe : Safe mon post m p) (h : p.Reaches heard q)
    (expected : ∀ x ∈ heard, mon.expects x.1 x.2) : Safe mon post (mon.recall m heard) q := by
  induction h generalizing m with
  | start p => exact safe
  | answer a h ih =>
    apply ih
    · exact safe.resume a (expected _ List.mem_cons_self)
    · intro x hx
      exact expected x (List.mem_cons_of_mem _ hx)

end Prog

/-! ## Programs that fail

`Async S ε` adds exceptions of type `ε`, the way `async` functions throw. -/

abbrev Async (S : Signature) (ε α : Type) : Type := ExceptT ε (Prog S) α

namespace Async

variable {S : Signature} {M ε α β : Type}

/-- Ask, for an effect that cannot fail. -/
def ask (e : S.Effect) : Async S ε (S.Answer e) := ExceptT.mk (.await e fun a => .pure (.ok a))

/-- Throw what the answer to `e` is, if it is an exception. -/
def call (e : S.Effect) (result : S.Answer e → Except ε α) : Async S ε α :=
  ExceptT.mk (.await e fun a => .pure (result a))

/-- `try x catch handler`. -/
def catching (x : Async S ε α) (handler : ε → Async S ε α) : Async S ε α :=
  ExceptT.mk (x.run.bind fun
    | .ok a => .pure (.ok a)
    | .error e => (handler e).run)

/-- `try x finally fin`. -/
def andFinally (x : Async S ε α) (fin : Async S ε Unit) : Async S ε α :=
  ExceptT.mk (x.run.bind fun r => fin.run.bind fun
    | .ok _ => .pure r
    | .error e => .pure (.error e))

def Safe (mon : Monitor S M) (post : M → Except ε α → Prop) (m : M) (x : Async S ε α) : Prop :=
  Prog.Safe mon post m x.run

variable {mon : Monitor S M} {post : M → Except ε α → Prop} {m : M}

theorem Safe.pure {a : α} (h : post m (.ok a)) : Safe mon post m (Pure.pure a) := h

theorem Safe.throw {e : ε} (h : post m (.error e)) : Safe mon post m (throw e) := h

theorem Safe.ask {e : S.Effect} {post : M → Except ε (S.Answer e) → Prop} (allowed : mon.allows m e)
    (h : ∀ a, mon.expects e a → post (mon.next m e a) (.ok a)) : Safe mon post m (Async.ask e) :=
  ⟨allowed, h⟩

theorem Safe.call {e : S.Effect} {result : S.Answer e → Except ε α} (allowed : mon.allows m e)
    (h : ∀ a, mon.expects e a → post (mon.next m e a) (result a)) : Safe mon post m (Async.call e result) :=
  ⟨allowed, h⟩

theorem Safe.bind (mid : M → Except ε β → Prop) {x : Async S ε β} {f : β → Async S ε α}
    (hx : Safe mon mid m x) (hok : ∀ m' b, mid m' (.ok b) → Safe mon post m' (f b))
    (herror : ∀ m' e, mid m' (.error e) → post m' (.error e)) : Safe mon post m (x >>= f) := by
  refine Prog.Safe.bind hx fun m' r hr => ?_
  cases r with
  | ok b => exact hok m' b hr
  | error e => exact herror m' e hr

theorem Safe.catching (mid : M → Except ε α → Prop) {x : Async S ε α} {handler : ε → Async S ε α}
    (hx : Safe mon mid m x) (hok : ∀ m' a, mid m' (.ok a) → post m' (.ok a))
    (herror : ∀ m' e, mid m' (.error e) → Safe mon post m' (handler e)) :
    Safe mon post m (catching x handler) := by
  refine Prog.Safe.bind hx fun m' r hr => ?_
  cases r with
  | ok a => exact hok m' a hr
  | error e => exact herror m' e hr

/-- What `fin` throws replaces what `x` returned or threw. -/
theorem Safe.andFinally (mid : M → Except ε α → Prop) {x : Async S ε α} {fin : Async S ε Unit}
    (hx : Safe mon mid m x)
    (hfin : ∀ m' r, mid m' r → Safe mon (fun m'' r' => (∀ u, r' = .ok u → post m'' r) ∧
      ∀ e, r' = .error e → post m'' (.error e)) m' fin) : Safe mon post m (andFinally x fin) := by
  refine Prog.Safe.bind hx fun m' r hr => Prog.Safe.bind (hfin m' r hr) fun m'' r' hr' => ?_
  cases r' with
  | ok u => exact hr'.1 u rfl
  | error e => exact hr'.2 e rfl

theorem Safe.mono {post' : M → Except ε α → Prop} {x : Async S ε α} (hx : Safe mon post m x)
    (h : ∀ m' r, post m' r → post' m' r) : Safe mon post' m x := Prog.Safe.mono hx h

end Async

/-! ## Handlers

A handler answers every effect, from a state that it keeps. -/

section Handlers

variable {S : Signature} {σ ε α β : Type} (handler : (e : S.Effect) → σ → S.Answer e × σ)

def Prog.handle : Prog S α → σ → α × σ
  | .pure a, s => (a, s)
  | .await e k, s => (k (handler e s).1).handle (handler e s).2

theorem Prog.handle_bind (p : Prog S α) (f : α → Prog S β) (s : σ) :
    (p.bind f).handle handler s = (f (p.handle handler s).1).handle handler (p.handle handler s).2 := by
  induction p generalizing s with
  | pure a => rfl
  | await e k ih => exact ih _ _

/-- What is left of a program that fails is a program on the state. -/
def Async.handle (x : Async S ε α) : ExceptT ε (StateM σ) α := fun s => x.run.handle handler s

theorem Async.handle_bind (x : Async S ε α) (f : α → Async S ε β) :
    Async.handle handler (x >>= f) = Async.handle handler x >>= fun a => Async.handle handler (f a) := by
  funext s
  have hbind := Prog.handle_bind handler x.run (ExceptT.bindCont f) s
  cases hx : x.run.handle handler s with
  | mk r s' =>
    rw [hx] at hbind
    refine Eq.trans hbind ?_
    have hcont : (Async.handle handler x >>= fun a => Async.handle handler (f a)) s =
        ExceptT.bindCont (fun a => Async.handle handler (f a)) r s' := by
      show ExceptT.bindCont (fun a => Async.handle handler (f a)) (x.run.handle handler s).1
        (x.run.handle handler s).2 = _
      rw [hx]
    rw [hcont]
    cases r with
    | ok a => rfl
    | error e => rfl

end Handlers

end Lib
