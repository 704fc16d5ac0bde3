import Provisioning.Http.FilterTokens

/-!
# The clauses of a filter

Which tokens the parser takes as clauses, and what it makes of them.
-/

namespace Provisioning.Http

open Lib Lib.Numeral

/-- The tokens of a clause. -/
structure ClauseText where
  path : List Char
  op : List Char
  value : Option (List Char)

/-- A clause, and the ones that follow it with the tokens before them. -/
structure FilterText where
  first : ClauseText
  rest : List (List Char × ClauseText)

def ClauseText.tokens (c : ClauseText) : List (List Char) := c.path :: c.op :: c.value.toList

/-- The tokens of the clauses that follow another one. -/
def restTokens (rest : List (List Char × ClauseText)) : List (List Char) := rest.flatMap fun r => r.1 :: r.2.tokens

namespace FilterText

def tokens (f : FilterText) : List (List Char) := f.first.tokens ++ restTokens f.rest

def clauses (f : FilterText) : List ClauseText := f.first :: f.rest.map Prod.snd

end FilterText

/-! ## What is made of a clause -/

/-- The clause is read as the comparison. -/
structure ClauseText.Reads (c : ClauseText) (cmp : Comparison) : Prop where
  path : testPath c.path
  path_eq : cmp.path = (c.path.splitOn '.').map String.ofList
  op : opOf (toLowerCase c.op) = some cmp.op
  value : if cmp.op = .op .EXISTS then c.value = none ∧ cmp.value = none
    else ∃ token value, c.value = some token ∧ parseValue token = .ok value ∧ cmp.value = some value

/-- A further clause is read, with `and` before it. -/
def ReadsNext (r : List Char × ClauseText) (cmp : Comparison) : Prop := toLowerCase r.1 = "and" ∧ r.2.Reads cmp

/-- The filter is read as the comparisons. -/
inductive FilterText.Reads (f : FilterText) : List Comparison → Prop
  | mk {cmp : Comparison} {rest : List Comparison} (first : f.first.Reads cmp)
      (next : List.Forall₂ ReadsNext f.rest rest) : f.Reads (cmp :: rest)

theorem comparisons_nodeOf (cs : List Comparison) : (nodeOf cs).comparisons = cs := by
  unfold nodeOf
  split <;> rfl

theorem parseClause_reads {c : ClauseText} {cmp : Comparison} (h : c.Reads cmp) (rest : List (List Char)) :
    parseClause (c.tokens ++ rest) = .ok (cmp, rest) := by
  obtain ⟨path, op, value⟩ := c
  obtain ⟨op', path', value'⟩ := cmp
  obtain ⟨hpath, hsplit, hop, hvalue⟩ := h
  simp only at hpath hsplit hop hvalue
  unfold ClauseText.tokens
  simp only [List.cons_append, parseClause, hpath, hop, Bool.not_true, Bool.false_eq_true, if_false]
  split at hvalue
  · rename_i hexists
    obtain ⟨rfl, rfl⟩ := hvalue
    rw [if_pos hexists, hsplit]
    rfl
  · rename_i hexists
    obtain ⟨token, value, rfl, hparse, rfl⟩ := hvalue
    rw [if_neg hexists, hsplit]
    simp only [Option.toList_some, List.cons_append, List.nil_append, hparse]
    rfl

theorem reads_of_parseClause {tokens rest : List (List Char)} {cmp : Comparison}
    (h : parseClause tokens = .ok (cmp, rest)) : ∃ c : ClauseText, c.Reads cmp ∧ tokens = c.tokens ++ rest := by
  unfold parseClause at h
  split at h
  · simp [throw, throwThe, MonadExceptOf.throw] at h
  · rename_i path tokens
    split at h
    · simp [throw, throwThe, MonadExceptOf.throw] at h
    · rename_i hpath
      have hpath : testPath path := by simpa using hpath
      split at h
      · simp [throw, throwThe, MonadExceptOf.throw] at h
      · rename_i op tokens
        split at h
        · simp [throw, throwThe, MonadExceptOf.throw] at h
        · rename_i op' hop
          simp only at h
          split at h
          · rename_i hexists
            obtain ⟨rfl, rfl⟩ := Prod.mk.inj (Except.ok.inj h)
            exact ⟨⟨path, op, none⟩, ⟨hpath, rfl, hop, by simp [hexists]⟩, rfl⟩
          · rename_i hexists
            split at h
            · simp [throw, throwThe, MonadExceptOf.throw] at h
            · rename_i token tokens
              cases hparse : parseValue token with
              | error e => simp [hparse, Except.map] at h
              | ok value =>
                rw [hparse] at h
                obtain ⟨rfl, rfl⟩ := Prod.mk.inj (Except.ok.inj h)
                exact ⟨⟨path, op, some token⟩, ⟨hpath, rfl, hop, by simp [hexists, hparse]⟩, rfl⟩

theorem tokens_ne_nil (c : ClauseText) (rest : List (List Char)) : c.tokens ++ rest ≠ [] := by
  simp [ClauseText.tokens]

theorem parseClause_round {n : Nat} {tokens : List (List Char)} {cs : List Comparison} :
    ((parseClause tokens).bind fun clause => (parseClauses n false clause.2).map (clause.1 :: ·)) = .ok cs ↔
      ∃ c cmp rest cs', ClauseText.Reads c cmp ∧ tokens = c.tokens ++ rest ∧ parseClauses n false rest = .ok cs' ∧
        cs = cmp :: cs' := by
  constructor
  · intro h
    cases hclause : parseClause tokens with
    | error e => simp [hclause, Except.bind] at h
    | ok clause =>
      obtain ⟨c, hreads, htokens⟩ := reads_of_parseClause hclause
      rw [hclause, Except.bind] at h
      cases hrest : parseClauses n false clause.2 with
      | error e => simp [hrest, Except.map] at h
      | ok cs' =>
        rw [hrest] at h
        exact ⟨c, clause.1, clause.2, cs', hreads, htokens, hrest, (Except.ok.inj h).symm⟩
  · rintro ⟨c, cmp, rest, cs', hreads, rfl, hrest, rfl⟩
    rw [parseClause_reads hreads, Except.bind, hrest]
    rfl

theorem parseClauses_nil (n : Nat) (first : Bool) : parseClauses n first [] = .ok [] := by
  cases n <;> rfl

theorem parseClauses_cons (n : Nat) (first : Bool) (token : List Char) (tokens : List (List Char)) :
    parseClauses (n + 1) first (token :: tokens) =
      if !first && toLowerCase token != "and" then
        throw ⟨"expected \"and\" between clauses, got: " ++ String.ofList token ++
          " (or, not, and parentheses are not supported)"⟩
      else
        (parseClause (if first then token :: tokens else tokens)).bind fun clause =>
          (parseClauses n false clause.2).map (clause.1 :: ·) := rfl

theorem restTokens_cons (r : List Char × ClauseText) (rest : List (List Char × ClauseText)) :
    restTokens (r :: rest) = r.1 :: (r.2.tokens ++ restTokens rest) := rfl

theorem parseClauses_done {n : Nat} {cs : List Comparison} :
    parseClauses n false [] = .ok cs ↔ ∃ rest, [] = restTokens rest ∧ List.Forall₂ ReadsNext rest cs := by
  rw [parseClauses_nil]
  constructor
  · intro h
    obtain rfl := Except.ok.inj h
    exact ⟨[], rfl, .nil⟩
  · rintro ⟨rest, hrest, hreads⟩
    cases hreads with
    | nil => rfl
    | cons => simp [restTokens_cons] at hrest

theorem parseClauses_next {n : Nat} {tokens : List (List Char)} {cs : List Comparison} (hn : tokens.length ≤ n) :
    parseClauses n false tokens = .ok cs ↔ ∃ rest, tokens = restTokens rest ∧ List.Forall₂ ReadsNext rest cs := by
  induction n generalizing tokens cs with
  | zero =>
    obtain rfl := List.length_eq_zero_iff.1 (Nat.le_zero.1 hn)
    exact parseClauses_done
  | succ n ih =>
    cases tokens with
    | nil => exact parseClauses_done
    | cons token tokens =>
      rw [parseClauses_cons]
      constructor
      · intro h
        split at h
        · simp [throw, throwThe, MonadExceptOf.throw] at h
        · rename_i hand
          obtain ⟨c, cmp, rest, cs', hreads, htokens, hrest, rfl⟩ := parseClause_round.1 h
          simp only [Bool.false_eq_true, if_false] at htokens
          subst htokens
          have hlength : rest.length ≤ n := by
            simp only [List.length_cons, List.length_append] at hn
            omega
          obtain ⟨next, rfl, hnext⟩ := (ih hlength).1 hrest
          exact ⟨(token, c) :: next, rfl, .cons ⟨by simpa using hand, hreads⟩ hnext⟩
      · rintro ⟨rest, hrest, hreads⟩
        cases hreads with
        | nil => simp [restTokens] at hrest
        | @cons r cmp next cs' hr hnext =>
          rw [restTokens_cons] at hrest
          obtain ⟨rfl, rfl⟩ := List.cons.inj hrest
          rw [if_neg (by simp [hr.1])]
          simp only [Bool.false_eq_true, if_false]
          have hlength : (restTokens next).length ≤ n := by
            simp only [List.length_cons, List.length_append] at hn
            omega
          exact parseClause_round.2 ⟨r.2, cmp, restTokens next, cs', hr.2, rfl, (ih hlength).2 ⟨next, rfl, hnext⟩, rfl⟩

theorem parseClauses_first {tokens : List (List Char)} {cs : List Comparison} (hne : tokens ≠ []) :
    parseClauses tokens.length true tokens = .ok cs ↔ ∃ f : FilterText, tokens = f.tokens ∧ f.Reads cs := by
  obtain ⟨token, tokens, rfl⟩ := List.exists_cons_of_ne_nil hne
  rw [List.length_cons, parseClauses_cons, if_neg (by simp), if_pos rfl, parseClause_round]
  have hlength : ∀ {c : ClauseText} {rest : List (List Char)}, token :: tokens = c.tokens ++ rest →
      rest.length ≤ tokens.length := by
    intro c rest h
    have hcount := congrArg List.length h
    simp only [ClauseText.tokens, List.length_cons, List.length_append] at hcount
    omega
  constructor
  · rintro ⟨c, cmp, rest, cs', hreads, htokens, hrest, rfl⟩
    obtain ⟨next, rfl, hnext⟩ := (parseClauses_next (hlength htokens)).1 hrest
    exact ⟨⟨c, next⟩, htokens, ⟨hreads, hnext⟩⟩
  · rintro ⟨⟨c, next⟩, htokens, hreads⟩
    cases hreads with
    | @mk cmp cs' hfirst hnext =>
      exact ⟨c, cmp, restTokens next, cs', hfirst, htokens, (parseClauses_next (hlength htokens)).2 ⟨next, rfl, hnext⟩,
        rfl⟩

/-- **What the parser accepts**, in terms of the tokens. -/
theorem parseFilterString_eq_ok {input : String} {node : Node} :
    parseFilterString input = .ok node ↔
      ∃ (f : FilterText) (cs : List Comparison),
        tokenize (trim input).toList = f.tokens ∧ f.Reads cs ∧ node = nodeOf cs := by
  unfold parseFilterString
  simp only
  by_cases hblank : trim input = ""
  · rw [if_pos hblank, hblank]
    constructor
    · simp [throw, throwThe, MonadExceptOf.throw]
    · rintro ⟨f, cs, htokens, -⟩
      exact absurd htokens.symm (tokens_ne_nil f.first _)
  · rw [if_neg hblank]
    constructor
    · intro h
      cases hclauses : parseClauses (tokenize (trim input).toList).length true (tokenize (trim input).toList) with
      | error e => simp [hclauses, Except.bind] at h
      | ok cs =>
        rw [hclauses, Except.bind] at h
        split at h
        · simp [throw, throwThe, MonadExceptOf.throw] at h
        · rename_i hne
          have htokens : tokenize (trim input).toList ≠ [] := fun hnil => by
            rw [hnil, parseClauses_nil] at hclauses
            exact hne (Except.ok.inj hclauses).symm
          obtain ⟨f, hf, hreads⟩ := (parseClauses_first htokens).1 hclauses
          exact ⟨f, cs, hf, hreads, (Except.ok.inj h).symm⟩
    · rintro ⟨f, cs, htokens, hreads, rfl⟩
      have hne : tokenize (trim input).toList ≠ [] := fun hnil =>
        tokens_ne_nil f.first _ (htokens.symm.trans hnil)
      have hcs : cs ≠ [] := by
        cases hreads
        simp
      rw [(parseClauses_first hne).2 ⟨f, htokens, hreads⟩, Except.bind, if_neg hcs]
      rfl

end Provisioning.Http
