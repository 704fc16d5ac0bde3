import Provisioning.Http.FilterGrammar

/-!
# Printing a filter

The text of a list of clauses. The parser makes the same clauses of it.
-/

namespace Provisioning.Http

open Lib Lib.Numeral

/-! ## Text -/

/-- A value with a text. The integers are those that a double has. -/
inductive Literal where
  | string (s : String)
  | boolean (b : Bool)
  | integer (n : Int) (exact : Double.Exact n.natAbs)

def escapeChar (c : Char) : List Char := if c = '\\' ∨ c = '"' then ['\\', c] else [c]

def escape (s : List Char) : List Char := s.flatMap escapeChar

namespace Literal

def text : Literal → List Char
  | string s => '"' :: (escape s.toList ++ ['"'])
  | boolean b => (if b then "true" else "false").toList
  | integer n _ => if n < 0 then '-' :: Nat.toDigits 10 n.natAbs else Nat.toDigits 10 n.natAbs

def value : Literal → FilterValue
  | string s => .string s
  | boolean b => .boolean b
  | integer n _ => .number (.finite n)

end Literal

/-- A clause that is written down. `keyword` is the keyword of the operator, in any letter case. -/
structure Clause where
  path : List String
  op : Op
  keyword : String
  value : Option Literal
  path_ne : path ≠ []
  path_idents : ∀ i ∈ path, isIdent i.toList
  keyword_op : (toLowerCase keyword.toList, op) ∈ OP_KEYWORDS
  value_iff : value = none ↔ op = .EXISTS

namespace Clause

def pathText (c : Clause) : List Char := ['.'].intercalate (c.path.map String.toList)

def text (c : Clause) : List Char :=
  c.pathText ++ ' ' :: c.keyword.toList ++ match c.value with
    | none => []
    | some v => ' ' :: v.text

def comparison (c : Clause) : Comparison := ⟨.op c.op, c.path, c.value.map Literal.value⟩

end Clause

/-- The text of the clauses. -/
def render (clauses : List Clause) : String := String.ofList (" and ".toList.intercalate (clauses.map Clause.text))

/-! ## Values -/

section Values

variable {escapable : Char → Prop}

theorem escape_units (s : List Char) : Units OnLine (escape s) := by
  induction s with
  | nil => exact .nil
  | cons c s ih =>
    unfold escape escapeChar
    rw [List.flatMap_cons]
    split
    · rename_i hc
      refine .escape ?_ ih
      rcases hc with rfl | rfl <;> unfold OnLine <;> decide
    · rename_i hc
      rw [not_or] at hc
      exact .plain hc.2 hc.1 ih

theorem unescape_escape (s : List Char) : unescape (escape s) = s := by
  induction s with
  | nil => rfl
  | cons c s ih =>
    have hflat : escape (c :: s) = escapeChar c ++ escape s := rfl
    rw [hflat]
    unfold escapeChar
    split
    · rename_i hc
      have hline : ¬ isLineTerminator c := by rcases hc with rfl | rfl <;> decide
      rw [List.cons_append, List.cons_append, List.nil_append, unescape, if_pos rfl, if_neg hline, ih]
    · rename_i hc
      rw [not_or] at hc
      rw [List.cons_append, List.nil_append, unescape.eq_def]
      simp only [if_neg hc.1, ih]

theorem digits_toDigits (n : Nat) : Digits (Nat.toDigits 10 n) :=
  ⟨Nat.toDigits_ne_nil, fun _ hc => Nat.isDigit_of_mem_toDigits (by decide) (by decide) hc⟩

theorem number_integer (n : Int) (exact : Double.Exact n.natAbs) :
    number (Literal.integer n exact).text = .finite n ∧ Decimal (Literal.integer n exact).text := by
  have hdigits := digits_toDigits n.natAbs
  have hvalue : Nat.ofDigitChars 10 (Nat.toDigits 10 n.natAbs) 0 = n.natAbs := Nat.ofDigitChars_ten_toDigits
  unfold Literal.text
  simp only
  split
  · rename_i hneg
    constructor
    · have habs : (n.natAbs : Int) = -n := by omega
      have hcast : (n.natAbs : ℚ) = -n := by rw [← Int.cast_natCast, habs, Int.cast_neg]
      rw [number_minus hdigits (by rwa [hvalue]) (by omega), hvalue, hcast, neg_neg]
    · exact ⟨['-'], _, [], [], by simp, .inr (.inr rfl), hdigits, .inl rfl, .inl rfl⟩
  · rename_i hpos
    constructor
    · have habs : (n.natAbs : Int) = n := by omega
      have hcast : (n.natAbs : ℚ) = n := by rw [← Int.cast_natCast, habs]
      rw [number_digits hdigits (by rwa [hvalue]), hvalue, hcast]
    · exact ⟨[], _, [], [], by simp, .inl rfl, hdigits, .inl rfl, .inl rfl⟩

theorem Literal.parseValue_text (v : Literal) : parseValue v.text = .ok v.value := by
  cases v with
  | string s =>
    have hinside : (Literal.string s).text.tail.dropLast = escape s.toList := by
      unfold Literal.text
      rw [List.tail_cons, List.dropLast_concat]
    have hends : (Literal.string s).text.head? = some '"' ∧ (Literal.string s).text.getLast? = some '"' ∧
        2 ≤ (Literal.string s).text.length := by
      have hquoted : Quoted OnLine (Literal.string s).text := ⟨_, escape_units s.toList, rfl⟩
      exact ⟨hquoted.head?, hquoted.ends⟩
    unfold parseValue
    rw [if_pos hends.1, if_neg, hinside, unescape_escape, String.ofList_toList]
    · rfl
    · rw [not_or, not_not]
      exact ⟨hends.2.1, by omega⟩
  | boolean b => cases b <;> rfl
  | integer n exact =>
    obtain ⟨hnumber, hdecimal⟩ := number_integer n exact
    have hnan : number (Literal.integer n exact).text ≠ .nan := by rw [hnumber]; simp
    have hword : ∀ word, number word = .nan → (Literal.integer n exact).text ≠ word := fun word hword heq =>
      hnan (heq ▸ hword)
    unfold parseValue
    rw [if_neg (numeral_head (.inl hdecimal)), if_neg (hword _ (by decide)), if_neg (hword _ (by decide)),
      if_neg (not_or.2 ⟨hnan, numeral_ne_nil (.inl hdecimal)⟩), hnumber]
    rfl

theorem Literal.token (v : Literal) : Clean v.text ∨ Quoted OnLine v.text := by
  cases v with
  | string s => exact .inr ⟨_, escape_units s.toList, rfl⟩
  | boolean b => cases b <;> exact .inl (clean_of_all (by decide))
  | integer n exact => exact .inl (numeral_clean (.inl (number_integer n exact).2))

end Values

/-! ## Clauses -/

namespace Clause

def clauseText (c : Clause) : ClauseText := ⟨c.pathText, c.keyword.toList, c.value.map Literal.text⟩

theorem isPath (c : Clause) : IsPath c.pathText := by
  refine ⟨c.path.map String.toList, by simpa using c.path_ne, fun i hi => ?_, rfl⟩
  obtain ⟨ident, hident, rfl⟩ := List.mem_map.1 hi
  exact c.path_idents ident hident

theorem reads (c : Clause) : c.clauseText.Reads c.comparison := by
  have hop : ∀ p ∈ OP_KEYWORDS, opOf p.1 = some (.op p.2) := by decide
  refine ⟨testPath_iff.2 c.isPath, ?_, hop _ c.keyword_op, ?_⟩
  · have hsplit : c.pathText.splitOn '.' = c.path.map String.toList :=
      splitOn_path (by simpa using c.path_ne) fun i hi => by
        obtain ⟨ident, hident, rfl⟩ := List.mem_map.1 hi
        exact c.path_idents ident hident
    rw [clauseText, hsplit, List.map_map]
    simp [comparison, Function.comp_def]
  · have hvalue := c.value_iff
    unfold clauseText comparison
    cases hc : c.value with
    | none =>
      rw [if_pos (by rw [hvalue.1 hc])]
      exact ⟨rfl, rfl⟩
    | some v =>
      rw [if_neg (fun hexists => by simp [hvalue.2 (OpValue.op.inj hexists)] at hc)]
      exact ⟨v.text, v.value, rfl, v.parseValue_text, rfl⟩

theorem keyword_clean (c : Clause) : Clean c.keyword.toList := by
  have hall : ∀ p ∈ OP_KEYWORDS, p.1 ∈ "and" :: "pr" :: (valueKeywords ++ inheritedKeywords) := by decide
  exact Http.keyword_clean (hall _ c.keyword_op)

theorem tokens (c : Clause) : ∀ token ∈ c.clauseText.tokens, Clean token ∨ Quoted OnLine token := by
  refine List.forall_mem_cons.2 ⟨.inl (isPath_clean c.isPath), List.forall_mem_cons.2 ⟨.inl c.keyword_clean, ?_⟩⟩
  intro token htoken
  obtain ⟨v, -, rfl⟩ : ∃ v, c.value = some v ∧ v.text = token := by simpa [clauseText] using htoken
  exact v.token

end Clause

/-! ## One space between the tokens -/

/-- The tokens with one space between them. -/
def spaced : List (List Char) → Cutting
  | [] => []
  | [token] => [(token, [])]
  | token :: rest => (token, [' ']) :: spaced rest

theorem spaced_cons (token : List Char) {rest : List (List Char)} (h : rest ≠ []) :
    spaced (token :: rest) = (token, [' ']) :: spaced rest := by
  cases rest with
  | nil => exact absurd rfl h
  | cons => rfl

theorem spaced_ne_nil {rest : List (List Char)} (h : rest ≠ []) : spaced rest ≠ [] := by
  obtain ⟨token, rest, rfl⟩ := List.exists_cons_of_ne_nil h
  cases rest <;> simp [spaced]

theorem textOf_spaced (tokens : List (List Char)) : textOf (spaced tokens) = [' '].intercalate tokens := by
  induction tokens using spaced.induct with
  | case1 => rfl
  | case2 token => simp [spaced, textOf]
  | case3 token rest h ih =>
    rw [spaced_cons token h, textOf_cons, ih, List.intercalate_cons_of_ne_nil h, List.append_assoc]

theorem tokensOf_spaced (tokens : List (List Char)) : tokensOf (spaced tokens) = tokens := by
  induction tokens using spaced.induct with
  | case1 => rfl
  | case2 token => rfl
  | case3 token rest h ih =>
    rw [spaced_cons token h]
    exact congrArg (token :: ·) ih

theorem separated_spaced (tokens : List (List Char)) : Separated (spaced tokens) := by
  induction tokens using spaced.induct with
  | case1 => trivial
  | case2 token => rfl
  | case3 token rest h ih =>
    rw [spaced_cons token h]
    cases hspaced : spaced rest with
    | nil => exact absurd hspaced (spaced_ne_nil h)
    | cons piece pieces =>
      rw [hspaced] at ih
      refine ⟨by simp, fun c hc => ?_, ih⟩
      obtain rfl : c = ' ' := by simpa using hc
      decide

theorem getLast?_token {token : List Char} (h : Clean token ∨ Quoted OnLine token) :
    ∀ c ∈ token.getLast?, ¬ isSpace c := by
  intro c hc
  rcases h with hclean | hquoted
  · exact (hclean.2 c (List.mem_of_getLast? hc)).1
  · rw [hquoted.ends.1] at hc
    obtain rfl := Option.some.inj hc
    decide

theorem getLast?_textOf {tokens : List (List Char)} (h : ∀ token ∈ tokens, Clean token ∨ Quoted OnLine token) :
    ∀ c ∈ (textOf (spaced tokens)).getLast?, ¬ isSpace c := by
  induction tokens with
  | nil => simp [spaced, textOf]
  | cons token rest ih =>
    obtain ⟨htoken, hrest⟩ := List.forall_mem_cons.1 h
    by_cases hnil : rest = []
    · subst hnil
      simpa [spaced, textOf] using getLast?_token htoken
    · have hcut : Cut (spaced rest) := (separated_spaced rest).cut (by rwa [tokensOf_spaced])
      have hne : textOf (spaced rest) ≠ [] := fun htext => spaced_ne_nil hnil (hcut.eq_nil htext)
      rw [spaced_cons token hnil, textOf_cons, ← List.append_assoc, List.getLast?_append_of_ne_nil _ hne]
      exact ih hrest

theorem trim_eq_self {text : List Char} (hhead : ∀ c ∈ text.head?, ¬ isSpace c)
    (hlast : ∀ c ∈ text.getLast?, ¬ isSpace c) : (trim (String.ofList text)).toList = text := by
  have hdrop : text.dropWhile isSpace = text := by
    cases text with
    | nil => rfl
    | cons c text => exact List.dropWhile_cons_of_neg (hhead c rfl)
  rw [trim_toList, String.toList_ofList, hdrop]
  exact List.rdropWhile_eq_self_iff.2 fun hne => hlast _ (by rw [List.getLast?_eq_some_getLast hne]; rfl)

/-! ## Filters -/

/-- The clauses as the parser finds them. -/
def filterText (c : Clause) (rest : List Clause) : FilterText :=
  ⟨c.clauseText, rest.map fun c => ("and".toList, c.clauseText)⟩

theorem filterText_tokens (c d : Clause) (rest : List Clause) :
    (filterText c (d :: rest)).tokens = c.clauseText.tokens ++ "and".toList :: (filterText d rest).tokens := rfl

theorem intercalate_append {sep : List Char} {l r : List (List Char)} (hl : l ≠ []) (hr : r ≠ []) :
    sep.intercalate (l ++ r) = sep.intercalate l ++ (sep ++ sep.intercalate r) := by
  induction l with
  | nil => exact absurd rfl hl
  | cons a l ih =>
    by_cases hnil : l = []
    · subst hnil
      rw [List.singleton_append, List.intercalate_cons_of_ne_nil hr, List.intercalate_singleton, List.append_assoc]
    · rw [List.cons_append, List.intercalate_cons_of_ne_nil (by simp [hnil]), ih hnil,
        List.intercalate_cons_of_ne_nil hnil]
      simp only [List.append_assoc]

theorem Clause.text_eq (c : Clause) : c.text = [' '].intercalate c.clauseText.tokens := by
  unfold Clause.text Clause.clauseText ClauseText.tokens
  cases c.value with
  | none => simp [List.intercalate_cons_cons]
  | some v => simp [List.intercalate_cons_cons]

theorem render_eq (c : Clause) (rest : List Clause) :
    (render (c :: rest)).toList = [' '].intercalate (filterText c rest).tokens := by
  unfold render
  rw [String.toList_ofList]
  induction rest generalizing c with
  | nil =>
    have htokens : (filterText c []).tokens = c.clauseText.tokens := List.append_nil _
    rw [htokens, ← c.text_eq, List.map_cons, List.map_nil, List.intercalate_singleton]
  | cons d rest ih =>
    have hne : (filterText d rest).tokens ≠ [] := tokens_ne_nil _ _
    have hclause : c.clauseText.tokens ≠ [] := by simp [ClauseText.tokens]
    rw [List.map_cons, List.intercalate_cons_of_ne_nil (by simp), ih d, filterText_tokens,
      intercalate_append hclause (by simp), List.intercalate_cons_of_ne_nil hne, c.text_eq]
    simp

theorem filterText_reads (c : Clause) (rest : List Clause) :
    (filterText c rest).Reads ((c :: rest).map Clause.comparison) := by
  refine .mk c.reads ?_
  unfold filterText
  induction rest with
  | nil => exact .nil
  | cons d rest ih =>
    have hand : toLowerCase "and".toList = "and" := by decide
    exact .cons ⟨hand, d.reads⟩ ih

theorem filterText_token (c : Clause) (rest : List Clause) :
    ∀ token ∈ (filterText c rest).tokens, Clean token ∨ Quoted OnLine token := by
  induction rest generalizing c with
  | nil =>
    have htokens : (filterText c []).tokens = c.clauseText.tokens := List.append_nil _
    rw [htokens]
    exact c.tokens
  | cons d rest ih =>
    rw [filterText_tokens]
    exact List.forall_mem_append.2 ⟨c.tokens, List.forall_mem_cons.2 ⟨.inl (clean_of_all (by decide)), ih d⟩⟩

/-- **Printing and then parsing is the identity**, for every letter case of the keywords. -/
theorem parseFilterString_render (clauses : List Clause) (hne : clauses ≠ []) :
    parseFilterString (render clauses) = .ok (nodeOf (clauses.map Clause.comparison)) := by
  obtain ⟨c, rest, rfl⟩ := List.exists_cons_of_ne_nil hne
  have htokens := filterText_token c rest
  have hcut : Cut (spaced (filterText c rest).tokens) :=
    (separated_spaced _).cut fun token htoken => htokens token (by rwa [tokensOf_spaced] at htoken)
  have htrim : (trim (render (c :: rest))).toList = textOf (spaced (filterText c rest).tokens) := by
    have htext : render (c :: rest) = String.ofList (textOf (spaced (filterText c rest).tokens)) := by
      rw [textOf_spaced, ← render_eq, String.ofList_toList]
    rw [htext, trim_eq_self hcut.head? (getLast?_textOf htokens)]
  refine parseFilterString_eq_ok.2 ⟨filterText c rest, _, ?_, filterText_reads c rest, rfl⟩
  rw [htrim, tokenize_of_cut hcut, tokensOf_spaced]

/-- `name.givenName Eq "say \"hi\" and go"`, printed. -/
def quotingClause : Clause :=
  ⟨["name", "givenName"], .EQ, "Eq", some (.string "say \"hi\" and go"), by decide, by decide, by decide, by decide⟩

/-- `active pR`, printed. -/
def presentClause : Clause := ⟨["active"], .EXISTS, "pR", none, by decide, by decide, by decide, by decide⟩

theorem parseFilterString_render_quoting :
    parseFilterString (render [quotingClause, presentClause]) =
      .ok (.and [⟨.op .EQ, ["name", "givenName"], some (.string "say \"hi\" and go")⟩,
        ⟨.op .EXISTS, ["active"], none⟩]) :=
  parseFilterString_render [quotingClause, presentClause] (by simp)

end Provisioning.Http
