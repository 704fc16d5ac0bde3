import Provisioning.Http.FilterClauses

/-!
# The documented grammar of a filter

The parser is compared with the grammar of its header. It also accepts some texts that are no filters, and
refuses filters with a certain escape.
-/

namespace Provisioning.Http

open Lib Lib.Numeral

/-! ## The grammar -/

/-- Identifiers that points join. -/
def IsPath (token : List Char) : Prop :=
  ∃ idents : List (List Char), idents ≠ [] ∧ (∀ i ∈ idents, isIdent i) ∧ token = ['.'].intercalate idents

/-- The keywords of the operators that take a value. -/
def valueKeywords : List String := ["eq", "co", "sw", "ew", "gt", "ge", "lt", "le"]

def DocumentedValue (token : List Char) : Prop :=
  Quoted (fun _ => True) token ∨ token = "true".toList ∨ token = "false".toList ∨ Decimal token

/-- A clause with `pr` or one of the keywords, which have such values. -/
structure ClauseText.Has (keywords : List String) (value : List Char → Prop) (c : ClauseText) : Prop where
  path : IsPath c.path
  op : (toLowerCase c.op = "pr" ∧ c.value = none) ∨
    (toLowerCase c.op ∈ keywords ∧ ∃ token, c.value = some token ∧ value token)

structure FilterText.Has (keywords : List String) (value : List Char → Prop) (f : FilterText) : Prop where
  clauses : ∀ c ∈ f.clauses, c.Has keywords value
  ands : ∀ r ∈ f.rest, toLowerCase r.1 = "and"

/-- There is white space between the tokens. -/
def Separated : Cutting → Prop
  | [] => True
  | [piece] => piece.2 = []
  | piece :: rest => piece.2 ≠ [] ∧ Spaces piece.2 ∧ Separated rest

/-- The input is read as the filter by the documented grammar. -/
structure Documented (input : String) (cut : Cutting) (f : FilterText) : Prop where
  text : textOf cut = (trim input).toList
  separated : Separated cut
  tokens : tokensOf cut = f.tokens
  has : f.Has valueKeywords DocumentedValue

/-- The parser keeps to its grammar: it accepts the filters and nothing else, and builds comparisons with
operators only. -/
structure Conforms (input : String) : Prop where
  accepts : (∃ node, parseFilterString input = .ok node) ↔ ∃ cut f, Documented input cut f
  ops : ∀ node, parseFilterString input = .ok node → ∀ c ∈ node.comparisons, ∃ op, c.op = .op op

/-! ## What is accepted -/

/-- The properties of every object whose names have no capitals. -/
def inheritedKeywords : List String := ["constructor", "__proto__"]

/-- A token that begins with a quote, and ends with one that is escaped. -/
def Unterminated (token : List Char) : Prop := ∃ body, Units OnLine body ∧ token = '"' :: (body ++ ['\\', '"'])

def AcceptedValue (token : List Char) : Prop := DocumentedValue token ∨ NonDecimal token ∨ Unterminated token

/-- The input is read as the filter in the wider sense. -/
structure Accepted (input : String) (cut : Cutting) (f : FilterText) : Prop where
  text : textOf cut = (trim input).toList
  cuts : Cut cut
  tokens : tokensOf cut = f.tokens
  has : f.Has (valueKeywords ++ inheritedKeywords) AcceptedValue

/-- What is no part of the grammar: a token right after a string, a property for an operator, a numeral that is
no decimal number, and a string whose last quote is escaped. -/
inductive Faulty (cut : Cutting) (f : FilterText) : Prop
  | glued {before after : Cutting} {piece next : List Char × List Char} (h : cut = before ++ piece :: next :: after)
      (hglued : piece.2 = [])
  | inherited {c : ClauseText} (hc : c ∈ f.clauses) (hop : toLowerCase c.op ∈ inheritedKeywords)
  | numeral {c : ClauseText} {token : List Char} (hc : c ∈ f.clauses) (hvalue : c.value = some token)
      (h : NonDecimal token)
  | unterminated {c : ClauseText} {token : List Char} (hc : c ∈ f.clauses) (hvalue : c.value = some token)
      (h : Unterminated token)

/-- A string in which a backslash escapes a line terminator. -/
def EscapesTerminator (cut : Cutting) : Prop :=
  ∃ token ∈ tokensOf cut, Quoted (fun _ => True) token ∧ ¬ Quoted OnLine token

/-! ## Paths and operators -/

theorem no_point {ident : List Char} (h : isIdent ident) : '.' ∉ ident := by
  unfold isIdent at h
  split at h
  · simp
  · rename_i c rest
    rw [Bool.and_eq_true] at h
    rintro hmem
    rcases List.mem_cons.1 hmem with rfl | hmem
    · exact absurd h.1 (by decide)
    · exact absurd (List.all_eq_true.1 h.2 _ hmem) (by decide)

theorem splitOn_path {idents : List (List Char)} (hne : idents ≠ []) (h : ∀ i ∈ idents, isIdent i) :
    (['.'].intercalate idents).splitOn '.' = idents :=
  List.splitOn_intercalate '.' (fun i hi => no_point (h i hi)) hne

theorem testPath_iff {token : List Char} : testPath token ↔ IsPath token := by
  unfold testPath
  rw [List.all_eq_true]
  constructor
  · intro h
    exact ⟨token.splitOn '.', List.splitOn_ne_nil '.' token, h, (List.intercalate_splitOn ..).symm⟩
  · rintro ⟨idents, hne, h, rfl⟩
    rwa [splitOn_path hne h]

theorem opOf_pr : opOf "pr" = some (.op .EXISTS) := by decide

theorem opOf_value : ∀ key ∈ valueKeywords, (opOf key).any fun v => v ≠ .op .EXISTS := by decide

theorem opOf_inherited : ∀ key ∈ inheritedKeywords, opOf key = some (.inherited key) := by decide

theorem opOf_cases {key : String} {op : OpValue} (h : opOf key = some op) :
    (key = "pr" ∧ op = .op .EXISTS) ∨ (key ∈ valueKeywords ∧ ∃ o, op = .op o) ∨
      (key ∈ objectPrototype ∧ op = .inherited key) := by
  have hall : ∀ p ∈ OP_KEYWORDS, p = ("pr", .EXISTS) ∨ p.1 ∈ valueKeywords := by decide
  unfold opOf at h
  split at h
  · rename_i o hlookup
    obtain rfl := Option.some.inj h
    obtain ⟨l, l', hmem, -⟩ := List.lookup_eq_some_iff.1 hlookup
    rcases hall (key, o) (by simp [hmem]) with heq | hvalue
    · obtain ⟨rfl, rfl⟩ := Prod.mk.inj heq
      exact .inl ⟨rfl, rfl⟩
    · exact .inr (.inl ⟨hvalue, o, rfl⟩)
  · split at h
    · rename_i hmem
      exact .inr (.inr ⟨hmem, (Option.some.inj h).symm⟩)
    · simp at h

theorem isUpper_toLower (c : Char) : ¬ c.toLower.isUpper := by
  unfold Char.toLower
  split
  · rename_i h
    have hge : 65 ≤ c.val.toNat := UInt32.le_iff_toNat_le.1 h.1
    have hle : c.val.toNat ≤ 90 := UInt32.le_iff_toNat_le.1 h.2
    have hshift : ('a'.val - 'A'.val).toNat = 32 := rfl
    have hlast : 'Z'.val.toNat = 90 := rfl
    simp only [isUpper_iff, not_and, UInt32.le_iff_toNat_le, UInt32.toNat_add]
    omega
  · rename_i h
    rwa [isUpper_iff]

theorem inherited_of_lower {token : List Char} (h : toLowerCase token ∈ objectPrototype) :
    toLowerCase token ∈ inheritedKeywords := by
  have hall : ∀ key ∈ objectPrototype, (key.toList.all fun c => !c.isUpper) → key ∈ inheritedKeywords := by decide
  refine hall _ h (List.all_eq_true.2 fun c hc => ?_)
  unfold toLowerCase at hc
  rw [String.toList_ofList] at hc
  obtain ⟨c, -, rfl⟩ := List.mem_map.1 hc
  rw [Bool.not_eq_eq_eq_not, Bool.not_true, ← Bool.not_eq_true]
  exact isUpper_toLower c

/-! ## Values -/

/-- The tokens that `tokenize` cuts. -/
def CutToken (token : List Char) : Prop :=
  Quoted OnLine token ∨ (Word token ∧ (token.head? = some '"' → ∃ more, Unclosed (token.tail ++ more)))

theorem Cut.tokens {cut : Cutting} (h : Cut cut) : ∀ token ∈ tokensOf cut, CutToken token := by
  induction h with
  | nil => simp [tokensOf]
  | quoted htoken hws h ih => exact List.forall_mem_cons.2 ⟨.inl htoken, ih⟩
  | run htoken hws hend hopen h ih => exact List.forall_mem_cons.2 ⟨.inr ⟨htoken, fun hq => ⟨_, hopen hq⟩⟩, ih⟩

section Values

variable {escapable other : Char → Prop} {body token more : List Char}

theorem Units.mono (himp : ∀ c, escapable c → other c) (h : Units escapable body) : Units other body := by
  induction h with
  | nil => exact .nil
  | plain hquote hbackslash h ih => exact .plain hquote hbackslash ih
  | escape hc h ih => exact .escape (himp _ hc) ih

theorem Units.of_plain {c : Char} (hc : c ≠ '\\') (h : Units escapable (c :: body)) : Units escapable body := by
  cases h with
  | plain hquote hbackslash h => exact h
  | escape => exact absurd rfl hc

theorem Units.of_escape {c : Char} (h : Units escapable ('\\' :: c :: body)) : Units escapable body := by
  cases h with
  | plain hquote hbackslash h => exact absurd rfl hbackslash
  | escape hc h => exact h

theorem Quoted.mono (himp : ∀ c, escapable c → other c) (h : Quoted escapable token) : Quoted other token := by
  obtain ⟨body, hbody, rfl⟩ := h
  exact ⟨body, hbody.mono himp, rfl⟩

theorem isSpace_of_lineTerminator {c : Char} (h : isLineTerminator c) : isSpace c := by
  simp only [isLineTerminator, isSpace, decide_eq_true_eq] at *
  simp at *
  tauto

/-- No quote closes the text, so a quote at its end is escaped. -/
theorem escaped_quote {text : List Char} (hspaces : ∀ c ∈ text, ¬ isSpace c) (hopen : Unclosed (text ++ more))
    (hlast : text.getLast? = some '"') : ∃ body, Units OnLine body ∧ text = body ++ ['\\', '"'] := by
  induction hn : text.length using Nat.strong_induction_on generalizing text with
  | _ n ih =>
    subst hn
    rcases text with _ | ⟨c, text⟩
    · simp at hlast
    by_cases hquote : c = '"'
    · exact absurd (by rw [hquote]; rfl) (hopen [] (text ++ more) .nil)
    by_cases hbackslash : c = '\\'
    · subst hbackslash
      rcases text with _ | ⟨d, text⟩
      · simp at hlast
      have hd : OnLine d := fun hd => hspaces d (by simp) (isSpace_of_lineTerminator hd)
      by_cases hnil : text = []
      · subst hnil
        obtain rfl : d = '"' := by simpa using hlast
        exact ⟨[], .nil, rfl⟩
      · obtain ⟨body, hbody, rfl⟩ := @ih text.length (by simp only [List.length_cons]; omega) text
          (fun c hc => hspaces c (by simp [hc]))
          (fun body rest hbody heq => hopen _ rest (.escape hd hbody) (by simp [heq]))
          (by rwa [List.getLast?_cons_of_ne_nil (by simp), List.getLast?_cons_of_ne_nil hnil] at hlast) rfl
        exact ⟨_, .escape hd hbody, rfl⟩
    · have hnil : text ≠ [] := by
        rintro rfl
        exact hquote (by simpa using hlast)
      obtain ⟨body, hbody, rfl⟩ := @ih text.length (by simp) text (fun c hc => hspaces c (by simp [hc]))
        (fun body rest hbody heq => hopen _ rest (.plain hquote hbackslash hbody) (by simp [heq]))
        (by rwa [List.getLast?_cons_of_ne_nil hnil] at hlast) rfl
      exact ⟨_, .plain hquote hbackslash hbody, rfl⟩

theorem Quoted.ends (h : Quoted escapable token) : token.getLast? = some '"' ∧ 2 ≤ token.length := by
  obtain ⟨body, -, rfl⟩ := h
  rw [← List.cons_append, List.getLast?_append]
  exact ⟨rfl, by simp⟩

theorem Unterminated.ends (h : Unterminated token) :
    token.head? = some '"' ∧ token.getLast? = some '"' ∧ 2 ≤ token.length := by
  obtain ⟨body, -, rfl⟩ := h
  rw [← List.cons_append, List.getLast?_append]
  exact ⟨rfl, rfl, by simp⟩

theorem parseValue_quoted (hhead : token.head? = some '"') :
    (∃ value, parseValue token = .ok value) ↔ token.getLast? = some '"' ∧ 2 ≤ token.length := by
  unfold parseValue
  rw [if_pos hhead]
  split
  · rename_i h
    constructor
    · rintro ⟨value, hvalue⟩
      simp [throw, throwThe, MonadExceptOf.throw] at hvalue
    · rintro ⟨hlast, hlength⟩
      exact (h.elim (absurd hlast) (by omega))
  · rename_i h
    rw [not_or, not_not, not_lt] at h
    exact ⟨fun _ => h, fun _ => ⟨_, rfl⟩⟩

theorem parseValue_unquoted (hhead : token.head? ≠ some '"') :
    (∃ value, parseValue token = .ok value) ↔
      token = "true".toList ∨ token = "false".toList ∨ Decimal token ∨ NonDecimal token := by
  unfold parseValue
  rw [if_neg hhead]
  split
  · rename_i htrue
    exact ⟨fun _ => .inl htrue, fun _ => ⟨_, rfl⟩⟩
  · rename_i htrue
    split
    · rename_i hfalse
      exact ⟨fun _ => .inr (.inl hfalse), fun _ => ⟨_, rfl⟩⟩
    · rename_i hfalse
      have hnumber := @number_ne_nan token
      split
      · rename_i hnan
        constructor
        · rintro ⟨value, hvalue⟩
          simp [throw, throwThe, MonadExceptOf.throw] at hvalue
        · intro h
          have hnumeral := (h.resolve_left htrue).resolve_left hfalse
          rcases hnan with hnan | rfl
          · exact absurd hnan (hnumber.2 (.inr hnumeral))
          · exact absurd rfl (numeral_ne_nil hnumeral)
      · rename_i hnan
        rw [not_or] at hnan
        exact ⟨fun _ => .inr (.inr ((hnumber.1 hnan.1).resolve_left hnan.2)), fun _ => ⟨_, rfl⟩⟩

theorem numeral_head (h : Decimal token ∨ NonDecimal token) : token.head? ≠ some '"' := by
  intro hhead
  have hchar := numeral_chars h _ (List.mem_of_head? hhead)
  exact absurd hchar (by unfold IsNumeralChar; decide)

/-- **The values that the parser accepts.** -/
theorem parseValue_iff (htoken : CutToken token) : (∃ value, parseValue token = .ok value) ↔ AcceptedValue token := by
  by_cases hhead : token.head? = some '"'
  · rw [parseValue_quoted hhead]
    constructor
    · rintro ⟨hlast, hlength⟩
      rcases htoken with hquoted | ⟨hword, hopen⟩
      · exact .inl (.inl (hquoted.mono fun _ _ => trivial))
      · obtain ⟨more, hopen⟩ := hopen hhead
        obtain ⟨c, text, rfl⟩ := List.exists_cons_of_ne_nil hword.1
        obtain rfl : c = '"' := Option.some.inj hhead
        have hnil : text ≠ [] := fun hnil => by simp [hnil] at hlength
        rw [List.getLast?_cons_of_ne_nil hnil] at hlast
        obtain ⟨body, hbody, rfl⟩ := escaped_quote (fun c hc => hword.2 c (List.mem_cons_of_mem _ hc)) hopen hlast
        exact .inr (.inr ⟨body, hbody, rfl⟩)
    · rintro ((hquoted | rfl | rfl | hdecimal) | hnumeral | hunterminated)
      · exact hquoted.ends
      · simp at hhead
      · simp at hhead
      · exact absurd hhead (numeral_head (.inl hdecimal))
      · exact absurd hhead (numeral_head (.inr hnumeral))
      · exact hunterminated.ends.2
  · rw [parseValue_unquoted hhead]
    constructor
    · rintro (htrue | hfalse | hdecimal | hnumeral)
      · exact .inl (.inr (.inl htrue))
      · exact .inl (.inr (.inr (.inl hfalse)))
      · exact .inl (.inr (.inr (.inr hdecimal)))
      · exact .inr (.inl hnumeral)
    · rintro ((hquoted | htrue | hfalse | hdecimal) | hnumeral | hunterminated)
      · exact absurd hquoted.head? hhead
      · exact .inl htrue
      · exact .inr (.inl hfalse)
      · exact .inr (.inr (.inl hdecimal))
      · exact .inr (.inr (.inr hnumeral))
      · exact absurd hunterminated.ends.1 hhead

end Values

/-! ## Clauses -/

theorem ClauseText.reads_iff {c : ClauseText} (hcut : ∀ token, c.value = some token → CutToken token) :
    (∃ cmp, c.Reads cmp) ↔ c.Has (valueKeywords ++ inheritedKeywords) AcceptedValue := by
  constructor
  · rintro ⟨cmp, hpath, -, hop, hvalue⟩
    refine ⟨testPath_iff.1 hpath, ?_⟩
    have hvalued : cmp.op ≠ .op .EXISTS → ∃ token, c.value = some token ∧ AcceptedValue token := by
      intro hne
      rw [if_neg hne] at hvalue
      obtain ⟨token, value, htoken, hparse, -⟩ := hvalue
      exact ⟨token, htoken, (parseValue_iff (hcut token htoken)).1 ⟨value, hparse⟩⟩
    rcases opOf_cases hop with ⟨hpr, hexists⟩ | ⟨hkey, -⟩ | ⟨hkey, hinherited⟩
    · rw [if_pos hexists] at hvalue
      exact .inl ⟨hpr, hvalue.1⟩
    · refine .inr ⟨List.mem_append_left _ hkey, hvalued fun hexists => ?_⟩
      have hne := opOf_value _ hkey
      rw [hop, hexists] at hne
      exact absurd hne (by decide)
    · exact .inr ⟨List.mem_append_right _ (inherited_of_lower hkey), hvalued (by rw [hinherited]; simp)⟩
  · rintro ⟨hpath, ⟨hpr, hnone⟩ | ⟨hkey, token, htoken, hvalue⟩⟩
    · exact ⟨⟨.op .EXISTS, _, none⟩, testPath_iff.2 hpath, rfl, by rw [hpr, opOf_pr], by simp [hnone]⟩
    · obtain ⟨value, hparse⟩ := (parseValue_iff (hcut token htoken)).2 hvalue
      obtain ⟨op, hop, hne⟩ : ∃ op, opOf (toLowerCase c.op) = some op ∧ op ≠ .op .EXISTS := by
        rcases List.mem_append.1 hkey with hkey | hkey
        · obtain ⟨op, hop, hne⟩ := (Option.any_eq_true _ _).1 (opOf_value _ hkey)
          exact ⟨op, hop, by simpa using hne⟩
        · exact ⟨_, opOf_inherited _ hkey, by simp⟩
      exact ⟨⟨op, _, some value⟩, testPath_iff.2 hpath, rfl, hop, by simp [hne, htoken, hparse]⟩

theorem mem_restTokens {r : List Char × ClauseText} {rest : List (List Char × ClauseText)} {token : List Char}
    (hr : r ∈ rest) (htoken : token ∈ r.2.tokens) : token ∈ restTokens rest :=
  List.mem_flatMap.2 ⟨r, hr, List.mem_cons_of_mem _ htoken⟩

theorem FilterText.mem_tokens {f : FilterText} {c : ClauseText} {token : List Char} (hc : c ∈ f.clauses)
    (htoken : token ∈ c.tokens) : token ∈ f.tokens := by
  rcases List.mem_cons.1 hc with rfl | hc
  · exact List.mem_append_left _ htoken
  · obtain ⟨r, hr, rfl⟩ := List.mem_map.1 hc
    exact List.mem_append_right _ (mem_restTokens hr htoken)

theorem ClauseText.value_mem {c : ClauseText} {token : List Char} (h : c.value = some token) : token ∈ c.tokens := by
  simp [ClauseText.tokens, h]

theorem exists_forall₂ {α β : Type} {R : α → β → Prop} {l : List α} :
    (∃ l', List.Forall₂ R l l') ↔ ∀ a ∈ l, ∃ b, R a b := by
  induction l with
  | nil => exact ⟨by simp, fun _ => ⟨[], .nil⟩⟩
  | cons a l ih =>
    rw [List.forall_mem_cons, ← ih]
    constructor
    · rintro ⟨l', h⟩
      cases h with
      | cons ha hl => exact ⟨⟨_, ha⟩, _, hl⟩
    · rintro ⟨⟨b, hb⟩, l', hl⟩
      exact ⟨b :: l', .cons hb hl⟩

/-- **The filters that the parser accepts.** -/
theorem FilterText.reads_iff {f : FilterText} (hcut : ∀ token ∈ f.tokens, CutToken token) :
    (∃ cs, f.Reads cs) ↔ f.Has (valueKeywords ++ inheritedKeywords) AcceptedValue := by
  have hclause : ∀ c ∈ f.clauses, (∃ cmp, c.Reads cmp) ↔ c.Has (valueKeywords ++ inheritedKeywords) AcceptedValue :=
    fun c hc => c.reads_iff fun token htoken => hcut token (f.mem_tokens hc (ClauseText.value_mem htoken))
  have hrest : (∃ cs, List.Forall₂ ReadsNext f.rest cs) ↔
      ∀ r ∈ f.rest, toLowerCase r.1 = "and" ∧ r.2.Has (valueKeywords ++ inheritedKeywords) AcceptedValue := by
    rw [exists_forall₂]
    refine forall₂_congr fun r hr => ?_
    rw [← hclause r.2 (List.mem_cons_of_mem _ (List.mem_map_of_mem hr))]
    exact exists_and_left
  constructor
  · rintro ⟨cs, hreads⟩
    cases hreads with
    | mk hfirst hnext =>
      have hall := hrest.1 ⟨_, hnext⟩
      refine ⟨List.forall_mem_cons.2 ⟨(hclause _ List.mem_cons_self).1 ⟨_, hfirst⟩, fun c hc => ?_⟩,
        fun r hr => (hall r hr).1⟩
      obtain ⟨r, hr, rfl⟩ := List.mem_map.1 hc
      exact (hall r hr).2
  · rintro ⟨hclauses, hands⟩
    obtain ⟨cmp, hfirst⟩ := (hclause _ List.mem_cons_self).2 (hclauses _ List.mem_cons_self)
    obtain ⟨cs, hnext⟩ := hrest.2 fun r hr =>
      ⟨hands r hr, hclauses _ (List.mem_cons_of_mem _ (List.mem_map_of_mem hr))⟩
    exact ⟨_, hfirst, hnext⟩

/-! ## Readings -/

section Readings

variable {input : String} {cut : Cutting} {f : FilterText}

theorem head?_trim (input : String) : ∀ c ∈ (trim input).toList.head?, ¬ isSpace c := by
  intro c hc
  rw [trim_toList] at hc
  obtain ⟨rest, hrest⟩ := List.rdropWhile_prefix isSpace (input.toList.dropWhile isSpace)
  refine head?_dropWhile isSpace input.toList c ?_
  rw [← hrest]
  exact List.mem_head?_append_of_mem_head? hc

theorem getLast?_trim (input : String) : ∀ c ∈ (trim input).toList.getLast?, ¬ isSpace c := by
  intro c hc
  rw [trim_toList] at hc
  have hne : (input.toList.dropWhile isSpace).rdropWhile isSpace ≠ [] := fun hnil => by simp [hnil] at hc
  rw [List.getLast?_eq_some_getLast hne] at hc
  obtain rfl := Option.some.inj hc
  exact List.rdropWhile_last_not isSpace _ hne

/-- **The inputs that the parser accepts**, and the comparisons that it builds. -/
theorem accepted_iff {node : Node} : parseFilterString input = .ok node ↔
    ∃ cut f cs, Accepted input cut f ∧ f.Reads cs ∧ node = nodeOf cs := by
  rw [parseFilterString_eq_ok]
  constructor
  · rintro ⟨f, cs, htokens, hreads, hnode⟩
    obtain ⟨cut, htext, hcut⟩ := exists_cut _ (head?_trim input)
    have htokens' : tokensOf cut = f.tokens := by rw [← htokens, ← htext, tokenize_of_cut hcut]
    exact ⟨cut, f, cs, ⟨htext, hcut, htokens', (FilterText.reads_iff (htokens' ▸ hcut.tokens)).1 ⟨cs, hreads⟩⟩, hreads,
      hnode⟩
  · rintro ⟨cut, f, cs, accepted, hreads, hnode⟩
    exact ⟨f, cs, by rw [← accepted.text, tokenize_of_cut accepted.cuts, accepted.tokens], hreads, hnode⟩

theorem Accepted.reads (h : Accepted input cut f) : ∃ cs, f.Reads cs :=
  (FilterText.reads_iff (h.tokens ▸ h.cuts.tokens)).2 h.has

end Readings

/-! ## Tokens without quotes -/

/-- Neither white space, nor a quote, nor a backslash. -/
def CleanChar (c : Char) : Prop := ¬ isSpace c ∧ c ≠ '"' ∧ c ≠ '\\'

instance : DecidablePred CleanChar := fun _ => inferInstanceAs (Decidable (_ ∧ _))

def Clean (token : List Char) : Prop := token ≠ [] ∧ ∀ c ∈ token, CleanChar c

theorem clean_of_all {token : List Char} (h : token ≠ [] ∧ token.all fun c => CleanChar c) : Clean token :=
  ⟨h.1, fun c hc => of_decide_eq_true (List.all_eq_true.1 h.2 c hc)⟩

section Tokens

variable {token : List Char}

theorem cleanChar_alphanum {c : Char} (h : c.isAlphanum) : CleanChar c := by
  refine ⟨fun hspace => ?_, ?_, ?_⟩
  · simp only [isSpace, decide_eq_true_eq] at hspace
    simp [isAlphanum_iff, isUpper_iff, isLower_iff, Char.isDigit, UInt32.le_iff_toNat_le] at h hspace
    omega
  · rintro rfl
    exact absurd h (by decide)
  · rintro rfl
    exact absurd h (by decide)

theorem isIdent_clean (h : isIdent token) : Clean token := by
  have hpart : ∀ c, isIdentPart c → CleanChar c := by
    intro c hc
    rcases Bool.or_eq_true_iff.1 hc with halnum | hunderscore
    · exact cleanChar_alphanum halnum
    · obtain rfl : c = '_' := by simpa using hunderscore
      decide
  unfold isIdent at h
  split at h
  · simp at h
  · rename_i c rest
    obtain ⟨hc, hrest⟩ := Bool.and_eq_true_iff.1 h
    refine ⟨by simp, List.forall_mem_cons.2 ⟨hpart c ?_, fun d hd => hpart d (List.all_eq_true.1 hrest d hd)⟩⟩
    unfold isIdentStart at hc
    unfold isIdentPart
    rcases Bool.or_eq_true_iff.1 hc with halpha | hunderscore
    · rw [Char.isAlphanum, halpha, Bool.true_or, Bool.true_or]
    · rw [hunderscore, Bool.or_true]

theorem isPath_clean (h : IsPath token) : Clean token := by
  obtain ⟨idents, hne, hidents, rfl⟩ := h
  induction idents with
  | nil => exact absurd rfl hne
  | cons ident idents ih =>
    obtain ⟨hident, hrest⟩ := List.forall_mem_cons.1 hidents
    have hclean := isIdent_clean hident
    by_cases hnil : idents = []
    · subst hnil
      rwa [List.intercalate_singleton]
    · rw [List.intercalate_cons_of_ne_nil hnil]
      refine ⟨by simp, ?_⟩
      simp only [List.forall_mem_append]
      exact ⟨⟨hclean.2, (clean_of_all (by decide)).2⟩, (ih hnil hrest).2⟩

theorem numeral_clean (h : Decimal token ∨ NonDecimal token) : Clean token := by
  refine ⟨numeral_ne_nil h, fun c hc => ?_⟩
  rcases numeral_chars h c hc with halnum | rfl | rfl | rfl
  · exact cleanChar_alphanum halnum
  all_goals decide

theorem toLower_of_not_clean {c : Char} (h : ¬ CleanChar c) : c.toLower = c := by
  have hupper : ¬ c.isUpper := fun hupper =>
    h (cleanChar_alphanum (isAlphanum_iff.2 (.inl (.inl hupper))))
  unfold Char.toLower
  exact dif_neg (by rwa [isUpper_iff] at hupper)

theorem keyword_clean (h : toLowerCase token ∈ "and" :: "pr" :: (valueKeywords ++ inheritedKeywords)) :
    Clean token := by
  have hall : ∀ key ∈ "and" :: "pr" :: (valueKeywords ++ inheritedKeywords),
      key ≠ "" ∧ key.toList.all fun c => CleanChar c := by decide
  obtain ⟨hne, hclean⟩ := hall _ h
  constructor
  · rintro rfl
    exact hne rfl
  · intro c hc
    by_contra hnot
    have hmem : c ∈ (toLowerCase token).toList := by
      unfold toLowerCase
      rw [String.toList_ofList, ← toLower_of_not_clean hnot]
      exact List.mem_map_of_mem hc
    exact hnot (by simpa using List.all_eq_true.1 hclean c hmem)

theorem Clean.head? (h : Clean token) : token.head? ≠ some '"' := fun hhead =>
  (h.2 _ (List.mem_of_head? hhead)).2.1 rfl

theorem Clean.word (h : Clean token) : Word token := ⟨h.1, fun c hc => (h.2 c hc).1⟩

theorem FilterText.Has.tokens {f : FilterText} {keywords : List String} {value P : List Char → Prop}
    (h : f.Has keywords value) (hkeywords : keywords ⊆ valueKeywords ++ inheritedKeywords)
    (hclean : ∀ token, Clean token → P token) (hvalue : ∀ token, value token → P token) :
    ∀ token ∈ f.tokens, P token := by
  have hclause : ∀ c ∈ f.clauses, ∀ token ∈ c.tokens, P token := by
    intro c hc token htoken
    obtain ⟨hpath, hop⟩ := h.clauses c hc
    rcases List.mem_cons.1 htoken with rfl | htoken
    · exact hclean _ (isPath_clean hpath)
    rcases List.mem_cons.1 htoken with rfl | htoken
    · refine hclean _ (keyword_clean (List.mem_cons_of_mem _ ?_))
      rcases hop with ⟨hpr, -⟩ | ⟨hkey, -⟩
      · rw [hpr]
        exact List.mem_cons_self
      · exact List.mem_cons_of_mem _ (hkeywords hkey)
    · rcases hop with ⟨-, hnone⟩ | ⟨-, token', hsome, htoken'⟩
      · simp [hnone] at htoken
      · obtain rfl : token = token' := by simpa [hsome] using htoken
        exact hvalue _ htoken'
  unfold FilterText.tokens restTokens
  refine List.forall_mem_append.2 ⟨hclause _ List.mem_cons_self, fun token htoken => ?_⟩
  obtain ⟨r, hr, htoken⟩ := List.mem_flatMap.1 htoken
  rcases List.mem_cons.1 htoken with rfl | htoken
  · refine hclean _ (keyword_clean ?_)
    rw [h.ands r hr]
    exact List.mem_cons_self
  · exact hclause _ (List.mem_cons_of_mem _ (List.mem_map_of_mem hr)) token htoken

theorem documented_value (h : DocumentedValue token) : Clean token ∨ Quoted (fun _ => True) token := by
  rcases h with hquoted | rfl | rfl | hdecimal
  · exact .inr hquoted
  · exact .inl (clean_of_all (by decide))
  · exact .inl (clean_of_all (by decide))
  · exact .inl (numeral_clean (.inl hdecimal))

theorem accepted_value (h : AcceptedValue token) : token.getLast? ≠ some '\\' := by
  have hclean : ∀ {token}, Clean token → token.getLast? ≠ some '\\' := fun h hlast =>
    (h.2 _ (List.mem_of_getLast? hlast)).2.2 rfl
  rcases h with hdocumented | hnumeral | hunterminated
  · rcases documented_value hdocumented with h | hquoted
    · exact hclean h
    · simp [hquoted.ends.1]
  · exact hclean (numeral_clean (.inr hnumeral))
  · simp [hunterminated.ends.2.1]

end Tokens

/-! ## White space between the tokens -/

theorem Separated.tail {piece : List Char × List Char} {rest : Cutting} (h : Separated (piece :: rest)) :
    Separated rest ∧ Spaces piece.2 ∧ (piece.2 = [] → rest = []) := by
  cases rest with
  | nil =>
    have hnil : piece.2 = [] := h
    exact ⟨trivial, by simp [hnil, Spaces], fun _ => rfl⟩
  | cons next rest => exact ⟨h.2.2, h.2.1, fun hnil => absurd hnil h.1⟩

theorem Separated.cut {cut : Cutting} (h : Separated cut)
    (htokens : ∀ token ∈ tokensOf cut, Clean token ∨ Quoted OnLine token) : Cut cut := by
  induction cut with
  | nil => exact .nil
  | cons piece rest ih =>
    obtain ⟨hrest, hspaces, hend⟩ := h.tail
    obtain ⟨htoken, htokens⟩ := List.forall_mem_cons.1 htokens
    rcases htoken with hclean | hquoted
    · exact .run hclean.word hspaces hend (fun hhead => absurd hhead hclean.head?) (ih hrest htokens)
    · exact .quoted hquoted hspaces (ih hrest htokens)

/-! ## An escaped line terminator -/

section Escaped

variable {body more : List Char} {lt : Char}

theorem closing_terminator (hbody : Units OnLine body) (hlt : isLineTerminator lt) :
    closing (body ++ '\\' :: lt :: more) = none := by
  induction hbody with
  | nil => rw [List.nil_append, closing_escape, if_pos hlt]
  | plain hquote hbackslash h ih => rw [List.cons_append, closing_cons hquote hbackslash, ih, Option.map_none]
  | escape hc h ih =>
    rw [List.cons_append, List.cons_append, closing_escape, if_neg hc, ih, Option.map_none]

theorem run_terminator (hbody : Units OnLine body) (hlt : isLineTerminator lt) :
    ((body ++ '\\' :: lt :: more).takeWhile fun c => !isSpace c).getLast? = some '\\' ∨
      ∃ body', Units OnLine body' ∧
        (body ++ '\\' :: lt :: more).dropWhile (fun c => !isSpace c) = body' ++ '\\' :: lt :: more := by
  have hcons : ∀ {c} {text : List Char}, ¬ isSpace c →
      (text.takeWhile fun c => !isSpace c).getLast? = some '\\' →
      ((c :: text).takeWhile fun c => !isSpace c).getLast? = some '\\' := by
    intro c text hc hlast
    rw [List.takeWhile_cons_of_pos (by simpa using hc), List.getLast?_cons, hlast]
    rfl
  have hspace := isSpace_of_lineTerminator hlt
  have hend : ∀ {c} {text : List Char}, isSpace c →
      (('\\' :: c :: text).takeWhile fun c => !isSpace c).getLast? = some '\\' := by
    intro c text hc
    rw [List.takeWhile_cons_of_pos (by decide), List.takeWhile_cons_of_neg (by simpa using hc)]
    rfl
  induction hbody with
  | nil => exact .inl (hend hspace)
  | @plain c body hquote hbackslash h ih =>
    rw [List.cons_append]
    by_cases hc : isSpace c
    · exact .inr ⟨c :: body, .plain hquote hbackslash h, List.dropWhile_cons_of_neg (by simpa using hc)⟩
    · refine ih.imp (hcons hc) ?_
      rintro ⟨body', hbody', hdrop⟩
      exact ⟨body', hbody', by rw [List.dropWhile_cons_of_pos (by simpa using hc), hdrop]⟩
  | @escape c body hline h ih =>
    rw [List.cons_append, List.cons_append]
    by_cases hc : isSpace c
    · exact .inl (hend hc)
    · refine ih.imp (fun hlast => hcons (by decide) (hcons hc hlast)) ?_
      rintro ⟨body', hbody', hdrop⟩
      refine ⟨body', hbody', ?_⟩
      rw [List.dropWhile_cons_of_pos (by decide), List.dropWhile_cons_of_pos (by simpa using hc), hdrop]

/-- Some token ends with a backslash. -/
def EndsWithBackslash (tokens : List (List Char)) : Prop := ∃ token ∈ tokens, token.getLast? = some '\\'

theorem EndsWithBackslash.cons {token : List Char} {tokens : List (List Char)} (h : EndsWithBackslash tokens) :
    EndsWithBackslash (token :: tokens) := by
  obtain ⟨u, hu, hlast⟩ := h
  exact ⟨u, List.mem_cons_of_mem _ hu, hlast⟩

theorem head?_inside (hbody : Units OnLine body) : (body ++ '\\' :: lt :: more).head? ≠ some '"' := by
  cases hbody with
  | nil => simp
  | plain hquote => simpa using hquote
  | escape => simp

theorem tokenizeFrom_inside (hlt : isLineTerminator lt) {n : Nat} (hbody : Units OnLine body)
    (hn : (body ++ '\\' :: lt :: more).length ≤ n) :
    EndsWithBackslash (tokenizeFrom n (body ++ '\\' :: lt :: more)) := by
  induction n generalizing body with
  | zero => simp at hn
  | succ n ih =>
    have hhead : (body ++ '\\' :: lt :: more).head? ≠ some '"' := head?_inside hbody
    have hmatch := @matchToken_open (body ++ '\\' :: lt :: more) fun h => absurd h hhead
    cases htext : body ++ '\\' :: lt :: more with
    | nil => simp at htext
    | cons c rest =>
      rw [htext, List.length_cons] at hn
      rw [tokenizeFrom]
      split
      · rename_i hc
        cases hbody with
        | nil =>
          obtain ⟨rfl, -⟩ := List.cons.inj htext
          exact absurd hc (by decide)
        | plain hquote hbackslash h =>
          rw [List.cons_append] at htext
          obtain ⟨rfl, rfl⟩ := List.cons.inj htext
          exact ih h (by omega)
        | escape hline h =>
          obtain ⟨rfl, -⟩ := List.cons.inj htext
          exact absurd hc (by decide)
      · rename_i hc
        rw [← htext, hmatch]
        rcases @run_terminator body more lt hbody hlt with hlast | ⟨body', hbody', hdrop⟩
        · exact ⟨_, List.mem_cons_self, hlast⟩
        · refine EndsWithBackslash.cons ?_
          have hlength : (body' ++ '\\' :: lt :: more).length ≤ n := by
            rw [← hdrop, htext, List.dropWhile_cons_of_pos (by simpa using hc)]
            exact (List.dropWhile_sublist _).length_le.trans (by omega)
          rw [hdrop]
          exact ih hbody' hlength

theorem tokenizeFrom_string (hlt : isLineTerminator lt) {n : Nat} (hbody : Units OnLine body)
    (hn : ('"' :: (body ++ '\\' :: lt :: more)).length ≤ n) :
    EndsWithBackslash (tokenizeFrom n ('"' :: (body ++ '\\' :: lt :: more))) := by
  rw [List.length_cons] at hn
  obtain ⟨n, rfl⟩ := Nat.exists_eq_add_one_of_ne_zero (show n ≠ 0 by omega)
  have hmatch := @matchToken_open ('"' :: (body ++ '\\' :: lt :: more)) fun _ =>
    closing_eq_none.1 (closing_terminator hbody hlt)
  rw [List.takeWhile_cons_of_pos (by decide), List.dropWhile_cons_of_pos (by decide)] at hmatch
  rw [tokenizeFrom, if_neg (by decide), hmatch]
  rcases @run_terminator body more lt hbody hlt with hlast | ⟨body', hbody', hdrop⟩
  · exact ⟨_, List.mem_cons_self, by rw [List.getLast?_cons, hlast]; rfl⟩
  · refine EndsWithBackslash.cons ?_
    have hlength : (body' ++ '\\' :: lt :: more).length ≤ n := by
      rw [← hdrop]
      exact (List.dropWhile_sublist _).length_le.trans (by omega)
    rw [hdrop]
    exact tokenizeFrom_inside hlt hbody' hlength

theorem exists_terminator (h : Units (fun _ => True) body) (hnot : ¬ Units OnLine body) :
    ∃ before lt after, body = before ++ '\\' :: lt :: after ∧ Units OnLine before ∧ isLineTerminator lt := by
  induction h with
  | nil => exact absurd .nil hnot
  | plain hquote hbackslash h ih =>
    obtain ⟨before, lt, after, rfl, hbefore, hlt⟩ := ih fun h => hnot (.plain hquote hbackslash h)
    exact ⟨_, lt, after, rfl, .plain hquote hbackslash hbefore, hlt⟩
  | @escape c rest hc h ih =>
    by_cases hline : isLineTerminator c
    · exact ⟨[], c, rest, rfl, .nil, hline⟩
    · obtain ⟨before, lt, after, rfl, hbefore, hlt⟩ := ih fun h => hnot (.escape hline h)
      exact ⟨_, lt, after, rfl, .escape hline hbefore, hlt⟩

/-- **A filter with such an escape** is cut at the line terminator. -/
theorem tokenizeFrom_escaped {cut : Cutting} (h : Separated cut)
    (htokens : ∀ token ∈ tokensOf cut, Clean token ∨ Quoted (fun _ => True) token) (escapes : EscapesTerminator cut)
    {n : Nat} (hn : (textOf cut).length ≤ n) : EndsWithBackslash (tokenizeFrom n (textOf cut)) := by
  induction cut generalizing n with
  | nil =>
    obtain ⟨token, htoken, -⟩ := escapes
    simp [tokensOf] at htoken
  | cons piece rest ih =>
    obtain ⟨token, ws⟩ := piece
    obtain ⟨hrest, hspaces, hend⟩ := h.tail
    obtain ⟨htoken, htokens⟩ := List.forall_mem_cons.1 htokens
    by_cases hterminator : Quoted (fun _ => True) token ∧ ¬ Quoted OnLine token
    · obtain ⟨⟨body, hbody, rfl⟩, hnot⟩ := hterminator
      obtain ⟨before, lt, after, rfl, hbefore, hlt⟩ := exists_terminator hbody fun hline => hnot ⟨_, hline, rfl⟩
      have htext : textOf (('"' :: (before ++ '\\' :: lt :: after ++ ['"']), ws) :: rest) =
          '"' :: (before ++ '\\' :: lt :: (after ++ ('"' :: (ws ++ textOf rest)))) := by
        rw [textOf_cons]
        simp
      rw [htext] at hn ⊢
      exact tokenizeFrom_string hlt hbefore hn
    · -- The token is cut as it is, and the escape is in a later one.
      have hlater : EscapesTerminator rest := by
        obtain ⟨t, ht, hquoted, hnot⟩ := escapes
        rcases List.mem_cons.1 ht with rfl | ht
        · exact absurd ⟨hquoted, hnot⟩ hterminator
        · exact ⟨t, ht, hquoted, hnot⟩
      rw [textOf_cons] at hn ⊢
      obtain ⟨hne, hfirst, hmatch⟩ : token ≠ [] ∧ (∀ c ∈ token.head?, ¬ isSpace c) ∧
          matchToken (token ++ (ws ++ textOf rest)) = (token, ws ++ textOf rest) := by
        rcases htoken with hclean | hquoted
        · exact ⟨hclean.1, hclean.word.first, matchToken_run hclean.word (head?_spaces hspaces hend)
            fun hhead => absurd hhead hclean.head?⟩
        · have hline : Quoted OnLine token := by
            by_contra hnot
            exact hterminator ⟨hquoted, hnot⟩
          exact ⟨hquoted.ne_nil, hquoted.first, matchToken_quoted hline⟩
      obtain ⟨m, hm, hstep⟩ := tokenizeFrom_piece hne hfirst hspaces hmatch hn
      rw [hstep]
      exact (ih hrest htokens hlater hm).cons

end Escaped

/-! ## One reading -/

theorem Cut.tail {token ws : List Char} {rest : Cutting} (h : Cut ((token, ws) :: rest)) :
    (∀ c ∈ token.head?, ¬ isSpace c) ∧ token ≠ [] ∧ Spaces ws ∧ Cut rest := by
  cases h with
  | quoted htoken hws h => exact ⟨htoken.first, htoken.ne_nil, hws, h⟩
  | run htoken hws hend hopen h => exact ⟨htoken.first, htoken.1, hws, h⟩

theorem Cut.head? {cut : Cutting} (h : Cut cut) : ∀ c ∈ (textOf cut).head?, ¬ isSpace c := by
  rcases cut with _ | ⟨⟨token, ws⟩, rest⟩
  · simp [textOf]
  · obtain ⟨hfirst, hne, -⟩ := h.tail
    rw [textOf_cons, List.head?_append_of_ne_nil _ hne]
    exact hfirst

theorem takeWhile_spaces {ws text : List Char} (hws : Spaces ws) (htext : ∀ c ∈ text.head?, ¬ isSpace c) :
    (ws ++ text).takeWhile isSpace = ws := by
  rw [List.takeWhile_append_of_pos hws]
  cases text with
  | nil => simp
  | cons c text =>
    have hc := htext c rfl
    rw [List.takeWhile_cons_of_neg hc, List.append_nil]

theorem Cut.unique {cut cut' : Cutting} (h : Cut cut) (h' : Cut cut') (htext : textOf cut = textOf cut')
    (htokens : tokensOf cut = tokensOf cut') : cut = cut' := by
  induction cut generalizing cut' with
  | nil => exact (List.map_eq_nil_iff.1 htokens.symm).symm
  | cons piece rest ih =>
    obtain ⟨token, ws⟩ := piece
    cases cut' with
    | nil => simp [tokensOf] at htokens
    | cons piece' rest' =>
      obtain ⟨token', ws'⟩ := piece'
      obtain ⟨rfl, hlater⟩ : token = token' ∧ tokensOf rest = tokensOf rest' := List.cons.inj htokens
      obtain ⟨-, -, hws, hrest⟩ := h.tail
      obtain ⟨-, -, hws', hrest'⟩ := h'.tail
      rw [textOf_cons, textOf_cons] at htext
      have hspaces := List.append_cancel_left htext
      have hwhile := congrArg (List.takeWhile isSpace) hspaces
      rw [takeWhile_spaces hws hrest.head?, takeWhile_spaces hws' hrest'.head?] at hwhile
      subst hwhile
      rw [ih hrest hrest' (List.append_cancel_left hspaces) hlater]

theorem ClauseText.Reads.unique {c c' : ClauseText} {cmp cmp' : Comparison} {rest rest' : List (List Char)}
    (h : c.Reads cmp) (h' : c'.Reads cmp') (htokens : c.tokens ++ rest = c'.tokens ++ rest') :
    c = c' ∧ rest = rest' := by
  obtain ⟨path, op, value⟩ := c
  obtain ⟨path', op', value'⟩ := c'
  simp only [ClauseText.tokens, List.cons_append, List.cons.injEq] at htokens
  obtain ⟨rfl, rfl, htokens⟩ := htokens
  have hop : cmp.op = cmp'.op := Option.some.inj (h.op.symm.trans h'.op)
  have hvalue := h.value
  have hvalue' := h'.value
  rw [← hop] at hvalue'
  split at hvalue
  · rename_i hexists
    rw [if_pos hexists] at hvalue'
    obtain ⟨rfl, -⟩ := hvalue
    obtain ⟨rfl, -⟩ := hvalue'
    exact ⟨rfl, htokens⟩
  · rename_i hexists
    rw [if_neg hexists] at hvalue'
    obtain ⟨token, -, rfl, -⟩ := hvalue
    obtain ⟨token', -, rfl, -⟩ := hvalue'
    obtain ⟨rfl, hrest⟩ := List.cons.inj htokens
    exact ⟨rfl, hrest⟩

theorem restTokens_unique {rest rest' : List (List Char × ClauseText)} {cs cs' : List Comparison}
    (h : List.Forall₂ ReadsNext rest cs) (h' : List.Forall₂ ReadsNext rest' cs')
    (htokens : restTokens rest = restTokens rest') : rest = rest' := by
  induction h generalizing rest' cs' with
  | nil =>
    cases h' with
    | nil => rfl
    | cons => simp [restTokens] at htokens
  | cons hr h ih =>
    cases h' with
    | nil => simp [restTokens] at htokens
    | cons hr' h' =>
      rw [restTokens_cons, restTokens_cons] at htokens
      obtain ⟨hand, htokens⟩ := List.cons.inj htokens
      obtain ⟨hclause, htokens⟩ := hr.2.unique hr'.2 htokens
      rw [ih h' htokens, Prod.ext hand hclause]

section Unique

variable {input : String} {cut cut' : Cutting} {f f' : FilterText}

theorem Accepted.unique (h : Accepted input cut f) (h' : Accepted input cut' f') : cut = cut' ∧ f = f' := by
  have htext : textOf cut = textOf cut' := h.text.trans h'.text.symm
  have htokens : tokensOf cut = tokensOf cut' := by
    rw [← tokenize_of_cut h.cuts, ← tokenize_of_cut h'.cuts, htext]
  refine ⟨h.cuts.unique h'.cuts htext htokens, ?_⟩
  obtain ⟨cs, hreads⟩ := h.reads
  obtain ⟨cs', hreads'⟩ := h'.reads
  have hfilter : f.tokens = f'.tokens := by rw [← h.tokens, htokens, h'.tokens]
  cases hreads with
  | mk hfirst hnext =>
    cases hreads' with
    | mk hfirst' hnext' =>
      obtain ⟨heq, hrest⟩ := hfirst.unique hfirst' hfilter
      have hnext_eq := restTokens_unique hnext hnext' hrest
      cases f
      cases f'
      simp only at heq hnext_eq
      rw [heq, hnext_eq]

/-! ## The two grammars -/

theorem Documented.tokens_cases (h : Documented input cut f) :
    ∀ token ∈ tokensOf cut, Clean token ∨ Quoted (fun _ => True) token := by
  rw [h.tokens]
  exact h.has.tokens (List.subset_append_left _ _) (fun _ => .inl) fun _ => documented_value

theorem Documented.accepted (h : Documented input cut f) (hline : ¬ EscapesTerminator cut) : Accepted input cut f := by
  refine ⟨h.text, h.separated.cut fun token htoken => (h.tokens_cases token htoken).imp_right fun hquoted => ?_,
    h.tokens, fun c hc => ?_, h.has.ands⟩
  · by_contra hnot
    exact hline ⟨token, htoken, hquoted, hnot⟩
  · obtain ⟨hpath, hop⟩ := h.has.clauses c hc
    exact ⟨hpath, hop.imp_right fun ⟨hkey, token, htoken, hvalue⟩ =>
      ⟨List.mem_append_left _ hkey, token, htoken, .inl hvalue⟩⟩

theorem Accepted.no_backslash (h : Accepted input cut f) : ¬ EndsWithBackslash (tokensOf cut) := by
  rintro ⟨token, htoken, hlast⟩
  rw [h.tokens] at htoken
  refine h.has.tokens (P := fun token => token.getLast? ≠ some '\\') (List.Subset.refl _) (fun token hclean hlast => ?_)
    (fun token => accepted_value) token htoken hlast
  exact (hclean.2 _ (List.mem_of_getLast? hlast)).2.2 rfl

theorem Documented.refused (h : Documented input cut f) (escapes : EscapesTerminator cut) :
    ¬ Accepted input cut' f' := by
  intro accepted
  have hends := tokenizeFrom_escaped h.separated h.tokens_cases escapes (Nat.le_refl _)
  rw [h.text, ← accepted.text] at hends
  exact accepted.no_backslash (tokenize_of_cut accepted.cuts ▸ hends)

theorem units_escaped {body : List Char} (h : Units OnLine body) : ¬ Units (fun _ => True) (body ++ ['\\']) := by
  induction h with
  | nil =>
    intro h
    cases h with
    | plain hquote hbackslash h => exact hbackslash rfl
  | plain hquote hbackslash h ih =>
    rw [List.cons_append]
    exact fun h => ih (h.of_plain hbackslash)
  | escape hc h ih =>
    rw [List.cons_append, List.cons_append]
    exact fun h => ih h.of_escape

theorem DocumentedValue.faultless {token : List Char} (h : DocumentedValue token) :
    ¬ NonDecimal token ∧ ¬ Unterminated token := by
  rcases h with hquoted | rfl | rfl | hdecimal
  · refine ⟨fun hnumeral => numeral_head (.inr hnumeral) hquoted.head?, ?_⟩
    rintro ⟨body, hbody, heq⟩
    obtain ⟨body', hbody', rfl⟩ := hquoted
    have hinside : body' = body ++ ['\\'] := by
      have hends : body' ++ ['"'] = (body ++ ['\\']) ++ ['"'] := by
        rw [(List.cons.inj heq).2, List.append_assoc]
        rfl
      exact List.append_cancel_right hends
    rw [hinside] at hbody'
    exact units_escaped hbody hbody'
  · refine ⟨fun hnumeral => ?_, fun h => absurd h.ends.1 (by decide)⟩
    exact number_ne_nan.2 (.inr (.inr hnumeral)) (by decide)
  · refine ⟨fun hnumeral => ?_, fun h => absurd h.ends.1 (by decide)⟩
    exact number_ne_nan.2 (.inr (.inr hnumeral)) (by decide)
  · exact ⟨fun hnumeral => hnumeral.not_decimal hdecimal, fun h => numeral_head (.inl hdecimal) h.ends.1⟩

theorem Separated.not_glued {before after : Cutting} {piece next : List Char × List Char}
    (h : Separated (before ++ piece :: next :: after)) : piece.2 ≠ [] := by
  induction before with
  | nil => exact h.1
  | cons first before ih => exact ih h.tail.1

theorem Documented.not_faulty (h : Documented input cut f) : ¬ Faulty cut f := by
  have hvalue : ∀ {c token}, c ∈ f.clauses → c.value = some token → DocumentedValue token := by
    intro c token hc htoken
    rcases (h.has.clauses c hc).op with ⟨-, hnone⟩ | ⟨-, token', htoken', hvalue⟩
    · simp [htoken] at hnone
    · obtain rfl := Option.some.inj (htoken.symm.trans htoken')
      exact hvalue
  intro faulty
  cases faulty with
  | glued hcut hglued => exact (hcut ▸ h.separated).not_glued hglued
  | inherited hc hop =>
    have hdisjoint : ∀ key ∈ inheritedKeywords, key ≠ "pr" ∧ key ∉ valueKeywords := by decide
    obtain ⟨hpr, hkey⟩ := hdisjoint _ hop
    rcases (h.has.clauses _ hc).op with ⟨hpr', -⟩ | ⟨hkey', -⟩
    · exact hpr hpr'
    · exact hkey hkey'
  | numeral hc htoken hnumeral => exact (hvalue hc htoken).faultless.1 hnumeral
  | unterminated hc htoken hunterminated => exact (hvalue hc htoken).faultless.2 hunterminated

theorem separated_of_cut (hcut : Cut cut) (hglued : ∀ before piece next after, cut = before ++ piece :: next :: after →
    piece.2 ≠ []) (hlast : ∀ c ∈ (textOf cut).getLast?, ¬ isSpace c) : Separated cut := by
  induction cut with
  | nil => trivial
  | cons piece rest ih =>
    obtain ⟨token, ws⟩ := piece
    obtain ⟨-, hne, hws, hrest⟩ := hcut.tail
    rw [textOf_cons] at hlast
    cases rest with
    | nil =>
      -- The text does not end with white space.
      have htext : textOf [] = [] := rfl
      rw [htext, List.append_nil] at hlast
      by_contra hnil
      have hmem := List.getLast?_eq_some_getLast hnil
      rw [List.getLast?_append_of_ne_nil _ hnil, hmem] at hlast
      exact hlast _ rfl (hws _ (List.getLast_mem hnil))
    | cons next rest =>
      refine ⟨hglued [] (token, ws) next rest rfl, hws, ih hrest ?_ ?_⟩
      · rintro before piece next' after heq
        exact hglued ((token, ws) :: before) piece next' after (by rw [heq]; rfl)
      · have hne' : textOf (next :: rest) ≠ [] := fun hnil => by simpa using hrest.eq_nil hnil
        rwa [← List.append_assoc, List.getLast?_append_of_ne_nil _ hne'] at hlast

theorem Accepted.documented (h : Accepted input cut f) (faultless : ¬ Faulty cut f) : Documented input cut f := by
  refine ⟨h.text, separated_of_cut h.cuts (fun before piece next after heq hnil => faultless (.glued heq hnil)) ?_,
    h.tokens, fun c hc => ?_, h.has.ands⟩
  · rw [h.text]
    exact getLast?_trim input
  · obtain ⟨hpath, hop⟩ := h.has.clauses c hc
    refine ⟨hpath, hop.imp_right fun ⟨hkey, token, htoken, hvalue⟩ => ⟨?_, token, htoken, ?_⟩⟩
    · exact (List.mem_append.1 hkey).resolve_right fun hinherited => faultless (.inherited hc hinherited)
    · rcases hvalue with hvalue | hnumeral | hunterminated
      · exact hvalue
      · exact absurd (.numeral hc htoken hnumeral) faultless
      · exact absurd (.unterminated hc htoken hunterminated) faultless

theorem exists_of_forall₂ {α β : Type} {R : α → β → Prop} {l : List α} {l' : List β} (h : List.Forall₂ R l l') :
    ∀ b ∈ l', ∃ a ∈ l, R a b := by
  induction h with
  | nil => simp
  | cons hab h ih =>
    refine List.forall_mem_cons.2 ⟨⟨_, List.mem_cons_self, hab⟩, fun b hb => ?_⟩
    obtain ⟨a, ha, hab⟩ := ih b hb
    exact ⟨a, List.mem_cons_of_mem _ ha, hab⟩

theorem FilterText.Reads.mem {cs : List Comparison} (h : f.Reads cs) : ∀ cmp ∈ cs, ∃ c ∈ f.clauses, c.Reads cmp := by
  cases h with
  | mk hfirst hnext =>
    refine List.forall_mem_cons.2 ⟨⟨_, List.mem_cons_self, hfirst⟩, fun cmp hcmp => ?_⟩
    obtain ⟨r, hr, hreads⟩ := exists_of_forall₂ hnext cmp hcmp
    exact ⟨r.2, List.mem_cons_of_mem _ (List.mem_map_of_mem hr), hreads.2⟩

/-- **The parser conforms to its grammar** on an input exactly when it finds no fault in it, and no string of a
filter escapes a line terminator. -/
theorem parseFilterString_conforms_iff (input : String) :
    Conforms input ↔ (∀ cut f, Accepted input cut f → ¬ Faulty cut f) ∧
      ∀ cut f, Documented input cut f → ¬ EscapesTerminator cut := by
  constructor
  · intro h
    have hrefused : ∀ cut f, Documented input cut f → ¬ EscapesTerminator cut := by
      intro cut f documented escapes
      obtain ⟨node, hnode⟩ := h.accepts.2 ⟨cut, f, documented⟩
      obtain ⟨cut', f', cs, accepted, -⟩ := accepted_iff.1 hnode
      exact documented.refused escapes accepted
    refine ⟨fun cut f accepted => ?_, hrefused⟩
    obtain ⟨cs, hreads⟩ := accepted.reads
    obtain ⟨cut', f', documented⟩ := h.accepts.1 ⟨_, accepted_iff.2 ⟨cut, f, cs, accepted, hreads, rfl⟩⟩
    obtain ⟨rfl, rfl⟩ := accepted.unique (documented.accepted (hrefused _ _ documented))
    exact documented.not_faulty
  · rintro ⟨faultless, online⟩
    refine ⟨⟨?_, ?_⟩, ?_⟩
    · rintro ⟨node, hnode⟩
      obtain ⟨cut, f, cs, accepted, -⟩ := accepted_iff.1 hnode
      exact ⟨cut, f, accepted.documented (faultless cut f accepted)⟩
    · rintro ⟨cut, f, documented⟩
      have accepted := documented.accepted (online cut f documented)
      obtain ⟨cs, hreads⟩ := accepted.reads
      exact ⟨_, accepted_iff.2 ⟨cut, f, cs, accepted, hreads, rfl⟩⟩
    · intro node hnode cmp hcmp
      obtain ⟨cut, f, cs, accepted, hreads, rfl⟩ := accepted_iff.1 hnode
      rw [comparisons_nodeOf] at hcmp
      obtain ⟨c, hc, hclause⟩ := hreads.mem cmp hcmp
      rcases opOf_cases hclause.op with ⟨-, hop⟩ | ⟨-, hop⟩ | ⟨hkey, -⟩
      · exact ⟨_, hop⟩
      · exact hop
      · exact absurd (.inherited hc (inherited_of_lower hkey)) (faultless cut f accepted)

/-- A clause with the name of a property that every object has. -/
theorem constructor_accepted :
    parseFilterString "name constructor \"a\"" =
        .ok (.cmp ⟨.inherited "constructor", ["name"], some (.string "a")⟩) ∧
      ¬ ∀ input, Conforms input := by
  have hparse : parseFilterString "name constructor \"a\"" =
      .ok (.cmp ⟨.inherited "constructor", ["name"], some (.string "a")⟩) := by decide +kernel
  refine ⟨hparse, fun h => ?_⟩
  obtain ⟨op, hop⟩ := (h _).ops _ hparse _ List.mem_cons_self
  simp at hop

end Unique

end Provisioning.Http
