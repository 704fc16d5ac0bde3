import Provisioning.Http.Filter

/-!
# The tokens of a filter

What `tokenize` cuts a text into: strings that are closed, and runs without white space.
-/

namespace Provisioning.Http

/-! ## Strings -/

/-- The inside of a string: characters, and backslashes with the character that they escape. -/
inductive Units (escapable : Char → Prop) : List Char → Prop
  | nil : Units escapable []
  | plain {c : Char} {rest : List Char} (hquote : c ≠ '"') (hbackslash : c ≠ '\\') (h : Units escapable rest) :
      Units escapable (c :: rest)
  | escape {c : Char} {rest : List Char} (hc : escapable c) (h : Units escapable rest) :
      Units escapable ('\\' :: c :: rest)

/-- The characters that the tokenizer takes as escaped. -/
def OnLine (c : Char) : Prop := ¬ isLineTerminator c

/-- A string that is properly terminated. -/
def Quoted (escapable : Char → Prop) (token : List Char) : Prop :=
  ∃ body, Units escapable body ∧ token = '"' :: (body ++ ['"'])

/-- No quote closes what the text is the inside of. -/
def Unclosed (text : List Char) : Prop := ∀ body rest, Units OnLine body → text ≠ body ++ '"' :: rest

variable {escapable : Char → Prop} {body text rest more token ws : List Char}

theorem closing_quote : closing ('"' :: rest) = some (['"'], rest) := by
  rw [closing.eq_def]
  exact if_pos rfl

theorem closing_cons {c : Char} (hquote : c ≠ '"') (hbackslash : c ≠ '\\') :
    closing (c :: rest) = (closing rest).map fun m => (c :: m.1, m.2) := by
  rw [closing.eq_def]
  simp only [if_neg hquote, if_neg hbackslash]

theorem closing_escape {c : Char} :
    closing ('\\' :: c :: rest) =
      if isLineTerminator c then none else (closing rest).map fun m => ('\\' :: c :: m.1, m.2) := by
  rw [closing, if_neg (by decide), if_pos rfl]

theorem closing_units (h : Units OnLine body) : closing (body ++ '"' :: rest) = some (body ++ ['"'], rest) := by
  induction h with
  | nil => exact closing_quote
  | plain hquote hbackslash h ih =>
    rw [List.cons_append, closing_cons hquote hbackslash, ih]
    rfl
  | escape hc h ih =>
    rw [List.cons_append, List.cons_append, closing_escape, if_neg hc, ih]
    rfl

theorem closing_eq_some {m : List Char × List Char} (h : closing text = some m) :
    ∃ body, Units OnLine body ∧ m.1 = body ++ ['"'] ∧ text = body ++ '"' :: m.2 := by
  induction hn : text.length using Nat.strong_induction_on generalizing text m with
  | _ n ih =>
    subst hn
    cases text with
    | nil => simp [closing] at h
    | cons c rest =>
      by_cases hquote : c = '"'
      · subst hquote
        rw [closing_quote] at h
        obtain rfl := Option.some.inj h
        exact ⟨[], .nil, rfl, rfl⟩
      · by_cases hbackslash : c = '\\'
        · subst hbackslash
          cases rest with
          | nil => simp [closing] at h
          | cons d rest =>
            rw [closing_escape] at h
            split at h
            · simp at h
            · rename_i hd
              obtain ⟨m', hm', rfl⟩ := Option.map_eq_some_iff.1 h
              obtain ⟨body, hbody, hm, hrest⟩ := ih rest.length (by simp only [List.length_cons]; omega) hm' rfl
              exact ⟨_, .escape hd hbody, by simp [hm], by simp [hrest]⟩
        · rw [closing_cons hquote hbackslash] at h
          obtain ⟨m', hm', rfl⟩ := Option.map_eq_some_iff.1 h
          obtain ⟨body, hbody, hm, hrest⟩ := ih rest.length (by simp) hm' rfl
          exact ⟨_, .plain hquote hbackslash hbody, by simp [hm], by simp [hrest]⟩

theorem closing_eq_none : closing text = none ↔ Unclosed text := by
  constructor
  · rintro h body rest hbody rfl
    rw [closing_units hbody] at h
    simp at h
  · intro h
    by_contra hsome
    obtain ⟨m, hm⟩ := Option.ne_none_iff_exists'.1 hsome
    obtain ⟨body, hbody, -, htext⟩ := closing_eq_some hm
    exact h body m.2 hbody htext

/-! ## Cutting a text -/

/-- Tokens, each with the white space after it. -/
abbrev Cutting : Type := List (List Char × List Char)

def textOf (cut : Cutting) : List Char := cut.flatMap fun piece => piece.1 ++ piece.2

def tokensOf (cut : Cutting) : List (List Char) := cut.map Prod.fst

def Spaces (ws : List Char) : Prop := ∀ c ∈ ws, isSpace c

/-- A token without white space. -/
def Word (token : List Char) : Prop := token ≠ [] ∧ ∀ c ∈ token, ¬ isSpace c

/-- How the tokenizer cuts. A run ends at white space only, and one that begins with a quote is no string that
is closed further on. -/
inductive Cut : Cutting → Prop
  | nil : Cut []
  | quoted {token ws : List Char} {rest : Cutting} (htoken : Quoted OnLine token) (hws : Spaces ws) (h : Cut rest) :
      Cut ((token, ws) :: rest)
  | run {token ws : List Char} {rest : Cutting} (htoken : Word token) (hws : Spaces ws) (hend : ws = [] → rest = [])
      (hopen : token.head? = some '"' → Unclosed (token.tail ++ (ws ++ textOf rest))) (h : Cut rest) :
      Cut ((token, ws) :: rest)

theorem textOf_cons (token ws : List Char) (rest : Cutting) :
    textOf ((token, ws) :: rest) = token ++ (ws ++ textOf rest) := by
  unfold textOf
  rw [List.flatMap_cons, List.append_assoc]

theorem matchToken_quoted (h : Quoted OnLine token) : matchToken (token ++ rest) = (token, rest) := by
  obtain ⟨body, hbody, rfl⟩ := h
  have hclosing := @closing_units body rest hbody
  unfold matchToken
  simp [hclosing]

theorem matchToken_open (h : text.head? = some '"' → Unclosed text.tail) :
    matchToken text = (text.takeWhile fun c => !isSpace c, text.dropWhile fun c => !isSpace c) := by
  have hnone : (if text.head? = some '"' then closing text.tail else none) = none := by
    split
    · exact closing_eq_none.2 (h ‹_›)
    · rfl
  unfold matchToken
  rw [hnone]

theorem matchToken_run (htoken : Word token) (hrest : ∀ c ∈ rest.head?, isSpace c)
    (hopen : token.head? = some '"' → Unclosed (token.tail ++ rest)) : matchToken (token ++ rest) = (token, rest) := by
  have hhead : (token ++ rest).head? = token.head? := List.head?_append_of_ne_nil _ htoken.1
  have htail : (token ++ rest).tail = token.tail ++ rest := List.tail_append_of_ne_nil htoken.1
  rw [matchToken_open (by rwa [hhead, htail]), List.takeWhile_append_of_pos (by simpa using htoken.2),
    List.dropWhile_append_of_pos (by simpa using htoken.2)]
  cases rest with
  | nil => simp
  | cons c rest =>
    have hc := hrest c rfl
    simp [hc]

theorem tokenizeFrom_spaces (h : Spaces ws) {n : Nat} (hn : ws.length ≤ n) :
    tokenizeFrom n (ws ++ text) = tokenizeFrom (n - ws.length) text := by
  induction ws generalizing n with
  | nil => rfl
  | cons c ws ih =>
    obtain ⟨n, rfl⟩ := Nat.exists_eq_add_one_of_ne_zero (Nat.ne_of_gt (Nat.lt_of_lt_of_le (Nat.succ_pos _) hn))
    rw [List.cons_append, tokenizeFrom, if_pos (h c List.mem_cons_self),
      ih (fun c hc => h c (List.mem_cons_of_mem _ hc)) (by simpa using hn), List.length_cons, Nat.add_sub_add_right]

theorem Quoted.ne_nil (h : Quoted escapable token) : token ≠ [] := by
  obtain ⟨body, -, rfl⟩ := h
  simp

theorem Quoted.head? (h : Quoted escapable token) : token.head? = some '"' := by
  obtain ⟨body, -, rfl⟩ := h
  rfl

theorem tokenizeFrom_step {n : Nat} (hne : token ≠ []) (hfirst : ∀ c ∈ token.head?, ¬ isSpace c)
    (hmatch : matchToken (token ++ rest) = (token, rest)) (hn : (token ++ rest).length ≤ n) :
    ∃ m, rest.length ≤ m ∧ tokenizeFrom n (token ++ rest) = token :: tokenizeFrom m rest := by
  obtain ⟨c, token, rfl⟩ := List.exists_cons_of_ne_nil hne
  rw [List.length_append, List.length_cons] at hn
  obtain ⟨n, rfl⟩ := Nat.exists_eq_add_one_of_ne_zero (show n ≠ 0 by omega)
  refine ⟨n, by omega, ?_⟩
  rw [List.cons_append] at hmatch ⊢
  rw [tokenizeFrom, if_neg (hfirst c rfl), hmatch]

theorem tokenizeFrom_piece {n : Nat} (hne : token ≠ []) (hfirst : ∀ c ∈ token.head?, ¬ isSpace c) (hws : Spaces ws)
    (hmatch : matchToken (token ++ (ws ++ rest)) = (token, ws ++ rest)) (hn : (token ++ (ws ++ rest)).length ≤ n) :
    ∃ m, rest.length ≤ m ∧ tokenizeFrom n (token ++ (ws ++ rest)) = token :: tokenizeFrom m rest := by
  obtain ⟨m, hm, hstep⟩ := tokenizeFrom_step hne hfirst hmatch hn
  rw [List.length_append] at hm
  exact ⟨m - ws.length, by omega, by rw [hstep, tokenizeFrom_spaces hws (by omega)]⟩

theorem Quoted.first (h : Quoted escapable token) : ∀ c ∈ token.head?, ¬ isSpace c := by
  rw [h.head?]
  rintro c hc
  obtain rfl := Option.some.inj hc
  decide

theorem Word.first (h : Word token) : ∀ c ∈ token.head?, ¬ isSpace c := fun c hc => h.2 c (List.mem_of_head? hc)

theorem head?_spaces {cut : Cutting} (hws : Spaces ws) (hend : ws = [] → cut = []) :
    ∀ c ∈ (ws ++ textOf cut).head?, isSpace c := by
  rcases ws with _ | ⟨c, ws⟩
  · rw [hend rfl]
    simp [textOf]
  · rintro d hd
    obtain rfl := Option.some.inj hd
    exact hws c List.mem_cons_self

theorem tokenizeFrom_of_cut {cut : Cutting} (h : Cut cut) {n : Nat} (hn : (textOf cut).length ≤ n) :
    tokenizeFrom n (textOf cut) = tokensOf cut := by
  induction h generalizing n with
  | nil => cases n <;> rfl
  | quoted htoken hws h ih =>
    rw [textOf_cons] at hn ⊢
    obtain ⟨m, hm, hstep⟩ := tokenizeFrom_piece htoken.ne_nil htoken.first hws (matchToken_quoted htoken) hn
    rw [hstep, ih hm]
    rfl
  | run htoken hws hend hopen h ih =>
    rw [textOf_cons] at hn ⊢
    have hmatch := matchToken_run htoken (head?_spaces hws hend) hopen
    obtain ⟨m, hm, hstep⟩ := tokenizeFrom_piece htoken.1 htoken.first hws hmatch hn
    rw [hstep, ih hm]
    rfl

theorem tokenize_of_cut {cut : Cutting} (h : Cut cut) : tokenize (textOf cut) = tokensOf cut :=
  tokenizeFrom_of_cut h (Nat.le_refl _)

theorem Cut.eq_nil {cut : Cutting} (h : Cut cut) (hnil : textOf cut = []) : cut = [] := by
  cases h with
  | nil => rfl
  | quoted htoken => exact absurd (List.append_eq_nil_iff.1 (textOf_cons .. ▸ hnil)).1 htoken.ne_nil
  | run htoken => exact absurd (List.append_eq_nil_iff.1 (textOf_cons .. ▸ hnil)).1 htoken.1

theorem head?_dropWhile (p : Char → Bool) (text : List Char) : ∀ c ∈ (text.dropWhile p).head?, ¬ p c := by
  intro c hc
  have hnot := List.head?_dropWhile_not p text
  rw [Option.mem_def.1 hc] at hnot
  simpa using hnot

theorem exists_cut (text : List Char) (h : ∀ c ∈ text.head?, ¬ isSpace c) : ∃ cut, textOf cut = text ∧ Cut cut := by
  induction hn : text.length using Nat.strong_induction_on generalizing text with
  | _ n ih =>
    subst hn
    by_cases hnil : text = []
    · exact ⟨[], hnil.symm, .nil⟩
    -- After the token there is white space, and a text that is cut by the hypothesis.
    have hrest : ∀ token rest, text = token ++ rest → token ≠ [] →
        ∃ cut, rest = rest.takeWhile isSpace ++ textOf cut ∧ Cut cut := by
      intro token rest htext hne
      have hle := (@List.dropWhile_sublist _ rest isSpace).length_le
      have hpos := List.length_pos_iff.2 hne
      obtain ⟨cut, hcut, hcuts⟩ := ih (rest.dropWhile isSpace).length (by rw [htext, List.length_append]; omega) _
        (head?_dropWhile isSpace rest) rfl
      exact ⟨cut, by rw [hcut, List.takeWhile_append_dropWhile], hcuts⟩
    have hspaces : ∀ rest : List Char, Spaces (rest.takeWhile isSpace) := fun rest c hc => List.mem_takeWhile_imp hc
    by_cases hclosed : text.head? = some '"' ∧ ¬ Unclosed text.tail
    · obtain ⟨hquote, hclosed⟩ := hclosed
      obtain ⟨m, hm⟩ := Option.ne_none_iff_exists'.1 (mt closing_eq_none.1 hclosed)
      obtain ⟨body, hbody, -, htail⟩ := closing_eq_some hm
      have htext : text = ('"' :: (body ++ ['"'])) ++ m.2 := by
        rw [List.cons_append, List.append_assoc, List.singleton_append, ← htail]
        exact (List.cons_head?_tail hquote).symm
      obtain ⟨cut, hcut, hcuts⟩ := hrest _ _ htext (by simp)
      refine ⟨('"' :: (body ++ ['"']), m.2.takeWhile isSpace) :: cut, ?_, .quoted ⟨body, hbody, rfl⟩ (hspaces _) hcuts⟩
      rw [textOf_cons, ← hcut, ← htext]
    · have htext : text = (text.takeWhile fun c => !isSpace c) ++ text.dropWhile fun c => !isSpace c :=
        List.takeWhile_append_dropWhile.symm
      have hword : Word (text.takeWhile fun c => !isSpace c) := by
        refine ⟨?_, fun c hc => by simpa using List.mem_takeWhile_imp hc⟩
        obtain ⟨c, rest, rfl⟩ := List.exists_cons_of_ne_nil hnil
        rw [List.takeWhile_cons_of_pos (by simpa using h c rfl)]
        simp
      obtain ⟨cut, hcut, hcuts⟩ := hrest _ _ htext hword.1
      refine ⟨(_, (text.dropWhile fun c => !isSpace c).takeWhile isSpace) :: cut, ?_,
        .run hword (hspaces _) (fun hws => hcuts.eq_nil ?_) (fun hquote => ?_) hcuts⟩
      · rw [textOf_cons, ← hcut, ← htext]
      · -- The text after the token would begin with white space.
        rw [hws, List.nil_append] at hcut
        rw [← hcut]
        cases hdrop : text.dropWhile fun c => !isSpace c with
        | nil => rfl
        | cons c rest =>
          have hc := head?_dropWhile (fun c => !isSpace c) text c (by rw [hdrop]; rfl)
          rw [hdrop, List.takeWhile_cons_of_pos (by simpa using hc)] at hws
          simp at hws
      · have hhead : text.head? = some '"' := by
          rw [htext, List.head?_append_of_ne_nil _ hword.1]
          exact hquote
        rw [← hcut, ← List.tail_append_of_ne_nil hword.1, ← htext]
        by_contra hc
        exact hclosed ⟨hhead, hc⟩

end Provisioning.Http
