import Mathlib.Data.List.TakeWhile
import Provisioning.Lib.Double

/-!
# Numerals

The numerals that `Number` reads. Next to the decimal ones there are those of another radix, `Infinity`,
and the ones with a point that has digits on one side only.
-/

namespace Lib

def hexDigit (n : Nat) : Char := if n < 10 then Char.ofNat (48 + n) else Char.ofNat (55 + n)

def hexValue (c : Char) : Option Nat :=
  if '0' ≤ c ∧ c ≤ '9' then some (c.toNat - 48)
  else if 'A' ≤ c ∧ c ≤ 'F' then some (c.toNat - 55)
  else if 'a' ≤ c ∧ c ≤ 'f' then some (c.toNat - 87)
  else none

theorem hexValue_hexDigit : ∀ n < 16, hexValue (hexDigit n) = some n := by decide

namespace Numeral

/-! ## Reading -/

/-- The radix that the letter after a `0` stands for. -/
def radixOf (c : Char) : Option Nat :=
  if c = 'x' ∨ c = 'X' then some 16
  else if c = 'o' ∨ c = 'O' then some 8
  else if c = 'b' ∨ c = 'B' then some 2
  else none

def isDigitIn (radix : Nat) (c : Char) : Bool := (hexValue c).any (· < radix)

def ofDigitsIn (radix : Nat) (digits : List Char) : Nat :=
  digits.foldl (fun n c => radix * n + (hexValue c).getD 0) 0

def radixLiteral : List Char → Option Nat
  | '0' :: letter :: digits =>
    (radixOf letter).bind fun radix =>
      if digits ≠ [] ∧ digits.all (isDigitIn radix) then some (ofDigitsIn radix digits) else none
  | _ => none

/-- Whether there is a minus sign, and what follows the sign. -/
def splitSign : List Char → Bool × List Char
  | '-' :: rest => (true, rest)
  | '+' :: rest => (false, rest)
  | text => (false, text)

/-- The parts of a decimal numeral without sign. `frac` is `none` without a point. -/
structure Parts where
  int : List Char
  frac : Option (List Char)
  exp : Option (Bool × List Char)

def readExponent : List Char → Option (Option (Bool × List Char))
  | [] => some none
  | e :: rest =>
    if (e = 'e' ∨ e = 'E') ∧ (splitSign rest).2 ≠ [] ∧ (splitSign rest).2.all Char.isDigit then
      some (some (splitSign rest))
    else none

/-- The digits after the point, and what follows them. -/
def readFraction : List Char → Option (List Char) × List Char
  | '.' :: rest => (some (rest.takeWhile Char.isDigit), rest.dropWhile Char.isDigit)
  | rest => (none, rest)

def readParts (text : List Char) : Option Parts :=
  let int := text.takeWhile Char.isDigit
  let frac := readFraction (text.dropWhile Char.isDigit)
  if int = [] ∧ frac.1.getD [] = [] then none else (readExponent frac.2).map (⟨int, frac.1, ·⟩)

namespace Parts

def digits (p : Parts) : Nat := Nat.ofDigitChars 10 (p.int ++ p.frac.getD []) 0

/-- The power of ten that the digits are multiplied by. -/
def scale (p : Parts) : Int :=
  (match p.exp with
    | none => 0
    | some (negative, ds) => if negative then -(Nat.ofDigitChars 10 ds 0 : Int) else Nat.ofDigitChars 10 ds 0) -
    (p.frac.getD []).length

def value (p : Parts) : Double := .ofQuotient (p.digits * 10 ^ p.scale.toNat) (10 ^ (-p.scale).toNat)

end Parts

def unsigned (text : List Char) : Double :=
  if text = "Infinity".toList then .infinite false
  else match readParts text with
    | some parts => parts.value
    | none => .nan

/-- `Number(text)`, of a text without white space. -/
def number (text : List Char) : Double :=
  if text = [] then .finite 0
  else match radixLiteral text with
    | some n => .ofQuotient n 1
    | none => if (splitSign text).1 then (unsigned (splitSign text).2).neg else unsigned (splitSign text).2

/-! ## Numerals -/

def Digits (text : List Char) : Prop := text ≠ [] ∧ ∀ c ∈ text, c.isDigit

def IsSign (text : List Char) : Prop := text = [] ∨ text = ['+'] ∨ text = ['-']

def IsExponent (text : List Char) : Prop :=
  text = [] ∨ ∃ e sign digits, text = e :: (sign ++ digits) ∧ (e = 'e' ∨ e = 'E') ∧ IsSign sign ∧ Digits digits

def IsFraction (text : List Char) : Prop := text = [] ∨ ∃ digits, text = '.' :: digits ∧ Digits digits

/-- A decimal number: a sign, digits, a fraction and an exponent, where only the digits have to be there. -/
def Decimal (text : List Char) : Prop :=
  ∃ sign int frac exp, text = sign ++ (int ++ (frac ++ exp)) ∧
    IsSign sign ∧ Digits int ∧ IsFraction frac ∧ IsExponent exp

/-- The numerals that are no decimal numbers. -/
inductive NonDecimal (text : List Char) : Prop
  | radix {letter : Char} {radix : Nat} {digits : List Char} (h : text = '0' :: letter :: digits)
      (hradix : radixOf letter = some radix) (hne : digits ≠ []) (hdigits : ∀ c ∈ digits, isDigitIn radix c)
  | infinity {sign : List Char} (h : text = sign ++ "Infinity".toList) (hsign : IsSign sign)
  | noFraction {sign int exp : List Char} (h : text = sign ++ (int ++ '.' :: exp)) (hsign : IsSign sign)
      (hint : Digits int) (hexp : IsExponent exp)
  | noInteger {sign digits exp : List Char} (h : text = sign ++ ('.' :: (digits ++ exp))) (hsign : IsSign sign)
      (hdigits : Digits digits) (hexp : IsExponent exp)

/-! ## What is read -/

section Read

variable {text rest int digits : List Char}

/-- The text goes on with something else than a digit. -/
def StopsDigits (rest : List Char) : Prop := ∀ c ∈ rest.head?, ¬ c.isDigit

theorem takeWhile_digits (h : ∀ c ∈ digits, c.isDigit) (hrest : StopsDigits rest) :
    (digits ++ rest).takeWhile Char.isDigit = digits ∧ (digits ++ rest).dropWhile Char.isDigit = rest := by
  rw [List.takeWhile_append_of_pos h, List.dropWhile_append_of_pos h]
  cases rest with
  | nil => simp
  | cons c rest =>
    have hc : ¬ c.isDigit := hrest c rfl
    simp [hc]

theorem IsExponent.stops (h : IsExponent rest) : StopsDigits rest := by
  rcases h with rfl | ⟨e, sign, digits, rfl, he, -⟩
  · simp [StopsDigits]
  · rcases he with rfl | rfl <;> simp [StopsDigits]

theorem IsExponent.no_point (h : IsExponent rest) : rest.head? ≠ some '.' := by
  rcases h with rfl | ⟨e, sign, digits, rfl, rfl | rfl, -⟩ <;> simp

theorem splitSign_append {sign : List Char} (hsign : IsSign sign) (h : ∀ c ∈ rest.head?, c ≠ '-' ∧ c ≠ '+') :
    splitSign (sign ++ rest) = (sign == ['-'], rest) := by
  rcases hsign with rfl | rfl | rfl
  · cases rest with
    | nil => rfl
    | cons c rest =>
      obtain ⟨hminus, hplus⟩ := h c rfl
      rw [List.nil_append]
      unfold splitSign
      split
      · rename_i heq
        exact absurd (List.cons.inj heq).1 hminus
      · rename_i heq
        exact absurd (List.cons.inj heq).1 hplus
      · rfl
  · rfl
  · rfl

theorem splitSign_spec (text : List Char) :
    ∃ sign, IsSign sign ∧ text = sign ++ (splitSign text).2 := by
  unfold splitSign
  split
  · exact ⟨['-'], .inr (.inr rfl), rfl⟩
  · exact ⟨['+'], .inr (.inl rfl), rfl⟩
  · exact ⟨[], .inl rfl, rfl⟩

theorem Digits.no_sign (h : Digits digits) : ∀ c ∈ (digits ++ rest).head?, c ≠ '-' ∧ c ≠ '+' := by
  obtain ⟨hne, hdigits⟩ := h
  obtain ⟨d, digits, rfl⟩ := List.exists_cons_of_ne_nil hne
  intro c hc
  obtain rfl : d = c := Option.some.inj hc
  have hd := hdigits d List.mem_cons_self
  constructor <;> rintro rfl <;> exact absurd hd (by decide)

theorem readExponent_isSome : (readExponent text).isSome ↔ IsExponent text := by
  unfold readExponent
  constructor
  · split
    · exact fun _ => .inl rfl
    · split
      · rename_i e rest h
        obtain ⟨he, hne, hall⟩ := h
        obtain ⟨sign, hsign, hrest⟩ := splitSign_spec rest
        exact fun _ => .inr ⟨e, sign, _, by rw [← hrest], he, hsign, hne, List.all_eq_true.1 hall⟩
      · simp
  · rintro (rfl | ⟨e, sign, digits, rfl, he, hsign, hdigits⟩)
    · rfl
    · have hsplit := splitSign_append hsign (@Digits.no_sign [] _ hdigits)
      rw [List.append_nil] at hsplit
      simp only [hsplit]
      rw [if_pos ⟨he, hdigits.1, List.all_eq_true.2 hdigits.2⟩]
      rfl

def fractionText : Option (List Char) → List Char
  | none => []
  | some digits => '.' :: digits

theorem readFraction_text {frac : Option (List Char)} {exp : List Char} (hfrac : ∀ ds ∈ frac, ∀ c ∈ ds, c.isDigit)
    (hexp : IsExponent exp) : readFraction (fractionText frac ++ exp) = (frac, exp) := by
  cases frac with
  | none =>
    unfold fractionText readFraction
    rw [List.nil_append]
    split
    · rename_i rest
      exact absurd rfl hexp.no_point
    · rfl
  | some digits =>
    obtain ⟨htake, hdrop⟩ := takeWhile_digits (hfrac digits rfl) hexp.stops
    rw [fractionText, List.cons_append, readFraction, htake, hdrop]

theorem stops_fraction {frac : Option (List Char)} {exp : List Char} (hexp : IsExponent exp) :
    StopsDigits (fractionText frac ++ exp) := by
  cases frac with
  | none => exact hexp.stops
  | some digits => simp [fractionText, StopsDigits]

theorem readParts_text {frac : Option (List Char)} {exp : List Char} (hint : ∀ c ∈ int, c.isDigit)
    (hfrac : ∀ ds ∈ frac, ∀ c ∈ ds, c.isDigit) (hexp : IsExponent exp) (hne : ¬ (int = [] ∧ frac.getD [] = [])) :
    readParts (int ++ (fractionText frac ++ exp)) = (readExponent exp).map (⟨int, frac, ·⟩) := by
  obtain ⟨htake, hdrop⟩ := takeWhile_digits hint (@stops_fraction frac exp hexp)
  unfold readParts
  simp only [htake, hdrop, readFraction_text hfrac hexp]
  exact if_neg hne

theorem readParts_isSome (h : (readParts text).isSome) :
    ∃ int frac exp, text = int ++ (fractionText frac ++ exp) ∧ (∀ c ∈ int, c.isDigit) ∧
      (∀ ds ∈ frac, ∀ c ∈ ds, c.isDigit) ∧ IsExponent exp ∧ ¬ (int = [] ∧ frac.getD [] = []) := by
  have hall : ∀ t : List Char, ∀ c ∈ t.takeWhile Char.isDigit, c.isDigit := fun t c hc => List.mem_takeWhile_imp hc
  unfold readParts at h
  simp only at h
  split at h
  · simp at h
  · rename_i hne
    rw [Option.isSome_map, readExponent_isSome] at h
    have htext : text = text.takeWhile Char.isDigit ++ text.dropWhile Char.isDigit :=
      List.takeWhile_append_dropWhile.symm
    refine ⟨text.takeWhile Char.isDigit, _, _, ?_, hall text, ?_, h, hne⟩
    · nth_rewrite 1 [htext]
      congr 1
      unfold readFraction
      split
      · rename_i rest hpoint
        rw [fractionText, List.cons_append, List.takeWhile_append_dropWhile, hpoint]
      · rfl
    · unfold readFraction
      split
      · rename_i rest _
        intro ds hds
        obtain rfl := Option.some.inj hds
        exact hall rest
      · simp

theorem value_ne_nan (p : Parts) : p.value ≠ .nan := by
  unfold Parts.value
  exact Double.ofQuotient_ne_nan _ _

theorem unsigned_ne_nan : unsigned text ≠ .nan ↔ text = "Infinity".toList ∨ (readParts text).isSome := by
  unfold unsigned
  split
  · rename_i h
    simp [h]
  · rename_i h
    cases hparts : readParts text with
    | none => exact ⟨fun hne => absurd rfl hne, fun hor => hor.elim (absurd · h) (by simp)⟩
    | some parts => exact ⟨fun _ => .inr rfl, fun _ => value_ne_nan parts⟩

theorem radixLiteral_isSome (h : (radixLiteral text).isSome) : NonDecimal text := by
  unfold radixLiteral at h
  split at h
  · rename_i letter digits
    obtain ⟨n, hn⟩ := Option.isSome_iff_exists.1 h
    obtain ⟨radix, hradix, hn⟩ := Option.bind_eq_some_iff.1 hn
    split at hn
    · rename_i hdigits
      exact .radix rfl hradix hdigits.1 (List.all_eq_true.1 hdigits.2)
    · simp at hn
  · simp at h

theorem radixLiteral_radix {letter : Char} {radix : Nat} (hradix : radixOf letter = some radix) (hne : digits ≠ [])
    (hdigits : ∀ c ∈ digits, isDigitIn radix c) :
    radixLiteral ('0' :: letter :: digits) = some (ofDigitsIn radix digits) := by
  rw [radixLiteral, hradix, Option.bind_some, if_pos ⟨hne, List.all_eq_true.2 hdigits⟩]

theorem numeral_of_unsigned {sign : List Char} (hsign : IsSign sign) (h : unsigned rest ≠ .nan) :
    Decimal (sign ++ rest) ∨ NonDecimal (sign ++ rest) := by
  rcases unsigned_ne_nan.1 h with rfl | hparts
  · exact .inr (.infinity rfl hsign)
  · obtain ⟨int, frac, exp, rfl, hint, hfrac, hexp, hne⟩ := readParts_isSome hparts
    rcases frac with _ | ds
    · have hint' : Digits int := ⟨fun hnil => hne ⟨hnil, rfl⟩, hint⟩
      exact .inl ⟨sign, int, [], exp, rfl, hsign, hint', .inl rfl, hexp⟩
    · by_cases hds : ds = []
      · subst hds
        exact .inr (.noFraction rfl hsign ⟨fun hnil => hne ⟨hnil, rfl⟩, hint⟩ hexp)
      · have hds' : Digits ds := ⟨hds, hfrac ds rfl⟩
        by_cases hnil : int = []
        · subst hnil
          exact .inr (.noInteger rfl hsign hds' hexp)
        · exact .inl ⟨sign, int, '.' :: ds, exp, rfl, hsign, ⟨hnil, hint⟩, .inr ⟨ds, rfl, hds'⟩, hexp⟩

theorem infinity_unsigned : ∀ c ∈ "Infinity".toList.head?, c ≠ '-' ∧ c ≠ '+' := by
  intro c hc
  obtain rfl : 'I' = c := by simpa using hc
  decide

theorem unsigned_of_numeral (h : Decimal text ∨ NonDecimal text) (hradix : radixLiteral text = none) :
    unsigned (splitSign text).2 ≠ .nan := by
  have hparts : ∀ {sign rest}, IsSign sign → (∀ c ∈ rest.head?, c ≠ '-' ∧ c ≠ '+') → text = sign ++ rest →
      unsigned rest ≠ .nan → unsigned (splitSign text).2 ≠ .nan := by
    rintro sign rest hsign hhead rfl hne
    rwa [splitSign_append hsign hhead]
  have hread : ∀ {int exp} frac, (∀ c ∈ int, c.isDigit) → (∀ ds ∈ frac, ∀ c ∈ ds, c.isDigit) → IsExponent exp →
      ¬ (int = [] ∧ frac.getD [] = []) → unsigned (int ++ (fractionText frac ++ exp)) ≠ .nan := by
    intro int exp frac hint hfrac hexp hne
    refine unsigned_ne_nan.2 (.inr ?_)
    rw [readParts_text hint hfrac hexp hne, Option.isSome_map]
    exact readExponent_isSome.2 hexp
  rcases h with ⟨sign, int, frac, exp, htext, hsign, hint, hfrac, hexp⟩ | h
  · refine hparts hsign hint.no_sign htext ?_
    rcases hfrac with rfl | ⟨ds, rfl, hds⟩
    · exact hread none hint.2 (by simp) hexp fun hnil => hint.1 hnil.1
    · refine hread (some ds) hint.2 ?_ hexp fun hnil => hint.1 hnil.1
      simpa using hds.2
  · cases h with
    | radix htext hletter hne hdigits =>
      rw [htext, radixLiteral_radix hletter hne hdigits] at hradix
      simp at hradix
    | infinity htext hsign => exact hparts hsign infinity_unsigned htext (unsigned_ne_nan.2 (.inl rfl))
    | noFraction htext hsign hint hexp =>
      exact hparts hsign hint.no_sign htext
        (hread (some []) hint.2 (by simp) hexp fun hnil => hint.1 hnil.1)
    | noInteger htext hsign hdigits hexp =>
      refine hparts hsign ?_ htext (@hread [] _ (some _) (by simp) ?_ hexp fun hnil => hdigits.1 hnil.2)
      · simp
      · simpa using hdigits.2

/-- **The texts that are numerals**, in the sense of `Number`. -/
theorem number_ne_nan : number text ≠ .nan ↔ text = [] ∨ Decimal text ∨ NonDecimal text := by
  unfold number
  split
  · rename_i hnil
    exact ⟨fun _ => .inl hnil, fun _ => by simp⟩
  · rename_i hnil
    cases hradix : radixLiteral text with
    | some n =>
      have hliteral : NonDecimal text := radixLiteral_isSome (by rw [hradix]; rfl)
      exact ⟨fun _ => .inr (.inr hliteral), fun _ => Double.ofQuotient_ne_nan _ _⟩
    | none =>
      have hsigned : (if (splitSign text).1 then (unsigned (splitSign text).2).neg
          else unsigned (splitSign text).2) ≠ .nan ↔ unsigned (splitSign text).2 ≠ .nan := by
        split
        · exact not_congr (Double.neg_eq_nan _)
        · rfl
      simp only
      rw [hsigned]
      constructor
      · intro h
        obtain ⟨sign, hsign, htext⟩ := splitSign_spec text
        rw [htext]
        exact .inr (numeral_of_unsigned hsign h)
      · intro h
        exact unsigned_of_numeral (h.resolve_left hnil) hradix

theorem numeral_ne_nil (h : Decimal text ∨ NonDecimal text) : text ≠ [] := by
  rcases h with ⟨sign, int, frac, exp, rfl, -, hint, -⟩ | h
  · simp [hint.1]
  · cases h with
    | radix htext | infinity htext | noFraction htext | noInteger htext => simp [htext]

/-! ## The characters of a numeral -/

theorem isUpper_iff {c : Char} : c.isUpper ↔ 'A'.val ≤ c.val ∧ c.val ≤ 'Z'.val := decide_eq_true_iff

theorem isLower_iff {c : Char} : c.isLower ↔ 'a'.val ≤ c.val ∧ c.val ≤ 'z'.val := by
  rw [← @decide_eq_true_iff ('a'.val ≤ c.val), ← @decide_eq_true_iff (c.val ≤ 'z'.val), ← Bool.and_eq_true]
  rfl

theorem isAlphanum_iff {c : Char} : c.isAlphanum ↔ (c.isUpper ∨ c.isLower) ∨ c.isDigit := by
  rw [← Bool.or_eq_true, ← Bool.or_eq_true]
  rfl

/-- The characters that occur in a numeral. -/
def IsNumeralChar (c : Char) : Prop := c.isAlphanum ∨ c = '+' ∨ c = '-' ∨ c = '.'

theorem isNumeralChar_digit {c : Char} (h : c.isDigit) : IsNumeralChar c :=
  .inl (by rw [Char.isAlphanum, h, Bool.or_true])

theorem IsSign.chars (h : IsSign text) : ∀ c ∈ text, IsNumeralChar c := by
  rcases h with rfl | rfl | rfl <;> simp [IsNumeralChar]

theorem Digits.chars (h : Digits text) : ∀ c ∈ text, IsNumeralChar c := fun c hc => isNumeralChar_digit (h.2 c hc)

theorem IsExponent.chars (h : IsExponent text) : ∀ c ∈ text, IsNumeralChar c := by
  rcases h with rfl | ⟨e, sign, digits, rfl, he, hsign, hdigits⟩
  · simp
  · refine List.forall_mem_cons.2 ⟨.inl ?_, List.forall_mem_append.2 ⟨hsign.chars, hdigits.chars⟩⟩
    rcases he with rfl | rfl <;> decide

theorem IsFraction.chars (h : IsFraction text) : ∀ c ∈ text, IsNumeralChar c := by
  rcases h with rfl | ⟨digits, rfl, hdigits⟩
  · simp
  · exact List.forall_mem_cons.2 ⟨.inr (.inr (.inr rfl)), hdigits.chars⟩

theorem isNumeralChar_hex {radix : Nat} {c : Char} (h : isDigitIn radix c) : IsNumeralChar c := by
  have hsome : hexValue c ≠ none := fun hnone => by simp [isDigitIn, hnone] at h
  refine .inl ?_
  unfold hexValue at hsome
  simp only [Char.le_def] at hsome
  rw [isAlphanum_iff, isUpper_iff, isLower_iff, Char.isDigit]
  simp only [ge_iff_le, Bool.and_eq_true, decide_eq_true_eq]
  split_ifs at hsome with h0 hA ha
  · exact .inr h0
  · exact .inl (.inl ⟨hA.1, UInt32.le_trans hA.2 (show 'F'.val ≤ 'Z'.val by decide)⟩)
  · exact .inl (.inr ⟨ha.1, UInt32.le_trans ha.2 (show 'f'.val ≤ 'z'.val by decide)⟩)
  · exact absurd rfl hsome

theorem radixOf_chars {letter : Char} {radix : Nat} (h : radixOf letter = some radix) : IsNumeralChar letter := by
  refine .inl ?_
  unfold radixOf at h
  split_ifs at h with h16 h8 h2
  · rcases h16 with rfl | rfl <;> decide
  · rcases h8 with rfl | rfl <;> decide
  · rcases h2 with rfl | rfl <;> decide

theorem numeral_chars (h : Decimal text ∨ NonDecimal text) : ∀ c ∈ text, IsNumeralChar c := by
  rcases h with ⟨sign, int, frac, exp, rfl, hsign, hint, hfrac, hexp⟩ | h
  · simp only [List.forall_mem_append]
    exact ⟨hsign.chars, hint.chars, hfrac.chars, hexp.chars⟩
  · cases h with
    | radix htext hletter hne hdigits =>
      subst htext
      simp only [List.forall_mem_cons]
      exact ⟨.inl (by decide), radixOf_chars hletter, fun c hc => isNumeralChar_hex (hdigits c hc)⟩
    | infinity htext hsign =>
      subst htext
      refine List.forall_mem_append.2 ⟨hsign.chars, fun c hc => .inl ?_⟩
      have hall : "Infinity".toList.all Char.isAlphanum := by decide
      exact List.all_eq_true.1 hall c hc
    | noFraction htext hsign hint hexp =>
      subst htext
      simp only [List.forall_mem_append, List.forall_mem_cons]
      exact ⟨hsign.chars, hint.chars, .inr (.inr (.inr rfl)), hexp.chars⟩
    | noInteger htext hsign hdigits hexp =>
      subst htext
      simp only [List.forall_mem_append, List.forall_mem_cons]
      exact ⟨hsign.chars, .inr (.inr (.inr rfl)), hdigits.chars, hexp.chars⟩

/-! ## Decimal numbers and the others -/

theorem Decimal.parts (h : Decimal text) :
    ∃ parts, readParts (splitSign text).2 = some parts ∧ parts.int ≠ [] ∧ parts.frac ≠ some [] := by
  obtain ⟨sign, int, frac, exp, rfl, hsign, hint, hfrac, hexp⟩ := h
  rw [splitSign_append hsign hint.no_sign]
  obtain ⟨e, he⟩ := Option.isSome_iff_exists.1 (readExponent_isSome.2 hexp)
  rcases hfrac with rfl | ⟨ds, rfl, hds⟩
  · have hparts := @readParts_text int none exp hint.2 (by simp) hexp fun hnil => hint.1 hnil.1
    rw [he] at hparts
    exact ⟨_, hparts, hint.1, by simp⟩
  · have hparts := @readParts_text int (some ds) exp hint.2 (by simpa using hds.2) hexp fun hnil => hint.1 hnil.1
    rw [he] at hparts
    exact ⟨_, hparts, hint.1, by simpa using hds.1⟩

theorem NonDecimal.not_decimal (h : NonDecimal text) : ¬ Decimal text := by
  intro hdecimal
  obtain ⟨parts, hparts, hint, hfrac⟩ := hdecimal.parts
  cases h with
  | @radix letter radix digits htext hletter hne hdigits =>
    subst htext
    have hnone : readParts (splitSign ('0' :: letter :: digits)).2 = none := by
      unfold radixOf at hletter
      split_ifs at hletter with h16 h8 h2
      · rcases h16 with rfl | rfl <;> rfl
      · rcases h8 with rfl | rfl <;> rfl
      · rcases h2 with rfl | rfl <;> rfl
    rw [hnone] at hparts
    simp at hparts
  | infinity htext hsign =>
    subst htext
    have hnone : readParts "Infinity".toList = none := by decide
    rw [splitSign_append hsign infinity_unsigned, hnone] at hparts
    simp at hparts
  | @noFraction sign int' exp htext hsign hint' hexp =>
    subst htext
    rw [splitSign_append hsign hint'.no_sign] at hparts
    have hread := @readParts_text int' (some []) exp hint'.2 (by simp) hexp fun hnil => hint'.1 hnil.1
    rw [fractionText, List.cons_append, List.nil_append, hparts] at hread
    obtain ⟨e, -, he⟩ := Option.map_eq_some_iff.1 hread.symm
    exact hfrac (by rw [← he])
  | @noInteger sign digits exp htext hsign hdigits hexp =>
    subst htext
    rw [splitSign_append hsign (by simp)] at hparts
    have hread := @readParts_text [] (some digits) exp (by simp) (by simpa using hdigits.2) hexp
      fun hnil => hdigits.1 hnil.2
    rw [List.nil_append, fractionText, List.cons_append, hparts] at hread
    obtain ⟨e, -, he⟩ := Option.map_eq_some_iff.1 hread.symm
    exact hint (by rw [← he])

/-! ## Integers -/

theorem radixLiteral_digits (hdigits : Digits digits) : radixLiteral digits = none := by
  unfold radixLiteral
  split
  · rename_i letter digits
    have hletter : letter.isDigit := hdigits.2 letter (by simp)
    have hradix : radixOf letter = none := by
      unfold radixOf
      split_ifs with h16 h8 h2
      · rcases h16 with rfl | rfl <;> exact absurd hletter (by decide)
      · rcases h8 with rfl | rfl <;> exact absurd hletter (by decide)
      · rcases h2 with rfl | rfl <;> exact absurd hletter (by decide)
      · rfl
    rw [hradix, Option.bind_none]
  · rfl

theorem unsigned_digits (hdigits : Digits digits) :
    unsigned digits = .ofQuotient (Nat.ofDigitChars 10 digits 0) 1 := by
  have hinfinity : digits ≠ "Infinity".toList := by
    rintro rfl
    exact absurd (hdigits.2 'I' (by decide)) (by decide)
  have hparts := @readParts_text digits none [] hdigits.2 (by simp) (.inl rfl) fun hnil => hdigits.1 hnil.1
  rw [fractionText, List.append_nil, List.append_nil] at hparts
  unfold unsigned
  rw [if_neg hinfinity, hparts]
  simp [readExponent, Parts.value, Parts.scale, Parts.digits]

theorem number_digits (hdigits : Digits digits) (exact : Double.Exact (Nat.ofDigitChars 10 digits 0)) :
    number digits = .finite (Nat.ofDigitChars 10 digits 0) := by
  have hsplit : splitSign digits = (false, digits) := by
    have h := @splitSign_append digits [] (.inl rfl) (by simpa using @Digits.no_sign [] digits hdigits)
    exact h
  unfold number
  rw [if_neg hdigits.1, radixLiteral_digits hdigits]
  simp only [hsplit]
  rw [if_neg (by simp), unsigned_digits hdigits, Double.ofQuotient_exact exact]

theorem number_minus (hdigits : Digits digits) (exact : Double.Exact (Nat.ofDigitChars 10 digits 0))
    (hpos : Nat.ofDigitChars 10 digits 0 ≠ 0) :
    number ('-' :: digits) = .finite (-(Nat.ofDigitChars 10 digits 0 : ℚ)) := by
  have hnone : radixLiteral ('-' :: digits) = none := rfl
  have hneg : (Nat.ofDigitChars 10 digits 0 : ℚ) ≠ 0 := by exact_mod_cast hpos
  unfold number
  rw [if_neg (by simp), hnone]
  simp only [splitSign]
  rw [if_pos trivial, unsigned_digits hdigits, Double.ofQuotient_exact exact, Double.neg, if_neg hneg]

end Read

end Numeral

end Lib
