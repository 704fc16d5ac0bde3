import Provisioning.Lib.Utf8
import Provisioning.Ops.Admission

/-!
# JSON text with lost characters

What `JSON.stringify` prints has characters beyond ASCII only between quotes. So a text that has lost some
of them is the text of a value, with the same shape.
-/

namespace Provisioning

open Lib.Utf8

namespace Json

/-! ## Values -/

def isNumeral (c : Char) : Bool := c ∈ ['+', '-', '.', '0', '1', '2', '3', '4', '5', '6', '7', '8', '9', 'E', 'e']

mutual
/-- The numbers are kept as decimal texts. -/
def decimal : Json → Bool
  | .num t => t.toList ≠ [] ∧ t.toList.all isNumeral
  | .arr items => decimalItems items
  | .obj fields => decimalFields fields
  | .null | .bool _ | .str _ => true

def decimalItems : List Json → Bool
  | [] => true
  | j :: rest => j.decimal && decimalItems rest

def decimalFields : List (String × Json) → Bool
  | [] => true
  | (_, v) :: rest => v.decimal && decimalFields rest
end

/-- `object[key] = value`. -/
def assign (fields : List (String × Json)) (f : String × Json) : List (String × Json) :=
  if fields.any fun g => g.1 = f.1 then fields.map fun g => if g.1 = f.1 then f else g else fields ++ [f]

mutual
/-- What a text denotes: a key that comes twice has its last value. -/
def value : Json → Json
  | .arr items => .arr (valueItems items)
  | .obj fields => .obj ((valueFields fields).foldl assign [])
  | .null => .null
  | .bool b => .bool b
  | .num t => .num t
  | .str s => .str s

def valueItems : List Json → List Json
  | [] => []
  | j :: rest => j.value :: valueItems rest

def valueFields : List (String × Json) → List (String × Json)
  | [] => []
  | (k, v) :: rest => (k, v.value) :: valueFields rest
end

mutual
/-- The second value is the first one with characters lost from its strings and keys. -/
def Garbled : Json → Json → Prop
  | .str s, j' => ∃ s' : String, j' = .str s' ∧ Damaged s.toList s'.toList
  | .arr items, j' => ∃ items', j' = .arr items' ∧ GarbledItems items items'
  | .obj fields, j' => ∃ fields', j' = .obj fields' ∧ GarbledFields fields fields'
  | .null, j' => j' = .null
  | .bool b, j' => j' = .bool b
  | .num t, j' => j' = .num t

def GarbledItems : List Json → List Json → Prop
  | [], items' => items' = []
  | j :: rest, items' => ∃ j' rest', items' = j' :: rest' ∧ j.Garbled j' ∧ GarbledItems rest rest'

def GarbledFields : List (String × Json) → List (String × Json) → Prop
  | [], fields' => fields' = []
  | (k, v) :: rest, fields' => ∃ (k' : String) (v' : Json) (rest' : List (String × Json)),
    fields' = (k', v') :: rest' ∧ Damaged k.toList k'.toList ∧ v.Garbled v' ∧ GarbledFields rest rest'
end

/-! ## Quotes -/

def escaped (c : Char) : List Char := (escapeChar c).toList

theorem toList_quote (s : String) : (quote s).toList = '"' :: (s.toList.flatMap escaped ++ ['"']) := by
  have hfold : ∀ (l : List Char) (acc : String),
      (l.foldl (fun acc c => acc ++ escapeChar c) acc).toList = acc.toList ++ l.flatMap escaped := by
    intro l
    induction l with
    | nil => simp
    | cons c l ih =>
      intro acc
      rw [List.foldl_cons, ih, String.toList_append, List.flatMap_cons, List.append_assoc, escaped]
  unfold quote
  rw [String.toList_append, hfold]
  rfl

theorem digitChar_plain : ∀ n < 16, (Nat.digitChar n).toNat < 0x80 ∧ Nat.digitChar n ≠ '\n' := by
  decide

theorem escaped_ascii {c : Char} (h : c.toNat < 0x80) : ∀ d ∈ escaped c, d.toNat < 0x80 ∧ d ≠ '\n' := by
  suffices hall : (escaped c).all fun d => d.toNat < 0x80 ∧ d ≠ '\n' by simpa using hall
  unfold escaped escapeChar
  repeat' split
  all_goals try decide
  · rename_i hlt
    have hdigit := digitChar_plain c.toNat hlt
    simpa using hdigit
  · rename_i hlt
    have hdigit := digitChar_plain (c.toNat - 16) (by omega)
    simpa using hdigit
  · rename_i _ _ hnewline _ _ _ _ _ _
    simpa using ⟨h, hnewline⟩

theorem escaped_wide {c : Char} (h : 0x80 ≤ c.toNat) : escaped c = [c] := by
  have hne {d : Char} (hd : d.toNat < 0x80) : c ≠ d := by
    rintro rfl
    omega
  unfold escaped escapeChar
  rw [if_neg (hne (by decide)), if_neg (hne (by decide)), if_neg (hne (by decide)), if_neg (hne (by decide)),
    if_neg (hne (by decide)), if_neg (by omega), if_neg (by omega), if_neg (by omega), if_neg (by omega),
    String.toList_singleton]

theorem escaped_of_damaged {text out : List Char} (h : Damaged (text.flatMap escaped) out) :
    ∃ text', Damaged text text' ∧ out = text'.flatMap escaped := by
  induction text generalizing out with
  | nil =>
    cases h
    exact ⟨[], .nil, rfl⟩
  | cons c text ih =>
    rw [List.flatMap_cons] at h
    by_cases hc : c.toNat < 0x80
    · obtain ⟨front, back, rfl, hfront, hback⟩ := h.of_append
      obtain ⟨text', htext, rfl⟩ := ih hback
      refine ⟨c :: text', .keep c htext, ?_⟩
      rw [hfront.ascii fun d hd => (escaped_ascii hc d hd).1, List.flatMap_cons]
    · rw [escaped_wide (not_lt.1 hc), List.singleton_append] at h
      cases h with
      | keep _ h =>
        obtain ⟨text', htext, rfl⟩ := ih h
        refine ⟨c :: text', .keep c htext, ?_⟩
        rw [List.flatMap_cons, escaped_wide (not_lt.1 hc), List.singleton_append]
      | lose _ n wide h =>
        obtain ⟨text', htext, rfl⟩ := ih h
        refine ⟨_, .lose c n wide htext, ?_⟩
        have hreplacements : (List.replicate (n + 2) replacement).flatMap escaped =
            List.replicate (n + 2) replacement := by
          rw [List.flatMap_replicate, escaped_wide (by decide)]
          exact List.flatten_replicate_singleton ..
        rw [List.flatMap_append, hreplacements]

theorem quote_of_damaged {s : String} {out : List Char} (h : Damaged (quote s).toList out) :
    ∃ s' : String, Damaged s.toList s'.toList ∧ out = (quote s').toList := by
  rw [toList_quote, ← List.singleton_append] at h
  obtain ⟨back, rfl, hback⟩ := h.after_ascii (by decide)
  obtain ⟨front, last, rfl, hfront, hlast⟩ := hback.of_append
  obtain ⟨text', htext, rfl⟩ := escaped_of_damaged hfront
  refine ⟨String.ofList text', by rwa [String.toList_ofList], ?_⟩
  rw [toList_quote, String.toList_ofList, hlast.ascii (by decide), List.singleton_append]

/-! ## Texts -/

theorem numeral_ascii {c : Char} (h : isNumeral c) : c.toNat < 0x80 ∧ c ≠ '\n' := by
  unfold isNumeral at h
  simp only [List.mem_cons, List.not_mem_nil, or_false, decide_eq_true_eq] at h
  rcases h with rfl | rfl | rfl | rfl | rfl | rfl | rfl | rfl | rfl | rfl | rfl | rfl | rfl | rfl | rfl
  all_goals decide

theorem stringifyItems_cons (j k : Json) (rest : List Json) :
    stringifyItems (j :: k :: rest) = j.stringify ++ "," ++ stringifyItems (k :: rest) := by
  rw [stringifyItems]
  simp

theorem stringifyFields_cons (k : String) (v : Json) (f : String × Json) (rest : List (String × Json)) :
    stringifyFields ((k, v) :: f :: rest) = quote k ++ ":" ++ v.stringify ++ "," ++ stringifyFields (f :: rest) := by
  rw [stringifyFields]
  simp

mutual
/-- **A text that has lost characters** is the text of a value that has lost them. -/
theorem garbled_of_damaged : (j : Json) → j.decimal → (out : List Char) → Damaged j.stringify.toList out →
    ∃ j', j.Garbled j' ∧ out = j'.stringify.toList
  | .null => by
    intro _ out h
    refine ⟨.null, by rw [Garbled], h.ascii ?_⟩
    rw [stringify]
    decide
  | .bool b => by
    intro _ out h
    refine ⟨.bool b, by rw [Garbled], h.ascii ?_⟩
    rw [stringify]
    cases b <;> decide
  | .num t => by
    intro decimal out h
    refine ⟨.num t, by rw [Garbled], h.ascii fun c hc => ?_⟩
    rw [stringify] at hc
    simp only [Json.decimal, decide_eq_true_eq] at decimal
    exact (numeral_ascii (List.all_eq_true.1 decimal.2 c hc)).1
  | .str s => by
    intro _ out h
    rw [stringify] at h
    obtain ⟨s', hs, rfl⟩ := quote_of_damaged h
    refine ⟨.str s', ?_, by rw [stringify]⟩
    rw [Garbled]
    exact ⟨s', rfl, hs⟩
  | .arr items => by
    intro decimal out h
    rw [stringify, String.toList_append, String.toList_append, List.append_assoc] at h
    obtain ⟨back, rfl, hback⟩ := h.after_ascii (by decide)
    obtain ⟨front, last, rfl, hfront, hlast⟩ := hback.of_append
    rw [Json.decimal] at decimal
    obtain ⟨items', hitems, rfl⟩ := garbledItems_of_damaged items decimal front hfront
    refine ⟨.arr items', ?_, ?_⟩
    · rw [Garbled]
      exact ⟨items', rfl, hitems⟩
    · rw [stringify, String.toList_append, String.toList_append, hlast.ascii (by decide), List.append_assoc]
  | .obj fields => by
    intro decimal out h
    rw [stringify, String.toList_append, String.toList_append, List.append_assoc] at h
    obtain ⟨back, rfl, hback⟩ := h.after_ascii (by decide)
    obtain ⟨front, last, rfl, hfront, hlast⟩ := hback.of_append
    rw [Json.decimal] at decimal
    obtain ⟨fields', hfields, rfl⟩ := garbledFields_of_damaged fields decimal front hfront
    refine ⟨.obj fields', ?_, ?_⟩
    · rw [Garbled]
      exact ⟨fields', rfl, hfields⟩
    · rw [stringify, String.toList_append, String.toList_append, hlast.ascii (by decide), List.append_assoc]

theorem garbledItems_of_damaged : (items : List Json) → decimalItems items → (out : List Char) →
    Damaged (stringifyItems items).toList out →
    ∃ items', GarbledItems items items' ∧ out = (stringifyItems items').toList
  | [] => by
    intro _ out h
    refine ⟨[], by rw [GarbledItems], h.ascii ?_⟩
    rw [stringifyItems]
    decide
  | [j] => by
    intro decimal out h
    rw [stringifyItems] at h
    simp only [decimalItems, Bool.and_true] at decimal
    obtain ⟨j', hj, rfl⟩ := garbled_of_damaged j decimal out h
    refine ⟨[j'], ?_, by rw [stringifyItems]⟩
    rw [GarbledItems]
    exact ⟨j', [], rfl, hj, by rw [GarbledItems]⟩
  | j :: k :: rest => by
    intro decimal out h
    rw [stringifyItems_cons, String.toList_append, String.toList_append, List.append_assoc] at h
    obtain ⟨front, back, rfl, hfront, hback⟩ := h.of_append
    obtain ⟨more, rfl, hmore⟩ := hback.after_ascii (by decide)
    rw [decimalItems, Bool.and_eq_true] at decimal
    obtain ⟨j', hj, rfl⟩ := garbled_of_damaged j decimal.1 front hfront
    obtain ⟨items', hitems, rfl⟩ := garbledItems_of_damaged (k :: rest) decimal.2 more hmore
    refine ⟨j' :: items', ?_, ?_⟩
    · rw [GarbledItems]
      exact ⟨j', items', rfl, hj, hitems⟩
    · rw [GarbledItems] at hitems
      obtain ⟨k', rest', rfl, -⟩ := hitems
      rw [stringifyItems_cons, String.toList_append, String.toList_append, List.append_assoc]

theorem garbledFields_of_damaged : (fields : List (String × Json)) → decimalFields fields → (out : List Char) →
    Damaged (stringifyFields fields).toList out →
    ∃ fields', GarbledFields fields fields' ∧ out = (stringifyFields fields').toList
  | [] => by
    intro _ out h
    refine ⟨[], by rw [GarbledFields], h.ascii ?_⟩
    rw [stringifyFields]
    decide
  | [(k, v)] => by
    intro decimal out h
    rw [stringifyFields, String.toList_append, String.toList_append, List.append_assoc] at h
    obtain ⟨front, back, rfl, hfront, hback⟩ := h.of_append
    obtain ⟨more, rfl, hmore⟩ := hback.after_ascii (by decide)
    simp only [decimalFields, Bool.and_true] at decimal
    obtain ⟨k', hk, rfl⟩ := quote_of_damaged hfront
    obtain ⟨v', hv, rfl⟩ := garbled_of_damaged v decimal more hmore
    refine ⟨[(k', v')], ?_, ?_⟩
    · rw [GarbledFields]
      exact ⟨k', v', [], rfl, hk, hv, by rw [GarbledFields]⟩
    · rw [stringifyFields, String.toList_append, String.toList_append, List.append_assoc]
  | (k, v) :: f :: rest => by
    intro decimal out h
    simp only [stringifyFields_cons, String.toList_append, List.append_assoc] at h
    obtain ⟨front, back, rfl, hfront, hback⟩ := h.of_append
    obtain ⟨more, rfl, hmore⟩ := hback.after_ascii (by decide)
    obtain ⟨middle, last, rfl, hmiddle, hlast⟩ := hmore.of_append
    obtain ⟨others, rfl, hothers⟩ := hlast.after_ascii (by decide)
    rw [decimalFields, Bool.and_eq_true] at decimal
    obtain ⟨k', hk, rfl⟩ := quote_of_damaged hfront
    obtain ⟨v', hv, rfl⟩ := garbled_of_damaged v decimal.1 middle hmiddle
    obtain ⟨fields', hfields, rfl⟩ := garbledFields_of_damaged (f :: rest) decimal.2 others hothers
    refine ⟨(k', v') :: fields', ?_, ?_⟩
    · rw [GarbledFields]
      exact ⟨k', v', fields', rfl, hk, hv, hfields⟩
    · obtain ⟨f₀, v₀⟩ := f
      rw [GarbledFields] at hfields
      obtain ⟨f', w', rest', rfl, -⟩ := hfields
      simp only [stringifyFields_cons, String.toList_append, List.append_assoc]
end

/-! ## Lines -/

theorem newline_quote (s : String) : '\n' ∉ (quote s).toList := by
  have hescaped : '\n' ∉ s.toList.flatMap escaped := by
    rw [List.mem_flatMap]
    rintro ⟨c, -, hc⟩
    by_cases hascii : c.toNat < 0x80
    · exact (escaped_ascii hascii _ hc).2 rfl
    · rw [escaped_wide (not_lt.1 hascii), List.mem_singleton] at hc
      subst hc
      exact hascii (by decide)
  rw [toList_quote]
  simp [hescaped]

mutual
theorem newline_stringify : (j : Json) → j.decimal → '\n' ∉ j.stringify.toList
  | .null => by
    intro _
    rw [stringify]
    decide
  | .bool b => by
    intro _
    rw [stringify]
    cases b <;> decide
  | .num t => by
    intro decimal h
    rw [stringify] at h
    simp only [Json.decimal, decide_eq_true_eq] at decimal
    exact (numeral_ascii (List.all_eq_true.1 decimal.2 _ h)).2 rfl
  | .str s => by
    intro _
    rw [stringify]
    exact newline_quote s
  | .arr items => by
    intro decimal
    rw [Json.decimal] at decimal
    have hitems := newline_stringifyItems items decimal
    rw [stringify]
    simp [hitems]
  | .obj fields => by
    intro decimal
    rw [Json.decimal] at decimal
    have hfields := newline_stringifyFields fields decimal
    rw [stringify]
    simp [hfields]

theorem newline_stringifyItems : (items : List Json) → decimalItems items → '\n' ∉ (stringifyItems items).toList
  | [] => by
    intro _
    rw [stringifyItems]
    decide
  | [j] => by
    intro decimal
    simp only [decimalItems, Bool.and_true] at decimal
    rw [stringifyItems]
    exact newline_stringify j decimal
  | j :: k :: rest => by
    intro decimal
    rw [decimalItems, Bool.and_eq_true] at decimal
    have hj := newline_stringify j decimal.1
    have hrest := newline_stringifyItems (k :: rest) decimal.2
    rw [stringifyItems_cons]
    simp [hj, hrest]

theorem newline_stringifyFields : (fields : List (String × Json)) → decimalFields fields →
    '\n' ∉ (stringifyFields fields).toList
  | [] => by
    intro _
    rw [stringifyFields]
    decide
  | [(k, v)] => by
    intro decimal
    simp only [decimalFields, Bool.and_true] at decimal
    have hv := newline_stringify v decimal
    rw [stringifyFields]
    simp [newline_quote, hv]
  | (k, v) :: f :: rest => by
    intro decimal
    rw [decimalFields, Bool.and_eq_true] at decimal
    have hv := newline_stringify v decimal.1
    have hrest := newline_stringifyFields (f :: rest) decimal.2
    rw [stringifyFields_cons]
    simp [newline_quote, hv, hrest]
end

theorem stringify_ne_nil {j : Json} (decimal : j.decimal) : j.stringify.toList ≠ [] := by
  cases j with
  | num t =>
    simp only [Json.decimal, decide_eq_true_eq] at decimal
    rw [stringify]
    exact decimal.1
  | null =>
    rw [stringify]
    decide
  | bool b =>
    rw [stringify]
    cases b <;> decide
  | str s =>
    rw [stringify, toList_quote]
    simp
  | arr items =>
    rw [stringify]
    simp
  | obj fields =>
    rw [stringify]
    simp

/-! ## Values that lost nothing -/

theorem length_assign_le (fields : List (String × Json)) (f : String × Json) :
    (assign fields f).length ≤ fields.length + 1 := by
  unfold assign
  split
  · rw [List.length_map]
    exact Nat.le_succ _
  · rw [List.length_append, List.length_singleton]

theorem length_foldl_assign_le (more fields : List (String × Json)) :
    (more.foldl assign fields).length ≤ fields.length + more.length := by
  induction more generalizing fields with
  | nil => exact le_rfl
  | cons f more ih =>
    have hassign := length_assign_le fields f
    have hrest := ih (assign fields f)
    rw [List.foldl_cons, List.length_cons]
    omega

/-- Unless a key comes twice, the fields are as they are written. -/
theorem foldl_assign_eq (more fields : List (String × Json))
    (h : (more.foldl assign fields).length = fields.length + more.length) :
    more.foldl assign fields = fields ++ more := by
  induction more generalizing fields with
  | nil => simp
  | cons f more ih =>
    rw [List.foldl_cons, List.length_cons] at h
    have hrest := length_foldl_assign_le more (assign fields f)
    have hassign : assign fields f = fields ++ [f] := by
      unfold assign at hrest h ⊢
      split at hrest
      · rename_i hany
        rw [List.length_map] at hrest
        rw [if_pos hany] at h
        omega
      · rename_i hnone
        exact if_neg hnone
    rw [hassign] at h
    rw [List.foldl_cons, hassign, ih _ (by simpa [Nat.add_assoc, Nat.add_comm 1] using h)]
    simp

mutual
theorem eq_of_garbled : (j j' : Json) → j.Garbled j' → j'.value = j → j' = j
  | .null, j' => by
    intro h _
    rwa [Garbled] at h
  | .bool b, j' => by
    intro h _
    rwa [Garbled] at h
  | .num t, j' => by
    intro h _
    rwa [Garbled] at h
  | .str s, j' => by
    intro h hvalue
    rw [Garbled] at h
    obtain ⟨s', rfl, -⟩ := h
    rwa [value] at hvalue
  | .arr items, j' => by
    intro h hvalue
    rw [Garbled] at h
    obtain ⟨items', rfl, hitems⟩ := h
    rw [value, Json.arr.injEq] at hvalue
    rw [(eq_of_garbledItems items items' hitems).2 hvalue]
  | .obj fields, j' => by
    intro h hvalue
    rw [Garbled] at h
    obtain ⟨fields', rfl, hfields⟩ := h
    obtain ⟨hlength, heq⟩ := eq_of_garbledFields fields fields' hfields
    rw [value, Json.obj.injEq] at hvalue
    have hassigned := foldl_assign_eq (valueFields fields') []
      (by rw [hvalue, hlength, List.length_nil, Nat.zero_add])
    rw [hassigned, List.nil_append] at hvalue
    rw [heq hvalue]

theorem eq_of_garbledItems : (items items' : List Json) → GarbledItems items items' →
    items.length = (valueItems items').length ∧ (valueItems items' = items → items' = items)
  | [], items' => by
    intro h
    rw [GarbledItems] at h
    subst h
    exact ⟨rfl, fun _ => rfl⟩
  | j :: rest, items' => by
    intro h
    rw [GarbledItems] at h
    obtain ⟨j', rest', rfl, hj, hrest⟩ := h
    obtain ⟨hlength, heq⟩ := eq_of_garbledItems rest rest' hrest
    rw [valueItems, List.length_cons, List.length_cons, List.cons.injEq, hlength]
    refine ⟨rfl, fun hvalue => ?_⟩
    rw [eq_of_garbled j j' hj hvalue.1, heq hvalue.2]

theorem eq_of_garbledFields : (fields fields' : List (String × Json)) → GarbledFields fields fields' →
    fields.length = (valueFields fields').length ∧ (valueFields fields' = fields → fields' = fields)
  | [], fields' => by
    intro h
    rw [GarbledFields] at h
    subst h
    exact ⟨rfl, fun _ => rfl⟩
  | (k, v) :: rest, fields' => by
    intro h
    rw [GarbledFields] at h
    obtain ⟨k', v', rest', rfl, -, hv, hrest⟩ := h
    obtain ⟨hlength, heq⟩ := eq_of_garbledFields rest rest' hrest
    rw [valueFields, List.length_cons, List.length_cons, List.cons.injEq, Prod.mk.injEq, hlength]
    refine ⟨rfl, fun hvalue => ?_⟩
    rw [hvalue.1.1, eq_of_garbled v v' hv hvalue.1.2, heq hvalue.2]
end

mutual
theorem garbled_refl : (j : Json) → j.Garbled j
  | .null => by rw [Garbled]
  | .bool b => by rw [Garbled]
  | .num t => by rw [Garbled]
  | .str s => by
    rw [Garbled]
    exact ⟨s, rfl, Damaged.refl _⟩
  | .arr items => by
    rw [Garbled]
    exact ⟨items, rfl, garbledItems_refl items⟩
  | .obj fields => by
    rw [Garbled]
    exact ⟨fields, rfl, garbledFields_refl fields⟩

theorem garbledItems_refl : (items : List Json) → GarbledItems items items
  | [] => by rw [GarbledItems]
  | j :: rest => by
    rw [GarbledItems]
    exact ⟨j, rest, rfl, garbled_refl j, garbledItems_refl rest⟩

theorem garbledFields_refl : (fields : List (String × Json)) → GarbledFields fields fields
  | [] => by rw [GarbledFields]
  | (k, v) :: rest => by
    rw [GarbledFields]
    exact ⟨k, v, rest, rfl, Damaged.refl _, garbled_refl v, garbledFields_refl rest⟩
end

end Json

end Provisioning
