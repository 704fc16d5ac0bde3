import Mathlib.Data.Nat.Digits.Defs
import Mathlib.Tactic.IntervalCases

/-!
# Operation ids

The `uuid` column, its text, and the syntax check that stands before every query by id.
-/

namespace Provisioning

abbrev Uuid : Type := BitVec 128

instance : LawfulBEq Uuid := instLawfulBEq

/-! ## Hex digits -/

def hexValue (c : Char) : Option Nat :=
  if 48 ≤ c.toNat ∧ c.toNat ≤ 57 then some (c.toNat - 48)
  else if 97 ≤ c.toNat ∧ c.toNat ≤ 102 then some (c.toNat - 87)
  else if 65 ≤ c.toNat ∧ c.toNat ≤ 70 then some (c.toNat - 55)
  else none

/-- The low `n` hex digits of `v`, the highest first. -/
def hexDigits : Nat → Nat → List Char
  | 0, _ => []
  | n + 1, v => hexDigits n (v / 16) ++ [Nat.digitChar (v % 16)]

def hexNumber (cs : List Char) : Nat := (cs.filterMap hexValue).foldl (fun acc d => 16 * acc + d) 0

theorem hexValue_digitChar {d : Nat} (h : d < 16) : hexValue (Nat.digitChar d) = some d := by
  interval_cases d <;> rfl

theorem hexDigits_length (n v : Nat) : (hexDigits n v).length = n := by
  induction n generalizing v with
  | zero => rfl
  | succ n ih => simp [hexDigits, ih]

theorem hexDigits_hex (n v : Nat) : ∀ c ∈ hexDigits n v, (hexValue c).isSome := by
  induction n generalizing v with
  | zero => simp [hexDigits]
  | succ n ih =>
    intro c hc
    rcases List.mem_append.1 hc with hc | hc
    · exact ih _ c hc
    · rw [List.mem_singleton.1 hc, hexValue_digitChar (Nat.mod_lt _ (by omega))]
      rfl

theorem hexNumber_hexDigits (n v : Nat) : hexNumber (hexDigits n v) = v % 16 ^ n := by
  induction n generalizing v with
  | zero => simp [hexDigits, hexNumber, Nat.mod_one]
  | succ n ih =>
    have hd := hexValue_digitChar (Nat.mod_lt v (show 0 < 16 by omega))
    have hi := ih (v / 16)
    simp only [hexNumber] at hi ⊢
    rw [hexDigits, List.filterMap_append, List.foldl_append, hi]
    simp only [List.filterMap_cons, hd, List.filterMap_nil, List.foldl_cons, List.foldl_nil]
    rw [pow_succ', Nat.mod_mul, Nat.add_comm]

/-! ## The text of an id -/

/-- The group sizes of `UUID_RE`. -/
def UUID_RE : List Nat := [8, 4, 4, 4, 12]

def renderGroups : List Nat → List Char → List Char
  | [], _ => []
  | [n], cs => cs.take n
  | n :: sizes, cs => cs.take n ++ '-' :: renderGroups sizes (cs.drop n)

def matchesGroups : List Nat → List Char → Bool
  | [], cs => cs.isEmpty
  | [n], cs => cs.length == n && cs.all fun c => (hexValue c).isSome
  | n :: sizes, cs =>
    (cs.take n).length == n && (cs.take n).all (fun c => (hexValue c).isSome) &&
      (cs.drop n).head? == some '-' && matchesGroups sizes (cs.drop (n + 1))

def Uuid.text (u : Uuid) : String := String.ofList (renderGroups UUID_RE (hexDigits 32 u.toNat))

def isOperationId (id : String) : Bool := matchesGroups UUID_RE id.toList

/-- The `uuid` that Postgres reads from the text, if the text passes `isOperationId`. -/
def operationIdOf (id : String) : Option Uuid :=
  if isOperationId id then some (BitVec.ofNat 128 (hexNumber id.toList)) else none

theorem matches_renderGroups {sizes : List Nat} {cs : List Char} (hlen : cs.length = sizes.sum)
    (hhex : ∀ c ∈ cs, (hexValue c).isSome) : matchesGroups sizes (renderGroups sizes cs) := by
  induction sizes generalizing cs with
  | nil => simp [renderGroups, matchesGroups]
  | cons n sizes ih =>
    cases sizes with
    | nil =>
      have hn : cs.length = n := by simpa using hlen
      have htake : cs.take n = cs := List.take_of_length_le (by omega)
      simp only [renderGroups, matchesGroups, htake, hn, beq_self_eq_true, Bool.true_and]
      exact List.all_eq_true.2 hhex
    | cons m sizes =>
      have hn : n ≤ cs.length := by simp only [List.sum_cons] at hlen; omega
      have htake : (cs.take n).length = n := List.length_take_of_le hn
      have hrest := @ih (cs.drop n) (by simp only [List.sum_cons, List.length_drop] at hlen ⊢; omega)
        fun c hc => hhex c (List.mem_of_mem_drop hc)
      rw [renderGroups, matchesGroups]
      · have hdrop : (cs.take n ++ '-' :: renderGroups (m :: sizes) (cs.drop n)).drop (n + 1) =
            renderGroups (m :: sizes) (cs.drop n) := by
          rw [List.drop_append, htake]
          simp [htake]
        simp only [List.take_left' htake, List.drop_left' htake, hdrop, hrest, htake]
        simpa using fun c hc => hhex c (List.mem_of_mem_take hc)
      · simp
      · simp

theorem filterMap_renderGroups {sizes : List Nat} {cs : List Char} (hlen : cs.length = sizes.sum) :
    (renderGroups sizes cs).filterMap hexValue = cs.filterMap hexValue := by
  induction sizes generalizing cs with
  | nil => simp [renderGroups, List.length_eq_zero_iff.1 hlen]
  | cons n sizes ih =>
    cases sizes with
    | nil => simp [renderGroups, List.take_of_length_le (show cs.length ≤ n by simp at hlen; omega)]
    | cons m sizes =>
      have hrest := @ih (cs.drop n) (by simp only [List.sum_cons, List.length_drop] at hlen ⊢; omega)
      have hdash : hexValue '-' = none := rfl
      rw [renderGroups, List.filterMap_append, List.filterMap_cons_none hdash, hrest,
        ← List.filterMap_append, List.take_append_drop]
      simp

theorem hexNumber_renderGroups {sizes : List Nat} {cs : List Char} (hlen : cs.length = sizes.sum) :
    hexNumber (renderGroups sizes cs) = hexNumber cs := by
  rw [hexNumber, filterMap_renderGroups hlen, hexNumber]

theorem Uuid.text_toList (u : Uuid) :
    (Uuid.text u).toList = renderGroups UUID_RE (hexDigits 32 u.toNat) := by
  rw [Uuid.text, String.toList_ofList]

/-- An id that Postgres generated passes the check and is read back as itself. -/
theorem operationIdOf_text (u : Uuid) : operationIdOf u.text = some u := by
  have hlen : (hexDigits 32 u.toNat).length = UUID_RE.sum := hexDigits_length 32 u.toNat
  have hid : isOperationId u.text := by
    rw [isOperationId, Uuid.text_toList]
    exact matches_renderGroups hlen (hexDigits_hex 32 u.toNat)
  have hlt : u.toNat < 16 ^ 32 := u.isLt
  have hnum : hexNumber u.text.toList = u.toNat := by
    rw [Uuid.text_toList, hexNumber_renderGroups hlen, hexNumber_hexDigits, Nat.mod_eq_of_lt hlt]
  rw [operationIdOf, if_pos hid, hnum, BitVec.ofNat_toNat, BitVec.setWidth_eq]

theorem Uuid.text_injective {u v : Uuid} (h : u.text = v.text) : u = v := by
  have := operationIdOf_text u
  rw [h, operationIdOf_text v] at this
  exact (Option.some.inj this).symm

end Provisioning
