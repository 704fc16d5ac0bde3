import Mathlib.Algebra.Order.Field.Rat
import Mathlib.Tactic.FieldSimp
import Mathlib.Tactic.Linarith
import Mathlib.Tactic.Positivity
import Mathlib.Tactic.Ring

/-!
# Double precision numbers

A finite double is its value, but for the zero with a minus sign. `ofQuotient` rounds to the nearest
double, and a tie to the even one.
-/

namespace Lib

inductive Double where
  | nan
  | infinite (negative : Bool)
  | negZero
  | finite (value : ℚ)
  deriving DecidableEq, Repr

/-- The integer nearest to `a / b`. -/
def nearestEven (a b : Nat) : Nat :=
  if 2 * (a % b) < b ∨ (2 * (a % b) = b ∧ a / b % 2 = 0) then a / b else a / b + 1

/-- The exponent of the last bit that a double near `num / den` has. -/
def ulpExponent (num den : Nat) : Int :=
  let guess : Int := (Nat.log2 num : Int) - (Nat.log2 den : Int)
  let log := if den * 2 ^ guess.toNat ≤ num * 2 ^ (-guess).toNat then guess else guess - 1
  max (-1074) (log - 52)

namespace Double

def ofQuotient (num den : Nat) : Double :=
  let e := ulpExponent num den
  let m := nearestEven (num * 2 ^ (-e).toNat) (den * 2 ^ e.toNat)
  let value : ℚ := m * 2 ^ e
  if 2 ^ 1024 ≤ value then .infinite false else .finite value

def neg : Double → Double
  | nan => nan
  | infinite negative => infinite !negative
  | negZero => finite 0
  | finite value => if value = 0 then negZero else finite (-value)

theorem ofQuotient_ne_nan (num den : Nat) : ofQuotient num den ≠ nan := by
  unfold ofQuotient
  simp only
  split <;> simp

theorem neg_eq_nan (d : Double) : d.neg = nan ↔ d = nan := by
  cases d with
  | finite value =>
    unfold neg
    simp only
    split <;> simp
  | _ => simp [neg]

/-! ## Comparisons -/

/-- `d < n`. -/
def below (d : Double) (n : ℚ) : Bool :=
  match d with
  | nan => false
  | infinite negative => negative
  | negZero => 0 < n
  | finite value => value < n

/-- `n < d`. -/
def above (d : Double) (n : ℚ) : Bool :=
  match d with
  | nan => false
  | infinite negative => !negative
  | negZero => n < 0
  | finite value => n < value

def isInteger : Double → Bool
  | negZero => true
  | finite value => value.den = 1
  | _ => false

theorem exists_nat {d : Double} {bound : Nat} (integer : d.isInteger) (positive : d.above 0)
    (bounded : ¬ d.above bound) : ∃ n : Nat, d = finite n ∧ 0 < n ∧ n ≤ bound := by
  cases d with
  | nan => simp [isInteger] at integer
  | infinite negative => simp [isInteger] at integer
  | negZero => simp [above] at positive
  | finite value =>
    simp only [isInteger, decide_eq_true_eq] at integer
    simp only [above, decide_eq_true_eq, not_lt] at positive bounded
    have hnum : (0 : Int) ≤ value.num := Rat.num_nonneg.2 (le_of_lt positive)
    obtain ⟨n, hn⟩ := Int.eq_ofNat_of_zero_le hnum
    have hvalue : value = n := by
      rw [← Rat.num_div_den value, integer, hn]
      simp
    subst hvalue
    exact ⟨n, rfl, by exact_mod_cast positive, by exact_mod_cast bounded⟩

/-! ## Integers that are doubles -/

/-- The integer has 53 significant bits at most, and is below the overflow. -/
def Exact (n : Nat) : Prop := (∃ m k : Nat, m < 2 ^ 53 ∧ n = m * 2 ^ k) ∧ n < 2 ^ 1024

theorem nearestEven_of_dvd {a b : Nat} (hb : 0 < b) (h : b ∣ a) : nearestEven a b = a / b := by
  unfold nearestEven
  rw [Nat.mod_eq_zero_of_dvd h]
  exact if_pos (.inl (by omega))

theorem ulpExponent_one {n : Nat} (hn : 0 < n) : ulpExponent n 1 = (Nat.log2 n : Int) - 52 := by
  have hlog : Nat.log2 1 = 0 := by decide
  have hle := Nat.log2_self_le (n := n) (by omega)
  unfold ulpExponent
  simp only [hlog]
  rw [if_pos]
  · omega
  · simpa using hle

theorem Exact.dvd {n : Nat} (h : Exact n) (hn : 0 < n) : 2 ^ (Nat.log2 n - 52) ∣ n := by
  obtain ⟨⟨m, k, hm, rfl⟩, -⟩ := h
  have hlt : m * 2 ^ k < 2 ^ (53 + k) := by
    rw [Nat.pow_add]
    exact Nat.mul_lt_mul_of_pos_right hm (Nat.two_pow_pos k)
  have hlog : Nat.log2 (m * 2 ^ k) < 53 + k := (Nat.log2_lt (by omega)).2 hlt
  exact Dvd.dvd.mul_left (Nat.pow_dvd_pow 2 (by omega)) m

theorem ofQuotient_exact {n : Nat} (h : Exact n) : ofQuotient n 1 = .finite n := by
  rcases Nat.eq_zero_or_pos n with rfl | hn
  · decide +kernel
  have hdvd := h.dvd hn
  have hvalue : ((nearestEven (n * 2 ^ (-ulpExponent n 1).toNat) (1 * 2 ^ (ulpExponent n 1).toNat) : Nat) : ℚ) *
      2 ^ ulpExponent n 1 = n := by
    rw [ulpExponent_one hn]
    by_cases hlog : 52 ≤ Nat.log2 n
    · have hneg : (-((Nat.log2 n : Int) - 52)).toNat = 0 := by omega
      have hpos : ((Nat.log2 n : Int) - 52).toNat = Nat.log2 n - 52 := by omega
      have hexp : ((Nat.log2 n : Int) - 52) = ((Nat.log2 n - 52 : Nat) : Int) := by omega
      rw [hneg, hpos, pow_zero, mul_one, one_mul, nearestEven_of_dvd (Nat.two_pow_pos _) hdvd, hexp, zpow_natCast]
      exact_mod_cast Nat.div_mul_cancel hdvd
    · have hneg : (-((Nat.log2 n : Int) - 52)).toNat = 52 - Nat.log2 n := by omega
      have hpos : ((Nat.log2 n : Int) - 52).toNat = 0 := by omega
      have hexp : ((Nat.log2 n : Int) - 52) = -((52 - Nat.log2 n : Nat) : Int) := by omega
      rw [hneg, hpos, pow_zero, mul_one, nearestEven_of_dvd (by omega) (one_dvd _), Nat.div_one, hexp, zpow_neg,
        zpow_natCast]
      push_cast
      field_simp
  have hbound : ¬ (2 : ℚ) ^ 1024 ≤ n := by
    rw [not_le]
    exact_mod_cast h.2
  unfold ofQuotient
  simp only [hvalue]
  exact if_neg hbound

/-! ## Arithmetic -/

theorem exact_of_lt {n : Nat} (h : n < 2 ^ 53) : Exact n := by
  have hbits : 53 ≤ 1024 := by decide
  exact ⟨⟨n, 0, h, by simp⟩, h.trans_le (pow_le_pow_right₀ one_le_two hbits)⟩

/-- The nearest double. -/
def ofRat (q : ℚ) : Double :=
  if q < 0 then (ofQuotient q.num.natAbs q.den).neg else ofQuotient q.num.natAbs q.den

def add : Double → Double → Double
  | nan, _ | _, nan => nan
  | infinite a, infinite b => if a = b then infinite a else nan
  | infinite a, _ | _, infinite a => infinite a
  | negZero, d | d, negZero => d
  | finite a, finite b => ofRat (a + b)

/-- `d * n`, for a positive `n`. -/
def times (d : Double) (n : Nat) : Double :=
  match d with
  | finite value => ofRat (value * n)
  | _ => d

/-- `d < e`. -/
def lt (d e : Double) : Bool :=
  match d with
  | nan => false
  | infinite negative => negative && e ≠ nan && e ≠ infinite true
  | negZero => e.above 0
  | finite value => e.above value

theorem ofRat_natCast {n : Nat} (h : n < 2 ^ 53) : ofRat n = finite n := by
  have hpos : ¬ (n : ℚ) < 0 := not_lt.2 (Nat.cast_nonneg n)
  unfold ofRat
  rw [if_neg hpos, Rat.den_natCast, Rat.num_natCast, Int.natAbs_natCast, ofQuotient_exact (exact_of_lt h)]

theorem ofRat_neg_natCast {n : Nat} (hn : 0 < n) (h : n < 2 ^ 53) : ofRat (-(n : ℚ)) = finite (-(n : ℚ)) := by
  have hpos : 0 < (n : ℚ) := Nat.cast_pos.2 hn
  have hneg : -(n : ℚ) < 0 := neg_lt_zero.2 hpos
  unfold ofRat
  rw [if_pos hneg, Rat.neg_den, Rat.neg_num, Rat.den_natCast, Rat.num_natCast, Int.natAbs_neg, Int.natAbs_natCast,
    ofQuotient_exact (exact_of_lt h)]
  exact if_neg (ne_of_gt hpos)

theorem add_natCast {m n : Nat} (h : m + n < 2 ^ 53) : add (finite m) (finite n) = finite (m + n : Nat) := by
  rw [← ofRat_natCast h, Nat.cast_add]
  rfl

theorem times_natCast {m n : Nat} (h : m * n < 2 ^ 53) : times (finite m) n = finite (m * n : Nat) := by
  rw [← ofRat_natCast h, Nat.cast_mul]
  rfl

theorem add_neg_natCast {m n : Nat} (hm : m < 2 ^ 53) (hn : n < 2 ^ 53) :
    add (finite m) (neg (finite n)) = finite (m - n : ℚ) := by
  rcases Nat.eq_zero_or_pos n with rfl | hpos
  · simp [neg, add]
  · have hne : (n : ℚ) ≠ 0 := Nat.cast_ne_zero.2 (by omega)
    have hneg : neg (finite (n : ℚ)) = finite (-(n : ℚ)) := if_neg hne
    have hadd : add (finite (m : ℚ)) (finite (-(n : ℚ))) = ofRat (m - n) := by
      rw [sub_eq_add_neg]
      rfl
    rw [hneg, hadd]
    rcases le_or_gt n m with hle | hlt
    · rw [← Nat.cast_sub hle]
      exact ofRat_natCast (by omega)
    · have hflip : (m : ℚ) - n = -((n - m : Nat) : ℚ) := by
        rw [Nat.cast_sub (le_of_lt hlt)]
        ring
      rw [hflip]
      exact ofRat_neg_natCast (by omega) (by omega)

variable {m n k : Nat}

theorem lt_natCast : lt (finite m) (finite n) = decide (m < n) := by
  change decide ((m : ℚ) < n) = decide (m < n)
  rw [decide_eq_decide, Nat.cast_lt]

theorem add_lt_natCast (h : m + k < 2 ^ 53) : lt (add (finite m) (finite k)) (finite n) = decide (m + k < n) := by
  rw [add_natCast h, lt_natCast]

theorem lt_add_neg_natCast (hn : n < 2 ^ 53) (hk : k < 2 ^ 53) :
    lt (finite m) (add (finite n) (neg (finite k))) = decide (m + k < n) := by
  rw [add_neg_natCast hn hk]
  change decide ((m : ℚ) < n - k) = decide (m + k < n)
  rw [decide_eq_decide, lt_sub_iff_add_lt, ← Nat.cast_add, Nat.cast_lt]

end Double

end Lib
