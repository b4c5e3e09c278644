import Mathlib.Algebra.Order.Field.Power
import Mathlib.Data.Nat.Log
import Mathlib.Data.Rat.Defs
import Mathlib.Tactic.FieldSimp
import Mathlib.Tactic.Linarith
import Mathlib.Tactic.NormNum
import Mathlib.Tactic.Ring

/-!
# Decimal arithmetic

Finite decimals with a sign, a coefficient and an exponent, and the
operations of a context with a precision and a range of exponents: rounding
half to even, multiplication, division, `quantize` and truncation to an
integer. A result that does not fit is rounded, or the operation signals.

The value of a decimal is a rational, and the lemmas say when an operation
meets the rational one exactly: a result with few enough digits is left
alone, zeros cut off at the end cost nothing, and `quantize` signals exactly
when the rounded coefficient has too many digits.
-/

namespace DecimalArithmetic

/-- `(-1)^negative * coefficient * 10^exponent` -/
structure Decimal where
  negative : Bool
  coefficient : Nat
  exponent : Int
deriving DecidableEq

structure Context where
  prec : Nat
  emin : Int
  emax : Int

/-- The signals that are trapped. -/
inductive Signal
  | invalidOperation
  | divisionByZero
  | overflow
deriving DecidableEq

namespace Decimal

def sign (d : Decimal) : Int := if d.negative then -1 else 1

def value (d : Decimal) : ℚ := d.sign * (d.coefficient * 10 ^ d.exponent)

def ofInt (n : Int) : Decimal :=
  { negative := n < 0, coefficient := n.natAbs, exponent := 0 }

end Decimal

/-! ## Rounding -/

/-- The number of decimal digits, one for zero. -/
def digits (n : Nat) : Nat := Nat.log 10 n + 1

/-- The exponent of the first digit. -/
def adjusted (d : Decimal) : Int := d.exponent + digits d.coefficient - 1

def roundHalfEven (n m : Nat) : Nat :=
  let q := n / m
  let r := n % m
  if 2 * r < m then q else if m < 2 * r then q + 1 else q + q % 2

/-- The coefficient at another exponent, rounded if the exponent is higher. -/
def coefficientAt (d : Decimal) (exponent : Int) : Nat :=
  if exponent ≤ d.exponent then d.coefficient * 10 ^ (d.exponent - exponent).toNat
  else roundHalfEven d.coefficient (10 ^ (exponent - d.exponent).toNat)

def rescale (d : Decimal) (exponent : Int) : Decimal :=
  { negative := d.negative, coefficient := coefficientAt d exponent, exponent := exponent }

def Context.etiny (c : Context) : Int := c.emin - c.prec + 1

def Context.etop (c : Context) : Int := c.emax - c.prec + 1

/-- A result is rounded to the precision. -/
def fix (c : Context) (d : Decimal) : Except Signal Decimal :=
  if d.coefficient = 0 then .ok { d with exponent := min (max d.exponent c.etiny) c.emax }
  else
    let expMin := d.exponent + digits d.coefficient - c.prec
    if c.etop < expMin then .error .overflow
    else
      let expMin := max expMin c.etiny
      if d.exponent < expMin then
        let n := coefficientAt d expMin
        -- rounding up may take one digit more
        if c.prec < digits n then
          if c.etop < expMin + 1 then .error .overflow
          else .ok { d with coefficient := n / 10, exponent := expMin + 1 }
        else .ok { d with coefficient := n, exponent := expMin }
      else .ok d

/-! ## Operations -/

def mul (c : Context) (d e : Decimal) : Except Signal Decimal :=
  fix c { negative := d.negative ^^ e.negative
          coefficient := d.coefficient * e.coefficient
          exponent := d.exponent + e.exponent }

/-- Up to `n` zeros cut off at the end, and how many there were. -/
def dropZeros : Nat → Nat → Nat × Nat
  | 0, q => (q, 0)
  | n + 1, q =>
      if q % 10 = 0 then
        let (q, k) := dropZeros n (q / 10)
        (q, k + 1)
      else (q, 0)

/-- The quotient is developed to one digit more than the precision; one that is
not exact is kept off the ties. -/
def truediv (c : Context) (d e : Decimal) : Except Signal Decimal :=
  let negative := d.negative ^^ e.negative
  if e.coefficient = 0 then
    if d.coefficient = 0 then .error .invalidOperation else .error .divisionByZero
  else if d.coefficient = 0 then
    fix c { negative := negative, coefficient := 0, exponent := d.exponent - e.exponent }
  else
    let shift : Int := digits e.coefficient - digits d.coefficient + c.prec + 1
    let exponent := d.exponent - e.exponent - shift
    let n := d.coefficient * 10 ^ shift.toNat
    let m := e.coefficient * 10 ^ (-shift).toNat
    let q := n / m
    if n % m ≠ 0 then
      let q := if q % 5 = 0 then q + 1 else q
      fix c { negative := negative, coefficient := q, exponent := exponent }
    else
      let (q, k) := dropZeros shift.toNat q
      fix c { negative := negative, coefficient := q, exponent := exponent + k }

/-- The first operand at the exponent of the second. -/
def quantize (c : Context) (d e : Decimal) : Except Signal Decimal :=
  if ¬(c.etiny ≤ e.exponent ∧ e.exponent ≤ c.emax) then .error .invalidOperation
  else if d.coefficient = 0 then fix c { d with exponent := e.exponent }
  else if c.emax < adjusted d then .error .invalidOperation
  else if c.prec < adjusted d - e.exponent + 1 then .error .invalidOperation
  else
    let ans := rescale d e.exponent
    if c.emax < adjusted ans then .error .invalidOperation
    else if c.prec < digits ans.coefficient then .error .invalidOperation
    else fix c ans

/-- Truncation. -/
def toInt (d : Decimal) : Int :=
  d.sign *
    if 0 ≤ d.exponent then (d.coefficient : Int) * 10 ^ d.exponent.toNat
    else (d.coefficient : Int) / 10 ^ (-d.exponent).toNat

/-! ## Digits -/

theorem digits_le_iff {n p : Nat} (hp : 0 < p) : digits n ≤ p ↔ n < 10 ^ p := by
  unfold digits
  rw [Nat.succ_le_iff]
  by_cases hn : n = 0
  · subst hn
    simp [hp]
  · exact Nat.log_lt_iff_lt_pow (by omega) hn

theorem pow_le_of_digits {n : Nat} (hn : n ≠ 0) : 10 ^ (digits n - 1) ≤ n := by
  unfold digits
  rw [Nat.add_sub_cancel]
  exact Nat.pow_log_le_self 10 hn

theorem lt_pow_digits (n : Nat) : n < 10 ^ digits n :=
  Nat.lt_pow_succ_log_self (by omega) n

/-! ## Exact rounding -/

theorem roundHalfEven_mul (n : Nat) {m : Nat} (hm : 0 < m) : roundHalfEven (n * m) m = n := by
  unfold roundHalfEven
  simp [hm]

/-- Below an even bound: the tie under it is rounded up to it. -/
theorem roundHalfEven_lt_iff {n m bound : Nat} (hm : 0 < m) (hbound : 0 < bound)
    (heven : bound % 2 = 0) :
    roundHalfEven n m < bound ↔ 2 * n < (2 * bound - 1) * m := by
  have hn := Nat.div_add_mod n m
  have hr := Nat.mod_lt n hm
  have hsub : (2 * bound - 1) * m = 2 * (bound * m) - m := by
    rw [Nat.sub_mul]
    ring_nf
  rw [hsub]
  unfold roundHalfEven
  simp only
  generalize n / m = q at *
  generalize n % m = r at *
  rcases Nat.lt_trichotomy q (bound - 1) with hq | hq | hq
  · have hle : m * (q + 2) ≤ bound * m := by
      rw [Nat.mul_comm bound m]
      exact Nat.mul_le_mul_left m (by omega)
    rw [Nat.mul_add] at hle
    constructor
    · intro _
      omega
    · intro _
      split
      · omega
      · split
        · omega
        · omega
  · have heq : m * q + m = bound * m := by
      rw [hq, Nat.mul_comm bound m, ← Nat.mul_succ]
      congr 1
      omega
    split
    · constructor
      · intro _
        omega
      · intro _
        omega
    · split
      · constructor
        · intro _
          omega
        · intro _
          omega
      · constructor
        · intro _
          omega
        · intro _
          omega
  · have hle : bound * m ≤ m * q := by
      rw [Nat.mul_comm bound m]
      exact Nat.mul_le_mul_left m (by omega)
    constructor
    · intro h
      split at h
      · omega
      · split at h
        · omega
        · omega
    · intro _
      omega

/-! ## Values -/

/-- What is left of a value without the sign. -/
def magnitude (d : Decimal) : ℚ := d.coefficient * 10 ^ d.exponent

theorem value_eq (d : Decimal) : d.value = d.sign * magnitude d := rfl

theorem sign_cases (d : Decimal) : d.sign = 1 ∨ d.sign = -1 := by
  unfold Decimal.sign
  split
  · exact .inr rfl
  · exact .inl rfl

theorem magnitude_nonneg (d : Decimal) : 0 ≤ magnitude d := by
  unfold magnitude
  positivity

/-- A positive value is its magnitude. -/
theorem value_of_pos {d : Decimal} (h : 0 < d.value) : d.value = magnitude d := by
  rw [value_eq] at *
  rcases sign_cases d with hs | hs
  · rw [hs]
    norm_num
  · have := magnitude_nonneg d
    rw [hs] at h
    norm_num at h
    linarith

theorem pow_split {a b : Int} (h : a ≤ b) : (10 : ℚ) ^ b = 10 ^ (b - a).toNat * 10 ^ a := by
  rw [← zpow_natCast, ← zpow_add₀ (by norm_num)]
  congr 1
  omega

/-- Nothing is lost at a lower exponent. -/
theorem coefficientAt_of_le {d : Decimal} {e : Int} (h : e ≤ d.exponent) :
    (coefficientAt d e : ℚ) * 10 ^ e = magnitude d := by
  unfold coefficientAt magnitude
  rw [if_pos h, pow_split h]
  push_cast
  ring

/-- Nor at a higher one, if only zeros are cut off. -/
theorem coefficientAt_of_dvd {d : Decimal} {e : Int} (h : d.exponent ≤ e)
    (hdvd : 10 ^ (e - d.exponent).toNat ∣ d.coefficient) :
    coefficientAt d e = d.coefficient / 10 ^ (e - d.exponent).toNat ∧
      (coefficientAt d e : ℚ) * 10 ^ e = magnitude d := by
  obtain ⟨n, hn⟩ := hdvd
  have hpos : 0 < 10 ^ (e - d.exponent).toNat := Nat.pow_pos (by omega)
  have hat : coefficientAt d e = n := by
    unfold coefficientAt
    split
    · next hle =>
      have heq : d.exponent = e := by omega
      rw [heq, Int.sub_self] at hn ⊢
      simpa using hn
    · rw [hn, Nat.mul_comm]
      exact roundHalfEven_mul n hpos
  constructor
  · rw [hat, hn, Nat.mul_div_cancel_left n hpos]
  · unfold magnitude
    rw [hat, hn, pow_split h]
    push_cast
    ring

/-- A multiple of the power of ten at the exponent ends in zeros there. -/
theorem dvd_of_magnitude {d : Decimal} {e : Int} {n : Nat} (h : d.exponent ≤ e)
    (hn : magnitude d = n * 10 ^ e) : 10 ^ (e - d.exponent).toNat ∣ d.coefficient := by
  unfold magnitude at hn
  rw [pow_split h, ← mul_assoc] at hn
  have hcancel := mul_right_cancel₀ (zpow_ne_zero d.exponent (by norm_num)) hn
  have hnat : d.coefficient = n * 10 ^ (e - d.exponent).toNat := by exact_mod_cast hcancel
  exact ⟨n, by rw [hnat, Nat.mul_comm]⟩

/-- Rescaling is exact on the multiples, and on nothing else. -/
theorem coefficientAt_exact_iff (d : Decimal) (e : Int) :
    (coefficientAt d e : ℚ) * 10 ^ e = magnitude d ↔ ∃ n : Nat, magnitude d = n * 10 ^ e := by
  constructor
  · intro h
    exact ⟨coefficientAt d e, h.symm⟩
  · intro ⟨n, hn⟩
    rcases Int.le_total e d.exponent with h | h
    · exact coefficientAt_of_le h
    · exact (coefficientAt_of_dvd h (dvd_of_magnitude h hn)).2

/-- A decimal is its own rescaling if its value is a multiple of the power of ten. -/
theorem value_rescale_iff (d : Decimal) (e : Int) :
    d.value = (rescale d e).value ↔ ∃ n : Int, d.value = n * 10 ^ e := by
  constructor
  · intro h
    refine ⟨d.sign * coefficientAt d e, ?_⟩
    rw [h]
    unfold Decimal.value rescale
    push_cast
    rw [mul_assoc]
    rfl
  · intro ⟨n, hn⟩
    have hmag : magnitude d = (n.natAbs : ℚ) * 10 ^ e := by
      have hsign : |(d.sign : ℚ)| = 1 := by
        rcases sign_cases d with hs | hs
        · rw [hs]
          norm_num
        · rw [hs]
          norm_num
      have habs := congrArg abs hn
      rw [value_eq, abs_mul, hsign, one_mul, abs_of_nonneg (magnitude_nonneg d), abs_mul,
        abs_of_nonneg (zpow_nonneg (by norm_num : (0 : ℚ) ≤ 10) e)] at habs
      rw [habs, Nat.cast_natAbs, Int.cast_abs]
    have hexact := (coefficientAt_exact_iff d e).2 ⟨n.natAbs, hmag⟩
    show _ = (d.sign : ℚ) * (coefficientAt d e * 10 ^ e)
    rw [hexact]
    rfl

/-- The rounded coefficient stays under an even bound if the magnitude stays
half a unit below it. -/
theorem coefficientAt_lt_iff (d : Decimal) (e : Int) {bound : Nat} (hbound : 0 < bound)
    (heven : bound % 2 = 0) :
    coefficientAt d e < bound ↔ magnitude d < (bound - 1 / 2) * 10 ^ e := by
  have hpos : (0 : ℚ) < 10 ^ e := zpow_pos (by norm_num) e
  unfold coefficientAt magnitude
  split
  · next h =>
    rw [pow_split h, ← mul_assoc, mul_lt_mul_iff_left₀ hpos]
    have hcast : (d.coefficient : ℚ) * 10 ^ (d.exponent - e).toNat =
        ((d.coefficient * 10 ^ (d.exponent - e).toNat : Nat) : ℚ) := by push_cast; ring
    rw [hcast]
    generalize d.coefficient * 10 ^ (d.exponent - e).toNat = n
    constructor
    · intro hn
      have : (n : ℚ) + 1 ≤ bound := by exact_mod_cast hn
      linarith
    · intro hn
      have : (n : ℚ) < bound := by linarith
      exact_mod_cast this
  · next h =>
    have h : d.exponent ≤ e := by omega
    rw [pow_split h, ← mul_assoc, mul_lt_mul_iff_left₀ (zpow_pos (by norm_num) _),
      roundHalfEven_lt_iff (Nat.pow_pos (by omega)) hbound heven]
    generalize (e - d.exponent).toNat = k
    have hcast : ((2 * bound - 1 : Nat) : ℚ) = 2 * bound - 1 := by
      rw [Nat.cast_sub (by omega)]
      push_cast
      ring
    have hiff : 2 * d.coefficient < (2 * bound - 1) * 10 ^ k ↔
        (2 : ℚ) * d.coefficient < (2 * bound - 1) * 10 ^ k := by
      rw [← hcast]
      exact_mod_cast Iff.rfl
    rw [hiff]
    constructor
    · intro hlt
      linarith
    · intro hlt
      linarith

/-! ## Exact operations -/

variable {c : Context}

/-- A decimal that needs no rounding and no other exponent. -/
structure Context.Holds (c : Context) (d : Decimal) : Prop where
  coefficient_lt : d.coefficient < 10 ^ c.prec
  etiny_le : c.etiny ≤ d.exponent
  le_etop : d.exponent ≤ c.etop

theorem Context.Holds.fix_eq {d : Decimal} (h : c.Holds d) (hprec : 0 < c.prec) :
    fix c d = .ok d := by
  have hlo := h.etiny_le
  have hhi := h.le_etop
  have hdigits := (digits_le_iff hprec).2 h.coefficient_lt
  have htop : c.etop ≤ c.emax := by
    unfold Context.etop
    omega
  unfold fix
  split
  · have hexp : min (max d.exponent c.etiny) c.emax = d.exponent := by omega
    rw [hexp]
  · simp only
    rw [if_neg (by omega), if_neg (by omega)]

/-- Zeros at the end may be cut off: a result that fits without them is exact. -/
theorem fix_exact {d : Decimal} {n k : Nat} (hprec : 0 < c.prec)
    (hd : d.coefficient = n * 10 ^ k) (hn : n < 10 ^ c.prec) (hlo : c.etiny ≤ d.exponent)
    (hhi : d.exponent + k ≤ c.etop) :
    ∃ d', fix c d = .ok d' ∧ d'.negative = d.negative ∧ magnitude d' = magnitude d := by
  by_cases hfits : d.coefficient < 10 ^ c.prec
  · have hholds : c.Holds d := ⟨hfits, hlo, by omega⟩
    exact ⟨d, hholds.fix_eq hprec, rfl, rfl⟩
  · have hne : d.coefficient ≠ 0 := by
      intro hzero
      rw [hzero] at hfits
      exact hfits (Nat.pow_pos (by omega))
    have hlong : c.prec < digits d.coefficient := by
      have := (digits_le_iff (n := d.coefficient) hprec).not.2 hfits
      omega
    have hshort : digits d.coefficient ≤ c.prec + k := by
      apply (digits_le_iff (by omega)).2
      rw [hd, Nat.pow_add]
      exact Nat.mul_lt_mul_of_pos_right hn (Nat.pow_pos (by omega))
    -- the number of digits to be cut off
    obtain ⟨j, hj⟩ : ∃ j, digits d.coefficient = c.prec + j :=
      ⟨digits d.coefficient - c.prec, by omega⟩
    have hexp : d.exponent + (digits d.coefficient : Int) - c.prec = d.exponent + j := by omega
    have hjump : (d.exponent + j - d.exponent).toNat = j := by omega
    have hdvd : 10 ^ (d.exponent + j - d.exponent).toNat ∣ d.coefficient := by
      rw [hjump, hd]
      exact Dvd.dvd.mul_left (Nat.pow_dvd_pow 10 (by omega)) n
    obtain ⟨hat, hvalue⟩ := coefficientAt_of_dvd (by omega) hdvd
    rw [hjump] at hat
    have hcut : coefficientAt d (d.exponent + j) < 10 ^ c.prec := by
      rw [hat]
      apply Nat.div_lt_of_lt_mul
      have := lt_pow_digits d.coefficient
      rw [hj, Nat.pow_add, Nat.mul_comm] at this
      exact this
    have hcutDigits := (digits_le_iff hprec).2 hcut
    refine ⟨rescale d (d.exponent + j), ?_, rfl, hvalue⟩
    unfold fix
    simp only
    rw [if_neg hne, hexp, if_neg (by omega)]
    have hmax : max (d.exponent + (j : Int)) c.etiny = d.exponent + j := by omega
    rw [hmax, if_pos (by omega), if_neg (by omega)]
    rfl

theorem sign_congr {d d' : Decimal} (h : d'.negative = d.negative) : d'.sign = d.sign := by
  unfold Decimal.sign
  rw [h]

theorem value_congr {d d' : Decimal} (hneg : d'.negative = d.negative)
    (h : magnitude d' = magnitude d) : d'.value = d.value := by
  rw [value_eq, value_eq, sign_congr hneg, h]

/-- `quantize` signals exactly when the rounded coefficient has too many digits. -/
theorem quantize_eq {d e : Decimal} (hprec : 0 < c.prec) (hlo : c.etiny ≤ e.exponent)
    (hhi : e.exponent ≤ c.etop) :
    quantize c d e =
      if coefficientAt d e.exponent < 10 ^ c.prec then .ok (rescale d e.exponent)
      else .error .invalidOperation := by
  have htop : c.etop + c.prec = c.emax + 1 := by
    unfold Context.etop
    omega
  unfold quantize
  rw [if_neg (by simp only [not_not]; omega)]
  by_cases hzero : d.coefficient = 0
  · have hat : coefficientAt d e.exponent = 0 := by
      unfold coefficientAt
      rw [hzero]
      split
      · simp
      · simp [roundHalfEven]
    have hpos : 0 < 10 ^ c.prec := Nat.pow_pos (by omega)
    have hholds : c.Holds (rescale d e.exponent) := ⟨by rw [← hat] at hpos; exact hpos, hlo, hhi⟩
    have hsame : { d with exponent := e.exponent } = rescale d e.exponent := by
      unfold rescale
      rw [hat, ← hzero]
    rw [if_pos hzero, hat, if_pos hpos, hsame, hholds.fix_eq hprec]
  · rw [if_neg hzero]
    have hlow := pow_le_of_digits hzero
    have hone : 1 ≤ digits d.coefficient := Nat.le_add_left 1 _
    have hmany : c.prec < adjusted d - e.exponent + 1 →
        ¬coefficientAt d e.exponent < 10 ^ c.prec := by
      intro hlong hlt
      unfold adjusted at hlong
      unfold coefficientAt at hlt
      split at hlt
      · next hle =>
        have hpow : 10 ^ c.prec ≤
            10 ^ (digits d.coefficient - 1) * 10 ^ (d.exponent - e.exponent).toNat := by
          rw [← Nat.pow_add]
          exact Nat.pow_le_pow_right (by omega) (by omega)
        have := Nat.mul_le_mul_right (10 ^ (d.exponent - e.exponent).toNat) hlow
        omega
      · next hlt' =>
        have hq : 10 ^ c.prec ≤ d.coefficient / 10 ^ (e.exponent - d.exponent).toNat := by
          rw [Nat.le_div_iff_mul_le (Nat.pow_pos (by omega)), ← Nat.pow_add]
          exact Nat.le_trans (Nat.pow_le_pow_right (by omega) (by omega)) hlow
        have hround : d.coefficient / 10 ^ (e.exponent - d.exponent).toNat ≤
            roundHalfEven d.coefficient (10 ^ (e.exponent - d.exponent).toNat) := by
          unfold roundHalfEven
          simp only
          split
          · omega
          · split
            · omega
            · omega
        omega
    by_cases hlt : coefficientAt d e.exponent < 10 ^ c.prec
    · have hshort : ¬(c.prec < adjusted d - e.exponent + 1) := fun h => hmany h hlt
      have hdigits : digits (rescale d e.exponent).coefficient ≤ c.prec :=
        (digits_le_iff hprec).2 hlt
      have hadjusted : adjusted (rescale d e.exponent) =
          e.exponent + digits (rescale d e.exponent).coefficient - 1 := rfl
      have hholds : c.Holds (rescale d e.exponent) := ⟨hlt, hlo, hhi⟩
      rw [if_pos hlt, if_neg (by omega), if_neg hshort]
      simp only
      rw [if_neg (by omega), if_neg (by omega), hholds.fix_eq hprec]
    · rw [if_neg hlt]
      split
      · rfl
      · split
        · rfl
        · have hdigits : c.prec < digits (rescale d e.exponent).coefficient := by
            have := (digits_le_iff (n := (rescale d e.exponent).coefficient) hprec).not.2 hlt
            omega
          simp only
          rw [if_pos hdigits]
          split
          · rfl
          · rfl

theorem sign_xor (a b : Bool) :
    (if a ^^ b then -1 else 1 : Int) = (if a then -1 else 1) * (if b then -1 else 1) := by
  revert a b
  decide

/-- A product with a power of ten is exact if the other factor fits. -/
theorem mul_exact {d e : Decimal} {k : Nat} (hprec : 0 < c.prec)
    (hd : d.coefficient < 10 ^ c.prec) (he : e.coefficient = 10 ^ k)
    (hlo : c.etiny ≤ d.exponent + e.exponent) (hhi : d.exponent + e.exponent + k ≤ c.etop) :
    ∃ p, mul c d e = .ok p ∧ p.value = d.value * e.value := by
  obtain ⟨p, hp, hneg, hmag⟩ := fix_exact (c := c) (n := d.coefficient) (k := k) hprec
    (d := ⟨d.negative ^^ e.negative, d.coefficient * e.coefficient, d.exponent + e.exponent⟩)
    (by rw [← he]) hd hlo hhi
  refine ⟨p, hp, ?_⟩
  rw [value_congr hneg hmag]
  have hsign : Decimal.sign ⟨d.negative ^^ e.negative, d.coefficient * e.coefficient,
      d.exponent + e.exponent⟩ = d.sign * e.sign := sign_xor d.negative e.negative
  rw [value_eq, value_eq, value_eq, hsign]
  unfold magnitude
  simp only
  rw [zpow_add₀ (by norm_num)]
  push_cast
  ring

theorem dropZeros_spec (n q : Nat) :
    q = (dropZeros n q).1 * 10 ^ (dropZeros n q).2 ∧ (dropZeros n q).2 ≤ n ∧
      ∀ i ≤ n, 10 ^ i ∣ q → i ≤ (dropZeros n q).2 ∨ q = 0 := by
  induction n generalizing q with
  | zero =>
    refine ⟨by simp [dropZeros], Nat.le_refl 0, ?_⟩
    intro i hi _
    exact .inl hi
  | succ n ih =>
    unfold dropZeros
    split
    · next hmod =>
      obtain ⟨heq, hle, hmax⟩ := ih (q / 10)
      have hq : q = q / 10 * 10 := by omega
      refine ⟨?_, Nat.succ_le_succ hle, ?_⟩
      · show q = (dropZeros n (q / 10)).1 * 10 ^ ((dropZeros n (q / 10)).2 + 1)
        rw [Nat.pow_succ, ← Nat.mul_assoc, ← heq]
        exact hq
      · intro i hi hdvd
        cases i with
        | zero => exact .inl (Nat.zero_le _)
        | succ i =>
          have hdvd : 10 ^ i ∣ q / 10 := by
            rw [hq, Nat.pow_succ] at hdvd
            exact Nat.dvd_of_mul_dvd_mul_right (by omega) hdvd
          cases hmax i (by omega) hdvd with
          | inl h => exact .inl (Nat.succ_le_succ h)
          | inr h => exact .inr (by omega)
    · next hmod =>
      refine ⟨by simp, Nat.zero_le _, ?_⟩
      intro i hi hdvd
      cases i with
      | zero => exact .inl (Nat.le_refl 0)
      | succ i =>
        have : 10 ∣ q := Nat.dvd_trans (Dvd.intro_left (10 ^ i) (Nat.pow_succ 10 i).symm) hdvd
        omega

/-- A quotient by a power of ten is exact if the dividend fits. -/
theorem truediv_exact {d e : Decimal} {k : Nat} (hprec : 0 < c.prec) (hne : d.coefficient ≠ 0)
    (hd : d.coefficient < 10 ^ c.prec) (he : e.coefficient = 10 ^ k)
    (hlo : c.etiny + k ≤ d.exponent - e.exponent) (hhi : d.exponent - e.exponent ≤ c.etop) :
    ∃ q, truediv c d e = .ok q ∧ q.value = d.value / e.value := by
  have hdigits := (digits_le_iff hprec).2 hd
  have hdigitsE : digits e.coefficient = k + 1 := by
    unfold digits
    rw [he, Nat.log_pow (by omega)]
  have hneE : e.coefficient ≠ 0 := by
    rw [he]
    exact Nat.pos_iff_ne_zero.1 (Nat.pow_pos (by omega))
  -- the quotient, developed
  obtain ⟨shift, hshift⟩ : ∃ shift : Nat,
      (digits e.coefficient : Int) - digits d.coefficient + c.prec + 1 = shift + k :=
    ⟨c.prec - digits d.coefficient + 2, by omega⟩
  have hnat : ((shift : Int) + k).toNat = shift + k := by omega
  have hneg : (-((shift : Int) + k)).toNat = 0 := by omega
  have hn : d.coefficient * 10 ^ (shift + k) = d.coefficient * 10 ^ shift * 10 ^ k := by
    rw [Nat.pow_add, Nat.mul_assoc]
  have hpow : 0 < 10 ^ k := Nat.pow_pos (by omega)
  obtain ⟨hq, hle, hmax⟩ := dropZeros_spec (shift + k) (d.coefficient * 10 ^ shift)
  have hdropped : shift ≤ (dropZeros (shift + k) (d.coefficient * 10 ^ shift)).2 := by
    cases hmax shift (by omega) (Nat.dvd_mul_left _ _) with
    | inl h => exact h
    | inr h =>
      have : 0 < d.coefficient * 10 ^ shift :=
        Nat.mul_pos (Nat.pos_of_ne_zero hne) (Nat.pow_pos (by omega))
      omega
  have hdiv : truediv c d e =
      fix c ⟨d.negative ^^ e.negative, (dropZeros (shift + k) (d.coefficient * 10 ^ shift)).1,
        d.exponent - e.exponent - (shift + k) +
          (dropZeros (shift + k) (d.coefficient * 10 ^ shift)).2⟩ := by
    unfold truediv
    simp only
    rw [if_neg hneE, if_neg hne, hshift, hnat, hneg, hn, he, Nat.pow_zero, Nat.mul_one,
      Nat.mul_mod_left, Nat.mul_div_cancel _ hpow, if_neg (by simp)]
  generalize dropZeros (shift + k) (d.coefficient * 10 ^ shift) = dropped at *
  obtain ⟨q, dropped⟩ := dropped
  simp only at hq hle hdropped hdiv
  -- what is left is no longer than the dividend
  obtain ⟨more, rfl⟩ := Nat.exists_eq_add_of_le hdropped
  have hd' : d.coefficient = q * 10 ^ more := by
    have hpos : 0 < 10 ^ shift := Nat.pow_pos (by omega)
    apply Nat.eq_of_mul_eq_mul_right hpos
    rw [hq, Nat.pow_add]
    ring
  have hqle : q < 10 ^ c.prec := by
    have : q ≤ q * 10 ^ more := Nat.le_mul_of_pos_right q (Nat.pow_pos (by omega))
    omega
  have hexp : d.exponent - e.exponent - ((shift : Int) + k) + ((shift + more : Nat) : Int) =
      d.exponent - e.exponent - k + more := by
    push_cast
    ring
  rw [hexp] at hdiv
  have hholds : c.Holds ⟨d.negative ^^ e.negative, q, d.exponent - e.exponent - k + more⟩ := by
    refine ⟨hqle, ?_, ?_⟩
    · show c.etiny ≤ d.exponent - e.exponent - k + more
      omega
    · show d.exponent - e.exponent - k + more ≤ c.etop
      omega
  refine ⟨_, hdiv.trans (hholds.fix_eq hprec), ?_⟩
  have hsign : Decimal.sign ⟨d.negative ^^ e.negative, q,
      d.exponent - e.exponent - k + more⟩ = d.sign * e.sign := sign_xor d.negative e.negative
  have hsq : (e.sign : ℚ) * e.sign = 1 := by
    rcases sign_cases e with hs | hs
    · rw [hs]
      norm_num
    · rw [hs]
      norm_num
  have hsne : (e.sign : ℚ) ≠ 0 := by
    intro hzero
    rw [hzero] at hsq
    norm_num at hsq
  have hmag : magnitude d / magnitude e =
      magnitude ⟨d.negative ^^ e.negative, q, d.exponent - e.exponent - k + more⟩ := by
    unfold magnitude
    simp only
    rw [hd', he, zpow_add₀ (by norm_num), zpow_sub₀ (by norm_num), zpow_sub₀ (by norm_num),
      zpow_natCast, zpow_natCast]
    push_cast
    field_simp
  rw [value_eq, value_eq, value_eq, hsign, ← hmag]
  push_cast
  have hinv : (e.sign : ℚ) = (e.sign : ℚ)⁻¹ := by
    exact eq_inv_of_mul_eq_one_left hsq
  rw [mul_div_mul_comm, div_eq_mul_inv (d.sign : ℚ), ← hinv]

/-- Truncation is exact on the integers. -/
theorem toInt_of_value {d : Decimal} {n : Int} (h : d.value = n) : toInt d = n := by
  have hsq : d.sign * d.sign = 1 := by
    rcases sign_cases d with hs | hs
    · rw [hs]
      rfl
    · rw [hs]
      rfl
  have hmag : magnitude d = ((d.sign * n : Int) : ℚ) := by
    have hsq : (d.sign : ℚ) * d.sign = 1 := by exact_mod_cast hsq
    rw [value_eq] at h
    push_cast
    rw [← h, ← mul_assoc, hsq, one_mul]
  unfold toInt
  have hwhole : (if 0 ≤ d.exponent then (d.coefficient : Int) * 10 ^ d.exponent.toNat
      else (d.coefficient : Int) / 10 ^ (-d.exponent).toNat) = d.sign * n := by
    unfold magnitude at hmag
    split
    · next hexp =>
      rw [show d.exponent = (d.exponent.toNat : Int) by omega, zpow_natCast] at hmag
      have : ((d.coefficient : Int) * 10 ^ d.exponent.toNat : Int) = d.sign * n := by
        exact_mod_cast hmag
      exact this
    · next hexp =>
      rw [show d.exponent = -((-d.exponent).toNat : Int) by omega, zpow_neg, zpow_natCast] at hmag
      have hpos : (0 : ℚ) < 10 ^ (-d.exponent).toNat := by positivity
      have hmul : (d.coefficient : ℚ) = ((d.sign * n : Int) : ℚ) * 10 ^ (-d.exponent).toNat := by
        rw [← hmag]
        field_simp
      have hint : (d.coefficient : Int) = d.sign * n * 10 ^ (-d.exponent).toNat := by
        exact_mod_cast hmul
      rw [hint]
      exact Int.mul_ediv_cancel _ (by positivity)
  rw [hwhole, ← mul_assoc, hsq, one_mul]

@[simp] theorem value_ofInt (n : Int) : (Decimal.ofInt n).value = n := by
  have hsign : (Decimal.ofInt n).sign * (n.natAbs : Int) = n := by
    unfold Decimal.sign Decimal.ofInt
    simp only [decide_eq_true_eq]
    split
    · omega
    · omega
  have hcast := congrArg (Int.cast : Int → ℚ) hsign
  rw [Int.cast_mul, Int.cast_natCast] at hcast
  unfold Decimal.value
  show (_ : ℚ) * ((n.natAbs : ℚ) * 10 ^ (0 : Int)) = n
  rw [zpow_zero, mul_one, hcast]

end DecimalArithmetic
