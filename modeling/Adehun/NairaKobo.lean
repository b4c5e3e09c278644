import Adehun.DecimalArithmetic
import Adehun.Webhook

/-!
# The naira/kobo boundary

Everywhere else an amount is a whole number of kobo. Here it is what the code
keeps, a decimal of naira under Python's default context: the check of a
request's amount, the conversions to kobo for the payment provider and for
notes, and the conversion of what the provider says was paid.

The conversions are inverse to each other wherever they are used. The check
rounds with `quantize`, which signals when the rounded amount has more than 28
digits; the amount of a withdrawal has no upper bound that would exclude it.
-/

namespace Adehun.NairaKobo

open DecimalArithmetic

/-- `decimal.DefaultContext` -/
def defaultContext : Context := { prec := 28, emin := -999999, emax := 999999 }

/-- `Decimal("0.01")` -/
def twoPlaces : Decimal := { negative := false, coefficient := 1, exponent := -2 }

/-! ## Requests -/

/-- What a validator raises: pydantic makes a 422 of a `ValueError` only. -/
inductive Raised
  | valueError (message : String)
  | decimal (signal : Signal)

def rejectSubKobo (value : Decimal) : Except Raised Decimal :=
  match quantize defaultContext value twoPlaces with
  | .error signal => .error (.decimal signal)
  | .ok rounded =>
      if value.value ≠ rounded.value then
        .error (.valueError "Amount may not have more than 2 decimal places")
      else .ok value

/-- The settings the amounts of requests are compared with. -/
structure AmountLimits where
  walletFundMaxAmount : Decimal := { negative := false, coefficient := 1000000000, exponent := -2 }
  agreementMaxAmount : Decimal := { negative := false, coefficient := 5000000000, exponent := -2 }

/-- `Field(gt=0, le=...)` -/
structure AmountField where
  le : Option Decimal

def AmountField.Passes (field : AmountField) (value : Decimal) : Prop :=
  0 < value.value ∧ ∀ most ∈ field.le, value.value ≤ most.value

def walletCreateAmount (limits : AmountLimits) : AmountField :=
  { le := some limits.walletFundMaxAmount }

def withdrawalCreateAmount : AmountField := { le := none }

def agreementCreateAmount (limits : AmountLimits) : AmountField :=
  { le := some limits.agreementMaxAmount }

def amountFields (limits : AmountLimits) : List AmountField :=
  [walletCreateAmount limits, withdrawalCreateAmount, agreementCreateAmount limits]

/-! ## Conversions -/

def toKobo (amount : Decimal) : Except Signal Int := do
  let rounded ← quantize defaultContext amount twoPlaces
  let product ← mul defaultContext rounded (.ofInt 100)
  pure (toInt product)

def toKoboStr (amount : Decimal) : Except Signal String := do
  let product ← mul defaultContext amount (.ofInt 100)
  pure (toString (toInt product))

/-- What is credited for a charge that was paid in kobo. -/
def credited (paidKobo : Int) : Except Signal Decimal := do
  let quotient ← truediv defaultContext (.ofInt paidKobo) (.ofInt 100)
  quantize defaultContext quotient twoPlaces

/-- The note on a charge that was not paid exactly. -/
def chargeNote (expected credited : Decimal) (paidKobo : Int) :
    Except Signal (Option String) := do
  if credited.value < expected.value then
    let text ← toKoboStr expected
    pure (some ("Underpaid: expected " ++ text ++ " kobo, received " ++
      toString paidKobo ++ " kobo"))
  else if credited.value > expected.value then
    let text ← toKoboStr expected
    pure (some ("Overpaid: expected " ++ text ++ " kobo, received " ++
      toString paidKobo ++ " kobo"))
  else pure none

/-! ## The check -/

/-- A whole number of kobo. -/
def IsKobo (value : Decimal) : Prop := ∃ n : Int, value.value * 100 = n

theorem isKobo_iff (value : Decimal) : IsKobo value ↔ value.value = (rescale value (-2)).value := by
  rw [value_rescale_iff]
  unfold IsKobo
  constructor
  · intro ⟨n, hn⟩
    refine ⟨n, ?_⟩
    rw [← hn, zpow_neg]
    norm_num
    ring
  · intro ⟨n, hn⟩
    refine ⟨n, ?_⟩
    rw [hn, zpow_neg]
    norm_num
    ring

/-- In two places the coefficient has at most 28 digits. -/
def Fits (value : Decimal) : Prop := coefficientAt value (-2) < 10 ^ 28

instance (value : Decimal) : Decidable (Fits value) := inferInstanceAs (Decidable (_ < _))

theorem quantize_twoPlaces (value : Decimal) :
    quantize defaultContext value twoPlaces =
      if Fits value then .ok (rescale value (-2)) else .error .invalidOperation :=
  quantize_eq (by decide) (by decide) (by decide)

theorem fits_iff {value : Decimal} (h : 0 < value.value) :
    Fits value ↔ value.value < 10 ^ 26 - 5 / 1000 := by
  unfold Fits
  rw [coefficientAt_lt_iff value (-2) (by norm_num) (by norm_num), value_of_pos h]
  norm_num

/-- The check does what it is for: it returns a whole number of kobo unchanged,
and raises a `ValueError` on anything else. -/
def Decides (value : Decimal) : Prop :=
  IsKobo value ∧ rejectSubKobo value = .ok value ∨
    ¬IsKobo value ∧ ∃ message, rejectSubKobo value = .error (.valueError message)

theorem decides_iff_fits (value : Decimal) : Decides value ↔ Fits value := by
  unfold Decides rejectSubKobo
  rw [quantize_twoPlaces]
  by_cases hfits : Fits value
  · rw [if_pos hfits]
    simp only [hfits, iff_true]
    by_cases hkobo : IsKobo value
    · exact .inl ⟨hkobo, if_neg (not_not.2 ((isKobo_iff value).1 hkobo))⟩
    · exact .inr ⟨hkobo, _, if_pos (fun h => hkobo ((isKobo_iff value).2 h))⟩
  · rw [if_neg hfits]
    simp [hfits]

theorem rejectSubKobo_ok {value value' : Decimal} (h : rejectSubKobo value = .ok value') :
    value' = value ∧ Fits value ∧ IsKobo value := by
  unfold rejectSubKobo at h
  rw [quantize_twoPlaces] at h
  by_cases hfits : Fits value
  · rw [if_pos hfits] at h
    simp only at h
    split at h
    · cases h
    · next hsame =>
      injection h with h
      exact ⟨h.symm, hfits, (isKobo_iff value).2 (not_not.1 hsame)⟩
  · rw [if_neg hfits] at h
    cases h

/-! ## The conversions -/

/-- Exactly two places, and few enough digits. -/
structure Kept (amount : Decimal) : Prop where
  exponent_eq : amount.exponent = -2
  coefficient_lt : amount.coefficient < 10 ^ 28

theorem Kept.mul_hundred {amount : Decimal} (h : Kept amount) :
    ∃ product, mul defaultContext amount (.ofInt 100) = .ok product ∧
      product.value = amount.value * 100 := by
  have hexp : amount.exponent + (Decimal.ofInt 100).exponent = -2 := by
    rw [h.exponent_eq]
    rfl
  have hmul := mul_exact (c := defaultContext) (d := amount) (e := .ofInt 100) (k := 2)
    (by decide) h.coefficient_lt (by decide) (by rw [hexp]; decide) (by rw [hexp]; decide)
  rw [value_ofInt] at hmul
  exact_mod_cast hmul

theorem kept_rescale {value : Decimal} (h : Fits value) : Kept (rescale value (-2)) := ⟨rfl, h⟩

/-- `to_kobo` is exact on what the check returns. -/
theorem toKobo_eq {value : Decimal} (hfits : Fits value) {n : Int} (h : value.value * 100 = n) :
    toKobo value = .ok n := by
  obtain ⟨product, hproduct, hvalue⟩ := (kept_rescale hfits).mul_hundred
  have hsame := (isKobo_iff value).1 ⟨n, h⟩
  rw [← hsame, h] at hvalue
  unfold toKobo
  rw [quantize_twoPlaces, if_pos hfits]
  simp only [bind, Except.bind, hproduct]
  show Except.ok (toInt product) = _
  rw [toInt_of_value hvalue]

theorem Kept.toKoboStr_eq {amount : Decimal} (h : Kept amount) {n : Int}
    (hn : amount.value * 100 = n) : toKoboStr amount = .ok (toString n) := by
  obtain ⟨product, hproduct, hvalue⟩ := h.mul_hundred
  rw [hn] at hvalue
  unfold toKoboStr
  rw [hproduct]
  show Except.ok (toString (toInt product)) = _
  rw [toInt_of_value hvalue]

theorem Kept.fits {amount : Decimal} (h : Kept amount) : Fits amount := by
  unfold Fits coefficientAt
  rw [if_pos (by rw [h.exponent_eq]), h.exponent_eq]
  simpa using h.coefficient_lt

/-- What is credited is worth what was paid. -/
theorem credited_eq {k : Int} (hpos : 1 ≤ k) (hlt : k < 10 ^ 28) :
    ∃ amount, credited k = .ok amount ∧ Kept amount ∧ amount.value = k / 100 := by
  have hne : (Decimal.ofInt k).coefficient ≠ 0 := by
    show k.natAbs ≠ 0
    omega
  have hshort : (Decimal.ofInt k).coefficient < 10 ^ defaultContext.prec := by
    show k.natAbs < 10 ^ 28
    omega
  have hlo : defaultContext.etiny + 2 ≤ 0 - 0 := by decide
  have hhi : 0 - 0 ≤ defaultContext.etop := by decide
  obtain ⟨quotient, hquotient, hvalue⟩ := truediv_exact (c := defaultContext) (d := .ofInt k)
    (e := .ofInt 100) (k := 2) (by decide) hne hshort (by decide) hlo hhi
  rw [value_ofInt, value_ofInt] at hvalue
  have hkobo : quotient.value * 100 = k := by
    rw [hvalue]
    push_cast
    ring
  have hsame := (isKobo_iff quotient).1 ⟨k, hkobo⟩
  have hfits : Fits quotient := by
    have hq : (0 : ℚ) < quotient.value := by
      have : (1 : ℚ) ≤ k := by exact_mod_cast hpos
      linarith
    rw [fits_iff hq]
    have : (k : ℚ) + 1 ≤ 10 ^ 28 := by exact_mod_cast hlt
    linarith
  refine ⟨rescale quotient (-2), ?_, kept_rescale hfits, ?_⟩
  · unfold credited
    rw [hquotient]
    show quantize defaultContext quotient twoPlaces = _
    rw [quantize_twoPlaces, if_pos hfits]
  · rw [← hsame]
    linarith

/-! ## What was paid and what was expected -/

/-- An amount as its `NUMERIC(12, 2)` column gives it. -/
def column (amount : Kobo) : Decimal :=
  { negative := amount < 0, coefficient := amount.natAbs, exponent := -2 }

theorem value_column (amount : Int) : (column amount).value = amount / 100 := by
  have hsign : (column amount).value = (Decimal.ofInt amount).value * 10 ^ (-2 : Int) := by
    show ((Decimal.ofInt amount).sign : ℚ) * ((amount.natAbs : ℚ) * 10 ^ (-2 : Int)) =
      ((Decimal.ofInt amount).sign : ℚ) * ((amount.natAbs : ℚ) * 10 ^ (0 : Int)) * 10 ^ (-2 : Int)
    rw [zpow_zero]
    ring
  rw [hsign, value_ofInt, zpow_neg]
  norm_num
  ring

theorem kept_column {amount : Int} (hlo : -10 ^ 12 < amount) (hhi : amount < 10 ^ 12) :
    Kept (column amount) := by
  refine ⟨rfl, ?_⟩
  show amount.natAbs < 10 ^ 28
  omega

/-- The comparison of what is credited with what was expected is that of the
amounts in kobo. -/
theorem credited_lt_iff {k expected : Int} {amount : Decimal} (hpos : 1 ≤ k) (hlt : k < 10 ^ 28)
    (h : credited k = .ok amount) :
    (amount.value < (column expected).value ↔ k < expected) ∧
      ((column expected).value < amount.value ↔ expected < k) := by
  obtain ⟨amount', hamount, -, hvalue⟩ := credited_eq hpos hlt
  rw [h] at hamount
  injection hamount with hamount
  subst hamount
  rw [hvalue, value_column]
  constructor
  · constructor
    · intro hless
      have : (k : ℚ) < expected := by linarith
      exact_mod_cast this
    · intro hless
      have : (k : ℚ) < expected := by exact_mod_cast hless
      linarith
  · constructor
    · intro hless
      have : (expected : ℚ) < k := by linarith
      exact_mod_cast this
    · intro hless
      have : (expected : ℚ) < k := by exact_mod_cast hless
      linarith

/-- On amounts the column holds, the note is the one on whole numbers of kobo. -/
theorem chargeNote_eq {k expected : Int} {amount : Decimal} (hpos : 1 ≤ k) (hlt : k < 10 ^ 28)
    (hlo : -10 ^ 12 < expected) (hhi : expected < 10 ^ 12) (h : credited k = .ok amount) :
    chargeNote (column expected) amount k = .ok (mismatchNote expected k) := by
  obtain ⟨hless, hmore⟩ : (amount.value < (column expected).value ↔ k < expected) ∧
      ((column expected).value < amount.value ↔ expected < k) := credited_lt_iff hpos hlt h
  have htext : toKoboStr (column expected) = .ok (toString expected) := by
    apply (kept_column hlo hhi).toKoboStr_eq
    rw [value_column]
    ring
  unfold chargeNote mismatchNote
  by_cases hunder : k < expected
  · rw [if_pos (hless.2 hunder), if_pos hunder, htext]
    rfl
  · rw [if_neg (hless.not.2 hunder), if_neg hunder]
    by_cases hover : expected < k
    · rw [if_pos (hmore.2 hover), if_pos hover, htext]
      rfl
    · rw [if_neg (hmore.not.2 hover), if_neg hover]
      rfl

/-! ## The boundary -/

/-- The check decides the amounts of requests below `10^26 - 0.005` naira, and no
others. The conversions are exact wherever they are used: on what the check
returns, and on what was paid. -/
theorem boundary_iff (limits : AmountLimits) :
    (∀ field ∈ amountFields limits, ∀ value, field.Passes value →
      (Decides value ↔ value.value < 10 ^ 26 - 5 / 1000)) ∧
    (∀ value value', rejectSubKobo value = .ok value' →
      ∃ n : Int, toKobo value' = .ok n ∧ (n : ℚ) = value'.value * 100) ∧
    (∀ k : Int, 1 ≤ k → k < 10 ^ 12 → ∃ amount, credited k = .ok amount ∧
      toKobo amount = .ok k ∧ toKoboStr amount = .ok (toString k)) ∧
    (∀ j k : Int, 1 ≤ j → j < k → k < 10 ^ 12 → ∀ less more, credited j = .ok less →
      credited k = .ok more → less.value < more.value) ∧
    (∀ k expected : Int, 1 ≤ k → k < 10 ^ 12 → ∀ amount, credited k = .ok amount →
      (amount.value < (column expected).value ↔ k < expected) ∧
        ((column expected).value < amount.value ↔ expected < k)) := by
  refine ⟨?_, ?_, ?_, ?_, ?_⟩
  · intro field _ value hpasses
    rw [decides_iff_fits, fits_iff hpasses.1]
  · intro value value' h
    obtain ⟨rfl, hfits, n, hn⟩ := rejectSubKobo_ok h
    exact ⟨n, toKobo_eq hfits hn, hn.symm⟩
  · intro k hpos hlt
    obtain ⟨amount, hamount, hkept, hvalue⟩ := credited_eq hpos (by omega)
    have hkobo : amount.value * 100 = k := by
      rw [hvalue]
      ring
    exact ⟨amount, hamount, toKobo_eq hkept.fits hkobo, hkept.toKoboStr_eq hkobo⟩
  · intro j k hpos hjk hlt less more hless hmore
    obtain ⟨less', hless', -, hj⟩ := credited_eq hpos (by omega)
    obtain ⟨more', hmore', -, hk⟩ := credited_eq (k := k) (by omega) (by omega)
    rw [hless] at hless'
    rw [hmore] at hmore'
    injection hless' with hless'
    injection hmore' with hmore'
    rw [hless', hmore', hj, hk]
    have : (j : ℚ) < k := by exact_mod_cast hjk
    linarith
  · intro k expected hpos hlt amount h
    exact credited_lt_iff hpos (by omega) h

/-- Five thousand naira, a withdrawal. -/
theorem boundary_iff_five_thousand :
    Decides { negative := false, coefficient := 5, exponent := 3 } ∧
      (∃ amount, credited 12345 = .ok amount ∧ toKobo amount = .ok 12345) := by
  have hboundary := boundary_iff {}
  have hvalue : (Decimal.value { negative := false, coefficient := 5, exponent := 3 }) = 5000 := by
    norm_num [Decimal.value, Decimal.sign]
  constructor
  · have hpasses : withdrawalCreateAmount.Passes
        { negative := false, coefficient := 5, exponent := 3 } := by
      refine ⟨by rw [hvalue]; norm_num, ?_⟩
      intro most hmost
      cases hmost
    refine ((boundary_iff {}).1 _ (by simp [amountFields]) _ hpasses).2 ?_
    rw [hvalue]
    norm_num
  · obtain ⟨amount, hamount, hkobo, -⟩ := hboundary.2.2.1 12345 (by norm_num) (by norm_num)
    exact ⟨amount, hamount, hkobo⟩

/-- A withdrawal of `10^26` naira is within its bounds, and the check raises what
is no `ValueError`. -/
theorem not_decides :
    withdrawalCreateAmount.Passes { negative := false, coefficient := 1, exponent := 26 } ∧
      rejectSubKobo { negative := false, coefficient := 1, exponent := 26 } =
        .error (.decimal .invalidOperation) ∧
      ¬Decides { negative := false, coefficient := 1, exponent := 26 } := by
  have hfits : ¬Fits { negative := false, coefficient := 1, exponent := 26 } := by decide
  refine ⟨⟨?_, ?_⟩, ?_, ?_⟩
  · norm_num [Decimal.value, Decimal.sign]
  · intro most hmost
    cases hmost
  · unfold rejectSubKobo
    rw [quantize_twoPlaces, if_neg hfits]
  · rw [decides_iff_fits]
    exact hfits

end Adehun.NairaKobo
