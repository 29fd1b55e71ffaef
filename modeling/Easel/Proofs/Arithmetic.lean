import Mathlib.Algebra.Group.Int.Defs
import Mathlib.Algebra.Group.Nat.Defs
import Easel.Expr.Eval

/-!
# Easel.Proofs.Arithmetic

Arithmetic is exact or says that it is not. An operation on two numbers gives the integer that it
stands for, or an overflow if that integer does not fit in 64 bits
(`ArithOp.exact_or_reported`).

* `Fits.pow_of_le`: if a power fits, so do all smaller ones. So it does not matter which squares are
  computed on the way to a power, none of them is a false overflow: `Number.pow?`, which halves the
  exponent, and `Number.ascend?`, which takes its bits from the last one on, both give the power
  that fits.
* `Number.fits_tdiv_iff`: there is one quotient that does not fit.
-/

namespace Easel

/-- The integer has a number. -/
def Fits (i : Int) : Prop := -2 ^ 63 ≤ i ∧ i < 2 ^ 63

theorem fits_of_natAbs_lt {i : Int} (h : i.natAbs < 2 ^ 63) : Fits i := by
  unfold Fits
  omega

theorem Fits.natAbs_le {i : Int} (h : Fits i) : i.natAbs ≤ 2 ^ 63 := by
  unfold Fits at h
  omega

theorem Fits.pow_of_le {a : Int} {m n : Nat} (h : Fits (a ^ n)) (hmn : m ≤ n) : Fits (a ^ m) := by
  rcases Nat.eq_or_lt_of_le hmn with rfl | hlt
  · exact h
  · refine fits_of_natAbs_lt ?_
    rw [Int.natAbs_pow]
    by_cases ha : a.natAbs ≤ 1
    · calc a.natAbs ^ m ≤ 1 ^ m := Nat.pow_le_pow_left ha m
        _ < 2 ^ 63 := by rw [Nat.one_pow]; decide
    · -- One more factor at least doubles the power, and the double is at most `2 ^ 63`.
      have hdouble : 2 * a.natAbs ^ m ≤ a.natAbs ^ n :=
        calc 2 * a.natAbs ^ m ≤ a.natAbs * a.natAbs ^ m := Nat.mul_le_mul_right _ (by omega)
          _ = a.natAbs ^ (m + 1) := (Nat.pow_succ').symm
          _ ≤ a.natAbs ^ n := Nat.pow_le_pow_right (by omega) hlt
      have hn := h.natAbs_le
      rw [Int.natAbs_pow] at hn
      omega

namespace Number

theorem fits_toInt (a : Number) : Fits a.toInt := ⟨a.le_toInt, a.toInt_lt⟩

theorem ofInt?_eq_none_iff_not_fits {i : Int} : ofInt? i = none ↔ ¬ Fits i := by
  rw [ofInt?_eq_none_iff, Fits, Int64.toInt_minValue, Int64.toInt_maxValue]
  omega

theorem toInt_eq_zero_iff {a : Number} : a.toInt = 0 ↔ a = 0 := Int64.toInt_inj (y := 0)

theorem ofInt?_toInt (a : Number) : ofInt? a.toInt = some a := ofInt?_eq_some_iff.mpr rfl

/-! ## Powers -/

theorem mul?_of_pow {a : Int} {x y : Number} {i j : Nat} (hx : x.toInt = a ^ i)
    (hy : y.toInt = a ^ j) : x.mul? y = ofInt? (a ^ (i + j)) := by
  rw [mul?, hx, hy, Int.pow_add]

/-- A smaller power that does not fit is an overflow of the power itself. -/
theorem ofInt?_pow_eq_none {a : Int} {m n : Nat} (h : ofInt? (a ^ m) = none) (hmn : m ≤ n) :
    ofInt? (a ^ n) = none := by
  rw [ofInt?_eq_none_iff_not_fits] at h ⊢
  exact fun hn => h (hn.pow_of_le hmn)

theorem pow?_eq_ofInt? (a : Number) (n : Nat) : a.pow? n = ofInt? (a.toInt ^ n) := by
  induction n using Nat.strongRecOn with
  | _ n ih =>
    rw [pow?]
    split
    · rename_i hn
      rw [hn, Int.pow_zero]
      rfl
    · rw [ih (n / 2) (by omega)]
      cases hh : ofInt? (a.toInt ^ (n / 2)) with
      | none => exact (ofInt?_pow_eq_none hh (by omega)).symm
      | some h =>
        have hx := ofInt?_eq_some_iff.mp hh
        dsimp only
        rw [mul?_of_pow hx hx]
        cases hs : ofInt? (a.toInt ^ (n / 2 + n / 2)) with
        | none => exact (ofInt?_pow_eq_none hs (by omega)).symm
        | some s =>
          have hsq := ofInt?_eq_some_iff.mp hs
          dsimp only
          split
          · have hodd : n / 2 + n / 2 + 1 = n := by omega
            rw [mul?_of_pow hsq (Int.pow_one _).symm, hodd]
          · have heven : n / 2 + n / 2 = n := by omega
            rw [← hs, heven]

/-- Multiplies `acc` by the powers of `base` that the bits of `n` before the last one ask for. -/
def ascendFrom? (base acc : Number) (n : Nat) : Option Number :=
  if n ≤ 1 then some acc
  else
    match base.mul? base with
    | none => none
    | some square =>
      if n / 2 % 2 = 1 then
        match acc.mul? square with
        | none => none
        | some acc' => ascendFrom? square acc' (n / 2)
      else ascendFrom? square acc (n / 2)
termination_by n
decreasing_by all_goals omega

/-- The power `base ^ n`, by the bits of the exponent from the last one on: `base` is squared for
every bit, and from the first bit that is set the squares are collected. -/
def ascend? (base : Number) (n : Nat) : Option Number :=
  if n = 0 then some 1
  else if n % 2 = 0 then
    match base.mul? base with
    | none => none
    | some square => ascend? square (n / 2)
  else ascendFrom? base base n
termination_by n
decreasing_by omega

-- Every number on the way is a power of the same `a`; the exponents are what the loop keeps.
theorem ascendFrom?_of_pow {a : Int} (n : Nat) : ∀ {base acc : Number} {i j : Nat},
    base.toInt = a ^ i → acc.toInt = a ^ j →
      ascendFrom? base acc n = ofInt? (a ^ (j + i * (2 * (n / 2)))) := by
  induction n using Nat.strongRecOn with
  | _ n ih =>
    intro base acc i j hb hacc
    rw [ascendFrom?]
    split
    · have hzero : n / 2 = 0 := by omega
      rw [hzero, Nat.mul_zero, Nat.add_zero, ← hacc, ofInt?_toInt]
    · have hle : i + i ≤ i * (2 * (n / 2)) := by
        rw [← Nat.mul_two]
        exact Nat.mul_le_mul_left i (by omega)
      rw [mul?_of_pow hb hb]
      cases hs : ofInt? (a ^ (i + i)) with
      | none => exact (ofInt?_pow_eq_none hs (by omega)).symm
      | some square =>
        have hsq := ofInt?_eq_some_iff.mp hs
        dsimp only
        split
        · have hodd : n / 2 = 2 * (n / 2 / 2) + 1 := by omega
          rw [mul?_of_pow hacc hsq]
          cases hm : ofInt? (a ^ (j + (i + i))) with
          | none => exact (ofInt?_pow_eq_none hm (by omega)).symm
          | some acc' =>
            have hexp : j + (i + i) + (i + i) * (2 * (n / 2 / 2)) = j + i * (2 * (n / 2)) := by
              grind
            dsimp only
            rw [ih (n / 2) (by omega) hsq (ofInt?_eq_some_iff.mp hm), hexp]
        · have heven : n / 2 = 2 * (n / 2 / 2) := by omega
          have hexp : j + (i + i) * (2 * (n / 2 / 2)) = j + i * (2 * (n / 2)) := by grind
          rw [ih (n / 2) (by omega) hsq hacc, hexp]

theorem ascend?_of_pow {a : Int} (n : Nat) : ∀ {base : Number} {i : Nat}, base.toInt = a ^ i →
    ascend? base n = ofInt? (a ^ (i * n)) := by
  induction n using Nat.strongRecOn with
  | _ n ih =>
    intro base i hb
    rw [ascend?]
    split
    · rename_i hn
      rw [hn, Nat.mul_zero, Int.pow_zero]
      rfl
    · split
      · have heven : n = 2 * (n / 2) := by omega
        have hexp : (i + i) * (n / 2) = i * n := by grind
        rw [mul?_of_pow hb hb]
        cases hs : ofInt? (a ^ (i + i)) with
        | none =>
          refine (ofInt?_pow_eq_none hs ?_).symm
          rw [← hexp]
          exact Nat.le_mul_of_pos_right _ (by omega)
        | some square =>
          dsimp only
          rw [ih (n / 2) (by omega) (ofInt?_eq_some_iff.mp hs), hexp]
      · have hodd : n = 2 * (n / 2) + 1 := by omega
        have hexp : i + i * (2 * (n / 2)) = i * n := by grind
        rw [ascendFrom?_of_pow n hb hb, hexp]

theorem ascend?_eq_ofInt? (a : Number) (n : Nat) : a.ascend? n = ofInt? (a.toInt ^ n) := by
  rw [ascend?_of_pow n (Int.pow_one a.toInt).symm, Nat.one_mul]

/-! ## Quotients -/

theorem fits_tdiv_iff {a b : Int} (ha : Fits a) (hb : b ≠ 0) :
    Fits (a.tdiv b) ↔ ¬ (a = -2 ^ 63 ∧ b = -1) := by
  constructor
  · rintro h ⟨rfl, rfl⟩
    exact absurd h.2 (by decide)
  · intro hne
    have hq : (a.tdiv b).natAbs = a.natAbs / b.natAbs := Int.natAbs_tdiv a b
    have hle := ha.natAbs_le
    by_cases hbig : 2 ≤ b.natAbs
    · have hhalf : a.natAbs / b.natAbs ≤ a.natAbs / 2 := Nat.div_le_div_left hbig (by decide)
      exact fits_of_natAbs_lt (by omega)
    · -- The divisor is one of the units.
      have hunit : b = 1 ∨ b = -1 := by omega
      rcases hunit with rfl | rfl
      · rwa [Int.tdiv_one]
      · rw [Int.tdiv_neg, Int.tdiv_one]
        unfold Fits at ha ⊢
        omega

theorem natAbs_tmod_lt (a : Int) {b : Int} (hb : b ≠ 0) : (a.tmod b).natAbs < b.natAbs := by
  rw [Int.natAbs_tmod]
  exact Nat.mod_lt _ (Int.natAbs_pos.mpr hb)

theorem tmod_nonpos {a : Int} (b : Int) (h : a ≤ 0) : a.tmod b ≤ 0 := by
  have hneg := Int.tmod_nonneg b (Int.neg_nonneg_of_nonpos h)
  rw [Int.neg_tmod] at hneg
  omega

end Number

/-! ## Operators -/

/-- The outcome is the integer `i`, or an overflow if it has no number. -/
inductive Exact (i : Int) : Except RunFault Value → Prop where
  | number {n : Number} : n.toInt = i → Exact i (.ok (.number n))
  | overflow : ¬ Fits i → Exact i (.error .overflow)

namespace Exact

variable {i : Int} {x : Except RunFault Value}

theorem exists_number (h : Exact i x) (hi : Fits i) :
    ∃ n : Number, x = .ok (.number n) ∧ n.toInt = i := by
  cases h with
  | number hn => exact ⟨_, rfl, hn⟩
  | overflow hne => exact absurd hi hne

theorem overflow_iff (h : Exact i x) : x = .error .overflow ↔ ¬ Fits i := by
  cases h with
  | @number n hn => simpa [← hn] using n.fits_toInt
  | overflow hne => simpa using hne

theorem ne_error (h : Exact i x) {f : RunFault} (hf : f ≠ .overflow) : x ≠ .error f := by
  rintro rfl
  cases h
  exact hf rfl

end Exact

theorem exact_ofInt? (i : Int) :
    Exact i (do return .number (← orOverflow (Number.ofInt? i))) := by
  cases h : Number.ofInt? i with
  | some n => exact .number (Number.ofInt?_eq_some_iff.mp h)
  | none => exact .overflow (Number.ofInt?_eq_none_iff_not_fits.mp h)

theorem UnaryOp.exact_neg (a : Number) : Exact (-a.toInt) (UnaryOp.neg.apply (.number a)) :=
  exact_ofInt? _

namespace ArithOp

/-- What an operator makes of two numbers. -/
def on (op : ArithOp) (a b : Number) : Except RunFault Value :=
  BinaryOp.apply (.arith op) (.number a) (.number b)

variable {a b : Number}

theorem on_by_zero (a : Number) {op : ArithOp} (h : op = .div ∨ op = .mod) :
    op.on a 0 = .error .divisionByZero := by
  rcases h with rfl | rfl
  · rfl
  · rfl

theorem exact_div (hb : b ≠ 0) : Exact (a.toInt.tdiv b.toInt) (ArithOp.div.on a b) := by
  have hon : ArithOp.div.on a b = do return .number (← orOverflow (a.div? b)) := by
    simp only [on, BinaryOp.apply, apply, if_neg hb]
  rw [hon]
  exact exact_ofInt? _

/-- There is no remainder if there is no quotient. -/
theorem mod_on (hb : b ≠ 0) :
    ArithOp.mod.on a b =
      match a.div? b with
      | some _ => do return .number (← orOverflow (Number.ofInt? (a.toInt.tmod b.toInt)))
      | none => .error .overflow := by
  simp only [on, BinaryOp.apply, apply, if_neg hb, Number.mod?]
  cases a.div? b <;> rfl

theorem exact_mod (hb : b ≠ 0) (hq : Fits (a.toInt.tdiv b.toInt)) :
    Exact (a.toInt.tmod b.toInt) (ArithOp.mod.on a b) := by
  rw [mod_on hb]
  cases h : a.div? b with
  | some q => exact exact_ofInt? _
  | none => exact absurd hq (Number.ofInt?_eq_none_iff_not_fits.mp h)

theorem mod_overflow (hb : b ≠ 0) (hq : ¬ Fits (a.toInt.tdiv b.toInt)) :
    ArithOp.mod.on a b = .error .overflow := by
  have hnone : a.div? b = none := Number.ofInt?_eq_none_iff_not_fits.mpr hq
  rw [mod_on hb, hnone]

/-- Quotient and remainder: what is reported, and what they are otherwise. -/
structure DivisionExact (a b : Number) : Prop where
  by_zero_iff : ∀ op : ArithOp, op = .div ∨ op = .mod →
    (op.on a b = .error .divisionByZero ↔ b.toInt = 0)
  overflow_iff : ∀ op : ArithOp, op = .div ∨ op = .mod →
    (op.on a b = .error .overflow ↔ a.toInt = -2 ^ 63 ∧ b.toInt = -1)
  otherwise : b.toInt ≠ 0 → ¬ (a.toInt = -2 ^ 63 ∧ b.toInt = -1) →
    ∃ q r : Number, ArithOp.div.on a b = .ok (.number q) ∧ ArithOp.mod.on a b = .ok (.number r) ∧
      q.toInt = a.toInt.tdiv b.toInt ∧ r.toInt = a.toInt.tmod b.toInt ∧
      a.toInt = q.toInt * b.toInt + r.toInt ∧ r.toInt.natAbs < b.toInt.natAbs ∧
      (0 ≤ a.toInt → 0 ≤ r.toInt) ∧ (a.toInt ≤ 0 → r.toInt ≤ 0)

theorem divisionExact_zero (a : Number) : DivisionExact a 0 where
  by_zero_iff op hop := by simp [on_by_zero a hop]
  overflow_iff op hop := by simp [on_by_zero a hop]
  otherwise h := absurd rfl h

theorem divisionExact_of_ne_zero (hb : b ≠ 0) : DivisionExact a b := by
  have hb' : b.toInt ≠ 0 := fun h => hb (Number.toInt_eq_zero_iff.mp h)
  have hfits := Number.fits_tdiv_iff a.fits_toInt hb'
  have hdiv := exact_div (a := a) hb
  have hr : Fits (a.toInt.tmod b.toInt) := by
    have hlt := Number.natAbs_tmod_lt a.toInt hb'
    have hle := b.fits_toInt.natAbs_le
    exact fits_of_natAbs_lt (by omega)
  refine ⟨fun op hop => ?_, fun op hop => ?_, fun _ hne => ?_⟩
  · -- A divisor that is not zero is never reported as zero.
    refine iff_of_false ?_ hb'
    rcases hop with rfl | rfl
    · exact hdiv.ne_error (by simp)
    · by_cases hq : Fits (a.toInt.tdiv b.toInt)
      · exact (exact_mod hb hq).ne_error (by simp)
      · simp [mod_overflow hb hq]
  · rw [← Decidable.not_not (p := a.toInt = -2 ^ 63 ∧ b.toInt = -1), ← hfits]
    rcases hop with rfl | rfl
    · exact hdiv.overflow_iff
    · by_cases hq : Fits (a.toInt.tdiv b.toInt)
      · rw [(exact_mod hb hq).overflow_iff]
        exact iff_of_false (not_not_intro hr) (not_not_intro hq)
      · exact iff_of_true (mod_overflow hb hq) hq
  · have hq := hfits.mpr hne
    obtain ⟨q, hqon, hqi⟩ := hdiv.exists_number hq
    obtain ⟨r, hron, hri⟩ := (exact_mod hb hq).exists_number hr
    refine ⟨q, r, hqon, hron, hqi, hri, ?_, ?_, ?_, ?_⟩
    · rw [hqi, hri, Int.tdiv_mul_add_tmod]
    · rw [hri]
      exact Number.natAbs_tmod_lt _ hb'
    · rw [hri]
      exact Int.tmod_nonneg _
    · rw [hri]
      exact Number.tmod_nonpos _

theorem exact_pow (hb : 0 ≤ b.toInt) :
    Exact (a.toInt ^ b.toInt.toNat) (ArithOp.pow.on a b) := by
  have hneg : ¬ b < 0 := fun h => by
    have := Int64.lt_iff_toInt_lt.mp h
    simp at this
    omega
  have hon : ArithOp.pow.on a b =
      do return .number (← orOverflow (Number.ofInt? (a.toInt ^ b.toInt.toNat))) := by
    simp only [on, BinaryOp.apply, apply, if_neg hneg, Number.pow?_eq_ofInt?]
  rw [hon]
  exact exact_ofInt? _

theorem pow_of_neg (hb : b.toInt < 0) : ArithOp.pow.on a b = .error .negativeExponent := by
  have hneg : b < 0 := Int64.lt_iff_toInt_lt.mpr hb
  simp only [on, BinaryOp.apply, apply, if_pos hneg]
  rfl

/-- Powers: what is reported, what they are otherwise, and that other squares on the way give the
same ones. -/
structure PowerExact (a b : Number) : Prop where
  negative_iff : ArithOp.pow.on a b = .error .negativeExponent ↔ b.toInt < 0
  exact : 0 ≤ b.toInt → Exact (a.toInt ^ b.toInt.toNat) (ArithOp.pow.on a b)
  overflow_iff : ArithOp.pow.on a b = .error .overflow ↔
    0 ≤ b.toInt ∧ ¬ Fits (a.toInt ^ b.toInt.toNat)
  ascend : ∀ n, a.ascend? n = a.pow? n

theorem powerExact (a b : Number) : PowerExact a b where
  negative_iff := by
    by_cases hb : b.toInt < 0
    · exact iff_of_true (pow_of_neg hb) hb
    · exact iff_of_false ((exact_pow (by omega)).ne_error (by simp)) hb
  exact := exact_pow
  overflow_iff := by
    by_cases hb : b.toInt < 0
    · rw [pow_of_neg hb]
      simp [Int.not_le.mpr hb]
    · have hb' : 0 ≤ b.toInt := by omega
      rw [(exact_pow hb').overflow_iff]
      exact (and_iff_right hb').symm
  ascend n := by rw [Number.ascend?_eq_ofInt?, Number.pow?_eq_ofInt?]

/-- Whatever two numbers are given to an operator, it gives the integer that it stands for, or it
reports why there is none. -/
theorem exact_or_reported (a b : Number) :
    Exact (a.toInt + b.toInt) (ArithOp.add.on a b) ∧
    Exact (a.toInt - b.toInt) (ArithOp.sub.on a b) ∧
    Exact (a.toInt * b.toInt) (ArithOp.mul.on a b) ∧
    DivisionExact a b ∧ PowerExact a b ∧
    Exact (-a.toInt) (UnaryOp.neg.apply (.number a)) ∧
    (UnaryOp.neg.apply (.number a) = .error .overflow ↔ a.toInt = -2 ^ 63) := by
  refine ⟨exact_ofInt? _, exact_ofInt? _, exact_ofInt? _, ?_, powerExact a b,
    UnaryOp.exact_neg a, ?_⟩
  · by_cases hb : b = 0
    · rw [hb]
      exact divisionExact_zero a
    · exact divisionExact_of_ne_zero hb
  · rw [(UnaryOp.exact_neg a).overflow_iff]
    have ha := a.fits_toInt
    unfold Fits at ha ⊢
    omega

end ArithOp
end Easel
