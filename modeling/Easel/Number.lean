/-!
# Easel.Number

Program numbers: signed 64-bit integers. Every operation is computed exactly over `Int` and
answers `none` where the exact result has no 64-bit number, so nothing ever wraps.

* `ofInt?_eq_some_iff`: a number answers for an integer exactly when it denotes it.
* `pow?` squares its way down the exponent; each intermediate power is checked on its own.
-/

namespace Easel

abbrev Number := Int64

namespace Number

/-- The number that denotes `i`, if `i` fits in 64 signed bits. -/
def ofInt? (i : Int) : Option Number :=
  if Int64.minValue.toInt ≤ i ∧ i ≤ Int64.maxValue.toInt then some (Int64.ofInt i) else none

theorem ofInt?_eq_some_iff {i : Int} {n : Number} : ofInt? i = some n ↔ n.toInt = i := by
  unfold ofInt?
  constructor
  · intro h
    split at h
    · rename_i hr
      cases h
      exact Int64.toInt_ofInt_of_le hr.1 (Int.lt_add_one_of_le hr.2)
    · cases h
  · rintro rfl
    rw [if_pos ⟨n.minValue_le_toInt, n.toInt_le⟩, Int64.ofInt_toInt]

theorem ofInt?_eq_none_iff {i : Int} :
    ofInt? i = none ↔ ¬ (Int64.minValue.toInt ≤ i ∧ i ≤ Int64.maxValue.toInt) := by
  unfold ofInt?
  split <;> simp_all

def neg? (a : Number) : Option Number := ofInt? (-a.toInt)

def add? (a b : Number) : Option Number := ofInt? (a.toInt + b.toInt)

def sub? (a b : Number) : Option Number := ofInt? (a.toInt - b.toInt)

def mul? (a b : Number) : Option Number := ofInt? (a.toInt * b.toInt)

/-- The quotient truncated toward zero. The divisor is meant to be nonzero. -/
def div? (a b : Number) : Option Number := ofInt? (a.toInt.tdiv b.toInt)

/-- The remainder that belongs to `div?`, with the sign of `a`. Where the quotient does not fit
there is no remainder either. -/
def mod? (a b : Number) : Option Number :=
  match div? a b with
  | some _ => ofInt? (a.toInt.tmod b.toInt)
  | none => none

/-- The power `a ^ n`, by halving the exponent. -/
def pow? (a : Number) (n : Nat) : Option Number :=
  if n = 0 then some 1
  else
    match pow? a (n / 2) with
    | none => none
    | some h =>
      match mul? h h with
      | none => none
      | some s => if n % 2 = 1 then mul? s a else some s
termination_by n
decreasing_by omega

/-- The decimal text of a number. -/
def text (n : Number) : String := toString n.toInt

end Number
end Easel
