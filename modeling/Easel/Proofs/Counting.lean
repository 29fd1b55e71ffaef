import Mathlib.Data.Int.Interval
import Easel.Canvas
import Easel.Proofs.Arithmetic

/-!
# Easel.Proofs.Counting

Counting the pixels of a rectangle. The count is computed from the sides of the rectangle; it is the
number of positions in the rectangle that show the color, as long as there is a number for it, and
the largest number otherwise (`Canvas.colorCount_exact`).

* `Position.rectangle`: the positions between two corners, in whatever order the corners are given.
* `Number.SideExact`: nothing wraps on the way to the length of a side. It holds because both
  corners lie on the canvas (`Canvas.Reaches.sideExact`).
* `Canvas.toInt_colorCount`: the count. That it does not depend on the order of the corners follows
  from the rectangle alone (`Canvas.colorCount_congr`).
-/

namespace Easel

/-! ## Sides -/

namespace Number

theorem toInt_ofInt_of_fits {i : Int} (h : Fits i) : (Int64.ofInt i).toInt = i := by
  unfold Fits at h
  exact Int64.toInt_ofInt_of_le (by omega) (by omega)

theorem toInt_add_of_fits {a b : Number} (h : Fits (a.toInt + b.toInt)) :
    (a + b).toInt = a.toInt + b.toInt := by
  unfold Fits at h
  rw [Int64.toInt_add]
  exact Int.bmod_eq_of_le (by omega) (by omega)

theorem toInt_sub_of_fits {a b : Number} (h : Fits (a.toInt - b.toInt)) :
    (a - b).toInt = a.toInt - b.toInt := by
  unfold Fits at h
  rw [Int64.toInt_sub]
  exact Int.bmod_eq_of_le (by omega) (by omega)

theorem toInt_abs_of_fits {a : Number} (h : Fits a.toInt.natAbs) :
    a.abs.toInt = a.toInt.natAbs := by
  have hne : a.toBitVec ≠ BitVec.intMin 64 := by
    intro hmin
    have hbad : a.toInt = -2 ^ 63 := by
      rw [← Int64.toInt_toBitVec, hmin]
      rfl
    rw [hbad] at h
    exact absurd h.2 (by decide)
  rw [← Int64.toInt_toBitVec, Int64.toBitVec_abs, BitVec.toInt_abs_eq_natAbs_of_ne_intMin hne,
    Int64.toInt_toBitVec]

/-- On the way to the length of the side from `a` to `b`, the difference, its absolute value and the
increment are the integers that they stand for: none of them leaves 64 bits. -/
structure SideExact (a b : Number) : Prop where
  difference : (a - b).toInt = a.toInt - b.toInt
  absolute : (a - b).abs.toInt = (a - b).toInt.natAbs
  increment : ((a - b).abs + 1).toInt = (a - b).abs.toInt + 1

theorem sideExact_of_nonneg {a b : Number} (ha : 0 ≤ a.toInt) (hb : 0 ≤ b.toInt)
    (ha' : a.toInt < 2 ^ 63 - 1) (hb' : b.toInt < 2 ^ 63 - 1) : SideExact a b := by
  have hsub : (a - b).toInt = a.toInt - b.toInt := toInt_sub_of_fits (by unfold Fits; omega)
  have habs : (a - b).abs.toInt = (a - b).toInt.natAbs :=
    toInt_abs_of_fits (by unfold Fits; omega)
  refine ⟨hsub, habs, toInt_add_of_fits ?_⟩
  unfold Fits
  rw [habs, hsub]
  have hone : (1 : Number).toInt = 1 := rfl
  omega

/-- The numbers from `a` to `b`, both included, whichever of them is the smaller. -/
def between (a b : Number) : Finset Number := (Finset.uIcc a.toInt b.toInt).image Int64.ofInt

theorem fits_of_mem_uIcc {a b : Number} {i : Int} (h : i ∈ Finset.uIcc a.toInt b.toInt) :
    Fits i := by
  obtain ⟨hmin, hmax⟩ := Finset.mem_uIcc.mp h
  have ha := a.fits_toInt
  have hb := b.fits_toInt
  unfold Fits at *
  omega

theorem mem_between_iff {a b n : Number} :
    n ∈ a.between b ↔ n.toInt ∈ Finset.uIcc a.toInt b.toInt := by
  rw [between, Finset.mem_image]
  constructor
  · rintro ⟨i, hi, rfl⟩
    rw [toInt_ofInt_of_fits (fits_of_mem_uIcc hi)]
    exact hi
  · intro h
    exact ⟨n.toInt, h, Int64.ofInt_toInt n⟩

theorem between_comm (a b : Number) : a.between b = b.between a := by
  rw [between, between, Finset.uIcc_comm]

theorem SideExact.toInt_eq_card {a b : Number} (h : SideExact a b) :
    ((a - b).abs + 1).toInt = (a.between b).card := by
  have hinj : Set.InjOn Int64.ofInt (Finset.uIcc a.toInt b.toInt) := by
    intro i hi j hj hij
    rw [← toInt_ofInt_of_fits (fits_of_mem_uIcc hi), hij, toInt_ofInt_of_fits (fits_of_mem_uIcc hj)]
  rw [between, Finset.card_image_of_injOn hinj, Int.card_uIcc, h.increment, h.absolute,
    h.difference]
  omega

/-- A product that is not negative, or the largest number in its place. -/
theorem toInt_mul?_getD {a b : Number} (h : 0 ≤ a.toInt * b.toInt) :
    ((a.mul? b).getD Int64.maxValue).toInt = min (a.toInt * b.toInt) (2 ^ 63 - 1) := by
  unfold mul?
  cases hm : ofInt? (a.toInt * b.toInt) with
  | some n =>
    rw [Option.getD_some, ofInt?_eq_some_iff.mp hm]
    have hn := n.fits_toInt
    rw [ofInt?_eq_some_iff.mp hm] at hn
    unfold Fits at hn
    omega
  | none =>
    have hbig := ofInt?_eq_none_iff_not_fits.mp hm
    unfold Fits at hbig
    rw [Option.getD_none, Int64.toInt_maxValue]
    omega

end Number

/-! ## Rectangles -/

namespace Position

/-- The positions of the rectangle that has `p` and `q` at opposite corners. -/
def rectangle (p q : Position) : Finset Position :=
  (p.x.between q.x ×ˢ p.y.between q.y).image fun r => ⟨r.1, r.2⟩

theorem mem_rectangle_iff {p q r : Position} :
    r ∈ p.rectangle q ↔ r.x ∈ p.x.between q.x ∧ r.y ∈ p.y.between q.y := by
  rw [rectangle, Finset.mem_image]
  constructor
  · rintro ⟨s, hs, rfl⟩
    exact Finset.mem_product.mp hs
  · intro h
    exact ⟨(r.x, r.y), Finset.mem_product.mpr h, rfl⟩

theorem card_rectangle (p q : Position) :
    (p.rectangle q).card = (p.x.between q.x).card * (p.y.between q.y).card := by
  rw [rectangle, Finset.card_image_of_injective, Finset.card_product]
  intro r s h
  obtain ⟨hx, hy⟩ := Position.mk.inj h
  exact Prod.ext hx hy

end Position

namespace Canvas

variable {c : Canvas} {color : Color} {p q : Position}

/-- The number lies on a side of the canvas. -/
def Reaches (c : Canvas) (n : Number) : Prop := 0 ≤ n.toInt ∧ n.toInt < c.size.toInt

theorem contains_iff : c.contains p = true ↔ c.Reaches p.x ∧ c.Reaches p.y := by
  simp only [contains, decide_eq_true_eq, Int64.le_iff_toInt_le, Int64.lt_iff_toInt_lt, Reaches,
    and_assoc]
  rfl

theorem Reaches.between {a b n : Number} (ha : c.Reaches a) (hb : c.Reaches b)
    (hn : n ∈ a.between b) : c.Reaches n := by
  obtain ⟨hmin, hmax⟩ := Finset.mem_uIcc.mp (Number.mem_between_iff.mp hn)
  unfold Reaches at *
  omega

theorem Reaches.sideExact {a b : Number} (ha : c.Reaches a) (hb : c.Reaches b) :
    Number.SideExact a b := by
  have hsize := c.size.fits_toInt
  unfold Reaches at ha hb
  unfold Fits at hsize
  exact Number.sideExact_of_nonneg ha.1 hb.1 (by omega) (by omega)

/-- A canvas has no hole in it. -/
theorem contains_of_mem_rectangle {r : Position} (hp : c.contains p = true)
    (hq : c.contains q = true) (hr : r ∈ p.rectangle q) : c.contains r = true := by
  obtain ⟨hpx, hpy⟩ := contains_iff.mp hp
  obtain ⟨hqx, hqy⟩ := contains_iff.mp hq
  obtain ⟨hx, hy⟩ := Position.mem_rectangle_iff.mp hr
  exact contains_iff.mpr ⟨hpx.between hqx hx, hpy.between hqy hy⟩

/-- The positions of the rectangle at which the color is seen. -/
def showing (c : Canvas) (color : Color) (p q : Position) : Finset Position :=
  (p.rectangle q).filter fun r => c.pixel? r = some color

theorem showing_white (hp : c.contains p = true) (hq : c.contains q = true) :
    c.showing .white p q = p.rectangle q := by
  refine Finset.filter_true_of_mem fun r hr => ?_
  rw [pixel?, if_pos (contains_of_mem_rectangle hp hq hr)]

theorem showing_of_ne_white (h : color ≠ .white) : c.showing color p q = ∅ := by
  refine Finset.filter_false_of_mem fun r _ => ?_
  unfold pixel?
  split
  · exact fun hc => h (Option.some.inj hc).symm
  · exact fun hc => by cases hc

/-! ## The count -/

theorem colorCount_of_off (h : ¬ (c.contains p = true ∧ c.contains q = true)) :
    c.colorCount color p q = 0 :=
  if_neg fun hc => h hc.2

theorem toInt_colorCount (hp : c.contains p = true) (hq : c.contains q = true) :
    (c.colorCount color p q).toInt = min ((c.showing color p q).card : Int) (2 ^ 63 - 1) := by
  by_cases hw : color = .white
  · subst hw
    obtain ⟨hpx, hpy⟩ := contains_iff.mp hp
    obtain ⟨hqx, hqy⟩ := contains_iff.mp hq
    have harea : ((p.x - q.x).abs + 1).toInt * ((p.y - q.y).abs + 1).toInt =
        (c.showing .white p q).card := by
      rw [(hpx.sideExact hqx).toInt_eq_card, (hpy.sideExact hqy).toInt_eq_card,
        showing_white hp hq, Position.card_rectangle, Int.natCast_mul]
    have hnonneg : 0 ≤ ((p.x - q.x).abs + 1).toInt * ((p.y - q.y).abs + 1).toInt := by
      rw [harea]
      exact Int.natCast_nonneg _
    rw [colorCount, if_pos ⟨rfl, hp, hq⟩, Number.toInt_mul?_getD hnonneg, harea]
  · rw [colorCount, if_neg fun hc => hw hc.1, showing_of_ne_white hw]
    rfl

/-- Corners that give the same rectangle give the same count. -/
theorem colorCount_congr {p' q' : Position}
    (hon : c.contains p' = true ∧ c.contains q' = true ↔ c.contains p = true ∧ c.contains q = true)
    (hx : p'.x.between q'.x = p.x.between q.x) (hy : p'.y.between q'.y = p.y.between q.y) :
    c.colorCount color p' q' = c.colorCount color p q := by
  by_cases h : c.contains p = true ∧ c.contains q = true
  · have hrect : p'.rectangle q' = p.rectangle q := by
      rw [Position.rectangle, hx, hy, Position.rectangle]
    obtain ⟨hp', hq'⟩ := hon.mpr h
    rw [← Int64.toInt_inj, toInt_colorCount h.1 h.2, toInt_colorCount hp' hq', showing, hrect,
      showing]
  · rw [colorCount_of_off h, colorCount_of_off (fun h' => h (hon.mp h'))]

/-- The count is zero if a corner lies off the canvas. If both lie on it, the count is the number of
positions in the rectangle that show the color, or the largest number if there are more, and on the
way to it nothing wraps. It is the same if the corners are exchanged, or one coordinate of
theirs. -/
theorem colorCount_exact (c : Canvas) (color : Color) (p q : Position) :
    (c.contains p = false ∨ c.contains q = false → c.colorCount color p q = 0) ∧
    (c.contains p = true → c.contains q = true →
      (c.colorCount color p q).toInt = min ((c.showing color p q).card : Int) (2 ^ 63 - 1) ∧
      Number.SideExact p.x q.x ∧ Number.SideExact p.y q.y) ∧
    c.colorCount color q p = c.colorCount color p q ∧
    c.colorCount color ⟨q.x, p.y⟩ ⟨p.x, q.y⟩ = c.colorCount color p q ∧
    c.colorCount color ⟨p.x, q.y⟩ ⟨q.x, p.y⟩ = c.colorCount color p q := by
  refine ⟨fun hoff => colorCount_of_off ?_, fun hp hq => ?_, ?_, ?_, ?_⟩
  · rintro ⟨hp, hq⟩
    rw [hp, hq] at hoff
    simp at hoff
  · obtain ⟨hpx, hpy⟩ := contains_iff.mp hp
    obtain ⟨hqx, hqy⟩ := contains_iff.mp hq
    exact ⟨toInt_colorCount hp hq, hpx.sideExact hqx, hpy.sideExact hqy⟩
  · exact colorCount_congr and_comm (Number.between_comm ..) (Number.between_comm ..)
  · refine colorCount_congr ?_ (Number.between_comm ..) rfl
    simp only [contains_iff]
    tauto
  · refine colorCount_congr ?_ rfl (Number.between_comm ..)
    simp only [contains_iff]
    tauto

/-- On a small canvas a square of nine positions. On a large one more positions than there are
numbers, whichever of its diagonals gives the corners. And none where a corner is off the canvas, or
where there is no canvas to be on. -/
theorem colorCount_exact_up_to_the_largest :
    ∃ small large empty : Canvas, small.size = 10 ∧ large.size = 4000000000 ∧ empty.size = -1 ∧
      small.contains ⟨2, 2⟩ = true ∧ small.contains ⟨0, 0⟩ = true ∧
      (small.showing .white ⟨2, 2⟩ ⟨0, 0⟩).card = 9 ∧
      large.contains ⟨3999999999, 0⟩ = true ∧ large.contains ⟨0, 3999999999⟩ = true ∧
      large.colorCount .white ⟨0, 0⟩ ⟨3999999999, 3999999999⟩ = Int64.maxValue ∧
      2 ^ 63 - 1 ≤ (large.showing .white ⟨3999999999, 0⟩ ⟨0, 3999999999⟩).card ∧
      Number.SideExact 3999999999 0 ∧
      empty.contains ⟨0, 0⟩ = false ∧ empty.colorCount .white ⟨0, 0⟩ ⟨0, 0⟩ = 0 := by
  let small : Canvas := { size := 10 }
  let large : Canvas := { size := 4000000000 }
  let empty : Canvas := { size := -1 }
  have hp : small.contains ⟨2, 2⟩ = true := rfl
  have hq : small.contains ⟨0, 0⟩ = true := rfl
  have hp' : large.contains ⟨3999999999, 0⟩ = true := rfl
  have hq' : large.contains ⟨0, 3999999999⟩ = true := rfl
  have hoff : empty.contains ⟨0, 0⟩ = false := rfl
  obtain ⟨hcount, _⟩ := (colorCount_exact small .white ⟨2, 2⟩ ⟨0, 0⟩).2.1 hp hq
  obtain ⟨_, hon, _, hx, _⟩ := colorCount_exact large .white ⟨3999999999, 0⟩ ⟨0, 3999999999⟩
  obtain ⟨hcount', hside, _⟩ := hon hp' hq'
  have hnine : small.colorCount .white ⟨2, 2⟩ ⟨0, 0⟩ = 9 := rfl
  have hmost : large.colorCount .white ⟨3999999999, 0⟩ ⟨0, 3999999999⟩ = Int64.maxValue := rfl
  have hsmall : (small.showing .white ⟨2, 2⟩ ⟨0, 0⟩).card = 9 := by
    rw [hnine] at hcount
    have hvalue : (9 : Number).toInt = 9 := rfl
    omega
  have hlarge : 2 ^ 63 - 1 ≤ (large.showing .white ⟨3999999999, 0⟩ ⟨0, 3999999999⟩).card := by
    rw [hmost, Int64.toInt_maxValue] at hcount'
    omega
  exact ⟨small, large, empty, rfl, rfl, rfl, hp, hq, hsmall, hp', hq', hx.trans hmost, hlarge,
    hside, hoff, (colorCount_exact empty .white ⟨0, 0⟩ ⟨0, 0⟩).1 (.inl hoff)⟩

end Canvas
end Easel
