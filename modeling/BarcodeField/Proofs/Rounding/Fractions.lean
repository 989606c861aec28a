import Mathlib.Tactic.Linarith
import Mathlib.Tactic.LinearCombination
import Mathlib.Tactic.Ring
import Mathlib.Tactic.Zify

/-!
# Fractions between two bounds

Two fractions `a / b < c / d` are **neighbours** where `c * b` is one more than `a * d`. Nothing between them has an
upper term below `a + c`, and their middle `(a + c) / (b + d)` is a neighbour of both. So a gap between neighbours that
is halved again and again gives up every fraction with a small upper term, and the steps can be counted beforehand,
since each adds to the sum of the upper terms.

**The law** (`Gap.exists_mem_between`): a fraction from one bound to another, its upper term below a third, is among
those that the search lists. It need not be in lowest terms.

A fraction is a pair of naturals, and two are compared by cross products. The list is computed, and it takes few steps
where no small fraction is very close to a bound.
-/

namespace BarcodeField.Fraction

/-- Whether one fraction is smaller than another. -/
def Below (f g : ℕ × ℕ) : Prop := f.1 * g.2 < g.1 * f.2

instance (f g : ℕ × ℕ) : Decidable (Below f g) := inferInstanceAs (Decidable (_ < _))

section Order

variable {f g h : ℕ × ℕ}

theorem Below.trans_not_below (hfg : Below f g) (hhg : ¬ Below h g) (hpos : 0 < h.2) : Below f h := by
  unfold Below at *
  refine Nat.lt_of_mul_lt_mul_right (a := g.2) ?_
  calc f.1 * h.2 * g.2 = f.1 * g.2 * h.2 := Nat.mul_right_comm _ _ _
    _ < g.1 * f.2 * h.2 := Nat.mul_lt_mul_of_pos_right hfg hpos
    _ = g.1 * h.2 * f.2 := Nat.mul_right_comm _ _ _
    _ ≤ h.1 * g.2 * f.2 := Nat.mul_le_mul_right _ (Nat.le_of_not_lt hhg)
    _ = h.1 * f.2 * g.2 := Nat.mul_right_comm _ _ _

theorem Below.not_below_trans (hgh : Below g h) (hgf : ¬ Below g f) (hpos : 0 < f.2) : Below f h := by
  unfold Below at *
  refine Nat.lt_of_mul_lt_mul_right (a := g.2) ?_
  calc f.1 * h.2 * g.2 = f.1 * g.2 * h.2 := Nat.mul_right_comm _ _ _
    _ ≤ g.1 * f.2 * h.2 := Nat.mul_le_mul_right _ (Nat.le_of_not_lt hgf)
    _ = g.1 * h.2 * f.2 := Nat.mul_right_comm _ _ _
    _ < h.1 * g.2 * f.2 := Nat.mul_lt_mul_of_pos_right hgh hpos
    _ = h.1 * f.2 * g.2 := Nat.mul_right_comm _ _ _

end Order

/-! ## Neighbours -/

/-- Two neighbours, the lower one above zero. -/
structure Gap where
  low : ℕ × ℕ
  high : ℕ × ℕ
  adjacent : high.1 * low.2 = low.1 * high.2 + 1
  pos : 0 < low.1

namespace Gap

/-- The gap from one to two. -/
def oneToTwo : Gap := ⟨(1, 1), (2, 1), rfl, Nat.one_pos⟩

/-- The fraction between two neighbours that has the smallest terms. -/
def middle (s : Gap) : ℕ × ℕ := (s.low.1 + s.high.1, s.low.2 + s.high.2)

/-- The gap below the middle. -/
def lowerHalf (s : Gap) : Gap where
  low := s.low
  high := s.middle
  adjacent := by
    have hadjacent := s.adjacent
    simp only [middle]
    linarith
  pos := s.pos

/-- The gap above the middle. -/
def upperHalf (s : Gap) : Gap where
  low := s.middle
  high := s.high
  adjacent := by
    have hadjacent := s.adjacent
    simp only [middle]
    linarith
  pos := Nat.add_pos_left s.pos _

/-- The fractions inside a gap from `lo` up to `hi` whose upper term is below a bound. -/
def between (bound : ℕ) (lo hi : ℕ × ℕ) : ℕ → Gap → List (ℕ × ℕ)
  | 0, _ => []
  | fuel + 1, s =>
    if bound ≤ s.middle.1 then []
    else if Below s.middle lo then between bound lo hi fuel s.upperHalf
    else if Below hi s.middle then between bound lo hi fuel s.lowerHalf
    else between bound lo hi fuel s.lowerHalf ++ s.middle :: between bound lo hi fuel s.upperHalf

variable {s : Gap} {bound fuel : ℕ} {lo hi f : ℕ × ℕ}

theorem high_pos (s : Gap) : 0 < s.high.1 := by
  refine Nat.pos_of_ne_zero fun h0 => ?_
  have hadjacent := s.adjacent
  rw [h0, Nat.zero_mul] at hadjacent
  omega

/-- A fraction between neighbours is made of each of them once at least. -/
theorem middle_le_of_below (hlow : Below s.low f) (hhigh : Below f s.high) : s.middle.1 ≤ f.1 := by
  obtain ⟨i, hi⟩ := Nat.exists_eq_add_of_lt hhigh
  obtain ⟨j, hj⟩ := Nat.exists_eq_add_of_lt hlow
  have hadjacent := s.adjacent
  have hterms : f.1 = (i + 1) * s.low.1 + (j + 1) * s.high.1 := by
    zify at *
    linear_combination s.low.1 * hi + s.high.1 * hj - f.1 * hadjacent
  have hlow_le := Nat.le_mul_of_pos_left s.low.1 (Nat.succ_pos i)
  have hhigh_le := Nat.le_mul_of_pos_left s.high.1 (Nat.succ_pos j)
  rw [hterms]
  exact Nat.add_le_add hlow_le hhigh_le

/-- **Every fraction from one bound to the other is listed.** -/
theorem exists_mem_between (hbound : f.1 < bound) (hpos : 0 < f.2) (hlo : ¬ Below f lo) (hhi : ¬ Below hi f)
    (hfuel : bound ≤ fuel + s.middle.1) (hlow : Below s.low f) (hhigh : Below f s.high) :
    ∃ p ∈ between bound lo hi fuel s, f.1 * p.2 = p.1 * f.2 := by
  -- the fuel makes up for what the sum of the upper terms is short of the bound
  induction fuel generalizing s with
  | zero => exact absurd (middle_le_of_below hlow hhigh) (by omega)
  | succ fuel ih =>
    have hmiddle := middle_le_of_below hlow hhigh
    have hhighPos := s.high_pos
    have hlowPos := s.pos
    have hupper : s.middle.1 < s.upperHalf.middle.1 := Nat.lt_add_of_pos_right hhighPos
    have hlower : s.middle.1 < s.lowerHalf.middle.1 := Nat.lt_add_of_pos_left hlowPos
    have inUpper (h : Below s.middle f) := ih (s := s.upperHalf) (by omega) h hhigh
    have inLower (h : Below f s.middle) := ih (s := s.lowerHalf) (by omega) hlow h
    rw [between, if_neg (by omega)]
    split_ifs with hbelow habove
    · exact inUpper (hbelow.trans_not_below hlo hpos)
    · exact inLower (habove.not_below_trans hhi hpos)
    · rcases lt_trichotomy (f.1 * s.middle.2) (s.middle.1 * f.2) with hlt | heq | hgt
      · obtain ⟨p, hp, hsame⟩ := inLower hlt
        exact ⟨p, List.mem_append_left _ hp, hsame⟩
      · exact ⟨s.middle, List.mem_append_right _ List.mem_cons_self, heq⟩
      · obtain ⟨p, hp, hsame⟩ := inUpper hgt
        exact ⟨p, List.mem_append_right _ (List.mem_cons_of_mem _ hp), hsame⟩

end Gap

end BarcodeField.Fraction
