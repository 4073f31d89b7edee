import Mathlib

/-! Sums in w-bit integers and the truncated means that are computed from them. -/
namespace NimbleNet.WrappedSums

def InRange (w : Nat) (z : Int) : Prop := -2 ^ (w - 1) ≤ z ∧ z < 2 ^ (w - 1)
instance (w : Nat) (z : Int) : Decidable (InRange w z) := inferInstanceAs (Decidable (_ ∧ _))

variable {w : Nat} {z : Int}

theorem wrappedInRange (x : BitVec w) : InRange w x.toInt := ⟨x.le_toInt,x.toInt_lt⟩

theorem wrappedSame (positive : 0 < w) : (BitVec.ofInt w z).toInt = z ↔ InRange w z := by
  constructor
  · intro same
    rw [← same]
    exact wrappedInRange _
  · exact fun inside => BitVec.toInt_ofInt_eq_self positive inside.1 inside.2

theorem quotientInRange {n : Nat} (inside : InRange w z) : InRange w (z.tdiv n) := by
  rcases le_total 0 z with nonneg | negative
  · have := Int.tdiv_nonneg nonneg (Int.natCast_nonneg n)
    have := Int.tdiv_le_self n nonneg
    exact ⟨by linarith [inside.1,inside.2],by linarith [inside.2]⟩
  · have := Int.tdiv_nonneg (neg_nonneg.mpr negative) (Int.natCast_nonneg n)
    have := Int.tdiv_le_self n (neg_nonneg.mpr negative)
    rw [Int.neg_tdiv] at *
    exact ⟨by linarith [inside.1],by linarith [inside.1,inside.2]⟩

theorem quotientNear {x y n : Int} (positive : 0 < n) (same : x.tdiv n = y.tdiv n) : |x - y| < 2 * n := by
  have left := Int.mul_tdiv_add_tmod x n
  have right := Int.mul_tdiv_add_tmod y n
  have := Int.tmod_lt_of_pos x positive
  have := Int.tmod_lt_of_pos y positive
  have := Int.lt_tmod_of_pos x positive
  have := Int.lt_tmod_of_pos y positive
  rw [same] at left
  rw [abs_lt]
  omega

/- The quotient of a wrapped sum is that of the sum only if nothing was wrapped. -/
theorem quotientIff {n : Nat} (some : 0 < n) (few : 2 * n ≤ 2 ^ w) (positive : 0 < w) :
    (BitVec.ofInt w z).toInt.tdiv n = z.tdiv n ↔ InRange w z := by
  rw [← wrappedSame positive]
  constructor
  · intro same
    have near := quotientNear (by omega) same
    have multiple : ((2 ^ w : Nat) : Int) ∣ z - (BitVec.ofInt w z).toInt := by
      rw [BitVec.toInt_ofInt]
      exact Int.dvd_self_sub_bmod
    have zero := Int.eq_zero_of_abs_lt_dvd multiple (by rw [abs_sub_comm]; omega)
    omega
  · intro same
    rw [same]

end NimbleNet.WrappedSums
