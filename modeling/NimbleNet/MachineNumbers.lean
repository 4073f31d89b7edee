import Mathlib

/-! Fixed-width integers and binary32 values, as exact numbers. Rounding is to
nearest, ties to even, with gradual underflow; the range limit of binary32 is
not modelled. No device, clock or table is mentioned here. -/
namespace NimbleNet.MachineNumbers

def wrap32 (z : Int) : Int := z.bmod (2 ^ 32)

def wrap64 (z : Int) : Int := z.bmod (2 ^ 64)

theorem wrap32Range (z : Int) : -2 ^ 31 ≤ wrap32 z ∧ wrap32 z < 2 ^ 31 := by
  have low := Int.le_bmod (x := z) (m := 2 ^ 32) (by decide)
  have high := Int.bmod_lt (x := z) (m := 2 ^ 32) (by decide)
  unfold wrap32
  omega

theorem wrap32Exact {z : Int} (low : -2 ^ 31 ≤ z) (high : z < 2 ^ 31) : wrap32 z = z :=
  Int.bmod_eq_of_le (by omega) (by omega)

theorem wrap32AtMost {z : Int} (low : 0 ≤ z) : wrap32 z ≤ z := by
  unfold wrap32
  rw [Int.bmod_def]
  split <;> omega

theorem wrap32Above {z : Int} (low : 2 ^ 31 ≤ z) (high : z < 2 ^ 32 + 2 ^ 31) : wrap32 z = z - 2 ^ 32 := by
  have shifted : wrap32 (z - (2 ^ 32 : Nat)) = wrap32 z := Int.sub_bmod_right z (2 ^ 32)
  rw [← shifted,wrap32Exact (by omega) (by omega)]
  rfl

def toSizeT (z : Int) : Int := z % 2 ^ 64

theorem digitsFree {x : Char} (notDigit : x.isDigit = false) (n : Nat) : x ∉ n.repr.toList := by
  intro member
  rw [Nat.toList_repr] at member
  have digit := Nat.isDigit_of_mem_toDigits (by decide) (by decide) member
  rw [notDigit] at digit
  contradiction

theorem intTextFree {x : Char} (notDigit : x.isDigit = false) (notSign : x ≠ '-') (z : Int) : x ∉ (toString z).toList := by
  rw [Int.toString_eq_repr,Int.repr_eq_if]
  split
  · exact digitsFree notDigit _
  · rw [String.toList_append,List.mem_append,not_or]
    exact ⟨by simpa using notSign,digitsFree notDigit _⟩

def roundHalfEven (y : ℚ) : Int :=
  if y - ⌊y⌋ < 1 / 2 ∨ (y - ⌊y⌋ = 1 / 2 ∧ ⌊y⌋ % 2 = 0) then ⌊y⌋ else ⌊y⌋ + 1

theorem roundHalfEvenInt (n : Int) : roundHalfEven n = n := by
  simp [roundHalfEven]

theorem roundHalfEvenMono {x y : ℚ} (h : x ≤ y) : roundHalfEven x ≤ roundHalfEven y := by
  have floors : ⌊x⌋ ≤ ⌊y⌋ := Int.floor_le_floor h
  rcases floors.lt_or_eq with less | same
  · have upper : roundHalfEven x ≤ ⌊x⌋ + 1 := by unfold roundHalfEven; split <;> omega
    have lower : ⌊y⌋ ≤ roundHalfEven y := by unfold roundHalfEven; split <;> omega
    omega
  · unfold roundHalfEven
    rw [← same]
    by_cases down : y - ⌊x⌋ < 1 / 2 ∨ (y - ⌊x⌋ = 1 / 2 ∧ ⌊x⌋ % 2 = 0)
    · have both : x - ⌊x⌋ < 1 / 2 ∨ (x - ⌊x⌋ = 1 / 2 ∧ ⌊x⌋ % 2 = 0) := by
        rcases down with below | ⟨tie,even⟩
        · exact .inl (by linarith)
        · rcases (show x - ⌊x⌋ ≤ 1 / 2 by linarith).lt_or_eq with less | eq
          · exact .inl less
          · exact .inr ⟨eq,even⟩
      rw [if_pos both,if_pos down]
    · rw [if_neg down]
      split <;> omega

/- The spacing of binary32 values around a number: 24 significant bits, and no
spacing finer than the smallest subnormal. -/
def unitExponent (x : ℚ) : Int := max (Int.log 2 |x| - 23) (-149)

def unit (x : ℚ) : ℚ := 2 ^ unitExponent x

theorem unitPos (x : ℚ) : 0 < unit x := by
  unfold unit
  positivity

def toFloat32 (x : ℚ) : ℚ := roundHalfEven (x / unit x) * unit x

theorem toFloat32Nonneg {x : ℚ} (h : 0 ≤ x) : 0 ≤ toFloat32 x := by
  have scaled : (0 : ℚ) ≤ x / unit x := div_nonneg h (unitPos x).le
  have rounded : (0 : Int) ≤ roundHalfEven (x / unit x) := by
    simpa [roundHalfEven] using roundHalfEvenMono scaled
  exact mul_nonneg (by exact_mod_cast rounded) (unitPos x).le

theorem roundHalfEvenNeg (y : ℚ) : roundHalfEven (-y) = -roundHalfEven y := by
  by_cases whole : ∃ n : Int, y = n
  · obtain ⟨n,rfl⟩ := whole
    rw [← Int.cast_neg,roundHalfEvenInt,roundHalfEvenInt]
  · have notFloor : (⌊y⌋ : ℚ) ≠ y := fun h => whole ⟨⌊y⌋,h.symm⟩
    have below : (⌊y⌋ : ℚ) < y := lt_of_le_of_ne (Int.floor_le y) notFloor
    have flipped : ⌊-y⌋ = -⌊y⌋ - 1 := by
      apply Int.floor_eq_iff.mpr
      push_cast
      constructor <;> linarith [Int.lt_floor_add_one y]
    unfold roundHalfEven
    rw [flipped]
    push_cast
    split_ifs with left right right
    · exfalso
      rcases left with l | ⟨l,le⟩ <;> rcases right with r | ⟨r,re⟩
      · linarith
      · linarith
      · linarith
      · omega
    · omega
    · omega
    · exfalso
      push Not at left right
      have half : y - ⌊y⌋ = 1 / 2 := le_antisymm (by linarith [left.1]) right.1
      have := left.2 (by linarith)
      have := right.2 half
      omega

theorem toFloat32Neg (x : ℚ) : toFloat32 (-x) = -toFloat32 x := by
  have same : unit (-x) = unit x := by simp [unit,unitExponent]
  rw [toFloat32,same,neg_div,roundHalfEvenNeg,toFloat32]
  push_cast
  ring

/- Crossing a power of two: it is representable on both grids, so it separates
the two rounded values. -/
theorem toFloat32MonoPos {x y : ℚ} (pos : 0 < x) (h : x ≤ y) : toFloat32 x ≤ toFloat32 y := by
  have posY : 0 < y := lt_of_lt_of_le pos h
  have logs : Int.log 2 |x| ≤ Int.log 2 |y| := by
    rw [abs_of_pos pos,abs_of_pos posY]
    exact Int.log_mono_right pos h
  have exponents : unitExponent x ≤ unitExponent y := by unfold unitExponent; omega
  rcases exponents.lt_or_eq with less | same
  · have top : unitExponent y = Int.log 2 |y| - 23 := by unfold unitExponent at less ⊢; omega
    have room : unitExponent x ≤ Int.log 2 |y| := by omega
    have apart : Int.log 2 |x| + 1 ≤ Int.log 2 |y| := by unfold unitExponent at less top; omega
    have split : ∀ e : Int, e ≤ Int.log 2 |y| →
        (2 : ℚ) ^ Int.log 2 |y| = ((2 ^ (Int.log 2 |y| - e).toNat : Int) : ℚ) * 2 ^ e := by
      intro e small
      push_cast
      rw [← zpow_natCast,← zpow_add₀ (by norm_num : (2 : ℚ) ≠ 0)]
      congr 1
      omega
    have belowPower : x ≤ 2 ^ Int.log 2 |y| := by
      have lt := Int.lt_zpow_succ_log_self (b := 2) (by norm_num) |x|
      rw [abs_of_pos pos] at lt apart
      exact lt.le.trans (zpow_le_zpow_right₀ (by norm_num) apart)
    have abovePower : 2 ^ Int.log 2 |y| ≤ y := by
      have le := Int.zpow_log_le_self (b := 2) (r := |y|) (by norm_num) (by rwa [abs_of_pos posY])
      simpa only [abs_of_pos posY,Nat.cast_ofNat] using le
    have left : toFloat32 x ≤ 2 ^ Int.log 2 |y| := by
      rw [split _ room] at belowPower ⊢
      have scaled := (div_le_iff₀ (unitPos x)).mpr belowPower
      have rounded := roundHalfEvenMono scaled
      rw [roundHalfEvenInt] at rounded
      exact mul_le_mul_of_nonneg_right (by exact_mod_cast rounded) (unitPos x).le
    have right : 2 ^ Int.log 2 |y| ≤ toFloat32 y := by
      rw [split (unitExponent y) (by omega)] at abovePower ⊢
      have scaled := (le_div_iff₀ (unitPos y)).mpr abovePower
      have rounded := roundHalfEvenMono scaled
      rw [roundHalfEvenInt] at rounded
      exact mul_le_mul_of_nonneg_right (by exact_mod_cast rounded) (unitPos y).le
    exact left.trans right
  · have units : unit x = unit y := by rw [unit,unit,same]
    rw [toFloat32,toFloat32,units]
    have scaled : x / unit y ≤ y / unit y := div_le_div_of_nonneg_right h (unitPos y).le
    exact mul_le_mul_of_nonneg_right (by exact_mod_cast roundHalfEvenMono scaled) (unitPos y).le

theorem toFloat32Mono {x y : ℚ} (h : x ≤ y) : toFloat32 x ≤ toFloat32 y := by
  rcases lt_or_ge 0 x with pos | neg
  · exact toFloat32MonoPos pos h
  rcases lt_or_ge y 0 with negY | nonneg
  · have flipped := toFloat32MonoPos (neg_pos.mpr negY) (neg_le_neg h)
    rw [toFloat32Neg,toFloat32Neg] at flipped
    exact neg_le_neg_iff.mp flipped
  · have left : toFloat32 x ≤ 0 := by
      have nonnegX := toFloat32Nonneg (neg_nonneg.mpr neg)
      rw [toFloat32Neg] at nonnegX
      linarith
    exact left.trans (toFloat32Nonneg nonneg)

end NimbleNet.MachineNumbers
