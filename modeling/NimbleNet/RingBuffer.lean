import Mathlib

/-! A ring of slots that is written round and round. After any writes the slots hold,
in storage order, what came since the last wrap, then what is left from before it,
then the slots never written. -/
namespace NimbleNet.RingBuffer

structure Slots (α : Type) where
  slots : List α
  next : Nat

variable {α : Type}

def Slots.blank (size : Nat) (unused : α) : Slots α := ⟨List.replicate size unused,0⟩

def Slots.write (r : Slots α) (x : α) : Slots α := ⟨r.slots.set r.next x,(r.next + 1) % r.slots.length⟩

def latest (size : Nat) (xs : List α) : List α := xs.drop (xs.length - size)

def sinceWrap (size : Nat) (xs : List α) : List α := xs.drop (xs.length - xs.length % size)

def beforeWrap (size : Nat) (xs : List α) : List α :=
  (latest size xs).take ((latest size xs).length - xs.length % size)

def stored (size : Nat) (xs : List α) : List α := sinceWrap size xs ++ beforeWrap size xs

variable {size : Nat} {xs : List α}

theorem latestSplits (some : 0 < size) : latest size xs = beforeWrap size xs ++ sinceWrap size xs := by
  have small := Nat.mod_lt xs.length some
  have le := Nat.mod_le xs.length size
  conv_lhs => rw [← List.take_append_drop ((latest size xs).length - xs.length % size) (latest size xs)]
  rw [beforeWrap,sinceWrap]
  congr 1
  rw [latest,List.drop_drop,List.length_drop]
  congr 1
  omega

theorem memStored (some : 0 < size) {x : α} : x ∈ stored size xs ↔ x ∈ latest size xs := by
  rw [latestSplits some,stored,List.mem_append,List.mem_append,or_comm]

theorem sinceLength : (sinceWrap size xs).length = xs.length % size := by
  have le := Nat.mod_le xs.length size
  rw [sinceWrap,List.length_drop]
  omega

theorem modNext (inside : xs.length % size + 1 < size) : (xs.length + 1) % size = xs.length % size + 1 := by
  have one : 1 % size = 1 := Nat.mod_eq_of_lt (by omega)
  rw [Nat.add_mod_of_add_mod_lt (by rwa [one]),one]

theorem modWraps (closes : xs.length % size + 1 = size) : (xs.length + 1) % size = 0 := by
  have whole := Nat.div_add_mod xs.length size
  have multiple : xs.length + 1 = size * (xs.length / size + 1) := by
    rw [Nat.mul_add]
    omega
  rw [multiple,Nat.mul_mod_right]

/- A write inside a round takes the place of the oldest one, if every slot is used. -/
theorem beforeWrapNext (x : α) (inside : xs.length % size + 1 < size) :
    beforeWrap size (xs ++ [x]) = (beforeWrap size xs).tail := by
  simp only [beforeWrap,latest,List.length_append,List.length_singleton,List.length_drop,modNext inside]
  by_cases full : size ≤ xs.length
  · rw [List.drop_append_of_le_length (by omega),List.take_append_of_le_length (by rw [List.length_drop]; omega),
      show xs.length + 1 - size = (xs.length - size) + 1 by omega,← List.drop_one,List.drop_take,List.drop_drop]
    congr 1
    omega
  · have all : xs.length % size = xs.length := Nat.mod_eq_of_lt (by omega)
    rw [all,show xs.length + 1 - (xs.length + 1 - size) - (xs.length + 1) = 0 by omega,
      show xs.length - (xs.length - size) - xs.length = 0 by omega]
    simp

theorem sinceWrapNext (x : α) (inside : xs.length % size + 1 < size) :
    sinceWrap size (xs ++ [x]) = sinceWrap size xs ++ [x] := by
  have le := Nat.mod_le xs.length size
  simp only [sinceWrap,List.length_append,List.length_singleton,modNext inside]
  rw [List.drop_append_of_le_length (by omega)]
  congr 2
  omega

theorem storedWraps (x : α) (closes : xs.length % size + 1 = size) :
    stored size (xs ++ [x]) = sinceWrap size xs ++ [x] := by
  have le := Nat.mod_le xs.length size
  simp only [stored,sinceWrap,beforeWrap,latest,List.length_append,List.length_singleton,List.length_drop,
    modWraps closes,Nat.sub_zero]
  rw [show xs.length + 1 - size = xs.length - xs.length % size by omega,
    List.drop_of_length_le (by simp),List.drop_append_of_le_length (by omega),List.take_of_length_le]
  · rfl
  · simp only [List.length_append,List.length_drop,List.length_singleton]
    omega

theorem beforeLength : (beforeWrap size xs).length = min xs.length size - xs.length % size := by
  rw [beforeWrap,latest,List.length_take,List.length_drop]
  omega

theorem writeBehind (some : 0 < size) (unused x : α) :
    (stored size xs ++ List.replicate (size - xs.length) unused).set (xs.length % size) x =
      sinceWrap size xs ++ x :: ((beforeWrap size xs).tail ++ List.replicate (size - (xs.length + 1)) unused) := by
  have small := Nat.mod_lt xs.length some
  rw [stored,List.append_assoc,List.set_append_right _ _ (by rw [sinceLength]),sinceLength,Nat.sub_self]
  congr 1
  by_cases full : size ≤ xs.length
  · rw [Nat.sub_eq_zero_of_le full,Nat.sub_eq_zero_of_le (by omega)]
    have before : (beforeWrap size xs).length = min xs.length size - xs.length % size := beforeLength
    cases split : beforeWrap size xs with
    | nil =>
        rw [split,List.length_nil] at before
        omega
    | cons oldest rest => rfl
  · have all : xs.length % size = xs.length := Nat.mod_eq_of_lt (by omega)
    have none : beforeWrap size xs = [] := List.eq_nil_of_length_eq_zero (by rw [beforeLength]; omega)
    rw [none,show size - xs.length = (size - (xs.length + 1)) + 1 by omega]
    rfl

theorem slotCount (some : 0 < size) (unused : α) :
    (stored size xs ++ List.replicate (size - xs.length) unused).length = size := by
  have small := Nat.mod_lt xs.length some
  have le := Nat.mod_le xs.length size
  rw [List.length_append,stored,List.length_append,sinceLength,beforeLength,List.length_replicate]
  omega

theorem ringSlots (some : 0 < size) (unused : α) (xs : List α) :
    xs.foldl Slots.write (.blank size unused) =
      ⟨stored size xs ++ List.replicate (size - xs.length) unused,xs.length % size⟩ := by
  induction xs using List.reverseRecOn with
  | nil => simp [Slots.blank,stored,sinceWrap,beforeWrap,latest]
  | append_singleton xs x ih =>
      have small := Nat.mod_lt xs.length some
      have le := Nat.mod_le xs.length size
      rw [List.foldl_append,ih]
      simp only [List.foldl_cons,List.foldl_nil,Slots.write,writeBehind some,slotCount some,List.length_append,
        List.length_singleton,Slots.mk.injEq]
      by_cases inside : xs.length % size + 1 < size
      · rw [modNext inside,Nat.mod_eq_of_lt inside,stored,sinceWrapNext x inside,beforeWrapNext x inside]
        simp
      · have closes : xs.length % size + 1 = size := by omega
        have none : (beforeWrap size xs).tail = [] :=
          List.eq_nil_of_length_eq_zero (by rw [List.length_tail,beforeLength]; omega)
        rw [modWraps closes,closes,Nat.mod_self,storedWraps x closes,none,Nat.sub_eq_zero_of_le (by omega)]
        simp

end NimbleNet.RingBuffer
