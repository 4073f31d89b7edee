import NimbleNet.EqualBlocks
import NimbleNet.LogSuffix
import NimbleNet.MachineNumbers
import NimbleNet.PartialMaps

/-! The text of a tensor in the debug print, and the indices of the data that it reads. -/
namespace NimbleNet.RecursiveString
open EqualBlocks MachineNumbers PartialMaps

def divide (x y : Int) : Option Int := if y = 0 then none else some (x.tdiv y)

/- `text i` is `to_string(data[i])`. The shape is what is left of it at this depth. A loop to
2^31 or more never ends, its int wraps. `i * totalSizeOfDepth` is an int, its quotient a 64-bit
integer, and both arguments of the call are ints again. -/
def recursiveString (text : Int → String) : List Int → Int → Int → Option (String × List Int)
  | [],dataIndex,_ => some (text dataIndex,[dataIndex])
  | size :: rest,dataIndex,totalSizeOfDepth =>
      if 2 ^ 31 ≤ size then none
      else do
        let passes ← (List.range size.toNat).mapM (fun (i : Nat) => do
          let offset ← divide (wrap32 (i * totalSizeOfDepth)) size
          let totalSize ← divide totalSizeOfDepth size
          let (output,visits) ← recursiveString text rest (wrap32 (dataIndex + offset)) (wrap32 totalSize)
          some (output ++ if (i : Int) ≠ size - 1 then "," else "",visits))
        some ("[" ++ String.join (passes.map Prod.fst) ++ "]",passes.flatMap Prod.snd)

def VisitsInOrder (text : Int → String) (shape : List Int) (size : Int) : Prop :=
  ∃ output, recursiveString text shape 0 size = some (output,(List.range size.toNat).map (fun k : Nat => (k : Int)))

/- At each dimension that is reached the last pass still computes its start inside an int. -/
def StartsFit : List Int → Prop
  | [] => True
  | size :: rest => size < 2 ^ 31 ∧ (size - 1) * (size * rest.prod) < 2 ^ 31 ∧ (size ≠ 0 → StartsFit rest)

instance startsFitDecidable : (shape : List Int) → Decidable (StartsFit shape)
  | [] => isTrue trivial
  | size :: rest =>
      have := startsFitDecidable rest
      inferInstanceAs (Decidable (size < 2 ^ 31 ∧ (size - 1) * (size * rest.prod) < 2 ^ 31 ∧ (size ≠ 0 → StartsFit rest)))

section Visits
variable {text : Int → String}

def startOf (start total size : Int) (i : Nat) : Int := wrap32 (start + (wrap32 (i * total)).tdiv size)

def Passes (text : Int → String) (size : Int) (rest : List Int) (start total : Int) (i : Nat) (pass : String × List Int) : Prop :=
  ∃ output, recursiveString text rest (startOf start total size i) (wrap32 (total.tdiv size)) = some (output,pass.2) ∧
    pass.1 = output ++ if (i : Int) ≠ size - 1 then "," else ""

theorem recursiveStringCons {size start total : Int} {rest : List Int} {output : String} {visits : List Int} :
    recursiveString text (size :: rest) start total = some (output,visits) ↔
      size < 2 ^ 31 ∧ ∃ passes, List.Forall₂ (Passes text size rest start total) (List.range size.toNat) passes ∧
        output = "[" ++ String.join (passes.map Prod.fst) ++ "]" ∧ visits = passes.flatMap Prod.snd := by
  have each : ∀ (i : Nat), i ∈ List.range size.toNat → ∀ pass, (do
      let offset ← divide (wrap32 (i * total)) size
      let totalSize ← divide total size
      let (output,visits) ← recursiveString text rest (wrap32 (start + offset)) (wrap32 totalSize)
      some (output ++ if (i : Int) ≠ size - 1 then "," else "",visits)) = some pass ↔ Passes text size rest start total i pass := by
    intro i inside pass
    have positive : size ≠ 0 := by
      have := List.mem_range.mp inside
      omega
    simp only [divide,if_neg positive,bind,Option.bind_some,Option.bind_eq_some_iff,Option.some.injEq,Prod.exists]
    constructor
    · rintro ⟨output,visits,ran,rfl⟩
      exact ⟨output,ran,rfl⟩
    · rintro ⟨output,ran,same⟩
      exact ⟨output,pass.2,ran,by rw [← same]⟩
  rw [recursiveString]
  split
  · rename_i large
    exact iff_of_false (fun none => nomatch none) (fun small => absurd small.1 (by omega))
  · rename_i small
    rw [Option.bind_eq_bind,Option.bind_eq_some_iff]
    simp only [Option.some.injEq,Prod.mk.injEq]
    have inRange {R : Nat → String × List Int → Prop} {passes} (ran : List.Forall₂ R (List.range size.toNat) passes) :
        List.Forall₂ (fun i pass => i ∈ List.range size.toNat ∧ R i pass) (List.range size.toNat) passes :=
      (List.forall₂_and_left _ _).mpr ⟨fun _ inside => inside,ran⟩
    constructor
    · rintro ⟨passes,ran,made,read⟩
      exact ⟨by omega,passes,(inRange (mapMEach ran)).imp (fun ⦃i pass⦄ ran => (each i ran.1 pass).mp ran.2),made.symm,read.symm⟩
    · rintro ⟨_,passes,ran,made,read⟩
      exact ⟨passes,eachMapM ((inRange ran).imp (fun ⦃i pass⦄ ran => (each i ran.1 pass).mpr ran.2)),made.symm,read.symm⟩

theorem passAt {size start total : Int} {rest : List Int} {n : Nat} {passes : List (String × List Int)}
    (each : List.Forall₂ (Passes text size rest start total) (List.range n) passes) {i : Nat} {pass : String × List Int}
    (here : passes[i]? = some pass) : Passes text size rest start total i pass := by
  obtain ⟨j,at',ran⟩ := LogSuffix.forall₂At each here
  obtain ⟨_,rfl⟩ := List.getElem?_eq_some_iff.mp at'
  rwa [List.getElem_range] at ran

theorem passWidth {size start total : Int} {rest : List Int} {n width : Nat} {passes : List (String × List Int)}
    (each : List.Forall₂ (Passes text size rest start total) (List.range n) passes)
    (inner : ∀ {start total output visits}, recursiveString text rest start total = some (output,visits) → visits.length = width) :
    ∀ block ∈ passes.map Prod.snd, block.length = width := by
  intro block member
  obtain ⟨pass,inside,rfl⟩ := List.mem_map.mp member
  obtain ⟨i,at'⟩ := List.getElem?_of_mem inside
  obtain ⟨_,ran,_⟩ := passAt each at'
  exact inner ran

theorem visitsLength {shape : List Int} (nonneg : ∀ size ∈ shape, 0 ≤ size) {start total : Int} {output : String} {visits : List Int}
    (ran : recursiveString text shape start total = some (output,visits)) : visits.length = shape.prod.toNat := by
  induction shape generalizing start total output visits with
  | nil =>
      cases ran
      rfl
  | cons size rest ih =>
      obtain ⟨_,passes,each,_,rfl⟩ := recursiveStringCons.mp ran
      obtain ⟨here,others⟩ := List.forall_mem_cons.mp nonneg
      rw [List.flatMap_def,blocksLength (passWidth each (ih others)),List.length_map,← each.length_eq,List.length_range,List.prod_cons,
        Int.toNat_mul here (List.prod_nonneg others)]

theorem blockOf {size start total : Int} {rest visits : List Int} {output : String} (nonneg : ∀ other ∈ rest, 0 ≤ other)
    (ran : recursiveString text (size :: rest) start total = some (output,visits)) {i : Nat} (inside : i < size.toNat) : ∃ output,
      recursiveString text rest (startOf start total size i) (wrap32 (total.tdiv size)) =
        some (output,(visits.drop (i * rest.prod.toNat)).take rest.prod.toNat) := by
  obtain ⟨_,passes,each,_,rfl⟩ := recursiveStringCons.mp ran
  have many : i < passes.length := by rwa [← each.length_eq,List.length_range]
  have here := List.getElem?_eq_getElem many
  obtain ⟨output,ran,_⟩ := passAt each here
  have block : (passes.map Prod.snd)[i]? = some passes[i].2 := by rw [List.getElem?_map,here,Option.map_some]
  refine ⟨output,?_⟩
  rw [ran,List.flatMap_def,blockAt (passWidth each (visitsLength nonneg)) block]

theorem startOfZero {start total size : Int} (low : -2 ^ 31 ≤ start) (high : start < 2 ^ 31) : startOf start total size 0 = start := by
  have zero : wrap32 0 = 0 := wrap32Exact (by norm_num) (by norm_num)
  rw [startOf,Nat.cast_zero,zero_mul,zero,Int.zero_tdiv,add_zero,wrap32Exact low high]

theorem visitsHead {shape : List Int} (positive : ∀ size ∈ shape, 0 < size) {start total : Int} {output : String} {visits : List Int}
    (small : -2 ^ 31 ≤ start ∧ start < 2 ^ 31) (ran : recursiveString text shape start total = some (output,visits)) :
    visits.head? = some start := by
  induction shape generalizing total output visits with
  | nil =>
      cases ran
      rfl
  | cons size rest ih =>
      obtain ⟨here,others⟩ := List.forall_mem_cons.mp positive
      obtain ⟨_,passes,each,_,rfl⟩ := recursiveStringCons.mp ran
      obtain ⟨n,count⟩ : ∃ n, size.toNat = n + 1 := ⟨size.toNat - 1,by omega⟩
      rw [count,List.range_succ_eq_map] at each
      cases each with
      | @cons _ pass _ passes first _ =>
          obtain ⟨_,ran,_⟩ := first
          rw [startOfZero small.1 small.2] at ran
          rw [List.flatMap_cons,List.head?_append,ih others ran]
          rfl

theorem visitsExact {shape : List Int} (nonneg : ∀ size ∈ shape, 0 ≤ size) (fits : StartsFit shape) (total : shape.prod < 2 ^ 31)
    {start : Int} (low : 0 ≤ start) (small : start < 2 ^ 31) (last : start + shape.prod ≤ 2 ^ 31) : ∃ output,
      recursiveString text shape start shape.prod = some (output,(List.range shape.prod.toNat).map (fun k : Nat => start + k)) := by
  induction shape generalizing start with
  | nil => exact ⟨text start,by simp [recursiveString]⟩
  | cons size rest ih =>
      obtain ⟨here,others⟩ := List.forall_mem_cons.mp nonneg
      obtain ⟨loops,exact',deeper⟩ := fits
      have inner := List.prod_nonneg others
      rw [List.prod_cons] at last total ⊢
      have pass : ∀ i : Nat, i < size.toNat → ∃ output, recursiveString text rest (startOf start (size * rest.prod) size i)
          (wrap32 ((size * rest.prod).tdiv size)) =
            some (output,(List.range rest.prod.toNat).map (fun k : Nat => start + (i * rest.prod + k))) := by
        intro i inside
        have room : (i : Int) + 1 ≤ size := by omega
        have positive : (0 : Int) ≤ i := by omega
        have product : (i : Int) * (size * rest.prod) < 2 ^ 31 := by
          have := mul_le_mul_of_nonneg_right (show (i : Int) ≤ size - 1 by omega) (mul_nonneg here inner)
          omega
        have block : ((i : Int) + 1) * rest.prod ≤ size * rest.prod := mul_le_mul_of_nonneg_right room inner
        rw [add_mul,one_mul] at block
        have skipped : 0 ≤ (i : Int) * rest.prod := mul_nonneg positive inner
        -- a block of no elements starts where its call does, any other one below the last element
        have inRange : start + i * rest.prod < 2 ^ 31 := by
          rcases inner.eq_or_lt with none | some
          · rw [← none,mul_zero,add_zero]
            exact small
          · omega
        have starts : startOf start (size * rest.prod) size i = start + i * rest.prod := by
          rw [startOf,wrap32Exact (by have := mul_nonneg positive (mul_nonneg here inner); omega) product,mul_left_comm,
            Int.mul_tdiv_cancel_left _ (by omega),wrap32Exact (by omega) inRange]
        have totals : wrap32 ((size * rest.prod).tdiv size) = rest.prod := by
          rw [Int.mul_tdiv_cancel_left _ (by omega),wrap32Exact (by omega) (by omega)]
        obtain ⟨output,ran⟩ := ih others (deeper (by omega)) (by omega) (show 0 ≤ start + i * rest.prod by omega) inRange (by omega)
        refine ⟨output,?_⟩
        rw [starts,totals,ran]
        simp only [add_assoc]
      choose! output ran using pass
      let passOf := fun i : Nat => (output i ++ if (i : Int) ≠ size - 1 then "," else "",
        (List.range rest.prod.toNat).map (fun k : Nat => start + (i * rest.prod + k)))
      refine ⟨_,recursiveStringCons.mpr ⟨loops,(List.range size.toNat).map passOf,?_,rfl,?_⟩⟩
      · refine List.forall₂_map_right_iff.mpr (List.forall₂_same.mpr (fun i inside => ?_))
        exact ⟨output i,ran i (List.mem_range.mp inside),rfl⟩
      · rw [List.flatMap_map,Int.toNat_mul here inner,← rangeBlocks]
        refine List.flatMap_congr (fun i _ => List.map_congr_left (fun k _ => ?_))
        rw [Nat.cast_add,Nat.cast_mul,Int.toNat_of_nonneg inner]

theorem firstBlock {size : Int} {rest : List Int} (positive : 0 < size) (nonneg : ∀ other ∈ rest, 0 ≤ other)
    (total : size * rest.prod < 2 ^ 31) (inOrder : VisitsInOrder text (size :: rest) (size * rest.prod)) :
    VisitsInOrder text rest rest.prod := by
  obtain ⟨_,ran⟩ := inOrder
  have inner := List.prod_nonneg nonneg
  have fewer : rest.prod ≤ size * rest.prod := le_mul_of_one_le_left inner positive
  obtain ⟨output,first⟩ := blockOf nonneg ran (show 0 < size.toNat by omega)
  refine ⟨output,?_⟩
  rwa [startOfZero (by norm_num) (by norm_num),Int.mul_tdiv_cancel_left _ (by omega),wrap32Exact (by omega) (by omega),zero_mul,
    List.drop_zero,← List.map_take,List.take_range,Nat.min_eq_left (Int.toNat_le_toNat fewer)] at first

theorem firstOverflow {size total : Int} (some : 0 < total) (small : total < 2 ^ 31) (large : 2 ^ 31 ≤ (size - 1) * total) :
    ∃ i : Nat, (i : Int) < size ∧ 2 ^ 31 ≤ i * total ∧ i * total < 2 ^ 32 := by
  have below := Int.ediv_mul_le (2 ^ 31 + total - 1) some.ne'
  have above := Int.lt_ediv_add_one_mul_self (2 ^ 31 + total - 1) some
  have inside : (2 ^ 31 + total - 1) / total < size := Int.ediv_lt_of_lt_mul some (by rw [sub_mul] at large; omega)
  rw [add_mul,one_mul] at above
  refine ⟨((2 ^ 31 + total - 1) / total).toNat,?_⟩
  rw [Int.toNat_of_nonneg (Int.ediv_nonneg (by omega) some.le)]
  exact ⟨inside,by omega,by omega⟩

/- The first pass whose product overflows starts at an index that is not positive. -/
theorem overflowVisits {size : Int} {rest : List Int} (positive : 0 < size) (nonneg : ∀ other ∈ rest, 0 ≤ other)
    (total : size * rest.prod < 2 ^ 31) (large : 2 ^ 31 ≤ (size - 1) * (size * rest.prod)) :
    ¬VisitsInOrder text (size :: rest) (size * rest.prod) := by
  rintro ⟨_,ran⟩
  have inner := List.prod_nonneg nonneg
  have elements : 0 < size * rest.prod := (mul_nonneg positive.le inner).lt_of_ne (fun none => by
    rw [← none,mul_zero] at large
    omega)
  have some : 0 < rest.prod := pos_of_mul_pos_right elements positive.le
  have nonzero : ∀ other ∈ rest, 0 < other := fun other member =>
    (nonneg other member).lt_of_ne (fun zero => some.ne' (List.prod_eq_zero (zero ▸ member)))
  obtain ⟨i,inside,overflows,once⟩ := firstOverflow elements total large
  obtain ⟨output,block⟩ := blockOf nonneg ran (show i < size.toNat by omega)
  have head := visitsHead nonzero (wrap32Range _) block
  have skipped : (i * rest.prod.toNat : Nat) = (i : Int) * rest.prod := by rw [Nat.cast_mul,Int.toNat_of_nonneg inner]
  have before : (i : Int) * rest.prod < size * rest.prod := mul_lt_mul_of_pos_right (by omega) some
  have reads : 0 < (i : Int) * rest.prod := mul_pos (by_contra (fun none => by
    have zero : (i : Int) = 0 := by omega
    rw [zero,zero_mul] at overflows
    omega)) some
  rw [List.head?_take,if_neg (by omega),List.head?_drop,List.getElem?_map,List.getElem?_range (by omega),Option.map_some,
    Option.some.injEq,skipped] at head
  have wraps : wrap32 (i * (size * rest.prod)) = -(2 ^ 32 - i * (size * rest.prod)) := by
    rw [wrap32Above overflows (by omega),neg_sub]
  have quotient := Int.tdiv_nonneg (show 0 ≤ 2 ^ 32 - (i : Int) * (size * rest.prod) by omega) positive.le
  have smaller := Int.tdiv_le_self size (show 0 ≤ 2 ^ 32 - (i : Int) * (size * rest.prod) by omega)
  rw [wraps,Int.neg_tdiv,wrap32Exact (by omega) (by omega)] at head
  omega

theorem startsFit {shape : List Int} (nonneg : ∀ size ∈ shape, 0 ≤ size) (total : shape.prod < 2 ^ 31)
    (inOrder : VisitsInOrder text shape shape.prod) : StartsFit shape := by
  induction shape with
  | nil => trivial
  | cons size rest ih =>
      obtain ⟨here,others⟩ := List.forall_mem_cons.mp nonneg
      have inner := List.prod_nonneg others
      rw [List.prod_cons] at total inOrder
      obtain ⟨output,ran⟩ := inOrder
      refine ⟨(recursiveStringCons.mp ran).1,?_,fun some => ?_⟩
      · by_contra large
        rcases here.eq_or_lt with none | positive
        · rw [← none,zero_mul,mul_zero] at large
          omega
        · exact overflowVisits positive others total (by omega) ⟨output,ran⟩
      · have positive : 0 < size := by omega
        have fewer : rest.prod ≤ size * rest.prod := le_mul_of_one_le_left inner positive
        exact ih others (by omega) (firstBlock positive others total ⟨output,ran⟩)

end Visits

theorem visitsIff (text : Int → String) {shape : List Int} {size : Int} (nonneg : ∀ n ∈ shape, 0 ≤ n) (same : shape.prod = size)
    (fits : size < 2 ^ 31) : VisitsInOrder text shape size ↔ StartsFit shape := by
  subst same
  refine ⟨startsFit nonneg fits,fun starts => ?_⟩
  obtain ⟨output,ran⟩ := visitsExact nonneg starts fits le_rfl (by norm_num) (by omega)
  simp only [zero_add] at ran
  exact ⟨output,ran⟩

theorem twoRows : VisitsInOrder toString [2,3] 6 :=
  (visitsIff toString (by decide) (by decide) (by norm_num)).mpr (by decide)

theorem longVector : ¬∀ (text : Int → String) (shape : List Int) (size : Int), (∀ n ∈ shape, 0 ≤ n) → shape.prod = size →
    size < 2 ^ 31 → VisitsInOrder text shape size := by
  intro all
  exact @overflowVisits toString 65536 [] (by norm_num) (by simp) (by norm_num) (by norm_num)
    (all toString [65536] 65536 (by simp) (by simp) (by norm_num))

end NimbleNet.RecursiveString
