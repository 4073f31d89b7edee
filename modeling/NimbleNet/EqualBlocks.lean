import Mathlib

/-! Lists of blocks of one width, laid out one after the other. The block at an index starts
at that many widths. -/
namespace NimbleNet.EqualBlocks

variable {α : Type} {width : Nat}

theorem blocksLength {blocks : List (List α)} (each : ∀ block ∈ blocks, block.length = width) :
    blocks.flatten.length = blocks.length * width := by
  rw [List.length_flatten,List.map_congr_left each,List.map_const',List.sum_replicate,smul_eq_mul]

theorem blocksDrop {blocks : List (List α)} (each : ∀ block ∈ blocks, block.length = width) (i : Nat) :
    blocks.flatten.drop (i * width) = (blocks.drop i).flatten := by
  induction i generalizing blocks with
  | zero => simp
  | succ i ih =>
      cases blocks with
      | nil => simp
      | cons block rest =>
          rw [List.flatten_cons,Nat.succ_mul,Nat.add_comm,← List.drop_drop,List.drop_left' (each block List.mem_cons_self),
            List.drop_succ_cons]
          exact ih (fun other member => each other (List.mem_cons_of_mem block member))

theorem blockAt {blocks : List (List α)} (each : ∀ block ∈ blocks, block.length = width) {i : Nat} {block : List α}
    (here : blocks[i]? = some block) : (blocks.flatten.drop (i * width)).take width = block := by
  obtain ⟨inside,at'⟩ := List.getElem?_eq_some_iff.mp here
  rw [blocksDrop each,List.drop_eq_getElem_cons inside,at',List.flatten_cons]
  exact List.take_left' (each block (List.mem_of_getElem? here))

theorem rangeBlocks (f : Nat → α) (n width : Nat) :
    (List.range n).flatMap (fun i => (List.range width).map (fun k => f (i * width + k))) = (List.range (n * width)).map f := by
  induction n with
  | zero => simp
  | succ n ih =>
      rw [List.range_succ,List.flatMap_append,ih,List.flatMap_singleton,Nat.succ_mul,List.range_add,List.map_append,List.map_map]
      rfl

end NimbleNet.EqualBlocks
