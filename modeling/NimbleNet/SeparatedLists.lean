import Mathlib

/-! Lists that are written one after the other, each with a separator behind it. Such a
text can be read back when it is known how many separators are in each list. -/
namespace NimbleNet.SeparatedLists

variable {α : Type} [DecidableEq α] {sep : α}

def joined (sep : α) (parts : List (List α)) : List α := parts.flatMap (· ++ [sep])

theorem joinedCount (parts : List (List α)) :
    (joined sep parts).count sep = parts.length + (parts.map (List.count sep)).sum := by
  induction parts with
  | nil => rfl
  | cons part rest ih =>
      simp only [joined,List.flatMap_cons,List.count_append,List.count_singleton_self,List.length_cons,List.map_cons,
        List.sum_cons] at ih ⊢
      omega

theorem headsEqual {part part' rest rest' : List α} (same : part ++ sep :: rest = part' ++ sep :: rest')
    (counts : part.count sep = part'.count sep) : part = part' ∧ rest = rest' := by
  rcases List.append_eq_append_iff.mp same with ⟨more,longer,tail⟩ | ⟨more,longer,tail⟩
  · cases more with
    | nil => exact ⟨by simpa using longer.symm,by simpa using tail⟩
    | cons x more =>
        rw [List.cons_append,List.cons.injEq] at tail
        rw [longer,← tail.1,List.count_append,List.count_cons_self] at counts
        omega
  · cases more with
    | nil => exact ⟨by simpa using longer,by simpa using tail.symm⟩
    | cons x more =>
        rw [List.cons_append,List.cons.injEq] at tail
        rw [longer,← tail.1,List.count_append,List.count_cons_self] at counts
        omega

theorem joinedInjective {parts parts' : List (List α)} (size : parts.length = parts'.length)
    (counts : parts.map (List.count sep) = parts'.map (List.count sep)) (same : joined sep parts = joined sep parts') :
    parts = parts' := by
  induction parts generalizing parts' with
  | nil => exact (List.eq_nil_of_length_eq_zero size.symm).symm
  | cons part rest ih =>
      cases parts' with
      | nil => contradiction
      | cons part' rest' =>
          simp only [List.map_cons,List.cons.injEq,List.length_cons,Nat.add_right_cancel_iff] at counts size
          simp only [joined,List.flatMap_cons,List.append_assoc,List.singleton_append] at same
          obtain ⟨rfl,others⟩ := headsEqual same counts.1
          rw [ih size counts.2 others]

omit [DecidableEq α] in
/- Parts that are made of separators alone: only their number can be read. -/
theorem joinedBlank (counts : List Nat) : joined sep (counts.map (List.replicate · sep)) =
    List.replicate (counts.length + counts.sum) sep := by
  induction counts with
  | nil => rfl
  | cons n rest ih =>
      rw [List.map_cons,joined,List.flatMap_cons]
      unfold joined at ih
      rw [ih,← List.replicate_succ',List.replicate_append_replicate]
      congr 1
      simp only [List.length_cons,List.sum_cons]
      omega

end NimbleNet.SeparatedLists
