import Mathlib

/-! Blocks of memory that malloc hands out and free takes back. The allocator may choose any
address that is not in use. `none` is a free of what is not in use: undefined behaviour. -/
namespace NimbleNet.HeapBlocks

structure Allocator where
  pick : List Nat → Nat
  fresh : ∀ live, pick live ∉ live

def nextAddress : Allocator :=
  ⟨fun live => live.foldr max 0 + 1,fun live member => by
    have below : ∀ live : List Nat, ∀ x ∈ live, x ≤ live.foldr max 0 := by
      intro live
      induction live with
      | nil => simp
      | cons first rest ih => simpa using fun x member => .inr (ih x member)
    exact absurd (below live _ member) (by omega)⟩

structure Heap where
  live : List Nat
  unique : live.Nodup

def malloc (a : Allocator) (h : Heap) : Nat × Heap :=
  (a.pick h.live,⟨a.pick h.live :: h.live,List.nodup_cons.mpr ⟨a.fresh h.live,h.unique⟩⟩)

def free (p : Nat) (h : Heap) : Option Heap :=
  if p ∈ h.live then some ⟨h.live.erase p,h.unique.erase p⟩ else none

def freePointer (p : Option Nat) (h : Heap) : Option Heap :=
  match p with
  | none => some h
  | some p => free p h

def freeAll (pointers : List (Option Nat)) (h : Heap) : Option Heap := pointers.foldlM (fun h p => freePointer p h) h

/- What is in use is exactly these blocks. -/
def Holds (h : Heap) (blocks : List Nat) : Prop := h.live.Perm blocks

section Rules
variable {h : Heap} {blocks other : List Nat}

theorem holdsPerm (held : Holds h blocks) (same : blocks.Perm other) : Holds h other := held.trans same

theorem mallocHolds (a : Allocator) (held : Holds h blocks) : Holds (malloc a h).2 ((malloc a h).1 :: blocks) :=
  List.Perm.cons _ held

theorem freeHolds {p : Nat} (held : Holds h (p :: blocks)) : ∃ next, free p h = some next ∧ Holds next blocks := by
  obtain ⟨used,rest⟩ := List.cons_perm_iff_perm_erase.mp held.symm
  exact ⟨_,if_pos used,rest.symm⟩

theorem freePointerHolds {p : Option Nat} (held : Holds h (p.toList ++ blocks)) :
    ∃ next, freePointer p h = some next ∧ Holds next blocks := by
  cases p with
  | none => exact ⟨h,rfl,held⟩
  | some p => exact freeHolds held

theorem freeAllHolds {pointers : List (Option Nat)} (held : Holds h (pointers.filterMap id ++ blocks)) :
    ∃ next, freeAll pointers h = some next ∧ Holds next blocks := by
  induction pointers generalizing h with
  | nil => exact ⟨h,rfl,held⟩
  | cons p rest ih =>
      have first : (p :: rest).filterMap id = p.toList ++ rest.filterMap id := by cases p <;> rfl
      rw [first,List.append_assoc] at held
      obtain ⟨middle,freed,held'⟩ := freePointerHolds held
      obtain ⟨next,later,last⟩ := ih held'
      refine ⟨next,?_,last⟩
      rw [freeAll,List.foldlM_cons,freed]
      exact later

theorem holdsExactly {lost base : List Nat} (held : Holds h (blocks ++ (lost ++ base))) :
    Holds h (blocks ++ base) ↔ lost = [] := by
  constructor
  · intro exactly
    have sizes := (held.symm.trans exactly).length_eq
    simp only [List.length_append] at sizes
    exact List.length_eq_zero_iff.mp (by omega)
  · rintro rfl
    exact held

end Rules

end NimbleNet.HeapBlocks
