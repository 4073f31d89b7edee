import NimbleNet.HeapBlocks

/-! Blocks of memory with values in them, for code that writes and grows them. `none` is a write
beyond the end of a block or to a block that is not in use: undefined behaviour. -/
namespace NimbleNet.BlockContents
open HeapBlocks

structure Memory (α : Type) where
  heap : Heap
  contents : Nat → List α

namespace Memory
variable {α : Type}

def malloc (a : Allocator) (content : List α) (m : Memory α) : Nat × Memory α :=
  let (p,heap) := HeapBlocks.malloc a m.heap
  (p,⟨heap,Function.update m.contents p content⟩)

def free (p : Option Nat) (m : Memory α) : Option (Memory α) := do
  let heap ← freePointer p m.heap
  some {m with heap := heap}

/- The block that another size has left: what it grows by is not set. -/
def resized (unset : α) (size : Nat) (content : List α) : List α :=
  content.take size ++ List.replicate (size - content.length) unset

def realloc (a : Allocator) (stays : Bool) (unset : α) (p size : Nat) (m : Memory α) : Option (Nat × Memory α) :=
  let content := resized unset size (m.contents p)
  if stays then
    if p ∈ m.heap.live then some (p,{m with contents := Function.update m.contents p content}) else none
  else do
    let (q,m) := m.malloc a content
    let m ← m.free (some p)
    some (q,m)

def overwritten (offset : Nat) (values content : List α) : List α :=
  content.take offset ++ values ++ content.drop (offset + values.length)

def write (p offset : Nat) (values : List α) (m : Memory α) : Option (Memory α) :=
  if p ∈ m.heap.live ∧ offset + values.length ≤ (m.contents p).length then
    some {m with contents := Function.update m.contents p (overwritten offset values (m.contents p))}
  else none

def Keeps (blocks : List Nat) (m next : Memory α) : Prop := ∀ p ∈ blocks, next.contents p = m.contents p

variable {m middle next : Memory α} {blocks other : List Nat} {p : Nat}

theorem keepsTrans (first : Keeps blocks m middle) (second : Keeps blocks middle next) : Keeps blocks m next :=
  fun p member => (second p member).trans (first p member)

theorem keepsSubset (kept : Keeps blocks m next) (subset : other ⊆ blocks) : Keeps other m next :=
  fun p member => kept p (subset member)

theorem holdsApart {h : Heap} (held : Holds h (p :: blocks)) : p ∉ blocks :=
  (List.nodup_cons.mp (held.nodup_iff.mp h.unique)).1

theorem updateKeeps {heap : Heap} (content : List α) (absent : p ∉ blocks) :
    Keeps blocks m ⟨heap,Function.update m.contents p content⟩ := by
  intro q member
  have apart : q ≠ p := by
    rintro rfl
    exact absent member
  exact Function.update_of_ne apart _ _

theorem mallocKeeps (a : Allocator) (content : List α) (held : Holds m.heap blocks) :
    Holds (m.malloc a content).2.heap ((m.malloc a content).1 :: blocks) ∧
      (m.malloc a content).2.contents (m.malloc a content).1 = content ∧ Keeps blocks m (m.malloc a content).2 := by
  have grown := mallocHolds a held
  exact ⟨grown,Function.update_self _ _ _,updateKeeps content (holdsApart grown)⟩

theorem freeKeeps {p : Option Nat} (held : Holds m.heap (p.toList ++ blocks)) :
    ∃ next, m.free p = some next ∧ Holds next.heap blocks ∧ next.contents = m.contents := by
  obtain ⟨heap,freed,rest⟩ := freePointerHolds held
  exact ⟨{m with heap := heap},by simp [free,freed],rest,rfl⟩

theorem reallocKeeps (a : Allocator) (stays : Bool) (unset : α) (size : Nat) (held : Holds m.heap (p :: blocks)) :
    ∃ q next, m.realloc a stays unset p size = some (q,next) ∧ Holds next.heap (q :: blocks) ∧
      next.contents q = resized unset size (m.contents p) ∧ Keeps blocks m next := by
  cases stays with
  | true =>
      have used : p ∈ m.heap.live := held.mem_iff.mpr List.mem_cons_self
      exact ⟨p,⟨m.heap,Function.update m.contents p (resized unset size (m.contents p))⟩,by simp [realloc,used],held,
        Function.update_self _ _ _,updateKeeps _ (holdsApart held)⟩
  | false =>
      obtain ⟨grown,content,kept⟩ := mallocKeeps a (resized unset size (m.contents p)) held
      have swapped := holdsPerm grown (List.Perm.swap _ _ _)
      obtain ⟨next,freed,rest,same⟩ := freeKeeps (p := some p) swapped
      refine ⟨_,next,by simp only [realloc,Bool.false_eq_true,if_false,freed]; rfl,rest,?_,?_⟩
      · rw [same,content]
      · intro q member
        rw [same]
        exact kept q (List.mem_cons_of_mem p member)

theorem writeKeeps (offset : Nat) (values : List α) (held : Holds m.heap (p :: blocks))
    (inside : offset + values.length ≤ (m.contents p).length) :
    ∃ next, m.write p offset values = some next ∧ Holds next.heap (p :: blocks) ∧
      next.contents p = overwritten offset values (m.contents p) ∧ Keeps blocks m next := by
  have used : p ∈ m.heap.live := held.mem_iff.mpr List.mem_cons_self
  exact ⟨_,if_pos ⟨used,inside⟩,held,Function.update_self _ _ _,updateKeeps _ (holdsApart held)⟩

theorem overwrittenAt {before values covered behind : List α} (same : covered.length = values.length) :
    overwritten before.length values (before ++ covered ++ behind) = before ++ values ++ behind := by
  have start : (before ++ covered ++ behind).take before.length = before := by
    rw [List.append_assoc,List.take_left]
  have rest : (before ++ covered ++ behind).drop (before.length + values.length) = behind := by
    rw [← same,← List.length_append,List.drop_left]
  rw [overwritten,start,rest]

theorem grownContent (before values : List α) (old last unset : α) :
    overwritten (before.length + values.length) [last]
      (overwritten before.length values (resized unset (before.length + values.length + 1) (before ++ [old]))) =
        before ++ values ++ [last] := by
  have whole : (before ++ [old]).take (before.length + values.length + 1) = before ++ [old] :=
    List.take_of_length_le (by simp)
  have more : before.length + values.length + 1 - (before ++ [old]).length = values.length := by
    simp only [List.length_append,List.length_singleton]
    omega
  obtain ⟨covered,free,split,same⟩ : ∃ covered free, old :: List.replicate values.length unset = covered ++ [free] ∧
      covered.length = values.length :=
    ⟨_,_,(List.dropLast_concat_getLast (List.cons_ne_nil _ _)).symm,by simp⟩
  rw [resized,whole,more,List.append_assoc,List.singleton_append,split,← List.append_assoc,overwrittenAt same,
    ← List.length_append]
  have ended := @overwrittenAt _ (before ++ values) [last] [free] [] rfl
  simpa using ended

end Memory

end NimbleNet.BlockContents
