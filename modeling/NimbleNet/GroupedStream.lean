import Mathlib

/-! A stream that is consumed one element at a time and translated in groups of n. What is
held at the end, fewer than n elements, is translated on its own. -/
namespace NimbleNet.GroupedStream

variable {α β : Type} {n : Nat}

def feed (n : Nat) (translate : List α → Option (List β)) (state : List α × List β) (x : α) : Option (List α × List β) :=
  if state.1.length + 1 = n then do
    let out ← translate (state.1 ++ [x])
    some ([],state.2 ++ out)
  else some (state.1 ++ [x],state.2)

def grouped (n : Nat) (f last : List α → List β) (xs : List α) : List β :=
  if 0 < n ∧ n ≤ xs.length then f (xs.take n) ++ grouped n f last (xs.drop n) else last xs
termination_by xs.length
decreasing_by
  rw [List.length_drop]
  omega

theorem groupInduction (n : Nat) {P : List α → Prop} (short : ∀ xs, xs.length < n → P xs)
    (group : ∀ g xs, g.length = n → P xs → P (g ++ xs)) (positive : 0 < n) (xs : List α) : P xs := by
  by_cases few : xs.length < n
  · exact short xs few
  · rw [← List.take_append_drop n xs]
    exact group _ _ (List.length_take_of_le (by omega)) (groupInduction n short group positive (xs.drop n))
termination_by xs.length
decreasing_by
  rw [List.length_drop]
  omega

section Grouped
variable {f last : List α → List β}

theorem groupedShort {xs : List α} (short : xs.length < n) : grouped n f last xs = last xs := by
  rw [grouped,if_neg (by omega)]

theorem groupedAppend (positive : 0 < n) {g : List α} (size : g.length = n) (xs : List α) :
    grouped n f last (g ++ xs) = f g ++ grouped n f last xs := by
  rw [grouped,if_pos ⟨positive,by rw [List.length_append]; omega⟩,List.take_left' size,List.drop_left' size]

theorem groupedLength {m : Nat} (rest : Nat → Nat) (positive : 0 < n) (groups : ∀ g, g.length = n → (f g).length = m)
    (lasts : ∀ g, g.length < n → (last g).length = rest g.length) (xs : List α) :
    (grouped n f last xs).length = m * (xs.length / n) + rest (xs.length % n) := by
  induction xs using groupInduction n with
  | short xs few => rw [groupedShort few,lasts xs few,Nat.div_eq_of_lt few,Nat.mod_eq_of_lt few,Nat.mul_zero,Nat.zero_add]
  | group g xs size ih =>
      rw [groupedAppend positive size,List.length_append,groups g size,ih,List.length_append,size,Nat.add_div_left _ positive,
        Nat.add_mod_left]
      ring
  | positive => exact positive

theorem groupedAll (positive : 0 < n) {p : β → Prop} (groups : ∀ g, g.length = n → ∀ y ∈ f g, p y)
    (lasts : ∀ g, g.length < n → ∀ y ∈ last g, p y) (xs : List α) : ∀ y ∈ grouped n f last xs, p y := by
  induction xs using groupInduction n with
  | short xs few =>
      rw [groupedShort few]
      exact lasts xs few
  | group g xs size ih =>
      rw [groupedAppend positive size]
      exact List.forall_mem_append.mpr ⟨groups g size,ih⟩
  | positive => exact positive

theorem groupedPadded (positive : 0 < n) (pad : Nat → List β) (xs : List α) :
    grouped n f (fun rest => last rest ++ pad rest.length) xs = grouped n f last xs ++ pad (xs.length % n) := by
  induction xs using groupInduction n with
  | short xs few => rw [groupedShort few,groupedShort few,Nat.mod_eq_of_lt few]
  | group g xs size ih =>
      rw [groupedAppend positive size,groupedAppend positive size,ih,List.length_append,size,Nat.add_mod_left,List.append_assoc]
  | positive => exact positive

theorem groupedDropRest (positive : 0 < n) {xs rest : List α} (whole : xs.length % n = 0) (few : rest.length < n)
    (silent : last rest = last []) : grouped n f last (xs ++ rest) = grouped n f last xs := by
  induction xs using groupInduction n with
  | short xs short =>
      rw [Nat.mod_eq_of_lt short,List.length_eq_zero_iff] at whole
      rw [whole,List.nil_append,groupedShort few,silent,groupedShort positive]
  | group g xs size ih =>
      rw [List.append_assoc,groupedAppend positive size,groupedAppend positive size,
        ih (by rwa [List.length_append,size,Nat.add_mod_left] at whole)]
  | positive => exact positive

theorem groupedInverse {m : Nat} {back lastBack : List β → List α} (positive : 0 < n) (many : 0 < m)
    (groups : ∀ g, g.length = n → (f g).length = m ∧ back (f g) = g)
    (lasts : ∀ g, g.length < n → (last g).length < m ∧ lastBack (last g) = g) (xs : List α) :
    grouped m back lastBack (grouped n f last xs) = xs := by
  induction xs using groupInduction n with
  | short xs few => rw [groupedShort few,groupedShort (lasts xs few).1,(lasts xs few).2]
  | group g xs size ih => rw [groupedAppend positive size,groupedAppend many (groups g size).1,ih,(groups g size).2]
  | positive => exact positive

end Grouped

section Runs
variable {translate : List α → Option (List β)}

theorem feedSome (total : ∀ g, (translate g).isSome = true) (state : List α × List β) (x : α) :
    ∃ next, feed n translate state x = some next := by
  obtain ⟨out,made⟩ := Option.isSome_iff_exists.mp (total (state.1 ++ [x]))
  rw [feed,made]
  split <;> exact ⟨_,rfl⟩

theorem feedShort {held : List α} {out : List β} {xs : List α} (short : held.length + xs.length < n) :
    xs.foldlM (feed n translate) (held,out) = some (held ++ xs,out) := by
  induction xs generalizing held with
  | nil => simp
  | cons x xs ih =>
      rw [List.length_cons] at short
      have step : feed n translate (held,out) x = some (held ++ [x],out) := if_neg (by show ¬held.length + 1 = n; omega)
      rw [List.foldlM_cons,step]
      exact (ih (by simp only [List.length_append,List.length_singleton]; omega)).trans (by rw [List.append_assoc]; rfl)

theorem feedGroup {out : List β} {g : List α} (size : g.length = n) (positive : 0 < n) :
    g.foldlM (feed n translate) ([],out) = (translate g).map (fun made => ([],out ++ made)) := by
  obtain ⟨front,x,rfl⟩ : ∃ front x, g = front ++ [x] :=
    ⟨g.dropLast,g.getLast (List.ne_nil_of_length_pos (by omega)),(List.dropLast_append_getLast _).symm⟩
  rw [List.length_append,List.length_singleton] at size
  rw [List.foldlM_append,feedShort (by rw [List.length_nil]; omega)]
  simp only [List.nil_append,bind,Option.bind_some,List.foldlM_cons,List.foldlM_nil,feed,if_pos size]
  cases translate (front ++ [x]) <;> rfl

/- Where no group fails, the output and what is held at the end make the whole translation. -/
theorem feedRuns {f last : List α → List β} {finish : List α × List β → Option (List β)} (positive : 0 < n)
    (groups : ∀ g, g.length = n → translate g = some (f g))
    (lasts : ∀ held out, held.length < n → finish (held,out) = some (out ++ last held)) (xs : List α) (out : List β) :
    (xs.foldlM (feed n translate) ([],out)).bind finish = some (out ++ grouped n f last xs) := by
  induction xs using groupInduction n generalizing out with
  | short xs few =>
      rw [feedShort (by rwa [List.length_nil,Nat.zero_add]),groupedShort few]
      exact lasts xs out few
  | group g xs size ih =>
      rw [List.foldlM_append,feedGroup size positive,groups g size,groupedAppend positive size,← List.append_assoc]
      exact ih (out ++ f g)
  | positive => exact positive

end Runs
end NimbleNet.GroupedStream
