import Mathlib

/-! An append-only log read from an index on: the records of interest from there
to the end, and how they change as the log grows or the index advances. -/
namespace NimbleNet.LogSuffix

variable {ε : Type} (p : ε → Bool)

def selected (log : List ε) (start : Nat) : List ε := (log.drop start).filter p

theorem selectedAppend {log : List ε} {start : Nat} (inside : start ≤ log.length) (e : ε) :
    selected p (log ++ [e]) start = selected p log start ++ if p e then [e] else [] := by
  unfold selected
  rw [List.drop_append_of_le_length inside,List.filter_append]
  cases h : p e <;> simp [h]

theorem selectedEnd {log : List ε} {start : Nat} (past : log.length ≤ start) :
    selected p log start = [] := by
  simp [selected,List.drop_eq_nil_of_le past]

theorem selectedStep {log : List ε} {start : Nat} {e : ε} (here : log[start]? = some e) :
    selected p log start = (if p e then [e] else []) ++ selected p log (start + 1) := by
  unfold selected
  rw [List.drop_eq_getElem?_toList_append,here]
  cases h : p e <;> simp [h]

def between (log : List ε) (start stop : Nat) : List ε := ((log.take stop).drop start).filter p

theorem betweenEnd {log : List ε} {start stop : Nat} (done : stop ≤ start) : between p log start stop = [] := by
  have past : (log.take stop).length ≤ start := (List.length_take_le _ _).trans done
  simp [between,List.drop_eq_nil_of_le past]

theorem betweenStep {log : List ε} {start stop : Nat} {e : ε} (more : start < stop)
    (here : log[start]? = some e) :
    between p log start stop = (if p e then [e] else []) ++ between p log (start + 1) stop := by
  have taken : (log.take stop)[start]? = some e := by rwa [List.getElem?_take_of_lt more]
  exact selectedStep p taken

theorem selectedSplit {log : List ε} {start stop : Nat} (order : start ≤ stop) :
    selected p log start = between p log start stop ++ selected p log stop := by
  unfold selected between
  rw [← List.filter_append,List.drop_take]
  congr 1
  obtain ⟨k,rfl⟩ := Nat.exists_eq_add_of_le order
  rw [← List.drop_drop,Nat.add_sub_cancel_left,List.take_append_drop]

/- When the records that satisfy `q` are those from `start` on, selecting by
both tests in the whole log is selecting from `start`. -/
theorem filterFrom {q : ε → Bool} {log : List ε} {start : Nat}
    (before : ∀ i e, i < start → log[i]? = some e → q e = false)
    (after : ∀ i e, start ≤ i → log[i]? = some e → q e = true) :
    log.filter (fun e => p e && q e) = selected p log start := by
  unfold selected
  conv_lhs => rw [← List.take_append_drop start log]
  rw [List.filter_append]
  have none : (log.take start).filter (fun e => p e && q e) = [] := by
    rw [List.filter_eq_nil_iff]
    intro e member
    obtain ⟨i,at'⟩ := List.mem_iff_getElem?.mp member
    rw [List.getElem?_take] at at'
    split at at' <;> try contradiction
    rename_i small
    simp [before i e small at']
  have all : (log.drop start).filter (fun e => p e && q e) = (log.drop start).filter p := by
    apply List.filter_congr
    intro e member
    obtain ⟨i,at'⟩ := List.mem_iff_getElem?.mp member
    rw [List.getElem?_drop] at at'
    simp [after (start + i) e (Nat.le_add_right _ _) at']
  rw [none,all,List.nil_append]

theorem filterMapCongr {δ β : Type} {R : ε → δ → Prop} {p : ε → Bool} {q : δ → Bool} {f : ε → β} {g : δ → β}
    {xs : List ε} {ys : List δ} (same : List.Forall₂ R xs ys) (each : ∀ x y, R x y → p x = q y ∧ f x = g y) :
    (xs.filter p).map f = (ys.filter q).map g := by
  induction same with
  | nil => rfl
  | @cons x y xs ys here _ ih =>
      obtain ⟨select,read⟩ := each x y here
      simp only [List.filter_cons,select]
      split
      · rw [List.map_cons,List.map_cons,ih,read]
      · exact ih

theorem forall₂At {δ : Type} {R : ε → δ → Prop} {xs : List ε} {ys : List δ} (same : List.Forall₂ R xs ys) {i : Nat} {y : δ}
    (here : ys[i]? = some y) : ∃ x, xs[i]? = some x ∧ R x y := by
  induction same generalizing i with
  | nil => simp at here
  | cons first _ ih =>
      cases i with
      | zero =>
          cases here
          exact ⟨_,rfl,first⟩
      | succ i => exact ih here

end NimbleNet.LogSuffix
