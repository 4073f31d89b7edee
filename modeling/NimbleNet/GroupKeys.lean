import NimbleNet.PreProcessor
import NimbleNet.SeparatedLists

/-! Group keys: the values of the group columns, each with a plus sign behind it. The
values are not escaped, so rows are told apart only as long as plus signs occur in
one of the group columns at most. -/
namespace NimbleNet.GroupKeys
open SeparatedLists

inductive Row where
  | event (e : TableEvent)
  | request (row : List (Option String))

namespace Row

def valueAt : Row → Nat → Option String
  | event e,id => e.row[id]?
  | request row,id => row.getD id none

variable {T : Type} [Scalar T] (p : PreProcessor T)

def group : Row → String
  | event e => p.getGroupFromEvent e
  | request row => p.getGroupFromRow row

def Filled (r : Row) : Prop := ∀ id ∈ p.groupIds, (r.valueAt id).isSome = true

def Same (r r' : Row) : Prop := ∀ id ∈ p.groupIds, r.valueAt id = r'.valueAt id

/- Plus signs are in these columns only. -/
def PlusOnly (plus : Nat → Prop) (r : Row) : Prop :=
  ∀ id ∈ p.groupIds, ∀ value ∈ r.valueAt id, '+' ∈ value.toList → plus id

def part (r : Row) (id : Nat) : List Char := ((r.valueAt id).getD "").toList

end Row

section Keys
variable {T : Type} [Scalar T] {p : PreProcessor T}

theorem eventJoined (e : TableEvent) (ids : List Nat) (group : String) :
    (ids.foldl (fun group id => group ++ (e.columnAt id ++ "+")) group).toList =
      group.toList ++ joined '+' (ids.map (Row.event e).part) := by
  induction ids generalizing group with
  | nil => simp [joined]
  | cons id rest ih =>
      rw [List.foldl_cons,ih]
      simp [joined,Row.part,Row.valueAt,TableEvent.columnAt]

theorem requestJoined (row : List (Option String)) (ids : List Nat) (group : String)
    (filled : ∀ id ∈ ids, (row.getD id none).isSome = true) : ∃ key,
    ids.foldlM (fun group id => (row.getD id none).map (fun value => group ++ (value ++ "+"))) group = some key ∧
      key.toList = group.toList ++ joined '+' (ids.map (Row.request row).part) := by
  induction ids generalizing group with
  | nil => exact ⟨group,rfl,by simp [joined]⟩
  | cons id rest ih =>
      obtain ⟨value,here⟩ := Option.isSome_iff_exists.mp (filled id List.mem_cons_self)
      obtain ⟨key,others,text⟩ := ih (group ++ (value ++ "+")) (fun id inside => filled id (List.mem_cons_of_mem _ inside))
      refine ⟨key,?_,?_⟩
      · rw [List.foldlM_cons,here]
        exact others
      · rw [text]
        simp [joined,Row.part,Row.valueAt,here,-List.getD_eq_getElem?_getD]

omit [Scalar T] in
theorem groupJoined {r : Row} (filled : r.Filled p) : (r.group p).toList = joined '+' (p.groupIds.map r.part) := by
  cases r with
  | event e =>
      rw [Row.group,PreProcessor.getGroupFromEvent,eventJoined e p.groupIds ""]
      rfl
  | request row =>
      obtain ⟨key,folded,text⟩ := requestJoined row p.groupIds "" filled
      rw [Row.group,PreProcessor.getGroupFromRow,folded]
      simpa using text

omit [Scalar T] in
theorem sameParts {r r' : Row} (filled : r.Filled p) (filled' : r'.Filled p) :
    r.Same p r' ↔ p.groupIds.map r.part = p.groupIds.map r'.part := by
  rw [List.map_inj_left]
  refine forall₂_congr (fun id inside => ?_)
  obtain ⟨value,here⟩ := Option.isSome_iff_exists.mp (filled id inside)
  obtain ⟨value',there⟩ := Option.isSome_iff_exists.mp (filled' id inside)
  simp [Row.part,here,there,String.toList_inj]

def plusCount (r : Row) (id : Nat) : Nat := (r.part id).count '+'

theorem columnSum (ids : List Nat) (c k : Nat) : (ids.map (fun id => if id = c then k else 0)).sum = ids.count c * k := by
  induction ids with
  | nil => simp
  | cons id rest ih =>
      rw [List.map_cons,List.sum_cons,ih,List.count_cons]
      by_cases here : id = c
      · simp [here,Nat.add_mul,Nat.add_comm]
      · simp [here]

theorem countsEqual {ids : List Nat} {c : Nat} {n n' : Nat → Nat} (inside : c ∈ ids)
    (only : ∀ id ∈ ids, n id ≠ 0 → id = c) (only' : ∀ id ∈ ids, n' id ≠ 0 → id = c)
    (sums : (ids.map n).sum = (ids.map n').sum) : ids.map n = ids.map n' := by
  have column (n : Nat → Nat) (only : ∀ id ∈ ids, n id ≠ 0 → id = c) :
      ids.map n = ids.map (fun id => if id = c then n c else 0) := by
    refine List.map_congr_left (fun id member => ?_)
    split
    · rename_i same
      rw [same]
    · rename_i other
      exact not_not.mp (fun some => other (only id member some))
  rw [column n only,column n' only'] at sums ⊢
  rw [columnSum,columnSum] at sums
  rw [Nat.eq_of_mul_eq_mul_left (List.count_pos_iff.mpr inside) sums]

omit [Scalar T] in
theorem plusOnlyCount {plus : Nat → Prop} {r : Row} (only : r.PlusOnly p plus) {id : Nat} (inside : id ∈ p.groupIds)
    (some : plusCount r id ≠ 0) : plus id := by
  have member := List.count_pos_iff.mp (Nat.pos_of_ne_zero some)
  unfold Row.part at member
  cases here : r.valueAt id with
  | none => simp [here] at member
  | some value => exact only id inside value here (by simpa [here] using member)

omit [Scalar T] in
theorem oneColumn {plus : Nat → Prop} (one : ∀ c ∈ p.groupIds, ∀ c' ∈ p.groupIds, plus c → plus c' → c = c')
    {r r' : Row} (filled : r.Filled p) (filled' : r'.Filled p) (only : r.PlusOnly p plus) (only' : r'.PlusOnly p plus)
    (same : r.group p = r'.group p) : r.Same p r' := by
  have texts : joined '+' (p.groupIds.map r.part) = joined '+' (p.groupIds.map r'.part) := by
    rw [← groupJoined filled,← groupJoined filled',same]
  have sums : (p.groupIds.map (plusCount r)).sum = (p.groupIds.map (plusCount r')).sum := by
    have counts := congrArg (List.count '+') texts
    simp only [joinedCount,List.length_map,List.map_map,Function.comp_def,Nat.add_left_cancel_iff] at counts
    exact counts
  have counts : p.groupIds.map (plusCount r) = p.groupIds.map (plusCount r') := by
    by_cases none : ∀ id ∈ p.groupIds, ¬ plus id
    · refine List.map_congr_left (fun id inside => ?_)
      have zero := not_not.mp (fun some => none id inside (plusOnlyCount only inside some))
      have zero' := not_not.mp (fun some => none id inside (plusOnlyCount only' inside some))
      rw [zero,zero']
    · push Not at none
      obtain ⟨c,inside,here⟩ := none
      exact countsEqual inside (fun id member some => one id member c inside (plusOnlyCount only member some) here)
        (fun id member some => one id member c inside (plusOnlyCount only' member some) here) sums
  refine (sameParts filled filled').mpr (joinedInjective (by simp) ?_ texts)
  simpa [Function.comp_def,plusCount] using counts

def plusRow (ids : List Nat) (c k : Nat) : Row :=
  .event ⟨[],0,(List.range (ids.sum + 1)).map (fun id => String.ofList (List.replicate (if id = c then k else 0) '+'))⟩

theorem plusRowAt {ids : List Nat} {id : Nat} (inside : id ∈ ids) (c k : Nat) :
    (plusRow ids c k).valueAt id = some (String.ofList (List.replicate (if id = c then k else 0) '+')) := by
  have le : id ≤ ids.sum := List.le_sum_of_mem inside
  simp [plusRow,Row.valueAt,Nat.lt_succ_of_le le]

omit [Scalar T] in
theorem plusRowFilled (p : PreProcessor T) (c k : Nat) : (plusRow p.groupIds c k).Filled p := by
  intro id inside
  rw [plusRowAt inside]
  rfl

omit [Scalar T] in
theorem plusRowOnly {plus : Nat → Prop} {c : Nat} (here : plus c) (k : Nat) :
    (plusRow p.groupIds c k).PlusOnly p plus := by
  intro id inside value found member
  rw [plusRowAt inside,Option.mem_some_iff] at found
  subst found
  split at member
  · rename_i same
    exact same ▸ here
  · simp at member

omit [Scalar T] in
theorem plusRowGroup (c k : Nat) : ((plusRow p.groupIds c k).group p).toList =
    List.replicate (p.groupIds.length + p.groupIds.count c * k) '+' := by
  have parts : p.groupIds.map (plusRow p.groupIds c k).part =
      (p.groupIds.map (fun id => if id = c then k else 0)).map (List.replicate · '+') := by
    rw [List.map_map]
    refine List.map_congr_left (fun id inside => ?_)
    simp [Row.part,plusRowAt inside]
  rw [groupJoined (plusRowFilled p c k),parts,joinedBlank,List.length_map,columnSum]

omit [Scalar T] in
/- Two columns with plus signs: the keys are equal although the rows are not. -/
theorem twoColumns {c c' : Nat} (inside : c ∈ p.groupIds) (inside' : c' ∈ p.groupIds) (apart : c ≠ c') :
    let r := plusRow p.groupIds c (p.groupIds.count c')
    let r' := plusRow p.groupIds c' (p.groupIds.count c)
    r.group p = r'.group p ∧ ¬ r.Same p r' := by
  intro r r'
  constructor
  · rw [← String.toList_inj,plusRowGroup,plusRowGroup,Nat.mul_comm]
  · intro same
    have here := same c inside
    rw [plusRowAt inside,plusRowAt inside,if_pos rfl,if_neg apart] at here
    have lengths := congrArg (fun value => value.map (fun text => text.toList.length)) here
    simp only [Option.map_some,String.toList_ofList,List.length_replicate,Option.some.injEq] at lengths
    exact (List.count_pos_iff.mpr inside').ne' lengths

omit [Scalar T] in
theorem keptApartIff (p : PreProcessor T) (plus : Nat → Prop) :
    (∀ r r' : Row, r.Filled p → r'.Filled p → r.PlusOnly p plus → r'.PlusOnly p plus →
      (r.group p = r'.group p ↔ r.Same p r')) ↔
      ∀ c ∈ p.groupIds, ∀ c' ∈ p.groupIds, plus c → plus c' → c = c' := by
  constructor
  · intro all c inside c' inside' here there
    by_contra apart
    obtain ⟨keys,differ⟩ := twoColumns inside inside' apart
    exact differ ((all _ _ (plusRowFilled p _ _) (plusRowFilled p _ _) (plusRowOnly here _) (plusRowOnly there _)).mp keys)
  · intro one r r' filled filled' only only'
    refine ⟨oneColumn one filled filled' only only',fun same => ?_⟩
    rw [← String.toList_inj,groupJoined filled,groupJoined filled',(sameParts filled filled').mp same]

end Keys

section Orders

def ordersByUser : PreProcessor Int :=
  .new 0 ⟨[10],[⟨"amount","Sum",0⟩],["country","user"],"orders"⟩ [1,2] [0]

theorem entitiesShareAKey : ¬ ∀ (p : PreProcessor Int) (r r' : Row), r.Filled p → r'.Filled p →
    (r.group p = r'.group p ↔ r.Same p r') := by
  intro claim
  have keys := claim ordersByUser (.event ⟨[],0,["5","a+","b"]⟩) (.request [none,some "a",some "+b"])
    (by unfold Row.Filled; decide) (by unfold Row.Filled; decide)
  have same : (Row.event ⟨[],0,["5","a+","b"]⟩).group ordersByUser =
      (Row.request [none,some "a",some "+b"]).group ordersByUser := by decide +kernel
  have values := keys.mp same 1 (by decide)
  revert values
  decide

end Orders
end NimbleNet.GroupKeys
