import Mathlib

/-! Ordered maps read in key order: two maps with the same keys list them in the
same order, so a position in one is a position in the other. -/
namespace NimbleNet.OrderedMap

variable {α β γ : Type} {cmp : α → α → Ordering} [Std.TransCmp cmp] [Std.LawfulEqCmp cmp]

theorem keysExt {m : Std.ExtTreeMap α β cmp} {n : Std.ExtTreeMap α γ cmp} (same : ∀ k, k ∈ m ↔ k ∈ n) :
    m.keys = n.keys := by
  have perm : m.keys.Perm n.keys :=
    (List.perm_ext_iff_of_nodup Std.ExtTreeMap.nodup_keys Std.ExtTreeMap.nodup_keys).mpr (by simpa using same)
  refine perm.eq_of_pairwise (fun a b _ _ less more => ?_) Std.ExtTreeMap.ordered_keys Std.ExtTreeMap.ordered_keys
  rw [@Std.OrientedCmp.eq_swap α cmp,more] at less
  contradiction

theorem insertFound {m : Std.ExtTreeMap α β cmp} {k g : α} {v x : β} (found : (m.insert k v)[g]? = some x) :
    (g = k ∧ x = v) ∨ (g ≠ k ∧ m[g]? = some x) := by
  rw [Std.ExtTreeMap.getElem?_insert] at found
  split at found
  · rename_i same
    exact .inl ⟨(Std.LawfulEqCmp.eq_of_compare same).symm,(Option.some.inj found).symm⟩
  · rename_i other
    exact .inr ⟨fun same => other (same ▸ Std.ReflCmp.compare_self),found⟩

theorem insertOther {m : Std.ExtTreeMap α β cmp} {k g : α} {v : β} (other : g ≠ k) : (m.insert k v)[g]? = m[g]? := by
  rw [Std.ExtTreeMap.getElem?_insert,if_neg (fun same => other (Std.LawfulEqCmp.eq_of_compare same).symm)]

omit [Std.LawfulEqCmp cmp] in
theorem insertKeeps {m : Std.ExtTreeMap α β cmp} {k g : α} {v x : β} (found : m[g]? = some x) :
    ∃ y, (m.insert k v)[g]? = some y := by
  rw [Std.ExtTreeMap.getElem?_insert]
  split
  · exact ⟨v,rfl⟩
  · exact ⟨x,found⟩

theorem insertSame {m : Std.ExtTreeMap α β cmp} {k : α} {v : β} (here : m[k]? = some v) : m.insert k v = m := by
  refine Std.ExtTreeMap.ext_getElem? (fun g => ?_)
  rw [Std.ExtTreeMap.getElem?_insert]
  split
  · rename_i same
    rw [← Std.LawfulEqCmp.eq_of_compare same,here]
  · rfl

theorem insertTwice (m : Std.ExtTreeMap α β cmp) (k : α) (v w : β) : (m.insert k v).insert k w = m.insert k w := by
  refine Std.ExtTreeMap.ext_getElem? (fun g => ?_)
  simp only [Std.ExtTreeMap.getElem?_insert]
  split <;> rfl

section Fallback
variable [DecidableEq α]

theorem insertGetD (m : Std.ExtTreeMap α β cmp) (k g : α) (v d : β) : (m.insert k v).getD g d = if g = k then v else m.getD g d := by
  rw [Std.ExtTreeMap.getD_insert]
  simp only [Std.LawfulEqCmp.compare_eq_iff_eq,@eq_comm _ k g]

theorem eraseGetD (m : Std.ExtTreeMap α β cmp) (k g : α) (d : β) : (m.erase k).getD g d = if g = k then d else m.getD g d := by
  rw [Std.ExtTreeMap.getD_erase]
  simp only [Std.LawfulEqCmp.compare_eq_iff_eq,@eq_comm _ k g]

omit [DecidableEq α] in
theorem touchGetD (m : Std.ExtTreeMap α β cmp) (k g : α) (d : β) : (m.insertIfNew k d).getD g d = m.getD g d := by
  rw [Std.ExtTreeMap.getD_insertIfNew]
  split
  · rename_i new
    have same : k = g := Std.LawfulEqCmp.compare_eq_iff_eq.mp new.1
    rw [Std.ExtTreeMap.getD_eq_fallback]
    exact same ▸ new.2
  · rfl

end Fallback

/- The map that numbers the keys in order. -/
theorem position [DecidableEq α] {keys : List α} (distinct : keys.Nodup) (k : α) (i : Nat) :
    (Std.ExtTreeMap.ofList keys.zipIdx cmp)[k]? = some i ↔ keys[i]? = some k := by
  have apart : keys.zipIdx.Pairwise (fun a b => ¬ cmp a.1 b.1 = .eq) := by
    have nodup : (keys.zipIdx.map Prod.fst).Nodup := by rwa [List.zipIdx_map_fst]
    refine (List.pairwise_map.mp nodup).imp (fun ne eq => ne (Std.LawfulEqCmp.eq_of_compare eq))
  constructor
  · intro found
    by_cases member : k ∈ keys
    · obtain ⟨j,at'⟩ := List.mem_iff_getElem?.mp member
      have here : (Std.ExtTreeMap.ofList keys.zipIdx cmp)[k]? = some j :=
        Std.ExtTreeMap.getElem?_ofList_of_mem Std.ReflCmp.compare_self apart (List.mk_mem_zipIdx_iff_getElem?.mpr at')
      rw [here] at found
      cases found
      exact at'
    · have absent : (keys.zipIdx.map Prod.fst).contains k = false := by
        rw [List.zipIdx_map_fst]
        simpa using member
      rw [Std.ExtTreeMap.getElem?_ofList_of_contains_eq_false absent] at found
      contradiction
  · intro at'
    exact Std.ExtTreeMap.getElem?_ofList_of_mem Std.ReflCmp.compare_self apart
      (List.mk_mem_zipIdx_iff_getElem?.mpr at')

theorem valueAt {m : Std.ExtTreeMap α β cmp} {i : Nat} {k : α} (key : m.keys[i]? = some k) :
    (m.toList.map Prod.snd)[i]? = m[k]? := by
  rw [← Std.ExtTreeMap.map_fst_toList_eq_keys,List.getElem?_map,Option.map_eq_some_iff] at key
  obtain ⟨⟨k',v⟩,at',rfl⟩ := key
  rw [List.getElem?_map,at']
  exact (Std.ExtTreeMap.mem_toList_iff_getElem?_eq_some.mp (List.mem_of_getElem? at')).symm

theorem eraseInsert (m : Std.ExtTreeMap α β cmp) (k : α) (v : β) : (m.insert k v).erase k = m.erase k := by
  refine Std.ExtTreeMap.ext_getElem? (fun g => ?_)
  simp only [Std.ExtTreeMap.getElem?_erase,Std.ExtTreeMap.getElem?_insert]
  split <;> rfl

omit [Std.LawfulEqCmp cmp] in
theorem listedNodup (m : Std.ExtTreeMap α β cmp) : m.toList.Nodup := by
  have keys : (m.toList.map Prod.fst).Nodup := by
    rw [Std.ExtTreeMap.map_fst_toList_eq_keys]
    exact Std.ExtTreeMap.nodup_keys
  exact keys.of_map _

theorem eraseAbsent {m : Std.ExtTreeMap α β cmp} {k : α} (absent : m[k]? = none) : m.erase k = m := by
  refine Std.ExtTreeMap.ext_getElem? (fun g => ?_)
  rw [Std.ExtTreeMap.getElem?_erase]
  split
  · rename_i same
    rw [← Std.LawfulEqCmp.eq_of_compare same,absent]
  · rfl

theorem listedPerm {m : Std.ExtTreeMap α β cmp} {k : α} {v : β} (here : m[k]? = some v) :
    m.toList.Perm ((k,v) :: (m.erase k).toList) := by
  have absent : (k,v) ∉ (m.erase k).toList := by
    rw [Std.ExtTreeMap.mem_toList_iff_getElem?_eq_some,Std.ExtTreeMap.getElem?_erase_self]
    exact Option.some_ne_none v ∘ Eq.symm
  refine (List.perm_ext_iff_of_nodup (listedNodup m) (List.nodup_cons.mpr ⟨absent,listedNodup _⟩)).mpr (fun (g,x) => ?_)
  rw [List.mem_cons,Std.ExtTreeMap.mem_toList_iff_getElem?_eq_some,Std.ExtTreeMap.mem_toList_iff_getElem?_eq_some,
    Std.ExtTreeMap.getElem?_erase]
  split
  · rename_i same
    obtain rfl := Std.LawfulEqCmp.eq_of_compare same
    rw [here]
    simp [eq_comm]
  · rename_i other
    have apart : g ≠ k := fun same => other (same ▸ Std.ReflCmp.compare_self)
    simp [apart]

theorem insertPerm (m : Std.ExtTreeMap α β cmp) (k : α) (v : β) :
    (m.insert k v).toList.Perm ((k,v) :: (m.erase k).toList) := by
  rw [← eraseInsert m k v]
  exact listedPerm Std.ExtTreeMap.getElem?_insert_self

end NimbleNet.OrderedMap
