import Mathlib

/-! Places that hold items, where items are added, moved with their place and thrown
away. `out` are the items that were handed on. Nothing is lost as long as each known
item was handed on or is held somewhere. -/
namespace NimbleNet.HeldItems

variable {ν ι : Type} {holds : ν → ι → Prop} {known out : ι → Prop} {source target place : ν} {new : ι → Prop}

def Once (holds : ν → ι → Prop) : Prop := ∀ a b x, holds a x → holds b x → a = b

def Kept (holds : ν → ι → Prop) (out known : ι → Prop) : Prop := ∀ x, known x → out x ∨ ∃ a, holds a x

def renamed (source target : ν) (holds : ν → ι → Prop) : ν → ι → Prop :=
  fun a x => (a = target ∧ holds source x) ∨ (a ≠ source ∧ a ≠ target ∧ holds a x)

def removed (target : ν) (holds : ν → ι → Prop) : ν → ι → Prop := fun a x => a ≠ target ∧ holds a x

def added (place : ν) (new : ι → Prop) (holds : ν → ι → Prop) : ν → ι → Prop :=
  fun a x => holds a x ∨ (a = place ∧ new x)

theorem onceRenamed (once : Once holds) : Once (renamed source target holds) := by
  intro a b x here there
  rcases here with ⟨rfl,held⟩ | ⟨apart,_,held⟩
  · rcases there with ⟨rfl,_⟩ | ⟨apart,_,held'⟩
    · rfl
    · exact absurd (once b source x held' held) apart
  · rcases there with ⟨rfl,held'⟩ | ⟨_,_,held'⟩
    · exact absurd (once a source x held held') apart
    · exact once a b x held held'

theorem onceRemoved (once : Once holds) : Once (removed target holds) :=
  fun a b x here there => once a b x here.2 there.2

theorem onceAdded (once : Once holds) (fresh : ∀ x, new x → ∀ a, ¬ holds a x) : Once (added place new holds) := by
  intro a b x here there
  rcases here with held | ⟨rfl,isNew⟩
  · rcases there with held' | ⟨_,isNew⟩
    · exact once a b x held held'
    · exact absurd held (fresh x isNew a)
  · rcases there with held | ⟨rfl,_⟩
    · exact absurd held (fresh x isNew b)
    · rfl

theorem keptRenamed (once : Once holds) (apart : source ≠ target) (below : ∀ a x, holds a x → known x) :
    Kept (renamed source target holds) out known ↔ Kept holds out known ∧ ∀ x, holds target x → out x := by
  constructor
  · intro later
    refine ⟨fun x isKnown => (later x isKnown).imp id ?_,fun x held => ?_⟩
    · rintro ⟨a,⟨_,held⟩ | ⟨_,_,held⟩⟩
      · exact ⟨source,held⟩
      · exact ⟨a,held⟩
    · rcases later x (below target x held) with done | ⟨a,⟨_,held'⟩ | ⟨_,other,held'⟩⟩
      · exact done
      · exact absurd (once source target x held' held) apart
      · exact absurd (once a target x held' held) other
  · rintro ⟨kept,spent⟩ x isKnown
    rcases kept x isKnown with done | ⟨a,held⟩
    · exact .inl done
    · by_cases isTarget : a = target
      · exact .inl (spent x (isTarget ▸ held))
      · by_cases isSource : a = source
        · exact .inr ⟨target,.inl ⟨rfl,isSource ▸ held⟩⟩
        · exact .inr ⟨a,.inr ⟨isSource,isTarget,held⟩⟩

theorem keptRemoved (once : Once holds) (below : ∀ a x, holds a x → known x) :
    Kept (removed target holds) out known ↔ Kept holds out known ∧ ∀ x, holds target x → out x := by
  constructor
  · intro later
    refine ⟨fun x isKnown => (later x isKnown).imp id (fun ⟨a,held⟩ => ⟨a,held.2⟩),fun x held => ?_⟩
    rcases later x (below target x held) with done | ⟨a,other,held'⟩
    · exact done
    · exact absurd (once a target x held' held) other
  · rintro ⟨kept,spent⟩ x isKnown
    rcases kept x isKnown with done | ⟨a,held⟩
    · exact .inl done
    · by_cases isTarget : a = target
      · exact .inl (spent x (isTarget ▸ held))
      · exact .inr ⟨a,isTarget,held⟩

theorem keptAdded (kept : Kept holds out known) : Kept (added place new holds) out (fun x => known x ∨ new x) := by
  intro x isKnown
  rcases isKnown with old | isNew
  · exact (kept x old).imp id (fun ⟨a,held⟩ => ⟨a,.inl held⟩)
  · exact .inr ⟨place,.inr ⟨rfl,isNew⟩⟩

theorem keptMore {out' : ι → Prop} (more : ∀ x, out x → out' x) (kept : Kept holds out known) : Kept holds out' known :=
  fun x isKnown => (kept x isKnown).imp (more x) id

end NimbleNet.HeldItems
