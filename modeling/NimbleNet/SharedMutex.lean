import Mathlib

/-! A lock that one writer or any number of readers hold. `none`: the thread has to wait, or
the call is undefined: a reader asks for what it holds, or gives back what it does not. -/
namespace NimbleNet

structure SharedMutex where
  writer : Bool
  readers : List Nat
  exclusive : writer = true → readers = []

namespace SharedMutex

def new : SharedMutex := ⟨false,[],fun _ => rfl⟩

def lock (m : SharedMutex) : Option SharedMutex :=
  if m.writer = false ∧ m.readers = [] then some ⟨true,[],fun _ => rfl⟩ else none

def unlock (m : SharedMutex) : SharedMutex := ⟨false,m.readers,fun held => Bool.noConfusion held⟩

def lockShared (m : SharedMutex) (reader : Nat) : Option SharedMutex :=
  if m.writer = false ∧ reader ∉ m.readers then some ⟨false,reader :: m.readers,fun held => Bool.noConfusion held⟩ else none

def unlockShared (m : SharedMutex) (reader : Nat) : Option SharedMutex :=
  if reader ∈ m.readers then
    some ⟨m.writer,m.readers.erase reader,fun held => by rw [m.exclusive held,List.erase_nil]⟩
  else none

variable {m next : SharedMutex} {reader other : Nat}

theorem readExcludes (holds : 0 < m.readers.count reader) : m.writer = false := by
  cases held : m.writer with
  | false => rfl
  | true => simp [m.exclusive held] at holds

theorem lockTaken (taken : m.lock = some next) : m.writer = false ∧ m.readers = [] ∧ next.writer = true ∧ next.readers = [] := by
  unfold lock at taken
  split at taken
  · rename_i unused
    cases taken
    exact ⟨unused.1,unused.2,rfl,rfl⟩
  · contradiction

theorem lockSharedTaken (taken : m.lockShared reader = some next) :
    m.writer = false ∧ next.writer = false ∧ next.readers = reader :: m.readers := by
  unfold lockShared at taken
  split at taken
  · rename_i unused
    cases taken
    exact ⟨unused.1,rfl,rfl⟩
  · contradiction

theorem unlockSharedTaken (taken : m.unlockShared reader = some next) :
    next.writer = m.writer ∧ ∀ other, next.readers.count other = m.readers.count other - if other = reader then 1 else 0 := by
  unfold unlockShared at taken
  split at taken
  · cases taken
    refine ⟨rfl,fun other => ?_⟩
    rw [List.count_erase]
    simp only [beq_iff_eq,@eq_comm _ reader other]
  · contradiction

theorem lockIff : m.lock.isSome = true ↔ m.writer = false ∧ ∀ reader, m.readers.count reader = 0 := by
  unfold lock
  split
  · rename_i unused
    simp [unused.1,unused.2]
  · rename_i held
    refine iff_of_false (by simp) (fun unused => held ⟨unused.1,List.eq_nil_iff_forall_not_mem.mpr (fun reader => ?_)⟩)
    exact List.count_eq_zero.mp (unused.2 reader)

variable (m reader) in
theorem lockSharedIff : (m.lockShared reader).isSome = true ↔ m.writer = false ∧ m.readers.count reader = 0 := by
  unfold lockShared
  rw [List.count_eq_zero]
  split <;> simp_all

variable (m reader) in
theorem unlockSharedIff : (m.unlockShared reader).isSome = true ↔ 0 < m.readers.count reader := by
  unfold unlockShared
  rw [List.count_pos_iff]
  split <;> simp_all

end SharedMutex
end NimbleNet
