import NimbleNet.InsertStatement
import NimbleNet.PartialMaps

/-! How add_event ends, with the database it works on. A statement that fails changes
nothing in the database. -/
namespace NimbleNet.AddEventOutcomes
open InsertStatement PartialMaps UserEventsManager

variable {V : ElementType → Type} [∀ d, Scalar (V d)] {δ : Type}

/- `exec`: the database after a statement, or none for an error. -/
def addEventOn (dump : Json → String) (parse : String → Option Json) (exec : δ → String → Option δ)
    (clock : Nat → Nat → Int) (stamp insertTime : Int) (m : UserEventsManager V) (db : δ) (event tableName : String) :
    AddEventResult V × δ :=
  match m.tableStoreMap[tableName]? with
  | none => (.returned false m,db)
  | some tableStore =>
      match parse event with
      | none => (.returned false m,db)
      | some eventMapTable =>
          match columnsOfEvent dump eventMapTable with
          | none => (.threw,db)
          | some columns =>
              if !tableStore.checkColumnsOfRow ⟨stamp,rowOf columns⟩ then (.returned false m,db)
              else
                match exec db (insertCommand tableName insertTime columns) with
                | none => (.returned false m,db)
                | some db' => (.returned true {m with
                    tableStoreMap := m.tableStoreMap.insert tableName (tableStore.addRow clock ⟨stamp,rowOf columns⟩)},db')

theorem addEventOnResult (dump : Json → String) (parse : String → Option Json) (exec : δ → String → Option δ)
    (clock : Nat → Nat → Int) (stamp insertTime : Int) (m : UserEventsManager V) (db : δ) (event tableName : String) :
    (addEventOn dump parse exec clock stamp insertTime m db event tableName).1 =
      m.addEvent dump parse (fun statement => (exec db statement).isSome) clock stamp insertTime event tableName := by
  unfold addEventOn UserEventsManager.addEvent
  cases m.tableStoreMap[tableName]? with
  | none => rfl
  | some tableStore =>
      cases parse event with
      | none => rfl
      | some eventMapTable =>
          cases read : columnsOfEvent dump eventMapTable with
          | none => simp only [read]
          | some columns =>
              cases checked : tableStore.checkColumnsOfRow ⟨stamp,rowOf columns⟩ with
              | false =>
                  simp only [rowOf] at checked
                  simp only [read,rowOf,checked,Bool.not_false,if_true]
              | true =>
                  simp only [rowOf] at checked
                  simp only [read,rowOf,checked,Bool.not_true,Bool.false_eq_true,if_false]
                  cases exec db (insertCommand tableName insertTime columns) <;> rfl

section Documents
variable {dump : Json → String}

end Documents

section Calls
variable {dump : Json → String} {parse : String → Option Json} {exec : δ → String → Option δ} {clock : Nat → Nat → Int}
  {stamp insertTime : Int} {m : UserEventsManager V} {db : δ} {event tableName : String}

end Calls

end NimbleNet.AddEventOutcomes
