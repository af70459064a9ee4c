import SystemDynamics.Model.Exchange
import SystemDynamics.Proofs.Json.Record

namespace SystemDynamics

open Json (Reader Field Record Value)

section

variable (depth : Nat)

theorem TimeUnit.reader_coherent : TimeUnit.reader.Coherent (depth + 1) :=
  Reader.choice_coherent depth

theorem Horizon.record_coherent : Horizon.record.Coherent (depth + 1) where
  closed := rfl
  fields := by
    simp [record, Field.of_coherent, Reader.float_coherent, TimeUnit.reader_coherent]
  commutes := by
    simp [record, Field.of_commutes]

theorem Stock.record_coherent : Stock.record.Coherent depth where
  closed := rfl
  fields := by
    simp [record, Field.of_coherent, Reader.float_coherent, Reader.text_coherent,
      Reader.optional_coherent]
  commutes := by
    simp [record, Field.of_commutes]

theorem Flow.record_coherent : Flow.record.Coherent depth where
  closed := rfl
  fields := by
    simp [record, Field.of_coherent, Reader.text_coherent, Reader.optional_coherent]
  commutes := by
    simp [record, Field.of_commutes]

theorem Parameter.record_coherent : Parameter.record.Coherent depth where
  closed := rfl
  fields := by
    simp [record, Field.of_coherent, Reader.float_coherent, Reader.text_coherent,
      Reader.optional_coherent]
  commutes := by
    simp [record, Field.of_commutes]

theorem Auxiliary.record_coherent : Auxiliary.record.Coherent depth where
  closed := rfl
  fields := by
    simp [record, Field.of_coherent, Reader.text_coherent, Reader.optional_coherent]
  commutes := by
    simp [record, Field.of_commutes]

theorem Document.record_coherent : Document.record.Coherent (depth + 2) where
  closed := rfl
  fields := by
    have hstock := Reader.list_coherent (Record.reader_coherent (Stock.record_coherent depth))
    have hflow := Reader.list_coherent (Record.reader_coherent (Flow.record_coherent depth))
    have hparameter := Reader.list_coherent (Record.reader_coherent (Parameter.record_coherent depth))
    have hauxiliary := Reader.list_coherent (Record.reader_coherent (Auxiliary.record_coherent depth))
    have hhorizon := Reader.optional_coherent (Record.reader_coherent (Horizon.record_coherent depth))
    simp [record, Field.of_coherent, Reader.text_coherent, Reader.optional_coherent, hstock, hflow,
      hparameter, hauxiliary, hhorizon]
  commutes := by
    simp [record, Field.of_commutes]

end

theorem Document.distinct_of_ofJson {text : String} {d : Document} (h : ofJson text = .ok d)
    {v : Value} (hv : Json.IsTextOf text v) : v.Distinct := by
  obtain ⟨v', rest, hv', hrest, hdistinct, -⟩ :=
    (Reader.read_eq_ok (Record.reader_coherent (record_coherent 0))).mp h
  exact hv.unique ⟨_, rest, hv', hrest⟩ ▸ hdistinct

/-- A text in which no object repeats a name holds a document just if it can be read as a tree that
holds one, and then it is the same. -/
theorem Document.ofJson_eq_ok_iff_ofValue (text : String)
    (h : ∀ v, Json.IsTextOf text v → v.Distinct) (d : Document) :
    ofJson text = .ok d ↔ ∃ v, Value.ofText? text = some v ∧ ofValue v = .ok d := by
  have hdepth : Document.record.reader.Coherent (Json.maxDepth - 1) :=
    Record.reader_coherent (Document.record_coherent (Json.maxDepth - 4))
  simp only [ofJson, ofValue, Reader.read_eq_ok hdepth, Value.ofText?_eq_some]
  constructor
  · rintro ⟨v, rest, hv, hrest, -, hd⟩
    exact ⟨v.sorted, ⟨v, rest, hv, hrest, rfl⟩, hd⟩
  · rintro ⟨_, ⟨v, rest, hv, hrest, rfl⟩, hd⟩
    exact ⟨v, rest, hv, hrest, h v ⟨_, rest, hv, hrest⟩, hd⟩

/-- Fields out of order, a stock as a list that leaves its last fields out, a unit as an object. -/
def Document.scattered : String :=
  "\x7b\"time\": \x7b\"end\": 2, \"unit\": \x7b\"weeks\": null\x7d\x7d, " ++
    "\"stocks\": [[\"cash\", \"Cash\", 7.5]], \"name\": \"Revenue\"\x7d"

theorem Document.ofJson_eq_ok_iff_ofValue_scattered :
    ∃ d, (∀ v, Json.IsTextOf scattered v → v.Distinct) ∧ ofJson scattered = .ok d ∧
      d.name = "Revenue" ∧ d.stocks.length = 1 ∧
      ∃ v, Value.ofText? scattered = some v ∧ ofValue v = .ok d := by
  have hsome : ((ofJson scattered).toOption.bind fun d ↦ some (d.name, d.stocks.length)) =
      some ("Revenue", 1) := by
    decide +kernel
  obtain ⟨d, hd, hsome⟩ := Option.bind_eq_some_iff.mp hsome
  rw [Except.toOption_eq_some] at hd
  rw [Option.some_inj, Prod.mk.injEq] at hsome
  have hdistinct : ∀ v, Json.IsTextOf scattered v → v.Distinct := fun v ↦ distinct_of_ofJson hd
  exact ⟨d, hdistinct, hd, hsome.1, hsome.2,
    (ofJson_eq_ok_iff_ofValue scattered hdistinct d).mp hd⟩

end SystemDynamics
