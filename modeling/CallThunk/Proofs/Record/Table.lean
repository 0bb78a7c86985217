import CallThunk.Record.Layout

/-!
# Looking up records

What an insertion does to the records of a table, seen through `RecordTable.find?`.
-/

namespace CallThunk.RecordTable

variable {table : RecordTable} {name : String} {record : PlacedRecord}

theorem mem_of_find? (h : table.find? name = some record) : record ∈ table :=
  List.mem_of_find?_eq_some h

theorem name_of_find? (h : table.find? name = some record) : record.name = name := by
  simpa using List.find?_some h

theorem contains_eq_false_iff : table.contains name = false ↔ table.find? name = none := by
  simp [contains, find?]

/-- An insertion changes the record of its own name only. -/
theorem find?_insert (table : RecordTable) (record : PlacedRecord) (name : String) :
    (table.insert record).find? name =
      if record.name = name then some record else table.find? name := by
  induction table with
  | nil => simp [insert, find?]
  | cons old table ih =>
      unfold insert find? at ih ⊢
      rw [List.map_cons, List.cons_append, List.find?_cons, ih, List.find?_cons]
      by_cases hn : record.name = name
      · subst hn
        by_cases ho : old.name = record.name <;> simp [ho]
      · by_cases ho : old.name = record.name
        · simp [ho, hn]
        · simp [ho, hn]

/-- Behind an insertion no other record has the name. -/
theorem mem_insert_iff {r : PlacedRecord} :
    r ∈ table.insert record ↔ r = record ∨ r ∈ table ∧ r.name ≠ record.name := by
  unfold insert
  rw [List.mem_append, List.mem_map, List.mem_singleton]
  constructor
  · rintro (⟨old, hold, rfl⟩ | same)
    · split
      next => exact .inl rfl
      next other => exact .inr ⟨hold, other⟩
    · exact .inl same
  · rintro (same | ⟨old, other⟩)
    · exact .inr same
    · exact .inl ⟨r, old, if_neg other⟩

theorem mem_insert {r : PlacedRecord} (h : r ∈ table.insert record) : r = record ∨ r ∈ table :=
  (mem_insert_iff.mp h).imp_right And.left

/-- One table knows all records of another. -/
def Extends (later table : RecordTable) : Prop :=
  ∀ name record, table.find? name = some record → later.find? name = some record

theorem Extends.refl (table : RecordTable) : table.Extends table := fun _ _ h => h

theorem Extends.trans {first second third : RecordTable} (h : third.Extends second)
    (h' : second.Extends first) : third.Extends first := fun name record hr =>
  h name record (h' name record hr)

theorem extends_insert (h : table.find? record.name = none) :
    (table.insert record).Extends table := by
  intro name found hf
  rw [find?_insert, if_neg]
  · exact hf
  · rintro rfl
    rw [h] at hf
    cases hf

end CallThunk.RecordTable
