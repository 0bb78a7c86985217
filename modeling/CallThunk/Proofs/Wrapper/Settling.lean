import CallThunk.Proofs.Wrapper.Checking

/-!
# When a wrapper settles

The source of a wrapper settles when it is parsed and checked and the layout of its struct is
recovered. This is a question about the slots of the model alone, whatever the names of the records
that they mention: a name that is no identifier never leads back to the type it came from.
-/

namespace CallThunk

open Checked
open Source (isIdentifier SourceUnit)

theorem isPowerOfTwo_iff {n : Nat} : isPowerOfTwo n ↔ ∃ k, n = 2 ^ k := by
  unfold isPowerOfTwo
  simp only [Bool.and_eq_true, decide_eq_true_eq]
  constructor
  · rintro ⟨-, h⟩
    exact ⟨_, h⟩
  · rintro ⟨k, rfl⟩
    rw [Nat.log2_two_pow]
    exact ⟨Nat.ne_of_gt (Nat.two_pow_pos k), rfl⟩

/-- What it takes for a model to settle: its records can be declared under their names, its types
can be written, its arguments suit the callee, and its struct fits 32 bits. -/
structure StructModel.Compilable (model : StructModel) (structName : String)
    (pointerSize : UInt32) : Prop where
  named : ∀ r ∈ model.mentions, isIdentifier r.name ∧ Ty.builtin? r.name = none ∧
    r.name ≠ structName
  aligned : ∀ r ∈ model.mentions, ∃ k, r.align.toNat = 2 ^ k
  consistent : Consistent model.mentions
  formed : ∀ slot ∈ model.slots, slot.ty.wellFormed
  inhabited : ∀ ty ∈ model.argumentTys, ty ≠ .void
  suits : Suits model.signature.variadic model.signature.params.length model.arity
  converts : ∀ p ∈ model.argumentTys.zip model.signature.params, p.1.Converts p.2
  fits : structSize pointerSize (model.slots.map Slot.ty) < 2 ^ 32

/-- No argument slot is a record when the callee's type is well formed. -/
def StructModel.Plain (model : StructModel) : Prop :=
  model.signature.ty.wellFormed → ∀ ty ∈ model.argumentTys, ∀ r, ty ≠ .record r

theorem StructModel.plain_ofValues (signature : Signature) (args : List Value) :
    (StructModel.ofValues signature args).Plain := by
  rintro - ty hty r rfl
  obtain ⟨v, -, hv⟩ := List.mem_map.mp hty
  cases v with
  | pointer pointee address => cases pointee <;> cases hv
  | void | bool | int | float | aggregate => cases hv

theorem hasValues_of_wellFormedParams {params : List Ty} (h : Ty.wellFormedParams params) :
    ∀ ty ∈ params, ty.hasValues := by
  induction params with
  | nil => exact fun _ hty => nomatch hty
  | cons p params ih =>
      obtain ⟨first, rest⟩ := Bool.and_eq_true_iff.mp h
      rintro ty (_ | ⟨_, hty⟩)
      · exact (Bool.and_eq_true_iff.mp first).1
      · exact ih rest ty hty

theorem StructModel.plain_ofSignature (signature : Signature) :
    (StructModel.ofSignature signature).Plain := by
  rintro formed ty hty r rfl
  have values := hasValues_of_wellFormedParams (Bool.and_eq_true_iff.mp formed).2 _ hty
  cases values

/-- The source of a model is parsed and checked, and the layout of its struct is recovered. -/
structure Settles (name : String) (model : StructModel) (pointerSize : UInt32) (program : Program)
    (layout : StructLayout) : Prop where
  checked : ∃ unit reports problems,
    SourceUnit.parse (WrapperSource.ofModel name model).text = (some unit, reports) ∧
      check ⟨pointerSize, fun _ => none⟩ unit = (some program, problems)
  recovered : StructLayout.recover program.records (WrapperSource.ofModel name model).structName
    model pointerSize = .ok layout

namespace Settles

variable {name : String} {model : StructModel} {pointerSize : UInt32} {program : Program}
  {layout : StructLayout}

theorem ty_of_place {record : PlacedRecord} {slot : Slot} {placed : StructLayout.Placed}
    (h : StructLayout.place pointerSize record slot = .ok placed) :
    ∃ f ∈ record.fields, f.ty = slot.ty := by
  unfold StructLayout.place at h
  split at h
  next field found =>
    dsimp only at h
    split at h
    · cases h
    next same => exact ⟨field, List.mem_of_find?_eq_some found, Classical.not_not.mp same⟩
  next => cases h

theorem ok_of_mapM {α β ε : Type} {f : α → Except ε β} {xs : List α} {ys : List β}
    (h : xs.mapM f = .ok ys) : ∀ x ∈ xs, ∃ y, f x = .ok y := by
  induction xs generalizing ys with
  | nil => exact fun _ hx => nomatch hx
  | cons x xs ih =>
      rw [List.mapM_cons, bind_eq_ok] at h
      obtain ⟨y, first, h⟩ := h
      obtain ⟨ys, rest, -⟩ := bind_eq_ok.mp h
      rintro x' (_ | ⟨_, hx'⟩)
      · exact ⟨y, first⟩
      · exact ih rest x' hx'

/-- The slots of a recovered layout have the types of fields of one record. -/
theorem tys_of_recover {records : RecordTable} {structName : String}
    (h : StructLayout.recover records structName model pointerSize = .ok layout) :
    ∃ record ∈ records, ∀ slot ∈ model.slots, ∃ f ∈ record.fields, f.ty = slot.ty := by
  unfold StructLayout.recover at h
  split at h
  next record found =>
    refine ⟨record, List.mem_of_find?_eq_some found, ?_⟩
    obtain ⟨function, callee, h⟩ := bind_eq_ok.mp h
    obtain ⟨arguments, inputs, h⟩ := bind_eq_ok.mp h
    obtain ⟨result, last, -⟩ := bind_eq_ok.mp h
    intro slot hslot
    rcases mem_slots.mp hslot with rfl | input | output
    · exact ty_of_place callee
    · obtain ⟨placed, hplaced⟩ := ok_of_mapM inputs slot input
      exact ty_of_place hplaced
    · rw [output] at last
      obtain ⟨placed, hplaced, -⟩ := bind_eq_ok.mp last
      exact ty_of_place hplaced
  next => cases h

theorem mem_mentions {r : RecordTy} :
    r ∈ model.mentions ↔ ∃ slot ∈ model.slots, r ∈ slot.ty.mentions := by
  unfold StructModel.mentions
  rw [Ty.mem_mentionsAll]
  simp

/-- A model that settles is admissible, and the records that it mentions are named by
identifiers. -/
theorem admissible (h : Settles name model pointerSize program layout) (plain : model.Plain) :
    model.Admissible ∧ ∀ r ∈ model.mentions, isIdentifier r.name := by
  obtain ⟨unit, reports, problems, parsed, checked⟩ := h.checked
  obtain ⟨record, member, slots⟩ := tys_of_recover h.recovered
  have closed := closed_of_check (fun _ => rfl) parsed checked
  have proper := proper_of_check checked
  have known : ∀ r ∈ model.mentions, program.records.Knows r ∧ isIdentifier r.name := by
    intro r hr
    obtain ⟨slot, hslot, hr⟩ := mem_mentions.mp hr
    obtain ⟨f, hf, ty⟩ := slots slot hslot
    rw [← ty] at hr
    exact closed record member f hf r hr
  have fields : ∀ slot ∈ model.slots, slot.ty ≠ .void ∧ slot.ty.wellFormed := by
    intro slot hslot
    obtain ⟨f, hf, ty⟩ := slots slot hslot
    rw [← ty]
    exact proper record member f hf
  refine ⟨?_, fun r hr => (known r hr).2⟩
  exact {
    free := fun r hr => (known r hr).1.free
    consistent := fun r hr r' hr' => (known r hr).1.unique (known r' hr').1
    formed := fun slot hslot => (fields slot hslot).2
    stored := fun slot hslot => (fields slot hslot).1
    values := fun ty hty => by
      rw [← inputSlots_tys] at hty
      obtain ⟨slot, hslot, rfl⟩ := List.mem_map.mp hty
      refine Ty.hasValues_of_ne (fields slot (inputSlots_subset model hslot)).1 ?_
      exact plain (fields _ (calleeSlot_mem model)).2 _
        (inputSlots_tys model ▸ List.mem_map.mpr ⟨slot, hslot, rfl⟩) }

/-- What a model settles as is written down from the model alone. -/
theorem accepted (h : Settles name model pointerSize program layout) (plain : model.Plain) :
    WrapperSource.Accepted pointerSize (WrapperSource.ofModel name model).structName model ∧
      program = WrapperSource.checkedProgram pointerSize name model ∧
        layout = layoutOf (structRecord pointerSize (WrapperSource.ofModel name model).structName
          model.slots) model := by
  obtain ⟨admissible, named⟩ := h.admissible plain
  obtain ⟨unit, reports, problems, parsed, checked⟩ := h.checked
  obtain ⟨unit', parsed', spells⟩ := @WrapperSource.parse_ofModel name model
    fun slot hslot r hr => named r (mem_mentions.mpr ⟨slot, hslot, hr⟩)
  rw [parsed] at parsed'
  cases parsed'
  have accepted := WrapperSource.accepted_of_check (fun _ => rfl) spells admissible checked
  obtain ⟨problems', checked', -⟩ := WrapperSource.check_of_accepted spells admissible accepted
  rw [checked] at checked'
  cases checked'
  refine ⟨accepted, rfl, ?_⟩
  have unlike : ∀ r ∈ WrapperSource.records model,
      r.name ≠ (WrapperSource.ofModel name model).structName :=
    fun r hr => accepted.unlike r ((WrapperSource.mem_records admissible).mp hr)
  have recovered := recover_structRecord (WrapperSource.find?_structName unlike pointerSize)
    accepted.fits
  exact Except.ok.inj (h.recovered.symm.trans recovered)

end Settles

section
variable {name : String} {model : StructModel} {pointerSize : UInt32}

theorem stored_of_inhabited (inhabited : ∀ ty ∈ model.argumentTys, ty ≠ .void) {slot : Slot}
    (h : slot ∈ model.slots) : slot.ty ≠ .void := by
  rcases mem_slots.mp h with rfl | input | output
  · nofun
  · refine inhabited _ ?_
    rw [← inputSlots_tys]
    exact List.mem_map.mpr ⟨slot, input, rfl⟩
  · rw [(resultSlot?_eq_some output).1]
    intro noResult
    unfold StructModel.resultSlot? at output
    rw [noResult] at output
    cases output

theorem StructModel.Compilable.admissible {structName : String}
    (h : model.Compilable structName pointerSize) (plain : model.Plain) : model.Admissible where
  free r hr := (h.named r hr).2.1
  consistent := h.consistent
  formed := h.formed
  stored _ hslot := stored_of_inhabited h.inhabited hslot
  values ty hty := Ty.hasValues_of_ne (h.inhabited ty hty)
    (plain (h.formed _ (calleeSlot_mem model)) ty hty)

theorem StructModel.Compilable.accepted {structName : String}
    (h : model.Compilable structName pointerSize) :
    WrapperSource.Accepted pointerSize structName model where
  aligned r hr := isPowerOfTwo_iff.mpr (h.aligned r hr)
  unlike r hr := (h.named r hr).2.2
  fits := h.fits
  passes := ⟨h.suits, fun p hp => Ty.converts_iff.mpr (h.converts p hp)⟩

/-- A model settles exactly when it is compilable. -/
theorem settles_iff (plain : model.Plain) :
    (∃ program layout, Settles name model pointerSize program layout) ↔
      model.Compilable (WrapperSource.ofModel name model).structName pointerSize := by
  constructor
  · rintro ⟨program, layout, settles⟩
    obtain ⟨admissible, named⟩ := settles.admissible plain
    obtain ⟨accepted, -, -⟩ := settles.accepted plain
    exact {
      named := fun r hr => ⟨named r hr, admissible.free r hr, accepted.unlike r hr⟩
      aligned := fun r hr => isPowerOfTwo_iff.mp (accepted.aligned r hr)
      consistent := admissible.consistent
      formed := admissible.formed
      inhabited := fun ty hty => by
        rintro rfl
        cases admissible.values _ hty
      suits := accepted.passes.suits
      converts := fun p hp => Ty.converts_iff.mp (accepted.passes.converts p hp)
      fits := accepted.fits }
  · intro compilable
    have admissible := compilable.admissible plain
    obtain ⟨unit, parsed, spells⟩ := @WrapperSource.parse_ofModel name model
      fun slot hslot r hr => (compilable.named r (Settles.mem_mentions.mpr ⟨slot, hslot, hr⟩)).1
    obtain ⟨problems, checked, -⟩ := @WrapperSource.check_of_accepted model
      ⟨pointerSize, fun _ => none⟩ unit name spells admissible compilable.accepted
    have unlike : ∀ r ∈ WrapperSource.records model,
        r.name ≠ (WrapperSource.ofModel name model).structName :=
      fun r hr => (compilable.named r ((WrapperSource.mem_records admissible).mp hr)).2.2
    exact ⟨_, _, ⟨unit, [], problems, parsed, checked⟩,
      recover_structRecord (WrapperSource.find?_structName unlike pointerSize) compilable.fits⟩

end

end CallThunk
