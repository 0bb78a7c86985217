import CallThunk.Proofs.Machine.Accesses
import CallThunk.Proofs.Wrapper.Recovering

/-!
# Alignment of the argument struct

On targets whose pointers have the size of a power of two, all alignments in the struct of a wrapper
are powers of two, so the largest one is a multiple of every other. Each slot lies at a multiple of
its own alignment, counted from the start of the struct. The code of a wrapper moves whole slots
only, so all its accesses are aligned as long as the struct is.
-/

namespace CallThunk

open Machine (Reg WordTy Builder Code Callees Instr Access)
open Checked (Expr)

/-! ## Powers of two -/

theorem dvd_of_powers {m n : Nat} (hm : ∃ k, m = 2 ^ k) (hn : ∃ k, n = 2 ^ k) (le : m ≤ n) :
    m ∣ n := by
  obtain ⟨j, rfl⟩ := hm
  obtain ⟨k, rfl⟩ := hn
  exact Nat.pow_dvd_pow 2 ((Nat.pow_le_pow_iff_right (by decide)).mp le)

variable {pointerSize : UInt32} {model : StructModel} {name : String}

/-- Types are aligned to powers of two if their records and the pointers of the target are. -/
theorem Ty.align_power (pointer : ∃ k, pointerSize.toNat = 2 ^ k) {ty : Ty}
    (records : ∀ r, ty = .record r → ∃ k, r.align.toNat = 2 ^ k) :
    ∃ k, (ty.align pointerSize).toNat = 2 ^ k := by
  cases ty with
  | void => exact ⟨0, rfl⟩
  | bool => exact ⟨0, rfl⟩
  | int kind =>
      cases kind
      case i8 | u8 => exact ⟨0, rfl⟩
      case i16 | u16 => exact ⟨1, rfl⟩
      case i32 | u32 => exact ⟨2, rfl⟩
      case i64 | u64 => exact ⟨3, rfl⟩
  | float kind =>
      cases kind
      · exact ⟨2, rfl⟩
      · exact ⟨3, rfl⟩
  | pointer | function => exact pointer
  | record r => exact records r rfl

/-! ## Fields -/

/-- The alignment of fields is a power of two if those of all fields are, and none of these is
larger. -/
theorem fieldsAlign_power {align : UInt32} {tys : List Ty} (first : ∃ k, align.toNat = 2 ^ k)
    (all : ∀ ty ∈ tys, ∃ k, (ty.align pointerSize).toNat = 2 ^ k) :
    (∃ k, (fieldsAlign pointerSize align tys).toNat = 2 ^ k) ∧
      align.toNat ≤ (fieldsAlign pointerSize align tys).toNat ∧
      ∀ ty ∈ tys, (ty.align pointerSize).toNat ≤ (fieldsAlign pointerSize align tys).toNat := by
  induction tys generalizing align with
  | nil => exact ⟨first, Nat.le_refl _, nofun⟩
  | cons ty tys ih =>
      have head := all ty (List.mem_cons_self ..)
      have larger : (∃ k, (max align (ty.align pointerSize)).toNat = 2 ^ k) ∧
          align.toNat ≤ (max align (ty.align pointerSize)).toNat ∧
          (ty.align pointerSize).toNat ≤ (max align (ty.align pointerSize)).toNat := by
        rw [toNat_max]
        refine ⟨?_, Nat.le_max_left .., Nat.le_max_right ..⟩
        rcases Nat.le_total align.toNat (ty.align pointerSize).toNat with le | le
        · rwa [Nat.max_eq_right le]
        · rwa [Nat.max_eq_left le]
      obtain ⟨power, least, rest⟩ := ih larger.1 fun ty hty => all ty (List.mem_cons_of_mem _ hty)
      refine ⟨power, Nat.le_trans larger.2.1 least, ?_⟩
      rintro ty' (_ | ⟨_, hty⟩)
      · exact Nat.le_trans larger.2.2 least
      · exact rest ty' hty

/-- Fields lie at multiples of their alignments. -/
theorem aligned_placeSlots {stop : Nat} {slots : List Slot}
    (fits : fieldsStop pointerSize stop (slots.map Slot.ty) < 2 ^ 32)
    (positive : ∀ slot ∈ slots, 0 < (slot.ty.align pointerSize).toNat) :
    ∀ f ∈ placeSlots pointerSize stop slots, f.align.toNat ∣ f.offset.toNat := by
  induction slots generalizing stop with
  | nil => exact nofun
  | cons slot slots ih =>
      rw [List.map_cons, fieldsStop] at fits
      have later := le_fieldsStop pointerSize
        (alignUp stop (slot.ty.align pointerSize).toNat + (slot.ty.size pointerSize).toNat)
        (slots.map Slot.ty)
      rintro f (_ | ⟨_, hf⟩)
      · dsimp only
        rw [UInt32.toNat_ofNat', Nat.mod_eq_of_lt (by omega)]
        have aligned := dvd_alignUp stop (slot.ty.align pointerSize).toNat
        rwa [Nat.max_eq_left (positive slot (List.mem_cons_self ..))] at aligned
      · exact ih fits (fun slot hslot => positive slot (List.mem_cons_of_mem _ hslot)) f hf

/-! ## The struct -/

/-- A layout in which slots are aligned wherever the struct is. -/
structure StructLayout.Aligned (layout : StructLayout) : Prop where
  power : ∃ k, layout.align.toNat = 2 ^ k
  offset : ∀ slot ∈ layout.slots, slot.align.toNat ∣ slot.offset.toNat
  struct : ∀ slot ∈ layout.slots, slot.align.toNat ∣ layout.align.toNat

/-- The struct of a wrapper that is accepted is aligned. -/
theorem aligned_of_accepted (pointer : ∃ k, pointerSize.toNat = 2 ^ k)
    (accepted : WrapperSource.Accepted pointerSize name model) :
    (layoutOf (structRecord pointerSize name model.slots) model).Aligned := by
  have powers : ∀ slot ∈ model.slots, ∃ k, (slot.ty.align pointerSize).toNat = 2 ^ k := by
    intro slot member
    refine Ty.align_power pointer fun r record => isPowerOfTwo_iff.mp (accepted.aligned r ?_)
    refine Settles.mem_mentions.mpr ⟨slot, member, ?_⟩
    rw [record]
    exact List.mem_singleton_self r
  have positive : ∀ slot ∈ model.slots, 0 < (slot.ty.align pointerSize).toNat := by
    intro slot member
    obtain ⟨k, power⟩ := powers slot member
    rw [power]
    exact Nat.two_pow_pos k
  obtain ⟨power, -, largest⟩ := @fieldsAlign_power pointerSize 1 (model.slots.map Slot.ty)
    ⟨0, rfl⟩ fun ty hty => by
      obtain ⟨slot, member, rfl⟩ := List.mem_map.mp hty
      exact powers slot member
  have stop := le_alignUp (fieldsStop pointerSize 0 (model.slots.map Slot.ty))
    (fieldsAlign pointerSize 1 (model.slots.map Slot.ty)).toNat
  have offsets := aligned_placeSlots (Nat.lt_of_le_of_lt stop accepted.fits) positive
  refine ⟨power, fun place member => ?_, fun place member => ?_⟩ <;> rw [slots_layoutOf] at member
  · obtain ⟨slot, hslot, rfl⟩ := List.mem_map.mp member
    obtain ⟨f, hf, found, -⟩ := @field?_structRecord name pointerSize model slot hslot
    rw [fieldPlace_eq found]
    exact offsets f hf
  · obtain ⟨slot, hslot, rfl⟩ := List.mem_map.mp member
    rw [(@fieldPlace_structRecord name pointerSize model slot hslot).2]
    exact dvd_of_powers (powers slot hslot) power
      (largest slot.ty (List.mem_map_of_mem hslot))

/-! ## Accesses of a wrapper -/

/-- Where values are moved when each slot is moved as a whole. -/
def SlotPlaces (record : PlacedRecord) (model : StructModel) (offset : Nat) (word : WordTy) :
    Prop :=
  ∃ slot ∈ model.slots, slot.ty.word? = some word ∧
    offset = (fieldPlace record slot).offset.toNat

section
variable {record : PlacedRecord} {b b' : Builder} {found : Option Reg}

/-- The struct is bound to the parameter. -/
theorem gives_genExpr_structBase {dest : Option Reg}
    (gives : Gives (Machine.genExpr [0] dest (structBase record)) b found b') :
    found = some 0 ∧ b' = b := by
  unfold structBase at gives
  rw [Machine.genExpr] at gives
  exact gives_pure.mp gives

theorem gives_genValue_structBase {r : Reg}
    (gives : Gives (Machine.genValue [0] (structBase record)) b r b') : r = 0 ∧ b' = b := by
  obtain ⟨found, t, base, required⟩ := gives_bind.mp gives
  obtain ⟨rfl, rfl⟩ := gives_genExpr_structBase base
  obtain ⟨same, rfl⟩ := Machine.gives_require.mp required
  exact ⟨(Option.some.inj same).symm, rfl⟩

theorem eq_of_fieldOffset {offset : UInt32} {n : Nat} (h : Machine.fieldOffset offset = .ok n) :
    n = offset.toNat := by
  unfold Machine.fieldOffset at h
  split at h
  · exact (Except.ok.inj h).symm
  · cases h

/-- Loading a slot moves all of it. -/
theorem within_slotLoad {slot : Slot} (member : slot ∈ model.slots)
    (h : b.Within (SlotPlaces record model))
    (gives : Gives (Machine.genExpr [0] none (slotLoad record slot)) b found b') :
    b'.Within (SlotPlaces record model) := by
  unfold slotLoad at gives
  rw [Machine.genExpr] at gives
  simp only [gives_bind, gives_liftM, Machine.gives_require, Machine.gives_define,
    gives_pure] at gives
  obtain ⟨_, _, base, r, _, ⟨rfl, rfl⟩, word, _, ⟨hword, rfl⟩, n, _, ⟨offset, rfl⟩, _, _,
    ⟨rfl, rfl⟩, rfl, rfl⟩ := gives
  obtain ⟨zero, rfl⟩ := gives_genExpr_structBase base
  have place : SlotPlaces record model n word :=
    ⟨slot, member, Machine.wordTy_eq_ok.mp hword, eq_of_fieldOffset offset⟩
  exact (h.define (i := .load word r n) ⟨Option.some.inj zero, place⟩ rfl).1

theorem within_passAs {slot : Slot} {param : Option Ty} (member : slot ∈ model.slots)
    (h : b.Within (SlotPlaces record model))
    (gives : Gives (Machine.genExpr [0] none (passAs (slotLoad record slot) param)) b found b') :
    b'.Within (SlotPlaces record model) := by
  unfold passAs at gives
  split at gives
  · split at gives
    · exact within_slotLoad member h gives
    · rw [Machine.genExpr] at gives
      simp only [gives_bind, Machine.gives_require, gives_pure] at gives
      obtain ⟨_, _, load, _, _, ⟨rfl, rfl⟩, _, _, converted, rfl, rfl⟩ := gives
      exact (within_slotLoad member h load).convert converted
  · exact within_slotLoad member h gives

theorem within_passedArgs {slots : List Slot} {params : List Ty} {rs : List Reg}
    (members : slots ⊆ model.slots) (h : b.Within (SlotPlaces record model))
    (gives : Gives (Machine.genArgs [0] (passedArgs record params slots)) b rs b') :
    b'.Within (SlotPlaces record model) := by
  induction slots generalizing params b rs with
  | nil =>
      rw [passedArgs, Machine.genArgs] at gives
      obtain ⟨-, rfl⟩ := gives_pure.mp gives
      exact h
  | cons slot slots ih =>
      rw [passedArgs, Machine.genArgs] at gives
      simp only [gives_bind, Machine.gives_require, gives_pure] at gives
      obtain ⟨_, _, first, _, _, ⟨rfl, rfl⟩, _, _, rest, rfl, rfl⟩ := gives
      exact ih (List.subset_of_cons_subset members)
        (within_passAs (members (List.mem_cons_self ..)) h first) rest

/-- The call loads slots, and its result has the word of the result type. -/
theorem within_wrapperCall {dest : Option Reg} (h : b.Within (SlotPlaces record model))
    (gives : Gives (Machine.genExpr [0] dest (wrapperCall record model)) b found b') :
    b'.Within (SlotPlaces record model) ∧
      ∀ r ∈ found, b'.types[r]? = model.signature.ret.word? := by
  unfold wrapperCall at gives
  rw [Machine.genExpr] at gives
  simp only [gives_bind, gives_liftM, Machine.gives_require] at gives
  obtain ⟨_, _, callee, _, t, ⟨rfl, rfl⟩, _, t', hidden, _, _, args, _, _, ⟨signature, rfl⟩,
    call⟩ := gives
  have target := within_slotLoad (calleeSlot_mem model) h callee
  -- the hidden argument is a value that was there before
  have same : t' = t := by
    unfold Machine.resultPointer at hidden
    split at hidden
    · exact (gives_pure.mp hidden).2
    · exact absurd hidden not_gives_throw
    · exact (gives_pure.mp hidden).2
  rw [same] at args
  have passed := within_passedArgs (inputSlots_subset model) target args
  obtain ⟨within, result⟩ := passed.emitCall call
  rw [Machine.result_of_machineSignature signature] at result
  exact ⟨within, result⟩

theorem within_genBody_nil {locals : List Reg} {u : PUnit} (h : b.Within (SlotPlaces record model))
    (gives : Gives (Machine.genBody locals []) b u b') : b'.Within (SlotPlaces record model) := by
  rw [Machine.genBody] at gives
  rw [Machine.gives_emit.mp gives]
  exact h.emit (i := .ret) trivial rfl

/-- A result is stored to the whole of its slot, unless the callee leaves it there. -/
theorem within_keepCall {u : PUnit} (h : b.Within (SlotPlaces record model))
    (gives : Gives (Machine.genBody [0] [keepCall record model]) b u b') :
    b'.Within (SlotPlaces record model) := by
  unfold keepCall at gives
  split at gives
  next slot result =>
    have member : slot ∈ model.slots := mem_slots.mpr (.inr (.inr result))
    split at gives
    · rw [Machine.genBody] at gives
      simp only [Expr.isCall, wrapperCall, if_true, gives_bind] at gives
      obtain ⟨_, _, base, _, b₁, address, _, _, call, last⟩ := gives
      obtain ⟨rfl, rfl⟩ := gives_genValue_structBase base
      have here : b₁.Within (SlotPlaces record model) := by
        unfold Machine.fieldAddress at address
        split at address
        · rw [(gives_pure.mp address).2]
          exact h
        · rw [(Machine.gives_define.mp address).2]
          exact (h.define (i := .addImm 0 _) trivial rfl).1
      exact within_genBody_nil (within_wrapperCall here call).1 last
    · rw [Machine.genBody] at gives
      simp only [gives_bind, gives_liftM, Machine.gives_emit] at gives
      obtain ⟨_, _, base, r, b₁, value, n, _, ⟨offset, rfl⟩, _, _, rfl, last⟩ := gives
      obtain ⟨rfl, rfl⟩ := gives_genValue_structBase base
      obtain ⟨_, _, call, required⟩ := gives_bind.mp value
      obtain ⟨rfl, rfl⟩ := Machine.gives_require.mp required
      obtain ⟨within, held⟩ := within_wrapperCall h call
      obtain ⟨ty, -⟩ := resultSlot?_eq_some result
      have values : slot.ty.hasValues := Ty.hasValues_of_ne (by
        intro void
        unfold StructModel.resultSlot? at result
        rw [← ty, void] at result
        cases result) (by assumption)
      obtain ⟨word, hword⟩ := Machine.word?_of_hasValues values
      have stored := held r rfl
      rw [← ty, hword] at stored
      have place : SlotPlaces record model n word :=
        ⟨slot, member, hword, eq_of_fieldOffset offset⟩
      exact within_genBody_nil
        (within.emit (i := .store r 0 n) ⟨rfl, word, stored, place⟩ rfl) last
  next =>
    rw [Machine.genBody] at gives
    obtain ⟨_, _, call, last⟩ := gives_bind.mp gives
    exact within_genBody_nil (within_wrapperCall h call).1 last

theorem within_wrapperBody {fn : String} {code : Code}
    (lowered : Code.ofFunction ⟨fn, wrapperBody record model⟩ = .ok code) :
    Machine.Within (SlotPlaces record model) [.i64] code.instrs := by
  obtain ⟨⟨u, b⟩, gen, code_eq⟩ := bind_eq_ok.mp lowered
  cases code_eq
  have gives : Gives (Machine.genBody [] (wrapperBody record model)) ⟨[], 1⟩ u b := gen
  unfold wrapperBody at gives
  rw [Machine.genBody] at gives
  obtain ⟨r, t, bound, rest⟩ := gives_bind.mp gives
  -- converting the parameter to the struct's address takes no instruction
  obtain ⟨_, _, converted, required⟩ := gives_bind.mp bound
  rw [Machine.genExpr, Machine.genExpr] at converted
  simp only [gives_bind, Machine.gives_require, gives_pure] at converted
  obtain ⟨_, _, ⟨rfl, rfl⟩, _, _, ⟨zero, rfl⟩, _, _, same, rfl, rfl⟩ := converted
  obtain ⟨rfl, rfl⟩ := gives_pure.mp same
  obtain ⟨held, rfl⟩ := Machine.gives_require.mp required
  rw [← Option.some.inj zero] at held
  rw [← Option.some.inj held] at rest
  exact (within_keepCall .start rest).code

/-- The code of a wrapper accesses nothing but slots, each as a whole, whatever it calls. -/
theorem accesses_wrapperBody {fn : String} {code : Code}
    (lowered : Code.ofFunction ⟨fn, wrapperBody record model⟩ = .ok code) (callees : Callees)
    (param : UInt64) (contents : Contents) :
    ∀ access ∈ code.accesses callees param contents, ∃ slot ∈ model.slots,
      slot.ty.word? = some access.ty ∧
        access.address = param + (fieldPlace record slot).offset.toUInt64 := by
  intro access made
  obtain ⟨_, ⟨slot, member, word, rfl⟩, address⟩ :=
    Code.accesses_of_within (within_wrapperBody lowered) access made
  rw [UInt64.ofNat_uInt32ToNat] at address
  exact ⟨slot, member, word, address⟩

end

/-- On the host, values fill as many bytes as they are aligned to. -/
theorem size_of_word? {ty : Ty} {word : WordTy} (h : ty.word? = some word) :
    (ty.size 8).toNat = word.bytes ∧ (ty.align 8).toNat = word.bytes := by
  cases ty with
  | void | record => cases h
  | int kind => cases kind <;> cases h <;> exact ⟨rfl, rfl⟩
  | float kind => cases kind <;> cases h <;> exact ⟨rfl, rfl⟩
  | bool | pointer | function =>
      cases h
      exact ⟨rfl, rfl⟩

end CallThunk
