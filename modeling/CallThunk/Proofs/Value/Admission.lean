import CallThunk.Value.Image
import CallThunk.Proofs.Ty.WellFormed

/-!
# What slots take

Two rules say when a value of one type may stand for one of another without a word: the slot's own
check when an argument is written, and the conversion of the checker when the wrapper is compiled.
Both hold types to be interchangeable that denote one address. They agree on every pair but one: a
function type converts silently to the pointer to it, whose slot refuses it. Since a pointer to a
function travels as that function, no slot of such a pointer takes a typed value, not even one of
its own type.
-/

namespace CallThunk

namespace Ty

/-- The types of functions, which denote the address of code. -/
inductive IsFunction : Ty → Prop where
  | intro (ret : Ty) (params : List Ty) (variadic : Bool) :
      IsFunction (.function ret params variadic)

theorem IsFunction.ne_pointer {function pointee : Ty} (code : function.IsFunction) :
    function ≠ .pointer pointee := by
  cases code
  nofun

/-- The pairs of types between which a value converts without a warning. -/
inductive Silent : Ty → Ty → Prop where
  | same {ty : Ty} : Silent ty ty
  | ofUntyped {pointee : Ty} : Silent .untypedPointer (.pointer pointee)
  | toUntyped {pointee : Ty} : Silent (.pointer pointee) .untypedPointer
  /-- A function stands for the pointer to it, typed or not. -/
  | ofFunction {function pointee : Ty} (code : function.IsFunction)
      (suits : pointee = .void ∨ pointee = function) : Silent function (.pointer pointee)
  | toFunction {function pointee : Ty} (code : function.IsFunction)
      (suits : pointee = .void ∨ pointee = function) : Silent (.pointer pointee) function

variable {source slot : Ty}

theorem convertTo_eq_identity : source.convertTo slot = .identity ↔ source.Silent slot := by
  constructor
  · intro h
    unfold convertTo at h
    split at h
    next same => exact same ▸ .same
    next =>
      split at h
      · cases h
      · split at h
        next untyped =>
          rcases Bool.or_eq_true_iff.mp untyped with first | second
          · rw [isVoid_iff.mp first]
            exact .ofUntyped
          · rw [isVoid_iff.mp second]
            exact .toUntyped
        next => cases h
      · split at h
        next points => exact .toFunction (.intro ..) (pointsTo_iff.mp points)
        next => cases h
      · split at h
        next points => exact .ofFunction (.intro ..) (pointsTo_iff.mp points)
        next => cases h
      · cases h
  · intro h
    unfold convertTo
    split
    · rfl
    next different =>
      cases h with
      | same => exact absurd rfl different
      | ofUntyped => rfl
      | toUntyped =>
          dsimp only
          rw [if_pos (by simp [isVoid])]
      | ofFunction code suits =>
          cases code
          dsimp only
          rw [if_pos (pointsTo_iff.mpr suits)]
      | toFunction code suits =>
          cases code
          dsimp only
          rw [if_pos (pointsTo_iff.mpr suits)]

/-- A slot takes what converts silently to its type, except for the function that it points to. -/
theorem admits_iff_silent : slot.admits source ↔
    source.Silent slot ∧ ¬ (source.IsFunction ∧ slot = .pointer source) := by
  unfold admits
  rw [Bool.or_eq_true, decide_eq_true_eq]
  constructor
  · rintro (rfl | mixed)
    · exact ⟨.same, fun h => h.1.ne_pointer h.2⟩
    · split at mixed
      next s v =>
        refine ⟨?_, fun h => nomatch h.1⟩
        rcases Bool.or_eq_true_iff.mp mixed with first | second
        · rw [isVoid_iff.mp first]
          exact .toUntyped
        · rw [isVoid_iff.mp second]
          exact .ofUntyped
      next ret params variadic pointee =>
        refine ⟨.toFunction (.intro ..) ?_, fun h => nomatch h.1⟩
        rcases Bool.or_eq_true_iff.mp mixed with untyped | own
        · exact .inl (isVoid_iff.mp untyped)
        · exact .inr (of_decide_eq_true own)
      next pointee ret params variadic =>
        rw [isVoid_iff.mp mixed]
        exact ⟨.ofFunction (.intro ..) (.inl rfl), fun h => nomatch h.2⟩
      next => cases mixed
  · rintro ⟨silent, exception⟩
    cases silent with
    | same => exact .inl rfl
    | ofUntyped => exact .inr (by simp [isVoid])
    | toUntyped => exact .inr rfl
    | ofFunction code suits =>
        rcases suits with rfl | rfl
        · cases code
          exact .inr rfl
        · exact absurd ⟨code, rfl⟩ exception
    | toFunction code suits =>
        cases code
        rcases suits with rfl | rfl
        · exact .inr rfl
        · exact .inr (by simp)

end Ty

namespace Value

/-- A value travels as its own type, unless it is an aggregate or the address of a function. -/
theorem slotTy_cases (v : Value) : v.slotTy = v.ty ∨
    (∃ r, v.ty = .record r ∧ v.slotTy = .pointer (.record r)) ∨
      v.slotTy.IsFunction ∧ v.ty = .pointer v.slotTy := by
  cases v with
  | void | bool | int | float => exact .inl rfl
  | aggregate record bytes => exact .inr (.inl ⟨record, rfl, rfl⟩)
  | pointer pointee address =>
      cases pointee with
      | function ret params variadic => exact .inr (.inr ⟨.intro .., rfl⟩)
      | void | bool | int | float | pointer | record => exact .inl rfl

/-- A value that is no aggregate fits a slot that takes its type. -/
theorem fitSlot_eq_ok {index : Nat} {slot : Ty} {v : Value} (scalar : ∀ r, v.ty ≠ .record r) :
    v.fitSlot index slot = .ok () ↔ slot.admits v.slotTy := by
  unfold fitSlot
  split
  next admits =>
    cases v with
    | aggregate record bytes => exact absurd rfl (scalar record)
    | void | bool | int | float | pointer => simp [admits]
  next refuses => simp [refuses]

end Value

/-- The check of an argument and the conversions of the checker agree on all pairs of types, except
that a function type converts to the pointer to it and is refused by that pointer's slot. So a slot
of a value's own type takes the value, unless it is an aggregate, which travels by reference, or a
pointer to a function, which travels as the function. -/
theorem Ty.admits_iff_convertTo (source slot : Ty) :
    (slot.admits source ↔
      source.convertTo slot = .identity ∧ ¬ (source.IsFunction ∧ slot = .pointer source)) ∧
    ∀ (index : Nat) (v : Value), v.fitSlot index v.ty = .ok () ↔
      (∀ r, v.ty ≠ .record r) ∧ ∀ f, v.ty = .pointer f → ¬ f.IsFunction := by
  refine ⟨?_, fun index v => ?_⟩
  · rw [convertTo_eq_identity]
    exact admits_iff_silent
  rcases v.slotTy_cases with own | ⟨r, aggregate, reference⟩ | ⟨code, pointer⟩
  · have scalar : ∀ r, v.ty ≠ .record r := by
      intro r record
      cases v <;> cases record
      cases own
    rw [Value.fitSlot_eq_ok scalar, own]
    refine ⟨fun _ => ⟨scalar, fun f points code => ?_⟩,
      fun _ => admits_iff_silent.mpr ⟨.same, fun h => h.1.ne_pointer h.2⟩⟩
    cases v <;> cases points
    cases code
    cases own
  · refine ⟨fun fits => ?_, fun h => absurd aggregate (h.1 r)⟩
    unfold Value.fitSlot at fits
    rw [aggregate, reference] at fits
    cases fits
  · have scalar : ∀ r, v.ty ≠ .record r := by
      intro r record
      rw [pointer] at record
      cases record
    rw [Value.fitSlot_eq_ok scalar, pointer]
    refine ⟨fun admits => ?_, fun h => absurd code (h.2 _ rfl)⟩
    exact absurd ⟨code, rfl⟩ (admits_iff_silent.mp admits).2

/-- The slot of a pointer to a function refuses the function, to which it converts silently, and so
it refuses a pointer of its own type. -/
theorem Ty.not_admits_function :
    (Ty.function .void [] false).convertTo (.pointer (.function .void [] false)) = .identity ∧
      (Ty.pointer (.function .void [] false)).admits (.function .void [] false) = false ∧
      (Value.pointer (.function .void [] false) 0x1234).ty = .pointer (.function .void [] false) ∧
      (Value.pointer (.function .void [] false) 0x1234).fitSlot 0
          (.pointer (.function .void [] false)) =
        .error (.wrongType 0 (.pointer (.function .void [] false)) (.function .void [] false)) :=
  ⟨by decide, by decide, rfl, rfl⟩

end CallThunk
