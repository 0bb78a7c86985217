import CallThunk.Ty.Reader
import CallThunk.Checked.Conversion

/-!
# Well-formed types

A value of a type fits a register unless the type is `void` or a record. Parameters are passed in
registers, so a type is well formed when every parameter of every function type that it mentions has
such values.
-/

namespace CallThunk

namespace Ty

/-- Neither `void` nor a record: what a parameter or a local can be. -/
def hasValues : Ty → Bool
  | void | record _ => false
  | _ => true

/-- Whether a value of one type is one of another after a conversion: between integers, or between
types that denote addresses. -/
def castsTo : Ty → Ty → Bool
  | int _, int _ => true
  | pointer _, pointer _ | pointer _, function .. | function .., pointer _
  | function .., function .. => true
  | _, _ => false

end Ty

mutual
/-- Whether all parameters of all function types in a type have values. -/
def Ty.wellFormed : Ty → Bool
  | .pointer pointee => pointee.wellFormed
  | .function ret params _ => ret.wellFormed && Ty.wellFormedParams params
  | .void | .bool | .int _ | .float _ | .record _ => true
/-- The same for the types of parameters, which must have values themselves. -/
def Ty.wellFormedParams : List Ty → Bool
  | [] => true
  | p :: ps => p.hasValues && p.wellFormed && Ty.wellFormedParams ps
end

namespace Ty

theorem hasValues_of_ne {ty : Ty} (notVoid : ty ≠ .void) (notRecord : ∀ r, ty ≠ .record r) :
    ty.hasValues := by
  cases ty with
  | void => exact absurd rfl notVoid
  | record r => exact absurd rfl (notRecord r)
  | bool | int | float | pointer | function => rfl

theorem hasValues_of_castsTo {source target : Ty} (h : source.castsTo target) :
    target.hasValues := by
  cases source <;> cases target <;> first | rfl | exact Bool.noConfusion h

theorem hasValues_of_castsTo_left {source target : Ty} (h : source.castsTo target) :
    source.hasValues := by
  cases source <;> cases target <;> first | rfl | exact Bool.noConfusion h

theorem isVoid_iff {ty : Ty} : ty.isVoid ↔ ty = .void := by
  cases ty <;> simp [isVoid]

theorem isPointer_iff {ty : Ty} : ty.isPointer ↔ ∃ pointee, ty = .pointer pointee := by
  cases ty <;> simp [isPointer]

theorem wellFormed_of_builtin {name : String} {ty : Ty} (h : builtin? name = some ty) :
    ty.wellFormed := by
  unfold builtin? at h
  split at h <;> cases h <;> rfl

/-- A value of one type can be passed or stored as one of another. -/
inductive Converts : Ty → Ty → Prop where
  | same {ty : Ty} : Converts ty ty
  | int {a b : IntKind} : Converts (.int a) (.int b)
  | pointer {a b : Ty} : Converts (.pointer a) (.pointer b)
  | ofFunction {ret pointee : Ty} {params : List Ty} {variadic : Bool}
      (suits : pointee = .void ∨ pointee = .function ret params variadic) :
      Converts (.function ret params variadic) (.pointer pointee)
  | toFunction {ret pointee : Ty} {params : List Ty} {variadic : Bool}
      (suits : pointee = .void ∨ pointee = .function ret params variadic) :
      Converts (.pointer pointee) (.function ret params variadic)

theorem pointsTo_iff {pointee function : Ty} :
    pointee.pointsTo function ↔ pointee = .void ∨ pointee = function := by
  unfold pointsTo
  rw [Bool.or_eq_true, isVoid_iff, decide_eq_true_eq]

theorem converts_iff {source target : Ty} :
    source.convertTo target ≠ .incompatible ↔ source.Converts target := by
  constructor
  · intro h
    unfold convertTo at h
    split at h
    next same => exact same ▸ .same
    next =>
      split at h
      · exact .int
      · exact .pointer
      · split at h
        next points => exact .toFunction (pointsTo_iff.mp points)
        next => exact absurd rfl h
      · split at h
        next points => exact .ofFunction (pointsTo_iff.mp points)
        next => exact absurd rfl h
      · exact absurd rfl h
  · intro h
    unfold convertTo
    split
    · nofun
    next different =>
      cases h with
      | same => exact absurd rfl different
      | int => nofun
      | pointer =>
          dsimp only
          split <;> nofun
      | ofFunction suits =>
          dsimp only
          rw [if_pos (pointsTo_iff.mpr suits)]
          nofun
      | toFunction suits =>
          dsimp only
          rw [if_pos (pointsTo_iff.mpr suits)]
          nofun

/-- Two types between which a value converts are the same type, or one casts to the other. -/
theorem eq_or_castsTo {source target : Ty} (h : source.convertTo target ≠ .incompatible) :
    source = target ∨ source.castsTo target := by
  cases converts_iff.mp h with
  | same => exact .inl rfl
  | int | pointer | ofFunction | toFunction => exact .inr rfl

end Ty

end CallThunk
