import CallThunk.Proofs.Record.Placement
import Mathlib.Data.List.Induction
import Mathlib.Order.Bounds.Basic

/-!
# Shapes of structs

Where the fields of a struct lie by the rules of C, in numbers without a bound: each field at the
least multiple of its alignment that is not below the end of the field before, the struct aligned as
its most aligned field, and its size the least multiple of that alignment that is not below the last
end. A placement in 32-bit numbers has the same shape as long as all of it fits; when a number does
not fit, no number behind it does.
-/

namespace CallThunk

/-! ## Rounding up -/

/-- Rounding up gives the least multiple that is not below a number. -/
theorem isLeast_alignUp (n align : Nat) :
    IsLeast {m | n ≤ m ∧ max align 1 ∣ m} (alignUp n align) := by
  refine ⟨⟨le_alignUp n align, dvd_alignUp n align⟩, ?_⟩
  rintro m ⟨le, k, rfl⟩
  have pos : 0 < max align 1 := by omega
  rw [Nat.mul_comm]
  refine Nat.mul_le_mul_right _ (Nat.le_of_lt_succ ((Nat.div_lt_iff_lt_mul pos).mpr ?_))
  rw [Nat.succ_mul, Nat.mul_comm k]
  omega

theorem word32?_eq_some {n : Nat} {w : UInt32} : word32? n = some w ↔ w.toNat = n := by
  unfold word32?
  split
  next small =>
    rw [Option.some.injEq, ← UInt32.toNat_inj, UInt32.toNat_ofNat_of_lt' small, eq_comm]
  next large => exact ⟨nofun, fun same => absurd (same ▸ w.toNat_lt) large⟩

/-- A number that does not fit 32 bits does not fit when it is rounded up either. -/
theorem word32?_alignUp (n align : Nat) :
    ((word32? n).bind fun w => word32? (alignUp w.toNat align)) = word32? (alignUp n align) := by
  cases fits : word32? n with
  | some w =>
      rw [Option.bind_some, word32?_eq_some.mp fits]
  | none =>
      have large := Nat.le_trans (word32?_eq_none.mp fits) (le_alignUp n align)
      rw [word32?_eq_none.mpr large]
      rfl

/-! ## Extents -/

/-- The bytes that a field takes in a struct of any size. -/
structure Extent where
  offset : Nat
  size : Nat
  align : Nat
  deriving DecidableEq

/-- One past the last byte. -/
def Extent.stop (e : Extent) : Nat := e.offset + e.size

namespace Extent

/-- Fields lie behind a number of bytes, each at the least multiple of its alignment that is not
below the end of the one before, up to the end of the last one. -/
inductive Follow : (start : Nat) → List Extent → (stop : Nat) → Prop where
  | nil {start : Nat} : Follow start [] start
  | cons {start stop : Nat} {e : Extent} {es : List Extent}
      (least : IsLeast {n | start ≤ n ∧ max e.align 1 ∣ n} e.offset)
      (rest : Follow e.stop es stop) : Follow start (e :: es) stop

namespace Follow

variable {start stop stop' : Nat} {e : Extent} {es es' : List Extent}

theorem le (h : Follow start es stop) : start ≤ stop := by
  induction h with
  | nil => exact Nat.le_refl _
  | @cons start stop e es least _ ih =>
      exact Nat.le_trans least.1.1 (Nat.le_trans (Nat.le_add_right ..) ih)

theorem append_iff :
    Follow start (es ++ es') stop ↔ ∃ middle, Follow start es middle ∧ Follow middle es' stop := by
  induction es generalizing start with
  | nil =>
      constructor
      · exact fun h => ⟨start, .nil, h⟩
      · rintro ⟨_, ⟨⟩, h⟩
        exact h
  | cons e es ih =>
      constructor
      · rintro (_ | ⟨least, rest⟩)
        obtain ⟨middle, first, second⟩ := ih.mp rest
        exact ⟨middle, .cons least first, second⟩
      · rintro ⟨middle, _ | ⟨least, first⟩, second⟩
        exact .cons least (ih.mpr ⟨middle, first, second⟩)

/-- The end of the fields is determined by them. -/
theorem stop_unique (h : Follow start es stop) (h' : Follow start es stop') : stop = stop' := by
  induction h with
  | nil =>
      cases h'
      rfl
  | cons _ _ ih =>
      obtain _ | ⟨-, rest⟩ := h'
      exact ih rest

/-- Fields lie behind one another, and inside the bytes that they take together. -/
theorem pairwise (h : Follow start es stop) :
    es.Pairwise (fun a b => a.stop ≤ b.offset) ∧ ∀ e ∈ es, start ≤ e.offset ∧ e.stop ≤ stop := by
  induction h with
  | nil => exact ⟨.nil, nofun⟩
  | @cons start stop e es least rest ih =>
      obtain ⟨behind, inside⟩ := ih
      refine ⟨List.pairwise_cons.mpr ⟨fun b hb => (inside b hb).1, behind⟩, ?_⟩
      rintro b (_ | ⟨_, hb⟩)
      · exact ⟨least.1.1, rest.le⟩
      · have before := least.1.1
        have first := (inside b hb).1
        unfold Extent.stop at first
        exact ⟨by omega, (inside b hb).2⟩

/-- Fields lie at multiples of their alignments. -/
theorem dvd (h : Follow start es stop) : ∀ e ∈ es, max e.align 1 ∣ e.offset := by
  induction h with
  | nil => exact nofun
  | cons least _ ih =>
      rintro e (_ | ⟨_, he⟩)
      · exact least.1.2
      · exact ih e he

end Follow

end Extent

/-! ## Structs -/

/-- Extents of the fields of a struct of any size, with its own alignment and size. -/
structure Shape where
  fields : List Extent
  align : Nat
  size : Nat
  deriving DecidableEq

namespace Shape

/-- The alignment of the most aligned of some fields. -/
def IsAlign (fields : List Extent) (align : Nat) : Prop :=
  IsGreatest ({1} ∪ {a | ∃ e ∈ fields, e.align = a}) align

/-- The shape that C gives to a struct, whatever its size. -/
structure Natural (shape : Shape) : Prop where
  placed : ∃ stop, Extent.Follow 0 shape.fields stop ∧
    IsLeast {n | stop ≤ n ∧ shape.align ∣ n} shape.size
  align : IsAlign shape.fields shape.align

theorem IsAlign.nil : IsAlign [] 1 := by
  refine ⟨.inl rfl, ?_⟩
  rintro a (rfl | ⟨e, he, -⟩)
  · exact Nat.le_refl _
  · cases he

theorem IsAlign.snoc {fields : List Extent} {align : Nat} (h : IsAlign fields align) (e : Extent) :
    IsAlign (fields ++ [e]) (max align e.align) := by
  constructor
  · rcases Nat.le_total e.align align with le | le
    · rw [Nat.max_eq_left le]
      rcases h.1 with one | ⟨e', he', same⟩
      · exact .inl one
      · exact .inr ⟨e', List.mem_append_left _ he', same⟩
    · rw [Nat.max_eq_right le]
      exact .inr ⟨e, by simp, rfl⟩
  · rintro a (one | ⟨e', he', rfl⟩)
    · exact Nat.le_trans (h.2 (.inl one)) (Nat.le_max_left ..)
    · rcases List.mem_append.mp he' with old | new
      · exact Nat.le_trans (h.2 (.inr ⟨e', old, rfl⟩)) (Nat.le_max_left ..)
      · rw [List.mem_singleton.mp new]
        exact Nat.le_max_right ..

theorem exists_isAlign (fields : List Extent) : ∃ align, IsAlign fields align := by
  induction fields using List.reverseRecOn with
  | nil => exact ⟨1, .nil⟩
  | append_singleton fields e ih =>
      obtain ⟨align, greatest⟩ := ih
      exact ⟨_, greatest.snoc e⟩

theorem IsAlign.pos {fields : List Extent} {align : Nat} (h : IsAlign fields align) : 1 ≤ align :=
  h.2 (.inl rfl)

theorem IsAlign.le {fields : List Extent} {align : Nat} (h : IsAlign fields align) {e : Extent}
    (member : e ∈ fields) : e.align ≤ align :=
  h.2 (.inr ⟨e, member, rfl⟩)

/-- Fields that lie as in C make a struct of the shape that C gives it. -/
theorem natural_of_follow {fields : List Extent} {stop align : Nat}
    (follow : Extent.Follow 0 fields stop) (greatest : IsAlign fields align) :
    Natural ⟨fields, align, alignUp stop align⟩ := by
  have least := isLeast_alignUp stop align
  rw [Nat.max_eq_left greatest.pos] at least
  exact ⟨⟨stop, follow, least⟩, greatest⟩

/-- The fields of a struct lie behind one another, and inside the struct. -/
theorem Natural.pairwise {shape : Shape} (h : shape.Natural) :
    shape.fields.Pairwise (fun a b => a.stop ≤ b.offset) ∧
      ∀ e ∈ shape.fields, e.stop ≤ shape.size := by
  obtain ⟨stop, follow, least⟩ := h.placed
  obtain ⟨behind, inside⟩ := follow.pairwise
  exact ⟨behind, fun e he => Nat.le_trans (inside e he).2 least.1.1⟩

theorem Natural.dvd {shape : Shape} (h : shape.Natural) :
    ∀ e ∈ shape.fields, max e.align 1 ∣ e.offset := by
  obtain ⟨stop, follow, -⟩ := h.placed
  exact follow.dvd

/-- A struct is not smaller than the bytes that its first fields take. -/
theorem Natural.le_size {shape : Shape} (h : shape.Natural) {fields : List Extent} {stop : Nat}
    (follow : Extent.Follow 0 fields stop) (starts : fields <+: shape.fields) :
    stop ≤ shape.size := by
  obtain ⟨rest, whole⟩ := starts
  obtain ⟨last, all, least⟩ := h.placed
  rw [← whole, Extent.Follow.append_iff] at all
  obtain ⟨middle, first, second⟩ := all
  rw [follow.stop_unique first]
  exact Nat.le_trans second.le least.1.1

end Shape

/-! ## Placements -/

def PlacedField.extent (field : PlacedField) : Extent :=
  ⟨field.offset.toNat, field.size.toNat, field.align.toNat⟩

/-- The shape that a record has in its 32-bit numbers. -/
def PlacedRecord.shape (record : PlacedRecord) : Shape :=
  ⟨record.fields.map PlacedField.extent, record.align.toNat, record.size.toNat⟩

namespace Placement

variable {placed placed' : Placement} {stop : Nat}

/-- The fields placed so far lie as in C, and the end that is kept is their end unless that does not
fit 32 bits. -/
structure Follows (placed : Placement) (stop : Nat) : Prop where
  follow : Extent.Follow 0 (placed.fields.map PlacedField.extent) stop
  align : Shape.IsAlign (placed.fields.map PlacedField.extent) placed.align.toNat
  stop : placed.stop = word32? stop

theorem follows_empty : Placement.empty.Follows 0 where
  follow := .nil
  align := .nil
  stop := rfl

/-- The extent that a field gets behind a number of bytes. -/
def next (stop : Nat) (size align : UInt32) : Extent :=
  ⟨alignUp stop align.toNat, size.toNat, align.toNat⟩

theorem follow_next (stop : Nat) (size align : UInt32) :
    Extent.Follow stop [next stop size align] (next stop size align).stop :=
  .cons (isLeast_alignUp stop align.toNat) .nil

/-- A field is placed behind the others exactly when its offset fits. -/
theorem Follows.add? (h : placed.Follows stop) (name : String) (ty : Ty) (size align : UInt32) :
    (placed.add? name ty size align = none ∧ 2 ^ 32 ≤ (next stop size align).offset) ∨
      ∃ placed', placed.add? name ty size align = some placed' ∧
        placed'.Follows (next stop size align).stop ∧ ∃ f : PlacedField,
          placed'.fields = placed.fields ++ [f] ∧ f.name = name ∧ f.ty = ty ∧ f.size = size ∧
            f.align = align ∧ f.extent = next stop size align := by
  have added : placed.add? name ty size align = (word32? (next stop size align).offset).map
      fun offset => ⟨placed.fields ++ [⟨name, ty, offset, size, align⟩],
        word32? (offset.toNat + size.toNat), max placed.align align⟩ := by
    rw [next, ← word32?_alignUp, ← h.stop, Option.map_bind]
    unfold Placement.add?
    refine congrArg placed.stop.bind (funext fun start => ?_)
    dsimp only [Function.comp_apply]
    cases word32? (alignUp start.toNat align.toNat) <;> rfl
  rw [added]
  cases fits : word32? (next stop size align).offset with
  | none => exact .inl ⟨rfl, word32?_eq_none.mp fits⟩
  | some offset =>
      have exact := word32?_eq_some.mp fits
      have extent : PlacedField.extent ⟨name, ty, offset, size, align⟩ = next stop size align := by
        rw [PlacedField.extent, exact]
        rfl
      refine .inr ⟨_, rfl, ⟨?_, ?_, ?_⟩, _, rfl, rfl, rfl, rfl, rfl, extent⟩
      · rw [List.map_append, List.map_singleton, extent, Extent.Follow.append_iff]
        exact ⟨stop, h.follow, follow_next stop size align⟩
      · rw [List.map_append, List.map_singleton, extent, toNat_max]
        exact h.align.snoc (next stop size align)
      · dsimp only
        rw [exact]
        rfl

/-- The record of the placed fields has the shape that C gives to a struct, or that shape is too
large for 32 bits. -/
theorem Follows.finish? (h : placed.Follows stop) (name : String) :
    (placed.finish? name = none ∧ 2 ^ 32 ≤ alignUp stop placed.align.toNat) ∨
      ∃ record, placed.finish? name = some record ∧ record.name = name ∧
        record.fields = placed.fields ∧
        record.shape = ⟨placed.fields.map PlacedField.extent, placed.align.toNat,
          alignUp stop placed.align.toNat⟩ := by
  have finished : placed.finish? name = (word32? (alignUp stop placed.align.toNat)).map
      fun size => ⟨name, size, placed.align, placed.fields⟩ := by
    rw [← word32?_alignUp, ← h.stop, Option.map_bind]
    unfold Placement.finish?
    refine congrArg placed.stop.bind (funext fun start => ?_)
    dsimp only [Function.comp_apply]
    cases word32? (alignUp start.toNat placed.align.toNat) <;> rfl
  rw [finished]
  cases fits : word32? (alignUp stop placed.align.toNat) with
  | none => exact .inl ⟨rfl, word32?_eq_none.mp fits⟩
  | some size =>
      refine .inr ⟨_, rfl, rfl, rfl, ?_⟩
      rw [PlacedRecord.shape, word32?_eq_some.mp fits]

end Placement

/-! ## Placing fields of known sizes -/

/-- A field of which all is known but its place. -/
structure SizedField where
  name : String
  ty : Ty
  size : UInt32
  align : UInt32

def PlacedField.sized (field : PlacedField) : SizedField :=
  ⟨field.name, field.ty, field.size, field.align⟩

/-- Some extents belong to some fields, one to each. -/
def SizedField.Has (fields : List SizedField) (extents : List Extent) : Prop :=
  extents.map (fun e => (e.size, e.align)) = fields.map fun f => (f.size.toNat, f.align.toNat)

namespace Placement

/-- Places fields one after the other, up to the first one whose offset is too large. -/
def addAll : Placement → List SizedField → Placement
  | placed, [] => placed
  | placed, f :: fields =>
    match placed.add? f.name f.ty f.size f.align with
    | some placed => placed.addAll fields
    | none => { placed with stop := none }

variable {placed : Placement} {start : Nat}

theorem exists_follow (start : Nat) (fields : List SizedField) :
    ∃ extents stop, Extent.Follow start extents stop ∧ SizedField.Has fields extents := by
  induction fields generalizing start with
  | nil => exact ⟨[], start, .nil, rfl⟩
  | cons f fields ih =>
      obtain ⟨extents, stop, rest, sizes⟩ := ih (next start f.size f.align).stop
      refine ⟨_, stop, .cons (isLeast_alignUp start f.align.toNat) rest, ?_⟩
      exact congrArg (_ :: ·) sizes

/-- Placing fields follows the rules of C to the end, or it stops where a number does not fit, and
then their end does not fit either. -/
theorem Follows.addAll (h : placed.Follows start) (fields : List SizedField) :
    ∃ extents stop, Extent.Follow start extents stop ∧ SizedField.Has fields extents ∧
      (((placed.addAll fields).Follows stop ∧
          (placed.addAll fields).fields.map PlacedField.sized =
            placed.fields.map PlacedField.sized ++ fields ∧
          (placed.addAll fields).fields.map PlacedField.extent =
            placed.fields.map PlacedField.extent ++ extents) ∨
        ((placed.addAll fields).stop = none ∧ 2 ^ 32 ≤ stop)) := by
  induction fields generalizing placed start with
  | nil =>
      exact ⟨[], start, .nil, rfl, .inl ⟨h, (List.append_nil _).symm, (List.append_nil _).symm⟩⟩
  | cons f fields ih =>
      have first := isLeast_alignUp start f.align.toNat
      rw [Placement.addAll]
      rcases h.add? f.name f.ty f.size f.align with ⟨none, overflow⟩ | ⟨placed', added, follows, g,
        appended, name, ty, size, align, extent⟩
      · -- Placing stops here; unbounded numbers go on, and they only grow.
        rw [none]
        obtain ⟨extents, stop, rest, sizes⟩ := exists_follow (next start f.size f.align).stop fields
        refine ⟨_, stop, .cons first rest, congrArg (_ :: ·) sizes, .inr ⟨rfl, ?_⟩⟩
        have later := rest.le
        unfold Extent.stop at later
        omega
      · rw [added]
        obtain ⟨extents, stop, rest, sizes, whole⟩ := ih follows
        refine ⟨_, stop, .cons first rest, congrArg (_ :: ·) sizes, whole.imp_left ?_⟩
        rintro ⟨follows', sized, extents'⟩
        refine ⟨follows', ?_, ?_⟩
        · rw [sized, appended, List.map_append, List.append_assoc]
          obtain ⟨name', ty', size', align'⟩ := f
          cases name
          cases ty
          cases size
          cases align
          rfl
        · rw [extents', appended, List.map_append, List.append_assoc, List.map_singleton, extent]
          rfl

/-- The struct that some fields make: it has the shape that C gives to them, or that shape is too
large for 32 bits. Where placing has stopped, all structs with these fields in front are too
large. -/
theorem finish?_addAll (fields : List SizedField) (name : String) :
    ∃ shape : Shape, shape.Natural ∧ SizedField.Has fields shape.fields ∧
      ((∃ record, (empty.addAll fields).finish? name = some record ∧ record.name = name ∧
          record.fields.map PlacedField.sized = fields ∧ record.shape = shape) ∨
        ((empty.addAll fields).finish? name = none ∧ 2 ^ 32 ≤ shape.size)) ∧
      ((empty.addAll fields).stop = none →
        ∀ whole : Shape, whole.Natural → shape.fields <+: whole.fields → 2 ^ 32 ≤ whole.size) := by
  obtain ⟨extents, stop, follow, sizes, ⟨follows, sized, same⟩ | ⟨stopped, overflow⟩⟩ :=
    follows_empty.addAll fields
  · have extents_eq : (empty.addAll fields).fields.map PlacedField.extent = extents := same
    have greatest := follows.align
    rw [extents_eq] at greatest
    refine ⟨_, Shape.natural_of_follow follow greatest, sizes, ?_,
      fun stopped whole natural starts => Nat.le_trans ?_ (natural.le_size follow starts)⟩
    · rcases follows.finish? name with ⟨none, large⟩ | ⟨record, finished, named, placed, shape⟩
      · exact .inr ⟨none, large⟩
      · refine .inl ⟨record, finished, named, ?_, ?_⟩
        · rw [placed, sized]
          rfl
        · rw [shape, extents_eq]
    · rw [follows.stop] at stopped
      exact word32?_eq_none.mp stopped
  · obtain ⟨align, greatest⟩ := Shape.exists_isAlign extents
    have natural := Shape.natural_of_follow follow greatest
    refine ⟨_, natural, sizes, .inr ⟨?_, ?_⟩, fun _ whole natural starts =>
      Nat.le_trans overflow (natural.le_size follow starts)⟩
    · unfold finish?
      rw [stopped]
      rfl
    · exact Nat.le_trans overflow (le_alignUp stop align)

end Placement

end CallThunk
