import CallThunk.Proofs.Call.Ownership

/-!
# Releases

A release frees each side buffer in the order of their allocation and then the struct, if that is
owned. It goes on behind failures, frees nothing twice and leaves nothing for the drop behind it.
The failure it reports is not always the earliest one: the struct is freed last, but a failure to
free it comes before those of the side buffers.
-/

namespace CallThunk

namespace Activation

variable {ω : Type} {ctx : Context ω} {addresses : List UInt64}

/-- Frees addresses in order and gives what each of the frees comes to. -/
def freeing (ctx : Context ω) (addresses : List UInt64) :
    StateM ω (List (Except MemoryFault PUnit)) :=
  addresses.mapM fun address => (ctx.free address).run

/-- The earliest failure in a list of outcomes. -/
def firstFailure : List (Except MemoryFault PUnit) → Except MemoryFault PUnit
  | [] => .ok ()
  | .ok _ :: rest => firstFailure rest
  | .error e :: _ => .error e

section
variable {outcomes : List (Except MemoryFault PUnit)}

theorem firstFailure_eq_ok : firstFailure outcomes = .ok () ↔ ∀ o ∈ outcomes, o = .ok () := by
  induction outcomes with
  | nil => exact ⟨fun _ => nofun, fun _ => rfl⟩
  | cons first rest ih =>
      rw [List.forall_mem_cons]
      cases first with
      | ok u => exact ih.trans (and_iff_right rfl).symm
      | error e => exact ⟨nofun, fun h => nomatch h.1⟩

/-- The earliest failure of one list behind another is its own only if the other has none. -/
theorem firstFailure_append (xs ys : List (Except MemoryFault PUnit)) :
    firstFailure (xs ++ ys) =
      match firstFailure xs with
      | .ok _ => firstFailure ys
      | .error e => .error e := by
  induction xs with
  | nil => rfl
  | cons first rest ih =>
      cases first with
      | ok u => exact ih
      | error e => rfl

/-- The order of two lists of outcomes only counts if both have a failure. -/
theorem firstFailure_comm {xs ys : List (Except MemoryFault PUnit)} :
    firstFailure (xs ++ ys) = firstFailure (ys ++ xs) ↔
      ∀ e e', firstFailure xs = .error e → firstFailure ys = .error e' → e = e' := by
  rw [firstFailure_append, firstFailure_append]
  cases firstFailure xs with
  | ok u =>
      refine ⟨fun _ => nofun, fun _ => ?_⟩
      cases firstFailure ys <;> rfl
  | error e =>
      cases firstFailure ys with
      | ok u => exact ⟨fun _ _ _ _ => nofun, fun _ => rfl⟩
      | error e' =>
          constructor
          · rintro ⟨⟩ _ _ ⟨⟩ ⟨⟩
            rfl
          · intro same
            rw [same e e' rfl rfl]

end

/-! ## Freeing one after another -/

theorem run_freeing_nil (w : ω) : (freeing ctx []).run w = ([], w) := rfl

theorem run_freeing_cons (address : UInt64) (w : ω) :
    (freeing ctx (address :: addresses)).run w =
      (((ctx.free address).run.run w).1 ::
          ((freeing ctx addresses).run ((ctx.free address).run.run w).2).1,
        ((freeing ctx addresses).run ((ctx.free address).run.run w).2).2) := by
  unfold freeing
  rw [List.mapM_cons]
  rfl

theorem length_freeing (w : ω) : ((freeing ctx addresses).run w).1.length = addresses.length := by
  induction addresses generalizing w with
  | nil => rfl
  | cons address rest ih =>
      rw [run_freeing_cons]
      exact congrArg Nat.succ (ih _)

theorem run_freeing_append (xs ys : List UInt64) (w : ω) :
    (freeing ctx (xs ++ ys)).run w =
      (((freeing ctx xs).run w).1 ++ ((freeing ctx ys).run ((freeing ctx xs).run w).2).1,
        ((freeing ctx ys).run ((freeing ctx xs).run w).2).2) := by
  induction xs generalizing w with
  | nil => rfl
  | cons address rest ih =>
      rw [List.cons_append, run_freeing_cons, run_freeing_cons, ih]
      rfl

/-- The side buffers are all freed, and the earliest failure is kept. -/
theorem run_freeEach (w : ω) :
    (freeEach ctx addresses).run w =
      (firstFailure ((freeing ctx addresses).run w).1, ((freeing ctx addresses).run w).2) := by
  induction addresses generalizing w with
  | nil => rfl
  | cons address rest ih =>
      rw [run_freeing_cons]
      rcases first : (ctx.free address).run.run w with ⟨e | u, w₁⟩
      · unfold freeEach
        rw [run_stateBind_of first, run_stateBind_of (ih w₁)]
        rfl
      · unfold freeEach
        rw [run_stateBind_of first, run_stateBind_of (ih w₁)]
        rfl

/-- A watched process keeps account of every free, whether it fails or not. -/
theorem frees_freeing (w : Watched ω) :
    ((freeing ctx.watched addresses).run w).2.frees = addresses.reverse ++ w.frees := by
  induction addresses generalizing w with
  | nil => rfl
  | cons address rest ih =>
      have one : ((ctx.watched.free address).run.run w).2.frees = address :: w.frees := by
        show ((Watched.free ctx address).run.run w).2.frees = _
        unfold Watched.free
        dsimp only [ExceptT.run_mk, StateT.run]
        split <;> rfl
      rw [run_freeing_cons, ih, one]
      simp

/-! ## Freeing all -/

variable (activation : Activation)

/-- What freeing all comes to: the side buffers go first, but the struct is asked first for a
failure. -/
theorem run_freeAll (w : ω) :
    let sides := (freeing ctx activation.sides).run w
    let struct := (freeing ctx activation.ownStruct).run sides.2
    (activation.freeAll ctx).run w =
      ((firstFailure (struct.1 ++ sides.1),
        { activation with sides := [], ownsStruct := false }), struct.2) := by
  intro sides struct
  unfold freeAll
  rw [run_stateBind_of (run_freeEach w)]
  dsimp only
  cases owns : activation.ownsStruct with
  | false =>
      have none : struct = ([], sides.2) := by
        show (freeing ctx activation.ownStruct).run sides.2 = _
        unfold ownStruct
        rw [owns]
        rfl
      rw [none, if_neg Bool.false_ne_true]
      rfl
  | true =>
      have one : struct = ([((ctx.free activation.structAddress).run.run sides.2).1],
          ((ctx.free activation.structAddress).run.run sides.2).2) := by
        show (freeing ctx activation.ownStruct).run sides.2 = _
        unfold ownStruct
        rw [owns, if_pos rfl, run_freeing_cons, run_freeing_nil]
      rw [one, if_pos rfl]
      rcases last : (ctx.free activation.structAddress).run.run sides.2 with ⟨e | u, w'⟩
      · rw [run_stateBind_of last]
        rfl
      · rw [run_stateBind_of last]
        rfl

/-- Nothing is left for a drop behind it. -/
theorem run_drop_freed (w : ω) :
    (({ activation with sides := [], ownsStruct := false } : Activation).drop ctx).run w =
      ((), w) := rfl

theorem run_release (w : ω) :
    let sides := (freeing ctx activation.sides).run w
    let struct := (freeing ctx activation.ownStruct).run sides.2
    (Caller.release ctx activation).run.run w =
      ((firstFailure (struct.1 ++ sides.1)).mapError CallError.memory, struct.2) := by
  intro sides struct
  have freed : (activation.freeAll ctx).run w = _ := activation.run_freeAll w
  have released : (activation.release ctx).run.run w =
      (firstFailure (struct.1 ++ sides.1), struct.2) := by
    show (activation.freeAll ctx >>= fun freed => do
      freed.2.drop ctx
      return freed.1).run w = _
    rw [run_stateBind_of freed, run_stateBind_of (activation.run_drop_freed _)]
    rfl
  unfold Caller.release
  rw [Caller.run_access, released]

theorem mapError_memory_inj {x y : Except MemoryFault PUnit} :
    x.mapError CallError.memory = y.mapError CallError.memory ↔ x = y := by
  refine ⟨fun same => ?_, fun same => congrArg _ same⟩
  cases x <;> cases y <;> cases same <;> rfl

/-- A release issues one free for each side buffer, in the order of their allocation, and then one
for the struct if that is owned, whatever fails on the way; the drop behind it issues none. It gives
no failure exactly when all of them succeed. A failure of the struct is given before all others, so
it gives the earliest failure exactly as long as the struct and a side buffer do not fail in
different ways. -/
theorem release_frees_once (ctx : Context ω) (activation : Activation) (w : Watched ω) :
    let freed := (freeing ctx.watched activation.owned).run w
    let sides := freed.1.take activation.sides.length
    let struct := freed.1.drop activation.sides.length
    let all := (activation.freeAll ctx.watched).run w
    let released := (Caller.release ctx.watched activation).run.run w
    released.2 = freed.2 ∧ released.2.frees = activation.owned.reverse ++ w.frees ∧
      (all.1.2.drop ctx.watched).run all.2 = ((), all.2) ∧
      (released.1 = .ok () ↔ ∀ outcome ∈ freed.1, outcome = .ok ()) ∧
      released.1 = (firstFailure (struct ++ sides)).mapError .memory ∧
      (released.1 = (firstFailure freed.1).mapError .memory ↔
        ∀ e e', firstFailure struct = .error e → firstFailure sides = .error e' → e = e') := by
  intro freed sides struct all released
  have length := @length_freeing _ ctx.watched activation.sides w
  have split : freed = _ := run_freeing_append activation.sides activation.ownStruct w
  have first : sides = ((freeing ctx.watched activation.sides).run w).1 := by
    show freed.1.take activation.sides.length = _
    rw [split, ← length]
    exact List.take_left
  have last : struct = ((freeing ctx.watched activation.ownStruct).run
      ((freeing ctx.watched activation.sides).run w).2).1 := by
    show freed.1.drop activation.sides.length = _
    rw [split, ← length]
    exact List.drop_left
  have ran : released = _ := activation.run_release w
  rw [← first, ← last] at ran
  have whole : freed.1 = sides ++ struct := (List.take_append_drop _ _).symm
  have world : released.2 = freed.2 := by
    rw [ran, split]
  refine ⟨world, world ▸ frees_freeing w, ?_, ?_, congrArg Prod.fst ran, ?_⟩
  · show (((activation.freeAll ctx.watched).run w).1.2.drop ctx.watched).run _ = _
    rw [activation.run_freeAll w]
    exact activation.run_drop_freed _
  · rw [ran, mapError_eq_ok, firstFailure_eq_ok, whole]
    simp only [List.mem_append, or_comm]
  · rw [ran, mapError_memory_inj, whole, firstFailure_comm]

/-- A struct and a side buffer that both cannot be freed: the free of the side buffer is the first
one to fail, and the failure of the struct is given. -/
theorem release_passes_over_side :
    let ctx := (Debuggee.sparse ⟨8, .little⟩ .layoutOnly).watched
    let activation : Activation :=
      { structAddress := 0x10000000, ownsStruct := true, sides := [0x10000018] }
    let w : Watched Debuggee :=
      { process := { memory := ⟨0x10000020, [⟨0x10000000, 24⟩, ⟨0x10000018, 4⟩], [], .zero⟩ }
        failingFrees := [true, true] }
    firstFailure ((freeing ctx activation.owned).run w).1 = .error (.invalidFree 0x10000018) ∧
      ((Caller.release ctx activation).run.run w).1 =
        .error (.memory (.invalidFree 0x10000000)) :=
  ⟨rfl, rfl⟩

end Activation

end CallThunk
