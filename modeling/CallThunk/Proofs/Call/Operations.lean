import CallThunk.Call.Session

/-!
# Runs of operations

Operations on calls keep the state of the context also when they fail. Equations tell how the small
operations run. Two things are said about the large ones: what a run did that gave a result, and
which relations hold between the states before and behind every run. A relation that the services of
a context respect is respected by all operations on callers and activations.
-/

namespace CallThunk

section
variable {σ ε α β : Type} {s s' : σ}

/-! ## Runs with a result -/

/-- A run gives a result and leaves a state. -/
def Yields (x : ExceptT ε (StateM σ) α) (s : σ) (a : α) (s' : σ) : Prop :=
  x.run.run s = (.ok a, s')

theorem run_exceptBind (x : ExceptT ε (StateM σ) α) (f : α → ExceptT ε (StateM σ) β) (s : σ) :
    ((x >>= f).run.run s : Except ε β × σ) =
      match (x.run.run s : Except ε α × σ) with
      | (.ok a, s') => (f a).run.run s'
      | (.error e, s') => (.error e, s') := by
  show (match (x.run.run s : Except ε α × σ) with
    | (r, s') => (ExceptT.bindCont f r).run s') = _
  rcases (x.run.run s : Except ε α × σ) with ⟨_ | a, s'⟩ <;> rfl

theorem run_exceptBind_ok {x : ExceptT ε (StateM σ) α} {f : α → ExceptT ε (StateM σ) β} {a : α}
    (h : (x.run.run s : Except ε α × σ) = (.ok a, s')) :
    ((x >>= f).run.run s : Except ε β × σ) = (f a).run.run s' := by
  rw [run_exceptBind, h]

theorem run_exceptBind_error {x : ExceptT ε (StateM σ) α} {f : α → ExceptT ε (StateM σ) β} {e : ε}
    (h : (x.run.run s : Except ε α × σ) = (.error e, s')) :
    ((x >>= f).run.run s : Except ε β × σ) = (.error e, s') := by
  rw [run_exceptBind, h]

/-- A failure comes from the first part, or from the second one behind a result of the first. -/
theorem run_exceptBind_eq_error {x : ExceptT ε (StateM σ) α} {f : α → ExceptT ε (StateM σ) β}
    {e : ε} (h : ((x >>= f).run.run s : Except ε β × σ) = (.error e, s')) :
    (x.run.run s : Except ε α × σ) = (.error e, s') ∨
      ∃ a t, (x.run.run s : Except ε α × σ) = (.ok a, t) ∧
        ((f a).run.run t : Except ε β × σ) = (.error e, s') := by
  rw [run_exceptBind] at h
  rcases ran : (x.run.run s : Except ε α × σ) with ⟨first | a, t⟩
  · rw [ran] at h
    cases h
    exact .inl rfl
  · rw [ran] at h
    exact .inr ⟨a, t, rfl, h⟩

theorem run_stateBind_of {x : StateM σ α} {f : α → StateM σ β} {a : α} (h : x.run s = (a, s')) :
    (x >>= f).run s = (f a).run s' := by
  show (f (x.run s).1).run (x.run s).2 = _
  rw [h]

theorem yields_pure {a b : α} :
    Yields (pure a : ExceptT ε (StateM σ) α) s b s' ↔ b = a ∧ s' = s := by
  show ((.ok a, s) : Except ε α × σ) = (.ok b, s') ↔ _
  simp [eq_comm]

theorem yields_bind {x : ExceptT ε (StateM σ) α} {f : α → ExceptT ε (StateM σ) β} {b : β} :
    Yields (x >>= f) s b s' ↔ ∃ a t, Yields x s a t ∧ Yields (f a) t b s' := by
  unfold Yields
  rw [run_exceptBind]
  rcases (x.run.run s : Except ε α × σ) with ⟨e | a, t⟩
  · exact ⟨nofun, fun ⟨_, _, h, _⟩ => nomatch h⟩
  · constructor
    · exact fun h => ⟨a, t, rfl, h⟩
    · rintro ⟨_, _, h, hf⟩
      cases h
      exact hf

theorem yields_lift {x : Except ε α} {a : α} :
    Yields (ExceptT.mk (pure x) : ExceptT ε (StateM σ) α) s a s' ↔ x = .ok a ∧ s' = s := by
  show ((x, s) : Except ε α × σ) = (.ok a, s') ↔ _
  simp [eq_comm]

theorem not_yields_throw {e : ε} {a : α} :
    ¬ Yields (throw e : ExceptT ε (StateM σ) α) s a s' := nofun

theorem yields_get {t : σ} :
    Yields (get : ExceptT ε (StateM σ) σ) s t s' ↔ t = s ∧ s' = s := by
  show ((.ok s, s) : Except ε σ × σ) = (.ok t, s') ↔ _
  simp [eq_comm]

/-! ## Relations that runs keep to -/

/-- A program leads from each state to one that is related to it, whatever it gives. -/
def Keeps (R : σ → σ → Prop) (x : StateM σ α) : Prop := ∀ s, R s (x.run s).2

variable {R : σ → σ → Prop}

theorem keeps_pure (refl : ∀ s, R s s) (a : α) : Keeps R (pure a : StateM σ α) := refl

theorem Keeps.bind (trans : ∀ a b c, R a b → R b c → R a c) {x : StateM σ α}
    {f : α → StateM σ β} (hx : Keeps R x) (hf : ∀ a, Keeps R (f a)) : Keeps R (x >>= f) :=
  fun s => trans _ _ _ (hx s) (hf _ _)

theorem Keeps.of_run {x : StateM σ α} (h : Keeps R x) {a : α} {t : σ} (run : x.run s = (a, t)) :
    R s t := by
  have kept := h s
  rw [run] at kept
  exact kept

/-- An operation that may fail keeps to a relation when its parts do. -/
theorem Keeps.exceptBind (trans : ∀ a b c, R a b → R b c → R a c)
    {x : ExceptT ε (StateM σ) α} {f : α → ExceptT ε (StateM σ) β} (hx : Keeps R x.run)
    (hf : ∀ a, Keeps R (f a).run) : Keeps R (x >>= f).run := by
  intro s
  have first := hx s
  rw [run_exceptBind]
  generalize (x.run.run s : Except ε α × σ) = r at first
  rcases r with ⟨e | a, t⟩
  · exact first
  · exact trans _ _ _ first (hf a t)

end

/-! ## Contexts -/

/-- A relation between states that every service of a context keeps to. -/
structure Context.Respects {ω : Type} (ctx : Context ω) (R : ω → ω → Prop) : Prop where
  refl : ∀ w, R w w
  trans : ∀ a b c, R a b → R b c → R a c
  allocate : ∀ size align, Keeps R (ctx.allocate size align).run
  free : ∀ address, Keeps R (ctx.free address).run
  read : ∀ address length, Keeps R (ctx.read address length).run
  write : ∀ address bytes, Keeps R (ctx.write address bytes).run
  run : ∀ plan, Keeps R (ctx.run plan)
  compile : ∀ source, Keeps R (ctx.compile source)

section
variable {ω α : Type} {ctx : Context ω} {R : ω → ω → Prop}

theorem Caller.run_current (s : Activation × ω) :
    ((get : Caller.OnActivation ω (Activation × ω)).run.run s : Except CallError _ × _) =
      (.ok s, s) := rfl

theorem Caller.run_update (f : Activation → Activation) (s : Activation × ω) :
    ((Caller.update f).run.run s : Except CallError PUnit × _) = (.ok (), (f s.1, s.2)) := rfl

theorem Caller.run_service (service : Service ω α) (s : Activation × ω) :
    ((Caller.service service).run.run s : Except CallError α × _) =
      ((service.run.run s.2).1.mapError .memory, (s.1, (service.run.run s.2).2)) := rfl

theorem Caller.run_access (service : Service ω α) (w : ω) :
    ((Caller.access service).run.run w : Except CallError α × _) =
      ((service.run.run w).1.mapError .memory, (service.run.run w).2) := rfl

theorem Caller.run_freeSides (ctx : Context ω) (s : Activation × ω) :
    ((Caller.freeSides ctx).run.run s : Except CallError PUnit × _) =
      (((Activation.freeEach ctx s.1.sides).run s.2).1.mapError .memory,
        ({ s.1 with sides := [] }, ((Activation.freeEach ctx s.1.sides).run s.2).2)) := rfl

theorem Caller.run_newSide_error {bytes : List UInt8} {align : UInt32} {s : Activation × ω}
    {e : MemoryFault} {w : ω}
    (failed : (ctx.allocate (UInt64.ofNat bytes.length) align.toUInt64).run.run s.2 =
      (.error e, w)) :
    ((Caller.newSide ctx bytes align).run.run s : Except CallError UInt64 × _) =
      (.error (.memory e), (s.1, w)) := by
  unfold Caller.newSide
  rw [run_exceptBind, Caller.run_service, failed]
  rfl

/-- A new side buffer is owned also if it cannot be filled. -/
theorem Caller.run_newSide_ok {bytes : List UInt8} {align : UInt32} {s : Activation × ω}
    {address : UInt64} {w : ω}
    (given : (ctx.allocate (UInt64.ofNat bytes.length) align.toUInt64).run.run s.2 =
      (.ok address, w)) :
    ((Caller.newSide ctx bytes align).run.run s : Except CallError UInt64 × _) =
      ((((ctx.write address bytes).run.run w).1.mapError .memory).map fun _ => address,
        ({ s.1 with sides := s.1.sides ++ [address] },
          ((ctx.write address bytes).run.run w).2)) := by
  unfold Caller.newSide
  rw [run_exceptBind, Caller.run_service, given]
  dsimp only [Except.mapError]
  rw [run_exceptBind_ok (Caller.run_update _ _), run_exceptBind, Caller.run_service]
  rcases ((ctx.write address bytes).run.run w : Except MemoryFault PUnit × ω) with ⟨e | u, t⟩
  · rfl
  · rfl

theorem Caller.run_onWorld_of {service : StateM ω α} {s : Caller.Reporting ω} {a : α} {w : ω}
    (h : service.run s.world = (a, w)) :
    (Caller.onWorld service).run s = (a, { s with world := w }) := by
  show ((service.run s.world).1, ({ s with world := (service.run s.world).2 } :
    Caller.Reporting ω)) = _
  rw [h]

theorem mapError_eq_ok {ε ε' α : Type} {f : ε → ε'} {x : Except ε α} {a : α} :
    x.mapError f = .ok a ↔ x = .ok a := by
  cases x with
  | error e => exact ⟨nofun, nofun⟩
  | ok b => exact ⟨fun h => by cases h; rfl, fun h => by cases h; rfl⟩

/-- Memory fails for other reasons than a value. -/
theorem mapError_memory_ne {α : Type} {x : Except MemoryFault α} {m : Mismatch} :
    x.mapError CallError.memory ≠ .error (.mismatch m) := by
  cases x with
  | ok a => nofun
  | error e => nofun

theorem yields_service {sv : Service ω α} {s s' : Activation × ω} {a : α} :
    Yields (Caller.service sv) s a s' ↔ Yields sv s.2 a s'.2 ∧ s'.1 = s.1 := by
  obtain ⟨activation', w'⟩ := s'
  unfold Yields
  rw [Caller.run_service]
  rcases (sv.run.run s.2 : Except MemoryFault α × ω) with ⟨e | b, t⟩
  · exact ⟨nofun, fun h => nomatch h.1⟩
  · constructor
    · intro h
      cases h
      exact ⟨rfl, rfl⟩
    · rintro ⟨h, rfl⟩
      cases h
      rfl

theorem yields_update {f : Activation → Activation} {s s' : Activation × ω} {u : PUnit} :
    Yields (Caller.update f) s u s' ↔ s' = (f s.1, s.2) := by
  obtain ⟨activation, w⟩ := s
  show ((.ok (), (f activation, w)) : Except CallError PUnit × _) = (.ok u, s') ↔ _
  simp [eq_comm]

theorem yields_access {sv : Service ω α} {w w' : ω} {a : α} :
    Yields (Caller.access sv) w a w' ↔ Yields sv w a w' := by
  unfold Yields
  rw [Caller.run_access]
  rcases (sv.run.run w : Except MemoryFault α × ω) with ⟨e | b, t⟩
  · exact ⟨nofun, nofun⟩
  · constructor <;> (intro h; cases h; rfl)

theorem ready_eq_ok {caller : Caller} {r : Ready} :
    caller.ready = .ok r ↔ caller.status = .ready r := by
  unfold Caller.ready
  cases caller.status with
  | new => exact ⟨nofun, nofun⟩
  | failed => exact ⟨nofun, nofun⟩
  | ready r' => constructor <;> (intro h; cases h; rfl)

theorem ready?_eq_some {caller : Caller} {r : Ready} :
    caller.ready? = some r ↔ caller.ready = .ok r := by
  rw [ready_eq_ok]
  unfold Caller.ready?
  cases caller.status with
  | new | failed => exact ⟨nofun, nofun⟩
  | ready r' => constructor <;> (intro h; cases h; rfl)

/-- The steps of a write that is done. -/
theorem steps_of_write {caller : Caller} {args : List Value} {s s' : Activation × ω} {u : PUnit}
    (h : Yields (caller.write ctx args) s u s') :
    ∃ r function arguments s₁ s₂ s₃, caller.ready = .ok r ∧
      caller.images r args = .ok (function, arguments) ∧
      Yields (Caller.freeSides ctx) ({ s.1 with stage := .prepared, arguments := [] }, s.2) () s₁ ∧
      Yields (Caller.writeSlot ctx r.layout.function function) s₁ () s₂ ∧
      Yields (Caller.writeAll ctx r.target arguments) s₂ () s₃ ∧
      s' = ({ s₃.1 with stage := .written, arguments := args }, s₃.2) := by
  unfold Caller.write at h
  obtain ⟨r, t, got, h⟩ := yields_bind.mp h
  obtain ⟨ready, state⟩ := yields_lift.mp got
  rw [state] at h
  obtain ⟨⟨function, arguments⟩, t, got, h⟩ := yields_bind.mp h
  obtain ⟨images, state⟩ := yields_lift.mp got
  rw [state] at h
  obtain ⟨_, s₀, updated, h⟩ := yields_bind.mp h
  obtain ⟨_, s₁, freed, h⟩ := yields_bind.mp h
  obtain ⟨_, s₂, first, h⟩ := yields_bind.mp h
  obtain ⟨_, s₃, rest, h⟩ := yields_bind.mp h
  rw [yields_update.mp updated] at freed
  exact ⟨r, function, arguments, s₁, s₂, s₃, ready, mapError_eq_ok.mp images, freed, first, rest,
    yields_update.mp h⟩

/-- An operation on an activation never moves its struct. -/
structure Within (R : ω → ω → Prop) (s s' : Activation × ω) : Prop where
  struct : s'.1.structAddress = s.1.structAddress
  owns : s'.1.ownsStruct = s.1.ownsStruct
  world : R s.2 s'.2

theorem keeps_access {s : Service ω α} (hs : Keeps R s.run) : Keeps R (Caller.access s).run := hs

theorem keeps_service {s : Service ω α} (hs : Keeps R s.run) :
    Keeps (Within R) (Caller.service s).run :=
  fun (_, world) => ⟨rfl, rfl, hs world⟩

/-! ## Reading back -/

section
variable (refl : ∀ w, R w w) (trans : ∀ a b c, R a b → R b c → R a c)
  (read : ∀ address length, Keeps R (ctx.read address length).run)
include refl trans read

theorem keeps_readArgument (target : Target) (activation : Activation) (slot : Ty)
    (layout : SlotPlace) (written : Option Value) :
    Keeps R (Caller.readArgument ctx target activation slot layout written).run := by
  unfold Caller.readArgument
  refine .exceptBind trans (keeps_access (read _ _)) fun bytes => ?_
  split
  · exact .exceptBind trans (keeps_access (read _ _)) fun _ => keeps_pure refl _
  · exact keeps_pure refl _
  · exact keeps_pure refl _

theorem keeps_readAll (target : Target) (activation : Activation) (slots : List Ty)
    (layouts : List SlotPlace) (written : List Value) :
    Keeps R (Caller.readAll ctx target activation slots layouts written).run := by
  induction slots generalizing layouts written with
  | nil => exact keeps_pure refl _
  | cons slot slots ih =>
      cases layouts with
      | nil => exact keeps_pure refl _
      | cons layout layouts =>
          refine .exceptBind trans ?_ fun _ =>
            .exceptBind trans (ih layouts written.tail) fun _ => keeps_pure refl _
          exact keeps_readArgument refl trans read target activation slot layout written.head?

/-- Reading arguments back does what reading memory does. -/
theorem keeps_read (caller : Caller) (activation : Activation) :
    Keeps R (caller.read ctx activation).run := by
  unfold Caller.read
  split
  · exact keeps_pure refl _
  · split
    · exact keeps_pure refl _
    · exact keeps_readAll refl trans read _ _ _ _ _

end

/-! ## Freeing -/

section
variable (refl : ∀ w, R w w) (trans : ∀ a b c, R a b → R b c → R a c)
include refl trans

theorem keeps_freeEach {addresses : List UInt64}
    (free : ∀ address ∈ addresses, Keeps R (ctx.free address).run) :
    Keeps R (Activation.freeEach ctx addresses) := by
  induction addresses with
  | nil => exact keeps_pure refl _
  | cons address rest ih =>
      have others := ih fun other member => free other (List.mem_cons_of_mem _ member)
      refine .bind trans (free address (List.mem_cons_self ..)) fun first =>
        .bind trans others fun others => ?_
      cases first <;> exact keeps_pure refl _

variable (free : ∀ address, Keeps R (ctx.free address).run)
include free

theorem keeps_freeAll (activation : Activation) : Keeps R (activation.freeAll ctx) := by
  refine .bind trans (keeps_freeEach refl trans fun address _ => free address) fun sides => ?_
  dsimp only
  split
  · refine .bind trans (free _) fun struct => ?_
    cases struct <;> exact refl
  · exact refl

theorem keeps_drop (activation : Activation) : Keeps R (activation.drop ctx) :=
  .bind trans (keeps_freeAll refl trans free activation) fun _ => refl

/-- Letting an activation go does what freeing does. -/
theorem keeps_release (activation : Activation) : Keeps R (activation.release ctx).run :=
  .bind trans (keeps_freeAll refl trans free activation) fun freed =>
    .bind trans (keeps_drop refl trans free freed.2) fun _ => refl

end

/-! ## Whole calls -/

theorem Caller.run_prepareDefault_error {caller : Caller} {place : StructPlace} {e : CallError}
    {w t : ω} (failed : (caller.prepare ctx place).run.run w = (.error e, t)) :
    (caller.prepareDefault ctx place).run w = (.error e, t) := by
  unfold Caller.prepareDefault
  rw [run_stateBind_of failed]
  rfl

theorem Caller.run_prepareDefault_ok {caller : Caller} {place : StructPlace}
    {activation : Activation} {w t : ω}
    (prepared : (caller.prepare ctx place).run.run w = (.ok activation, t)) :
    (caller.prepareDefault ctx place).run w =
      match (caller.write ctx caller.defaultArguments).run.run (activation, t) with
      | (.ok _, activation, world) => (.ok activation, world)
      | (.error e, activation, world) => (.error e, ((activation.drop ctx).run world).2) := by
  unfold Caller.prepareDefault
  rw [run_stateBind_of prepared]
  rfl

theorem Caller.run_callAlone_error {caller : Caller} {args : List Value} {place : StructPlace}
    {options : RunOptions} {e : CallError} {w t : ω}
    (failed : (caller.prepare ctx place).run.run w = (.error e, t)) :
    (caller.callAlone ctx args place options).run w = (.error e, t) := by
  unfold Caller.callAlone
  rw [run_stateBind_of failed]
  rfl

theorem Caller.run_callAlone_ok {caller : Caller} {args : List Value} {place : StructPlace}
    {options : RunOptions} {activation : Activation} {w t : ω}
    (prepared : (caller.prepare ctx place).run.run w = (.ok activation, t)) :
    (caller.callAlone ctx args place options).run w =
      match (caller.write ctx args >>= fun _ => caller.run ctx options).run.run
        (activation, t) with
      | (.ok value, activation, world) => (.ok value, ((activation.release ctx).run.run world).2)
      | (.error e, activation, world) => (.error e, ((activation.drop ctx).run world).2) := by
  unfold Caller.callAlone
  rw [run_stateBind_of prepared]
  rfl

namespace Context.Respects

variable (h : ctx.Respects R)
include h

theorem within_refl (s : Activation × ω) : Within R s s := ⟨rfl, rfl, h.refl s.2⟩

theorem within_trans (s t u : Activation × ω) (first : Within R s t) (second : Within R t u) :
    Within R s u :=
  ⟨second.struct.trans first.struct, second.owns.trans first.owns,
    h.trans _ _ _ first.world second.world⟩

/-! ## Activations -/

theorem freeEach (addresses : List UInt64) : Keeps R (Activation.freeEach ctx addresses) :=
  keeps_freeEach h.refl h.trans fun address _ => h.free address

theorem drop (activation : Activation) : Keeps R (activation.drop ctx) :=
  keeps_drop h.refl h.trans h.free activation

theorem release (activation : Activation) : Keeps R (activation.release ctx).run :=
  keeps_release h.refl h.trans h.free activation

theorem prepare (caller : Caller) (place : StructPlace) :
    Keeps R (caller.prepare ctx place).run := by
  unfold Caller.prepare
  refine .exceptBind h.trans (keeps_pure h.refl _) fun r => ?_
  cases place with
  | given address =>
      exact .exceptBind h.trans (keeps_access (h.read _ _)) fun _ => keeps_pure h.refl _
  | fresh =>
      exact .exceptBind h.trans (keeps_access (h.allocate _ _)) fun _ => keeps_pure h.refl _

theorem readBack (caller : Caller) (activation : Activation) :
    Keeps R (caller.read ctx activation).run :=
  keeps_read h.refl h.trans h.read caller activation

/-! ## Operations on activations -/

theorem update {f : Activation → Activation}
    (struct : ∀ a, (f a).structAddress = a.structAddress)
    (owns : ∀ a, (f a).ownsStruct = a.ownsStruct) :
    Keeps (Within R) (Caller.update f : Caller.OnActivation ω PUnit).run :=
  fun (activation, world) => ⟨struct activation, owns activation, h.refl world⟩

theorem getActivation : Keeps (Within R) (get : Caller.OnActivation ω (Activation × ω)).run :=
  h.within_refl

theorem within_pure (a : α) : Keeps (Within R) (pure a : Caller.OnActivation ω α).run :=
  h.within_refl

theorem freeSides : Keeps (Within R) (Caller.freeSides ctx).run :=
  .exceptBind h.within_trans h.getActivation fun _ =>
    .exceptBind h.within_trans (h.update (fun _ => rfl) fun _ => rfl) fun _ =>
      keeps_service (h.freeEach _)

theorem writeSlot (slot : SlotPlace) (bytes : List UInt8) :
    Keeps (Within R) (Caller.writeSlot ctx slot bytes).run :=
  .exceptBind h.within_trans h.getActivation fun _ => keeps_service (h.write _ _)

theorem newSide (bytes : List UInt8) (align : UInt32) :
    Keeps (Within R) (Caller.newSide ctx bytes align).run :=
  .exceptBind h.within_trans (keeps_service (h.allocate _ _)) fun _ =>
    .exceptBind h.within_trans (h.update (fun _ => rfl) fun _ => rfl) fun _ =>
      .exceptBind h.within_trans (keeps_service (h.write _ _)) fun _ => h.within_pure _

theorem writeArgument (target : Target) (slot : SlotPlace) (image : Caller.ArgumentImage) :
    Keeps (Within R) (Caller.writeArgument ctx target slot image).run := by
  cases image with
  | word bytes => exact h.writeSlot slot bytes
  | side bytes align =>
      refine .exceptBind h.within_trans (h.newSide bytes align) fun address => ?_
      split
      · exact h.writeSlot slot _
      · exact h.within_refl

theorem writeAll (target : Target) (arguments : List (SlotPlace × Caller.ArgumentImage)) :
    Keeps (Within R) (Caller.writeAll ctx target arguments).run := by
  induction arguments with
  | nil => exact h.within_pure _
  | cons argument rest ih =>
      exact .exceptBind h.within_trans (h.writeArgument target argument.1 argument.2) fun _ => ih

theorem writeAgain (caller : Caller) (args : List Value) :
    Keeps (Within R) (caller.write ctx args).run := by
  unfold Caller.write
  refine .exceptBind h.within_trans h.within_refl fun r => ?_
  refine .exceptBind h.within_trans h.within_refl fun images => ?_
  refine .exceptBind h.within_trans (h.update (fun _ => rfl) fun _ => rfl) fun _ => ?_
  refine .exceptBind h.within_trans h.freeSides fun _ => ?_
  refine .exceptBind h.within_trans (h.writeSlot _ _) fun _ => ?_
  refine .exceptBind h.within_trans (h.writeAll _ _) fun _ => ?_
  exact h.update (fun _ => rfl) fun _ => rfl

theorem fetch (caller : Caller) : Keeps (Within R) (caller.fetch ctx).run := by
  unfold Caller.fetch
  refine .exceptBind h.within_trans h.getActivation fun s => ?_
  have kept (value : Value) : Keeps (Within R) (do
      Caller.update fun activation => { activation with result := some value }
      return value : Caller.OnActivation ω Value).run :=
    .exceptBind h.within_trans (h.update (fun _ => rfl) fun _ => rfl) fun _ => h.within_pure _
  dsimp only
  split
  · exact h.within_refl
  · split
    · exact h.within_refl
    · split
      · refine .exceptBind h.within_trans (keeps_service (h.read _ _)) fun bytes => ?_
        split
        · exact kept _
        · exact h.within_refl
      · exact kept _

theorem runPlan (plan : Plan) : Keeps (Within R) (Caller.runPlan ctx plan).run :=
  fun (_, world) => ⟨rfl, rfl, h.run plan world⟩

theorem runCall (caller : Caller) (options : RunOptions) :
    Keeps (Within R) (caller.run ctx options).run := by
  unfold Caller.run
  refine .exceptBind h.within_trans h.getActivation fun s => ?_
  split
  · exact h.within_refl
  · refine .exceptBind h.within_trans (h.update (fun _ => rfl) fun _ => rfl) fun _ => ?_
    refine .exceptBind h.within_trans (h.runPlan _) fun stop => ?_
    have ended : Keeps (Within R) (do
        Caller.update fun activation => { activation with stage := .completed }
        caller.fetch ctx : Caller.OnActivation ω Value).run :=
      .exceptBind h.within_trans (h.update (fun _ => rfl) fun _ => rfl) fun _ => h.fetch caller
    dsimp only
    split
    · exact ended
    · refine .exceptBind h.within_trans (h.update (fun _ => rfl) fun _ => rfl) fun _ => ?_
      exact h.within_refl

theorem prepareDefault (caller : Caller) (place : StructPlace) :
    Keeps R (caller.prepareDefault ctx place) := by
  intro w
  have first := h.prepare caller place w
  rcases prepared : (caller.prepare ctx place).run.run w with ⟨e | activation, t⟩
  · rw [Caller.run_prepareDefault_error prepared]
    rw [prepared] at first
    exact first
  · rw [Caller.run_prepareDefault_ok prepared]
    rw [prepared] at first
    have written := (h.writeAgain caller caller.defaultArguments (activation, t)).world
    rcases hw : (caller.write ctx caller.defaultArguments).run.run (activation, t) with
      ⟨e | u, last⟩
    · rw [hw] at written
      exact h.trans _ _ _ first (h.trans _ _ _ written (h.drop last.1 last.2))
    · rw [hw] at written
      exact h.trans _ _ _ first written

theorem callAlone (caller : Caller) (args : List Value) (place : StructPlace)
    (options : RunOptions) : Keeps R (caller.callAlone ctx args place options) := by
  intro w
  have first := h.prepare caller place w
  rcases prepared : (caller.prepare ctx place).run.run w with ⟨e | activation, t⟩
  · rw [Caller.run_callAlone_error prepared]
    rw [prepared] at first
    exact first
  · rw [Caller.run_callAlone_ok prepared]
    rw [prepared] at first
    have called : Keeps (Within R)
        (caller.write ctx args >>= fun _ => caller.run ctx options).run :=
      .exceptBind h.within_trans (h.writeAgain caller args) fun _ => h.runCall caller options
    have kept := (called (activation, t)).world
    rcases ran : (caller.write ctx args >>= fun _ => caller.run ctx options).run.run
        (activation, t) with ⟨e | v, last⟩
    · rw [ran] at kept
      exact h.trans _ _ _ first (h.trans _ _ _ kept (h.drop last.1 last.2))
    · rw [ran] at kept
      exact h.trans _ _ _ first (h.trans _ _ _ kept (h.release last.1 last.2))

/-! ## Callers -/

theorem reporting_trans (s t u : Caller.Reporting ω) (first : R s.world t.world)
    (second : R t.world u.world) : R s.world u.world := h.trans _ _ _ first second

theorem reportAll (messages : List String) :
    Keeps (fun s s' => R s.world s'.world)
      (messages.forM Caller.report : StateM (Caller.Reporting ω) PUnit) := by
  induction messages with
  | nil => exact fun s => h.refl s.world
  | cons message rest ih => exact .bind h.reporting_trans (fun s => h.refl s.world) fun _ => ih

theorem compiled (caller : Caller) :
    Keeps (fun s s' => R s.world s'.world) (caller.compile ctx) := by
  unfold Caller.compile
  split
  · exact fun s => h.refl s.world
  · exact fun s => h.refl s.world
  · refine .bind h.reporting_trans (fun s => h.compile caller.source s.world) fun compiled => ?_
    refine .bind h.reporting_trans (fun s => h.refl s.world) fun _ => ?_
    exact .bind h.reporting_trans (h.reportAll _) fun _ s => h.refl s.world

theorem insert (caller : Caller) (place : StructPlace) :
    Keeps (fun s s' => R s.world s'.world) (caller.insert ctx place) := by
  unfold Caller.insert
  refine .bind h.reporting_trans (fun s => h.prepareDefault caller place s.world) fun outcome => ?_
  cases outcome <;> exact fun s => h.refl s.world

theorem callWith (caller : Caller) (args : List Value) (place : StructPlace)
    (options : RunOptions) :
    Keeps (fun s s' => R s.world s'.world) (caller.callWith ctx args place options) := by
  unfold Caller.callWith
  refine .bind h.reporting_trans (h.compiled caller) fun (errors, caller) => ?_
  dsimp only
  split
  · split <;> exact fun s => h.refl s.world
  · refine .bind h.reporting_trans (fun s => h.callAlone caller args place options s.world)
      fun outcome => ?_
    cases outcome <;> exact fun s => h.refl s.world

end Context.Respects

theorem Session.run_withActivation (s : Session ω) (index : Nat)
    (f : Activation → StateM (Session ω) Outcome) :
    (Session.withActivation index f).run s =
      match s.activations[index]?.join with
      | none => (.noActivation, s)
      | some activation => (f activation).run s := by
  unfold Session.withActivation
  rw [run_stateBind_of (show (get : StateM (Session ω) (Session ω)).run s = (s, s) from rfl)]
  cases s.activations[index]?.join <;> rfl

namespace Context.Respects

variable (h : ctx.Respects R)
include h

theorem onActivation (s : Session ω) {index : Nat} {f : α → Outcome}
    {operation : Caller.OnActivation ω α} (keeps : Keeps (Within R) operation.run) :
    R s.world ((Session.onActivation index f operation).run s).2.world := by
  show R s.world (Session.onActivation index f operation s).2.world
  unfold Session.onActivation
  cases s.activations[index]?.join with
  | none => exact h.refl _
  | some activation => exact (keeps (activation, s.world)).world

theorem withActivation (s : Session ω) {index : Nat} {f : Activation → StateM (Session ω) Outcome}
    (kept : ∀ a, R s.world ((f a).run s).2.world) :
    R s.world ((Session.withActivation index f).run s).2.world := by
  rw [Session.run_withActivation]
  cases s.activations[index]?.join with
  | none => exact h.refl _
  | some activation => exact kept activation

theorem endActivation (s : Session ω) {index : Nat} {f : Activation → StateM ω Outcome}
    (keeps : ∀ a, Keeps R (f a)) :
    R s.world ((Session.endActivation index f).run s).2.world :=
  h.withActivation s fun a => keeps a s.world

omit h in
theorem keep (result : Except CallError Activation) {s t : Session ω} (kept : R s.world t.world) :
    R s.world ((Session.keep result).run t).2.world := by
  cases result <;> exact kept

omit h in
theorem onMemory (s : Session ω) {f : α → Outcome} {service : Service ω α}
    (keeps : Keeps R service.run) :
    R s.world ((Session.onMemory f service).run s).2.world := by
  have kept := keeps s.world
  unfold Session.onMemory
  rw [StateT.run_bind]
  rcases ran : (Session.onWorld service.run).run s with ⟨result, t⟩
  rw [show t = _ from congrArg Prod.snd ran.symm]
  cases result <;> exact kept

/-- What the services of a context keep to, every action keeps to. -/
theorem step (action : Action) :
    Keeps (fun s s' : Session ω => R s.world s'.world) (Session.step ctx action) := by
  intro s
  cases action with
  | compile => exact h.compiled s.caller ⟨s.world, s.reports⟩
  | prepare place => exact keep _ (h.prepare s.caller place s.world)
  | insert place => exact keep _ (h.insert s.caller place ⟨s.world, s.reports⟩)
  | write index args => exact h.onActivation s (h.writeAgain s.caller args)
  | read index => exact h.withActivation s fun a => h.readBack s.caller a s.world
  | plan index options => exact h.withActivation s fun _ => h.refl _
  | run index options =>
      exact @onActivation _ _ _ _ h s index .value _ (h.runCall s.caller options)
  | fetch index => exact h.onActivation s (h.fetch s.caller)
  | release index =>
      exact h.endActivation s fun a => .bind h.trans (h.release a) fun _ => keeps_pure h.refl _
  | drop index =>
      exact h.endActivation s fun a => .bind h.trans (h.drop a) fun _ => keeps_pure h.refl _
  | call options =>
      exact h.callWith s.caller s.caller.defaultArguments .fresh options ⟨s.world, s.reports⟩
  | callWith args place options => exact h.callWith s.caller args place options ⟨s.world, s.reports⟩
  | allocateMemory size align => exact onMemory s (h.allocate size align)
  | freeMemory address => exact onMemory s (h.free address)
  | readMemory address length => exact onMemory s (h.read address length)
  | writeMemory address bytes => exact onMemory s (h.write address bytes)

end Context.Respects

end

end CallThunk
