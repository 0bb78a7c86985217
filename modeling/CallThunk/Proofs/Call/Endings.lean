import CallThunk.Proofs.Call.Compiling
import CallThunk.Proofs.Call.Operations

/-!
# How operations end

One lemma for each operation says all that it can do: what it gives, what it leaves of the
activation, and which services of the context it used on the way. What holds of calls and sessions
is read off these lemmas; the programs themselves are not looked at again.
-/

namespace CallThunk

namespace Caller

section
variable {ω : Type} {ctx : Context ω} {caller : Caller} {s : Activation × ω}

theorem run_service_of {α : Type} {service : Service ω α} {result : Except MemoryFault α} {w : ω}
    (h : service.run.run s.2 = (result, w)) :
    ((Caller.service service).run.run s : Except CallError α × _) =
      (result.mapError .memory, (s.1, w)) := by
  rw [run_service, h]

/-! ## Writing -/

/-- The images of the callee's address and of arguments, or why they are not to be written. -/
def validate (caller : Caller) (args : List Value) :
    Except CallError (Ready × List UInt8 × List (SlotPlace × ArgumentImage)) := do
  let r ← caller.ready
  let images ← (caller.images r args).mapError .mismatch
  return (r, images)

/-- The part of a write that changes memory. -/
def transfer (ctx : Context ω) (r : Ready) (function : List UInt8)
    (arguments : List (SlotPlace × ArgumentImage)) : OnActivation ω PUnit := do
  freeSides ctx
  writeSlot ctx r.layout.function function
  writeAll ctx r.target arguments

/-- An activation whose arguments are given up. -/
def givenUp (s : Activation × ω) : Activation × ω :=
  ({ s.1 with stage := .prepared, arguments := [] }, s.2)

/-- How a write ends. -/
inductive WriteEnds (ctx : Context ω) (caller : Caller) (args : List Value) (s : Activation × ω) :
    Except CallError PUnit → Activation × ω → Prop where
  /-- It is refused before anything happens. -/
  | refused {e : CallError} (invalid : caller.validate args = .error e) :
      WriteEnds ctx caller args s (.error e) s
  /-- It fails on the way, when the arguments before are given up. -/
  | broken {r : Ready} {function : List UInt8} {arguments : List (SlotPlace × ArgumentImage)}
      {e : CallError} {t : Activation × ω}
      (valid : caller.validate args = .ok (r, function, arguments))
      (failed : (transfer ctx r function arguments).run.run (givenUp s) = (.error e, t)) :
      WriteEnds ctx caller args s (.error e) t
  | done {r : Ready} {function : List UInt8} {arguments : List (SlotPlace × ArgumentImage)}
      {t : Activation × ω} (valid : caller.validate args = .ok (r, function, arguments))
      (transferred : Yields (transfer ctx r function arguments) (givenUp s) () t) :
      WriteEnds ctx caller args s (.ok ()) ({ t.1 with stage := .written, arguments := args }, t.2)

theorem validate_eq_ok {args : List Value} {r : Ready} {function : List UInt8}
    {arguments : List (SlotPlace × ArgumentImage)} :
    caller.validate args = .ok (r, function, arguments) ↔
      caller.ready = .ok r ∧ caller.images r args = .ok (function, arguments) := by
  unfold validate
  rw [bind_eq_ok]
  constructor
  · rintro ⟨r', ready, h⟩
    obtain ⟨images, checked, h⟩ := bind_eq_ok.mp h
    cases h
    exact ⟨ready, mapError_eq_ok.mp checked⟩
  · rintro ⟨ready, checked⟩
    exact ⟨r, ready, bind_eq_ok.mpr ⟨_, mapError_eq_ok.mpr checked, rfl⟩⟩

/-- A ready caller refuses values for the mismatch that is found. -/
theorem validate_eq_mismatch {r : Ready} (ready : caller.ready = .ok r) {args : List Value}
    {m : Mismatch} :
    caller.validate args = .error (.mismatch m) ↔ caller.images r args = .error m := by
  unfold validate
  rw [ready]
  show ((caller.images r args).mapError CallError.mismatch >>= fun images => pure (r, images)) =
    _ ↔ _
  cases caller.images r args with
  | ok images => exact ⟨nofun, nofun⟩
  | error e =>
      constructor
      · intro h
        cases h
        rfl
      · rintro ⟨⟩
        rfl

theorem run_write_of_error {args : List Value} {e : CallError}
    (h : caller.validate args = .error e) (s : Activation × ω) :
    ((caller.write ctx args).run.run s : Except CallError PUnit × _) = (.error e, s) := by
  unfold validate at h
  unfold write
  cases ready : caller.ready with
  | error other =>
      rw [ready] at h
      cases h
      exact run_exceptBind_error rfl
  | ok r =>
      rw [ready] at h
      replace h : ((caller.images r args).mapError .mismatch >>= fun images => pure (r, images)) =
        .error e := h
      refine (run_exceptBind_ok rfl).trans ?_
      cases checked : caller.images r args with
      | error m =>
          rw [checked] at h
          cases h
          exact run_exceptBind_error rfl
      | ok images =>
          rw [checked] at h
          cases h

theorem run_write_of_ok {args : List Value} {r : Ready} {function : List UInt8}
    {arguments : List (SlotPlace × ArgumentImage)}
    (h : caller.validate args = .ok (r, function, arguments)) (s : Activation × ω) :
    ((caller.write ctx args).run.run s : Except CallError PUnit × _) =
      (transfer ctx r function arguments >>= fun _ => update fun activation =>
        { activation with stage := .written, arguments := args }).run.run (givenUp s) := by
  obtain ⟨ready, checked⟩ := validate_eq_ok.mp h
  unfold write
  rw [ready]
  refine (run_exceptBind_ok rfl).trans ?_
  rw [checked]
  -- from the arguments being given up on, a write is the transfer and a last update
  refine (run_exceptBind_ok rfl).trans <| (run_exceptBind_ok rfl).trans ?_
  simp only [transfer, bind_assoc]
  rfl

theorem write_ends {args : List Value} {result : Except CallError PUnit} {t : Activation × ω}
    (h : (caller.write ctx args).run.run s = (result, t)) :
    WriteEnds ctx caller args s result t := by
  cases valid : caller.validate args with
  | error e =>
      rw [run_write_of_error valid] at h
      cases h
      exact .refused valid
  | ok images =>
      obtain ⟨r, function, arguments⟩ := images
      rw [run_write_of_ok valid, run_exceptBind] at h
      rcases run : ((transfer ctx r function arguments).run.run (givenUp s) :
        Except CallError PUnit × _) with ⟨e | u, t'⟩
      · rw [run] at h
        cases h
        exact .broken valid run
      · rw [run] at h
        cases h
        exact .done valid run

/-- The bytes that an image may put into its slot. -/
def ArgumentImage.Fills (target : Target) : ArgumentImage → List UInt8 → Prop
  | .word bytes, filled => filled = bytes
  | .side .., filled => ∃ address, target.addressImage address = .ok filled

section
variable {R : Activation × ω → Activation × ω → Prop} {P : SlotPlace → List UInt8 → Prop}

theorem keeps_writeAll (refl : ∀ s, R s s) (trans : ∀ a b c, R a b → R b c → R a c)
    (slot : ∀ place bytes, P place bytes → Keeps R (writeSlot ctx place bytes).run)
    (side : ∀ bytes align, Keeps R (newSide ctx bytes align).run) {target : Target}
    {arguments : List (SlotPlace × ArgumentImage)}
    (fill : ∀ p ∈ arguments, ∀ bytes, p.2.Fills target bytes → P p.1 bytes) :
    Keeps R (writeAll ctx target arguments).run := by
  induction arguments with
  | nil => exact refl
  | cons argument rest ih =>
      obtain ⟨place, image⟩ := argument
      have filled := fill _ (List.mem_cons_self ..)
      refine .exceptBind trans ?_ fun _ => ih fun p hp => fill p (List.mem_cons_of_mem _ hp)
      cases image with
      | word bytes => exact slot _ _ (filled bytes rfl)
      | side bytes align =>
          refine .exceptBind trans (side bytes align) fun address => ?_
          cases encoded : target.addressImage address with
          | ok image => exact slot _ _ (filled image ⟨address, encoded⟩)
          | error e => exact refl

/-- What freeing, filling a slot and filling a side buffer keep to, a transfer keeps to. -/
theorem keeps_transfer (refl : ∀ s, R s s) (trans : ∀ a b c, R a b → R b c → R a c)
    (free : Keeps R (freeSides ctx).run)
    (slot : ∀ place bytes, P place bytes → Keeps R (writeSlot ctx place bytes).run)
    (side : ∀ bytes align, Keeps R (newSide ctx bytes align).run) {r : Ready}
    {function : List UInt8} {arguments : List (SlotPlace × ArgumentImage)}
    (first : P r.layout.function function)
    (fill : ∀ p ∈ arguments, ∀ bytes, p.2.Fills r.target bytes → P p.1 bytes) :
    Keeps R (transfer ctx r function arguments).run :=
  .exceptBind trans free fun _ =>
    .exceptBind trans (slot _ _ first) fun _ => keeps_writeAll refl trans slot side fill

end

/-! ## Fetching -/

/-- How the result of a call is fetched. -/
inductive FetchEnds (ctx : Context ω) (caller : Caller) (s : Activation × ω) :
    Except CallError Value → Activation × ω → Prop where
  | unready {e : CallError} (unready : caller.ready = .error e) :
      FetchEnds ctx caller s (.error e) s
  | early (early : s.1.stage ≠ .completed) : FetchEnds ctx caller s (.error .notCompleted) s
  | unreadable {r : Ready} {place : SlotPlace} {e : MemoryFault} {w : ω}
      (ready : caller.ready = .ok r) (slot : r.layout.result = some place)
      (failed : (ctx.read (slotAddress s.1 place) place.size.toNat).run.run s.2 = (.error e, w)) :
      FetchEnds ctx caller s (.error (.memory e)) (s.1, w)
  | undecodable {r : Ready} {place : SlotPlace} {slot : Slot} {bytes : List UInt8} {e : Mismatch}
      {w : ω} (ready : caller.ready = .ok r) (held : r.layout.result = some place)
      (read : Yields (ctx.read (slotAddress s.1 place) place.size.toNat) s.2 bytes w)
      (failed : Value.decode r.target slot.ty bytes = .error e)
      (completed : s.1.stage = .completed) (typed : caller.model.resultSlot? = some slot) :
      FetchEnds ctx caller s (.error (.mismatch e)) (s.1, w)
  | decoded {r : Ready} {place : SlotPlace} {slot : Slot} {bytes : List UInt8} {v : Value} {w : ω}
      (completed : s.1.stage = .completed) (ready : caller.ready = .ok r)
      (held : r.layout.result = some place) (typed : caller.model.resultSlot? = some slot)
      (read : Yields (ctx.read (slotAddress s.1 place) place.size.toNat) s.2 bytes w)
      (decodes : Value.decode r.target slot.ty bytes = .ok v) :
      FetchEnds ctx caller s (.ok v) ({ s.1 with result := some v }, w)
  | void {r : Ready} (completed : s.1.stage = .completed) (ready : caller.ready = .ok r)
      (none : r.layout.result = none ∨ caller.model.resultSlot? = none) :
      FetchEnds ctx caller s (.ok .void) ({ s.1 with result := some .void }, s.2)

theorem fetch_ends {result : Except CallError Value} {t : Activation × ω}
    (h : (caller.fetch ctx).run.run s = (result, t)) : FetchEnds ctx caller s result t := by
  unfold fetch at h
  rw [run_exceptBind_ok (run_current s)] at h
  cases ready : caller.ready with
  | error e =>
      rw [ready] at h
      cases h
      exact .unready ready
  | ok r =>
      rw [ready] at h
      dsimp only at h
      by_cases completed : s.1.stage = .completed
      · rw [if_neg (not_not_intro completed)] at h
        cases held : r.layout.result with
        | none =>
            rw [held] at h
            cases h
            exact .void completed ready (.inl held)
        | some place =>
            cases typed : caller.model.resultSlot? with
            | none =>
                rw [held, typed] at h
                cases h
                exact .void completed ready (.inr typed)
            | some slot =>
                rw [held, typed] at h
                dsimp only at h
                rcases read : ((ctx.read (slotAddress s.1 place) place.size.toNat).run.run s.2 :
                  Except MemoryFault _ × ω) with ⟨e | bytes, w⟩
                · rw [run_exceptBind_error (run_service_of read)] at h
                  cases h
                  exact .unreadable ready held read
                · rw [run_exceptBind_ok (run_service_of read)] at h
                  cases decodes : Value.decode r.target slot.ty bytes with
                  | error e =>
                      rw [decodes] at h
                      cases h
                      exact .undecodable ready held read decodes completed typed
                  | ok v =>
                      rw [decodes] at h
                      cases h
                      exact .decoded completed ready held typed read decodes
      · rw [if_pos completed] at h
        cases h
        exact .early completed

/-! ## Running -/

/-- How a run ends. -/
inductive RunEnds (ctx : Context ω) (caller : Caller) (options : RunOptions)
    (s : Activation × ω) : Except CallError Value → Activation × ω → Prop where
  /-- It is refused before anything happens. -/
  | refused {e : CallError} (unplanned : caller.plan s.1 options = .error e) :
      RunEnds ctx caller options s (.error e) s
  | interrupted {p : Plan} {stop : Stop} {w : ω} (planned : caller.plan s.1 options = .ok p)
      (stopped : (ctx.run p).run s.2 = (stop, w)) (early : stop.isCompleted = false) :
      RunEnds ctx caller options s (.error (.stopped stop))
        ({ s.1 with stage := .interrupted }, w)
  | completed {p : Plan} {stop : Stop} {w : ω} {result : Except CallError Value}
      {t : Activation × ω} (planned : caller.plan s.1 options = .ok p)
      (stopped : (ctx.run p).run s.2 = (stop, w)) (completed : stop.isCompleted = true)
      (fetched : FetchEnds ctx caller ({ s.1 with stage := .completed }, w) result t) :
      RunEnds ctx caller options s result t

theorem run_ends {options : RunOptions} {result : Except CallError Value} {t : Activation × ω}
    (h : (caller.run ctx options).run.run s = (result, t)) :
    RunEnds ctx caller options s result t := by
  unfold run at h
  rw [run_exceptBind_ok (run_current s)] at h
  cases planned : caller.plan s.1 options with
  | error e =>
      rw [planned] at h
      cases h
      exact .refused planned
  | ok p =>
      rw [planned] at h
      rcases stopped : (ctx.run p).run s.2 with ⟨stop, w⟩
      -- the call is running only as long as the context runs its plan
      have ran : ((runPlan ctx p).run.run ({ s.1 with stage := .running }, s.2) :
          Except CallError Stop × _) = (.ok stop, ({ s.1 with stage := .running }, w)) := by
        show (Except.ok ((ctx.run p).run s.2).1, (_, ((ctx.run p).run s.2).2)) = _
        rw [stopped]
      dsimp only at h
      rw [run_exceptBind_ok (run_update _ s), run_exceptBind_ok ran] at h
      cases done : stop.isCompleted with
      | false =>
          rw [done] at h
          cases h
          exact .interrupted planned stopped done
      | true =>
          rw [done] at h
          exact .completed planned stopped done (fetch_ends h)

/-! ## Preparing -/

/-- How the struct of a call is prepared. -/
inductive PrepareEnds (ctx : Context ω) (caller : Caller) (w : ω) :
    StructPlace → Except CallError Activation → ω → Prop where
  | unready {place : StructPlace} {e : CallError} (unready : caller.ready = .error e) :
      PrepareEnds ctx caller w place (.error e) w
  | unadopted {r : Ready} {address : UInt64} {e : MemoryFault} {w' : ω}
      (ready : caller.ready = .ok r)
      (failed : (ctx.read address r.layout.size.toNat).run.run w = (.error e, w')) :
      PrepareEnds ctx caller w (.given address) (.error (.memory e)) w'
  | adopted {r : Ready} {address : UInt64} {bytes : List UInt8} {w' : ω}
      (ready : caller.ready = .ok r)
      (read : Yields (ctx.read address r.layout.size.toNat) w bytes w') :
      PrepareEnds ctx caller w (.given address)
        (.ok { structAddress := address, ownsStruct := false }) w'
  | unallocated {r : Ready} {e : MemoryFault} {w' : ω} (ready : caller.ready = .ok r)
      (failed : (ctx.allocate r.layout.size.toUInt64 r.layout.align.toUInt64).run.run w =
        (.error e, w')) :
      PrepareEnds ctx caller w .fresh (.error (.memory e)) w'
  | allocated {r : Ready} {address : UInt64} {w' : ω} (ready : caller.ready = .ok r)
      (allocated : Yields (ctx.allocate r.layout.size.toUInt64 r.layout.align.toUInt64) w address
        w') :
      PrepareEnds ctx caller w .fresh (.ok { structAddress := address, ownsStruct := true }) w'

theorem run_access_of {α : Type} {service : Service ω α} {result : Except MemoryFault α} {w w' : ω}
    (h : service.run.run w = (result, w')) :
    ((access service).run.run w : Except CallError α × _) = (result.mapError .memory, w') := by
  rw [run_access, h]

theorem prepare_ends {place : StructPlace} {w w' : ω} {result : Except CallError Activation}
    (h : (caller.prepare ctx place).run.run w = (result, w')) :
    PrepareEnds ctx caller w place result w' := by
  unfold prepare at h
  cases ready : caller.ready with
  | error e =>
      rw [ready, run_exceptBind_error (show ((prepare.liftExcept (.error e)).run.run w :
        Except CallError Ready × ω) = (.error e, w) from rfl)] at h
      cases h
      exact .unready ready
  | ok r =>
      rw [ready, run_exceptBind_ok (show ((prepare.liftExcept (.ok r)).run.run w :
        Except CallError Ready × ω) = (.ok r, w) from rfl)] at h
      cases place with
      | given address =>
          rcases read : ((ctx.read address r.layout.size.toNat).run.run w :
            Except MemoryFault _ × ω) with ⟨e | bytes, t⟩
          · rw [run_exceptBind_error (run_access_of read)] at h
            cases h
            exact .unadopted ready read
          · rw [run_exceptBind_ok (run_access_of read)] at h
            cases h
            exact .adopted ready read
      | fresh =>
          rcases allocated : ((ctx.allocate r.layout.size.toUInt64
            r.layout.align.toUInt64).run.run w : Except MemoryFault _ × ω) with ⟨e | address, t⟩
          · rw [run_exceptBind_error (run_access_of allocated)] at h
            cases h
            exact .unallocated ready allocated
          · rw [run_exceptBind_ok (run_access_of allocated)] at h
            cases h
            exact .allocated ready allocated

/-- How a struct is prepared with the default arguments in it. -/
inductive InsertEnds (ctx : Context ω) (caller : Caller) (place : StructPlace) (w : ω) :
    Except CallError Activation → ω → Prop where
  | unprepared {e : CallError} {w' : ω} (failed : PrepareEnds ctx caller w place (.error e) w') :
      InsertEnds ctx caller place w (.error e) w'
  | unwritten {activation : Activation} {w' : ω} {e : CallError} {t : Activation × ω}
      (prepared : PrepareEnds ctx caller w place (.ok activation) w')
      (failed : WriteEnds ctx caller caller.defaultArguments (activation, w') (.error e) t) :
      InsertEnds ctx caller place w (.error e) ((t.1.drop ctx).run t.2).2
  | written {activation : Activation} {w' : ω} {t : Activation × ω}
      (prepared : PrepareEnds ctx caller w place (.ok activation) w')
      (written : WriteEnds ctx caller caller.defaultArguments (activation, w') (.ok ()) t) :
      InsertEnds ctx caller place w (.ok t.1) t.2

theorem prepareDefault_ends {place : StructPlace} {w w' : ω}
    {result : Except CallError Activation}
    (h : (caller.prepareDefault ctx place).run w = (result, w')) :
    InsertEnds ctx caller place w result w' := by
  rcases prepared : (caller.prepare ctx place).run.run w with ⟨e | activation, w₁⟩
  · rw [run_prepareDefault_error prepared] at h
    cases h
    exact .unprepared (prepare_ends prepared)
  · rw [run_prepareDefault_ok prepared] at h
    rcases written : (caller.write ctx caller.defaultArguments).run.run (activation, w₁) with
      ⟨e | u, t⟩
    · rw [written] at h
      cases h
      exact .unwritten (prepare_ends prepared) (write_ends written)
    · rw [written] at h
      cases h
      exact .written (prepare_ends prepared) (write_ends written)

/-! ## Whole calls -/

/-- How a call on an activation of its own ends. -/
inductive CallEnds (ctx : Context ω) (caller : Caller) (args : List Value) (place : StructPlace)
    (options : RunOptions) (w : ω) : Except CallError Value → ω → Prop where
  | unprepared {e : CallError} {w' : ω} (failed : PrepareEnds ctx caller w place (.error e) w') :
      CallEnds ctx caller args place options w (.error e) w'
  | unwritten {activation : Activation} {w' : ω} {e : CallError} {t : Activation × ω}
      (prepared : PrepareEnds ctx caller w place (.ok activation) w')
      (failed : WriteEnds ctx caller args (activation, w') (.error e) t) :
      CallEnds ctx caller args place options w (.error e) ((t.1.drop ctx).run t.2).2
  | failed {activation : Activation} {w' : ω} {e : CallError} {t u : Activation × ω}
      (prepared : PrepareEnds ctx caller w place (.ok activation) w')
      (written : WriteEnds ctx caller args (activation, w') (.ok ()) t)
      (failed : RunEnds ctx caller options t (.error e) u) :
      CallEnds ctx caller args place options w (.error e) ((u.1.drop ctx).run u.2).2
  | returned {activation : Activation} {w' : ω} {v : Value} {t u : Activation × ω}
      (prepared : PrepareEnds ctx caller w place (.ok activation) w')
      (written : WriteEnds ctx caller args (activation, w') (.ok ()) t)
      (returned : RunEnds ctx caller options t (.ok v) u) :
      CallEnds ctx caller args place options w (.ok v) ((u.1.release ctx).run.run u.2).2

theorem callAlone_ends {args : List Value} {place : StructPlace} {options : RunOptions} {w w' : ω}
    {result : Except CallError Value}
    (h : (caller.callAlone ctx args place options).run w = (result, w')) :
    CallEnds ctx caller args place options w result w' := by
  rcases prepared : (caller.prepare ctx place).run.run w with ⟨e | activation, w₁⟩
  · rw [run_callAlone_error prepared] at h
    cases h
    exact .unprepared (prepare_ends prepared)
  · rw [run_callAlone_ok prepared] at h
    rcases written : (caller.write ctx args).run.run (activation, w₁) with ⟨e | u, t⟩
    · rw [run_exceptBind_error written] at h
      cases h
      exact .unwritten (prepare_ends prepared) (write_ends written)
    · rw [run_exceptBind_ok written] at h
      rcases ran : (caller.run ctx options).run.run t with ⟨e | v, u⟩
      · rw [ran] at h
        cases h
        exact .failed (prepare_ends prepared) (write_ends written) (run_ends ran)
      · rw [ran] at h
        cases h
        exact .returned (prepare_ends prepared) (write_ends written) (run_ends ran)

/-- What compiling makes of a caller and of the context. -/
inductive CompileEnds (ctx : Context ω) (caller : Caller) (w : ω) : Caller → ω → Prop where
  | kept (settled : caller.status ≠ .new) : CompileEnds ctx caller w caller w
  | compiled {outcome : Option LoadedWrapper × Diagnostics} {w' : ω}
      (new : caller.status = .new) (run : (ctx.compile caller.source).run w = (outcome, w')) :
      CompileEnds ctx caller w { caller with
        status := (caller.settle ctx.target outcome.1 outcome.2.errorCount).1 } w'

theorem world_reportAll (messages : List String) (s : Reporting ω) :
    ((messages.forM report : StateM (Reporting ω) PUnit).run s).2.world = s.world := by
  induction messages generalizing s with
  | nil => rfl
  | cons message rest ih => exact ih _

theorem compile_ends (s : Reporting ω) : CompileEnds ctx caller s.world
    ((caller.compile ctx).run s).1.2 ((caller.compile ctx).run s).2.world := by
  cases status : caller.status with
  | ready r =>
      unfold compile
      rw [status]
      exact .kept (by rw [status]; nofun)
  | failed errors failure =>
      unfold compile
      rw [status]
      exact .kept (by rw [status]; nofun)
  | new =>
      rw [run_compile_new status]
      show CompileEnds ctx caller s.world _ (((_ : List String).forM report).run _).2.world
      rw [world_reportAll]
      exact .compiled status rfl

/-- How a call ends that compiles first if needed. -/
inductive CallWithEnds (ctx : Context ω) (caller : Caller) (args : List Value)
    (place : StructPlace) (options : RunOptions) (w : ω) :
    Except CallError Value → Caller → ω → Prop where
  | uncompiled {e : CallError} {compiled : Caller} {w' : ω}
      (compiles : CompileEnds ctx caller w compiled w') :
      CallWithEnds ctx caller args place options w (.error e) compiled w'
  | called {result : Except CallError Value} {compiled : Caller} {w' w'' : ω}
      (compiles : CompileEnds ctx caller w compiled w')
      (called : CallEnds ctx compiled args place options w' result w'') :
      CallWithEnds ctx caller args place options w result compiled w''

theorem callWith_ends {args : List Value} {place : StructPlace} {options : RunOptions}
    {s s' : Reporting ω} {result : Except CallError Value} {compiled : Caller}
    (h : (caller.callWith ctx args place options).run s = ((result, compiled), s')) :
    CallWithEnds ctx caller args place options s.world result compiled s'.world := by
  have compiles := @compile_ends ω ctx caller s
  rcases compiled' : (caller.compile ctx).run s with ⟨⟨errors, other⟩, t⟩
  rw [compiled'] at compiles
  unfold callWith at h
  rw [run_stateBind_of compiled'] at h
  dsimp only at h compiles
  split at h
  · split at h <;> cases h <;> exact .uncompiled compiles
  · rcases called : (other.callAlone ctx args place options).run t.world with ⟨outcome, w⟩
    rw [run_stateBind_of (run_onWorld_of called)] at h
    -- reporting a failure changes nothing else
    cases outcome <;> cases h <;> exact .called compiles (callAlone_ends called)

theorem insert_ends {place : StructPlace} {s s' : Reporting ω}
    {result : Except CallError Activation} (h : (caller.insert ctx place).run s = (result, s')) :
    InsertEnds ctx caller place s.world result s'.world := by
  unfold insert at h
  rcases prepared : (caller.prepareDefault ctx place).run s.world with ⟨outcome, w⟩
  rw [run_stateBind_of (run_onWorld_of prepared)] at h
  cases outcome <;> cases h <;> exact prepareDefault_ends prepared

end

end Caller

end CallThunk
