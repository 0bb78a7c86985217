import CallThunk.Process.Debuggee
import CallThunk.Proofs.Process.Services

/-!
# Lemmas about debuggees

A debuggee manages its memory, whatever faults it is given, as long as its allocator hands out new
regions only. Its frees succeed for every live region unless they are made to fail.
-/

namespace CallThunk.Debuggee

variable {d d' : Debuggee} {allocator : Allocator}

/-- A way to hand out memory that only hands out new regions, of the size asked for or more. -/
def Fresh (allocator : Allocator) : Prop :=
  ∀ (m m' : Memory) (size align a : UInt64), allocator m size align = some (a, m') →
    ∃ n, size.toNat ≤ n ∧ m.Allocated n a m'

theorem fresh_sparse : Fresh sparseAllocator :=
  fun _ _ _ _ _ h => ⟨_, Nat.le_refl _, Memory.allocated_of_allocate? h⟩

theorem fresh_host : Fresh hostAllocator := by
  intro m m' size align a h
  unfold hostAllocator at h
  split at h
  · refine ⟨_, ?_, Memory.allocated_of_allocate? h⟩
    show size.toNat ≤ (if size ≤ 1 then 1 else size).toNat
    split
    next one => exact UInt64.le_iff_toNat_le.mp one
    next => exact Nat.le_refl _
  · cases h

/-- A way to hand out memory at multiples of the alignment that is asked for. -/
def Aligning (allocator : Allocator) : Prop :=
  ∀ (m m' : Memory) (size align a : UInt64), allocator m size align = some (a, m') →
    max align.toNat 1 ∣ a.toNat

theorem aligning_sparse : Aligning sparseAllocator := fun _ _ _ _ _ => Memory.dvd_of_allocate?

theorem aligning_host : Aligning hostAllocator := by
  intro m m' size align a h
  unfold hostAllocator at h
  split at h
  · exact Memory.dvd_of_allocate? h
  · cases h

/-! ## Memory services -/

theorem run_onMemory {α : Type} (error : MemoryFault) (f : Memory → Option (α × Memory))
    (d : Debuggee) :
    ((onMemory error f).run.run d : Except MemoryFault α × Debuggee) =
      match f d.memory with
      | some (a, memory) => (.ok a, { d with memory })
      | none => (.error error, d) := rfl

/-- An allocation leaves memory as its allocator does. -/
theorem run_allocate (allocator : Allocator) (size align : UInt64) (d : Debuggee) :
    (∃ left, (allocate allocator size align).run.run d =
      (onMemory (.allocationFailed size) (allocator · size align)).run.run
        { d with faults := { d.faults with allocationsLeft := left } }) ∨
    (allocate allocator size align).run.run d = (.error (.allocationFailed size), d) := by
  unfold allocate
  rcases d with ⟨memory, ⟨left, fails⟩, script, plans, code⟩
  rcases left with _ | left | left
  · exact .inl ⟨none, rfl⟩
  · exact .inr rfl
  · exact .inl ⟨some left, rfl⟩

theorem run_free (address : UInt64) (d : Debuggee) :
    (free address).run.run d =
      if d.faults.freeFails then (.error (.invalidFree address), d)
      else (onMemory (.invalidFree address) fun m => (m.free? address).map ((), ·)).run.run d := by
  rcases d with ⟨memory, ⟨left, fails⟩, script, plans, code⟩
  cases fails <;> rfl

theorem allocates (fresh : Fresh allocator) (size align : UInt64) (d : Debuggee) :
    d.memory.Allocates size.toNat ((allocate allocator size align).run.run d).1
      ((allocate allocator size align).run.run d).2.memory := by
  rcases run_allocate allocator size align d with ⟨left, passed⟩ | failed
  · rw [passed, run_onMemory]
    dsimp only
    cases handed : allocator d.memory size align with
    | none => exact .failed
    | some given =>
        obtain ⟨a, m⟩ := given
        obtain ⟨n, room, allocated⟩ := fresh _ _ _ _ _ handed
        exact .given room allocated
  · rw [failed]
    exact .failed

theorem dvd_of_allocate (aligning : Aligning allocator) {size align a : UInt64}
    (h : Yields (allocate allocator size align) d a d') : max align.toNat 1 ∣ a.toNat := by
  have ran : (allocate allocator size align).run.run d = (.ok a, d') := h
  rcases run_allocate allocator size align d with ⟨left, passed⟩ | failed
  · rw [passed, run_onMemory] at ran
    dsimp only at ran
    cases handed : allocator d.memory size align with
    | none =>
        rw [handed] at ran
        cases ran
    | some given =>
        obtain ⟨b, m⟩ := given
        rw [handed] at ran
        cases ran
        exact aligning _ _ _ _ _ handed
  · rw [failed] at ran
    cases ran

theorem frees (address : UInt64) (d : Debuggee) : d.memory.Frees address
    ((free address).run.run d).1 ((free address).run.run d).2.memory := by
  rw [run_free]
  split
  · exact .failed
  · rw [run_onMemory]
    cases freed : d.memory.free? address with
    | none => exact .failed
    | some m => exact .freed freed

/-! ## Running and compiling -/

theorem memory_runWrapper (plan : Plan) (d : Debuggee) :
    ∃ contents, ((runWrapper plan).run d).2.memory = { d.memory with contents } := by
  show ∃ contents, (runWrapper plan d).2.memory = _
  unfold runWrapper
  split
  · exact ⟨_, rfl⟩
  · split
    · exact ⟨_, rfl⟩
    · split <;> exact ⟨_, rfl⟩

/-- A run replays a stop of the script, or it runs the wrapper. -/
theorem run_run (plan : Plan) (d : Debuggee) :
    (∃ stop script, (run plan).run d = (stop, { d with plans := d.plans ++ [plan], script })) ∨
      (run plan).run d =
        (runWrapper plan).run { d with plans := d.plans ++ [plan], script := [] } := by
  unfold run
  simp only [StateT.run_bind, StateT.run_modify, StateT.run_get, pure_bind]
  cases nextStop? plan.options.ignoreBreakpoints d.script with
  | none => exact .inr rfl
  | some next => exact .inl ⟨_, _, rfl⟩

theorem memory_run (plan : Plan) (d : Debuggee) :
    ∃ contents, ((run plan).run d).2.memory = { d.memory with contents } := by
  rcases run_run plan d with ⟨stop, script, ran⟩ | ran
  · rw [ran]
    exact ⟨_, rfl⟩
  · rw [ran]
    exact memory_runWrapper plan _

theorem memory_install (compiled : Option LoadedWrapper) (d : Debuggee) :
    (d.install compiled).memory = d.memory := by
  unfold install
  split <;> rfl

theorem memory_compile (choice : CompilerChoice) (target : Target) (source : WrapperSource)
    (d : Debuggee) : ((compile choice target source).run d).2.memory = d.memory := by
  cases choice with
  | layoutOnly => rfl
  | scripted => rfl
  | native => exact memory_install _ d

/-- A debuggee manages its memory. -/
theorem manages (fresh : Fresh allocator) (target : Target) (choice : CompilerChoice) :
    (context target allocator choice).Manages memory where
  allocate := allocates fresh
  free := frees
  read a n d := by
    show d.memory.Reads a n ((read a n).run.run d).1 ∧ ((read a n).run.run d).2.memory = d.memory
    unfold read
    rw [run_onMemory]
    cases held : d.memory.read? a n with
    | none => exact ⟨.unmapped held, rfl⟩
    | some bytes => exact ⟨.read held, rfl⟩
  write a bytes d := by
    show d.memory.Stores a bytes ((write a bytes).run.run d).1 ((write a bytes).run.run d).2.memory
    unfold write
    rw [run_onMemory]
    cases stored : d.memory.write? a bytes with
    | none => exact .unmapped stored
    | some m => exact .stored stored
  run := memory_run
  compile := memory_compile choice target

/-! ## Processes that hand out the same -/

/-- What a sparse process hands out depends on this alone. -/
structure Alike (d e : Debuggee) : Prop where
  next : d.memory.next = e.memory.next
  faults : d.faults = e.faults

theorem Alike.refl (d : Debuggee) : d.Alike d := ⟨rfl, rfl⟩

theorem Alike.trans {a b c : Debuggee} (h : a.Alike b) (h' : b.Alike c) : a.Alike c :=
  ⟨h.next.trans h'.next, h.faults.trans h'.faults⟩

theorem alike_onMemory {α : Type} (error : MemoryFault) {f : Memory → Option (α × Memory)}
    (next : ∀ m a m', f m = some (a, m') → m'.next = m.next) :
    Keeps Alike (onMemory error f).run := by
  intro d
  rw [run_onMemory]
  cases given : f d.memory with
  | none => exact .refl d
  | some result => exact ⟨(next _ _ _ given).symm, rfl⟩

theorem alike_free (address : UInt64) : Keeps Alike (free address).run := by
  intro d
  rw [run_free]
  split
  · exact .refl d
  · refine alike_onMemory _ (fun m u m' freed => ?_) d
    obtain ⟨n, freed, same⟩ := Option.map_eq_some_iff.mp freed
    cases same
    exact (Memory.free?_eq_some freed).2.2.1

theorem alike_write (address : UInt64) (bytes : List UInt8) :
    Keeps Alike (write address bytes).run := by
  refine alike_onMemory _ fun m u m' stored => ?_
  obtain ⟨n, stored, same⟩ := Option.map_eq_some_iff.mp stored
  cases same
  rw [(Memory.write?_eq_some.mp stored).2]

/-- The same result of an allocation in two processes that are alike, and stay so. -/
def Alike.Hands (x : Service Debuggee UInt64) (size : UInt64) (d e : Debuggee) : Prop :=
  (∃ a d' e', Yields x d a d' ∧ Yields x e a e' ∧ d'.Alike e') ∨
    ∃ d' e', x.run.run d = (.error (.allocationFailed size), d') ∧
      x.run.run e = (.error (.allocationFailed size), e')

theorem Alike.hands_onMemory (h : d.Alike d') (size align : UInt64) :
    Hands (onMemory (.allocationFailed size) (sparseAllocator · size align)) size d d' := by
  unfold Hands Yields
  simp only [run_onMemory]
  rcases @Memory.allocate?_of_next d.memory d'.memory size align h.next with
    ⟨none, none'⟩ | ⟨a, m, m', given, given', next⟩
  · rw [sparseAllocator, none, none']
    exact .inr ⟨_, _, rfl, rfl⟩
  · rw [sparseAllocator, given, given']
    exact .inl ⟨a, _, _, rfl, rfl, next, h.faults⟩

/-- Sparse processes that are alike hand out the same memory, or both have none left. -/
theorem Alike.hands (h : d.Alike d') (size align : UInt64) :
    Hands (allocate sparseAllocator size align) size d d' := by
  obtain ⟨memory, ⟨left, fails⟩, script, plans, code⟩ := d
  obtain ⟨memory', faults, script', plans', code'⟩ := d'
  obtain ⟨next, same⟩ := h
  dsimp only at next same
  subst same
  have behind (left : Option Nat) : Alike ⟨memory, ⟨left, fails⟩, script, plans, code⟩
    ⟨memory', ⟨left, fails⟩, script', plans', code'⟩ := ⟨next, rfl⟩
  rcases left with _ | left | left
  · exact (behind none).hands_onMemory size align
  · exact .inr ⟨_, _, rfl, rfl⟩
  · exact (behind (some left)).hands_onMemory size align

/-! ## Frees that succeed -/

/-- Whether live regions can be freed. -/
def Reliable (d : Debuggee) : Prop := d.faults.freeFails = false

theorem reliable_onMemory {α : Type} (error : MemoryFault) (f : Memory → Option (α × Memory)) :
    Keeps (fun d d' => Reliable d → Reliable d') (onMemory error f).run := by
  intro d reliable
  rw [run_onMemory]
  cases f d.memory <;> exact reliable

theorem reliable_allocate (allocator : Allocator) (size align : UInt64) :
    Keeps (fun d d' => Reliable d → Reliable d') (allocate allocator size align).run := by
  intro d reliable
  rcases run_allocate allocator size align d with ⟨left, passed⟩ | failed
  · rw [passed]
    exact reliable_onMemory _ _ _ reliable
  · rw [failed]
    exact reliable

theorem reliable_free (address : UInt64) :
    Keeps (fun d d' => Reliable d → Reliable d') (free address).run := by
  intro d reliable
  rw [run_free]
  split
  · exact reliable
  · exact reliable_onMemory _ _ _ reliable

theorem reliable_run (plan : Plan) :
    Keeps (fun d d' => Reliable d → Reliable d') (run plan) := by
  intro d reliable
  rcases run_run plan d with ⟨stop, script, ran⟩ | ran
  · rw [ran]
    exact reliable
  · rw [ran]
    show Reliable (runWrapper plan _).2
    unfold runWrapper
    split
    · exact reliable
    · split
      · exact reliable
      · split <;> exact reliable

theorem reliable_compile (choice : CompilerChoice) (target : Target) (source : WrapperSource) :
    Keeps (fun d d' => Reliable d → Reliable d') (compile choice target source) := by
  intro d reliable
  cases choice with
  | layoutOnly => exact reliable
  | scripted => exact reliable
  | native =>
      show Reliable (d.install _)
      unfold install
      split <;> exact reliable

/-- No service makes frees fail. -/
theorem respects_reliable (target : Target) (allocator : Allocator) (choice : CompilerChoice) :
    (context target allocator choice).Respects fun d d' => Reliable d → Reliable d' where
  refl _ := id
  trans _ _ _ first second := second ∘ first
  allocate := reliable_allocate allocator
  free := reliable_free
  read _ _ := reliable_onMemory _ _
  write _ _ := reliable_onMemory _ _
  run := reliable_run
  compile := reliable_compile choice target

theorem free_eq_ok {address : UInt64} {m : Memory} (reliable : Reliable d)
    (freed : d.memory.free? address = some m) : ((free address).run.run d).1 = .ok () := by
  rw [run_free, if_neg (by rw [reliable]; exact Bool.false_ne_true), run_onMemory, freed]
  rfl

end CallThunk.Debuggee
