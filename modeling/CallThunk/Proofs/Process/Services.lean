import CallThunk.Process.Watched
import CallThunk.Proofs.Call.Operations
import CallThunk.Proofs.Process.Memory

/-!
# Memory services

What a process may do to its memory when it is asked for a service: hand out new regions, give up
live ones, and change bytes inside of them, or fail and leave all as it was. What is shown of calls
rests on nothing else, so it holds for every process that manages memory in this way. A watched
process does if the process that it watches does.
-/

namespace CallThunk

namespace Memory

/-- How an allocation ends. -/
inductive Allocates (m : Memory) (size : Nat) : Except MemoryFault UInt64 → Memory → Prop where
  | failed {e : MemoryFault} : Allocates m size (.error e) m
  | given {n : Nat} {a : UInt64} {m' : Memory} (room : size ≤ n) (allocated : m.Allocated n a m') :
      Allocates m size (.ok a) m'

/-- How a free ends. -/
inductive Frees (m : Memory) (a : UInt64) : Except MemoryFault PUnit → Memory → Prop where
  | failed {e : MemoryFault} : Frees m a (.error e) m
  | freed {m' : Memory} (freed : m.free? a = some m') : Frees m a (.ok ()) m'

/-- How a read ends. -/
inductive Reads (m : Memory) (a : UInt64) (n : Nat) : Except MemoryFault (List UInt8) → Prop where
  | unmapped {e : MemoryFault} (unmapped : m.read? a n = none) : Reads m a n (.error e)
  | read {bytes : List UInt8} (read : m.read? a n = some bytes) : Reads m a n (.ok bytes)

/-- How a write ends. -/
inductive Stores (m : Memory) (a : UInt64) (bytes : List UInt8) :
    Except MemoryFault PUnit → Memory → Prop where
  | unmapped {e : MemoryFault} (unmapped : m.write? a bytes = none) :
      Stores m a bytes (.error e) m
  | stored {m' : Memory} (stored : m.write? a bytes = some m') : Stores m a bytes (.ok ()) m'

/-- Addresses that were handed out stay handed out. -/
def Later (m m' : Memory) : Prop := m.Bounded → m'.Bounded ∧ m.next.toNat ≤ m'.next.toNat

theorem Later.refl (m : Memory) : m.Later m := fun bounded => ⟨bounded, Nat.le_refl _⟩

theorem Later.trans {a b c : Memory} (h : a.Later b) (h' : b.Later c) : a.Later c := by
  intro bounded
  obtain ⟨bounded, first⟩ := h bounded
  obtain ⟨bounded, second⟩ := h' bounded
  exact ⟨bounded, Nat.le_trans first second⟩

theorem Later.of_eq {m m' : Memory} (same : m' = m) : m.Later m' := by
  rw [same]
  exact .refl m

/-- Memory at some time and later: a live region was live before, or it lies above all that was
handed out then. -/
structure Ages (m m' : Memory) : Prop where
  tidy : m.Tidy → m'.Tidy
  next : m.next.toNat ≤ m'.next.toNat
  old : ∀ region ∈ m'.live, region ∈ m.live ∨ m.next.toNat ≤ region.start.toNat

theorem Ages.of_same {m m' : Memory} (live : m'.live = m.live) (next : m'.next = m.next) :
    m.Ages m' where
  tidy tidy := ⟨fun region member => by rw [next]; exact tidy.bounded region (live ▸ member),
    by rw [live]; exact tidy.apart⟩
  next := Nat.le_of_eq (by rw [next])
  old region member := .inl (live ▸ member)

theorem Ages.refl (m : Memory) : m.Ages m := .of_same rfl rfl

theorem Ages.trans {m m' u : Memory} (h : m.Ages m') (h' : m'.Ages u) : m.Ages u where
  tidy := h'.tidy ∘ h.tidy
  next := Nat.le_trans h.next h'.next
  old := by
    intro region member
    rcases h'.old region member with old | new
    · exact h.old region old
    · exact .inr (Nat.le_trans h.next new)

/-- Ranges stay whole. -/
theorem Whole.later {m m' : Memory} {a : UInt64} {n : Nat} (h : m.Whole a n) (ages : m.Ages m') :
    m'.Whole a n where
  inside := Nat.le_trans h.inside ages.next
  covers := by
    intro region member first last
    have inside := h.inside
    rcases ages.old region member with old | new
    · exact h.covers region old first last
    · omega

section
variable {m m' : Memory} {size : Nat} {a : UInt64} {bytes : List UInt8}

/-! ### Addresses are never given back -/

theorem Allocates.next_le {result : Except MemoryFault UInt64} (h : m.Allocates size result m') :
    m.next.toNat ≤ m'.next.toNat := by
  cases h with
  | failed => exact Nat.le_refl _
  | given _ allocated =>
      have above := allocated.above
      have below := allocated.below
      omega

theorem Frees.next_le {result : Except MemoryFault PUnit} (h : m.Frees a result m') :
    m.next.toNat ≤ m'.next.toNat := by
  cases h with
  | failed => exact Nat.le_refl _
  | freed freed =>
      obtain ⟨-, -, next, -⟩ := free?_eq_some freed
      exact Nat.le_of_eq (by rw [next])

theorem Stores.next_le {result : Except MemoryFault PUnit} (h : m.Stores a bytes result m') :
    m.next.toNat ≤ m'.next.toNat := by
  cases h with
  | unmapped => exact Nat.le_refl _
  | stored stored =>
      obtain ⟨-, rfl⟩ := write?_eq_some.mp stored
      exact Nat.le_refl _

/-- Only what is freed is no longer live. -/
theorem Frees.live {result : Except MemoryFault PUnit} (h : m.Frees a result m') {region : Region}
    (member : region ∈ m.live) (other : region.start ≠ a) : region ∈ m'.live := by
  cases h with
  | failed => exact member
  | freed freed =>
      obtain ⟨-, live, -, -⟩ := free?_eq_some freed
      rw [live]
      exact List.mem_filter.mpr ⟨member, decide_eq_true other⟩

theorem Allocates.later {result : Except MemoryFault UInt64} (h : m.Allocates size result m') :
    m.Later m' := by
  intro bounded
  refine ⟨?_, h.next_le⟩
  cases h with
  | failed => exact bounded
  | given _ allocated => exact allocated.bounded bounded

theorem Frees.later {result : Except MemoryFault PUnit} (h : m.Frees a result m') :
    m.Later m' := by
  intro bounded
  refine ⟨?_, h.next_le⟩
  cases h with
  | failed => exact bounded
  | freed freed => exact (bounded_of_free? freed bounded).1

theorem Stores.later {result : Except MemoryFault PUnit} (h : m.Stores a bytes result m') :
    m.Later m' := by
  intro bounded
  refine ⟨?_, h.next_le⟩
  cases h with
  | unmapped => exact bounded
  | stored stored =>
      obtain ⟨-, rfl⟩ := write?_eq_some.mp stored
      exact bounded

theorem Allocates.ages {result : Except MemoryFault UInt64} (h : m.Allocates size result m') :
    m.Ages m' := by
  have next := h.next_le
  cases h with
  | failed => exact .refl _
  | given _ allocated =>
      refine ⟨allocated.tidy, next, fun region member => ?_⟩
      rw [allocated.live] at member
      rcases List.mem_cons.mp member with rfl | old
      · exact .inr allocated.above
      · exact .inl old

theorem Frees.ages {result : Except MemoryFault PUnit} (h : m.Frees a result m') : m.Ages m' := by
  have next := h.next_le
  cases h with
  | failed => exact .refl _
  | freed freed =>
      refine ⟨fun tidy => tidy.free? freed, next, fun region member => ?_⟩
      obtain ⟨-, live, -, -⟩ := free?_eq_some freed
      rw [live] at member
      exact .inl (List.mem_filter.mp member).1

theorem Stores.ages {result : Except MemoryFault PUnit}
    (h : m.Stores a bytes result m') : m.Ages m' := by
  cases h with
  | unmapped => exact .refl _
  | stored stored =>
      obtain ⟨-, rfl⟩ := write?_eq_some.mp stored
      exact .of_same rfl rfl

theorem Allocates.live_subset {result : Except MemoryFault UInt64} (h : m.Allocates size result m') :
    m.live ⊆ m'.live := by
  cases h with
  | failed => exact List.Subset.refl _
  | given _ allocated =>
      rw [allocated.live]
      exact List.subset_cons_self ..

theorem Stores.live_subset {result : Except MemoryFault PUnit}
    (h : m.Stores a bytes result m') : m.live ⊆ m'.live := by
  cases h with
  | unmapped => exact List.Subset.refl _
  | stored stored =>
      obtain ⟨-, rfl⟩ := write?_eq_some.mp stored
      exact List.Subset.refl _

end

end Memory

/-! ## Processes -/

/-- A process that manages a memory. -/
structure Context.Manages {ω : Type} (ctx : Context ω) (memory : ω → Memory) : Prop where
  allocate : ∀ (size align : UInt64) (w : ω), (memory w).Allocates size.toNat
    ((ctx.allocate size align).run.run w).1 (memory ((ctx.allocate size align).run.run w).2)
  free : ∀ (a : UInt64) (w : ω),
    (memory w).Frees a ((ctx.free a).run.run w).1 (memory ((ctx.free a).run.run w).2)
  read : ∀ (a : UInt64) (n : Nat) (w : ω), (memory w).Reads a n ((ctx.read a n).run.run w).1 ∧
    memory ((ctx.read a n).run.run w).2 = memory w
  write : ∀ (a : UInt64) (bytes : List UInt8) (w : ω),
    (memory w).Stores a bytes ((ctx.write a bytes).run.run w).1
      (memory ((ctx.write a bytes).run.run w).2)
  run : ∀ (plan : Plan) (w : ω), ∃ contents,
    memory ((ctx.run plan).run w).2 = { memory w with contents }
  compile : ∀ (source : WrapperSource) (w : ω),
    memory ((ctx.compile source).run w).2 = memory w

namespace Context.Manages

variable {ω : Type} {ctx : Context ω} {memory : ω → Memory} {w w' : ω}

section
variable (h : ctx.Manages memory)
include h

theorem allocates {size align : UInt64} {result : Except MemoryFault UInt64}
    (ran : (ctx.allocate size align).run.run w = (result, w')) :
    (memory w).Allocates size.toNat result (memory w') := by
  have ends := h.allocate size align w
  rwa [ran] at ends

theorem frees {a : UInt64} {result : Except MemoryFault PUnit}
    (ran : (ctx.free a).run.run w = (result, w')) : (memory w).Frees a result (memory w') := by
  have ends := h.free a w
  rwa [ran] at ends

theorem reads {a : UInt64} {n : Nat} {result : Except MemoryFault (List UInt8)}
    (ran : (ctx.read a n).run.run w = (result, w')) :
    (memory w).Reads a n result ∧ memory w' = memory w := by
  have ends := h.read a n w
  rwa [ran] at ends

theorem stores {a : UInt64} {bytes : List UInt8} {result : Except MemoryFault PUnit}
    (ran : (ctx.write a bytes).run.run w = (result, w')) :
    (memory w).Stores a bytes result (memory w') := by
  have ends := h.write a bytes w
  rwa [ran] at ends

/-! ### Services that give a result -/

theorem allocated {size align a : UInt64} (ran : Yields (ctx.allocate size align) w a w') :
    ∃ n, size.toNat ≤ n ∧ (memory w).Allocated n a (memory w') := by
  cases h.allocates ran with
  | given room allocated => exact ⟨_, room, allocated⟩

theorem fetched {a : UInt64} {n : Nat} {bytes : List UInt8}
    (ran : Yields (ctx.read a n) w bytes w') :
    (memory w).read? a n = some bytes ∧ memory w' = memory w := by
  obtain ⟨reads, same⟩ := h.reads ran
  cases reads with
  | read read => exact ⟨read, same⟩

theorem stored {a : UInt64} {bytes : List UInt8} {u : PUnit}
    (ran : Yields (ctx.write a bytes) w u w') :
    (memory w).write? a bytes = some (memory w') := by
  cases h.stores ran with
  | stored stored => exact stored

/-! ### What no service does -/

/-- No service gives an address back. -/
theorem respects_next : ctx.Respects fun w w' => (memory w).next.toNat ≤ (memory w').next.toNat where
  refl _ := Nat.le_refl _
  trans _ _ _ := Nat.le_trans
  allocate size align w := (h.allocate size align w).next_le
  free a w := (h.free a w).next_le
  read a n w := Nat.le_of_eq (by rw [(h.read a n w).2])
  write a bytes w := (h.write a bytes w).next_le
  run plan w := by
    obtain ⟨contents, same⟩ := h.run plan w
    exact Nat.le_of_eq (by rw [same])
  compile source w := Nat.le_of_eq (by rw [h.compile source w])

/-- Every service leaves memory bounded by the addresses that were handed out. -/
theorem respects_later : ctx.Respects fun w w' => (memory w).Later (memory w') where
  refl w := .refl _
  trans _ _ _ first second := first.trans second
  allocate size align w := (h.allocate size align w).later
  free a w := (h.free a w).later
  read a n w := .of_eq (h.read a n w).2
  write a bytes w := (h.write a bytes w).later
  run plan w := by
    obtain ⟨contents, same⟩ := h.run plan w
    show (memory w).Later (memory _)
    rw [same]
    exact fun bounded => ⟨bounded, Nat.le_refl _⟩
  compile source w := .of_eq (h.compile source w)

/-- Every service only lets memory age. -/
theorem respects_ages : ctx.Respects fun w w' => (memory w).Ages (memory w') where
  refl w := .refl _
  trans _ _ _ first second := first.trans second
  allocate size align w := (h.allocate size align w).ages
  free a w := (h.free a w).ages
  read a n w := by
    show (memory w).Ages _
    rw [(h.read a n w).2]
    exact .refl _
  write a bytes w := (h.write a bytes w).ages
  run plan w := by
    obtain ⟨contents, same⟩ := h.run plan w
    show (memory w).Ages _
    rw [same]
    exact .of_same rfl rfl
  compile source w := by
    show (memory w).Ages _
    rw [h.compile source w]
    exact .refl _

end

end Context.Manages

/-! ## Watched processes -/

section
variable {ω : Type} {ctx : Context ω} {memory : ω → Memory}

/-- A watched process manages the memory of the process that it watches. -/
theorem Context.Manages.watched (h : ctx.Manages memory) :
    ctx.watched.Manages fun w => memory w.process where
  allocate size align w := by
    show (memory w.process).Allocates size.toNat
      ((Watched.allocate ctx size align).run.run w).1
      (memory ((Watched.allocate ctx size align).run.run w).2.process)
    unfold Watched.allocate
    dsimp only [ExceptT.run_mk, StateT.run]
    split
    · exact .failed
    · exact h.allocate size align w.process
  free a w := by
    show (memory w.process).Frees a ((Watched.free ctx a).run.run w).1
      (memory ((Watched.free ctx a).run.run w).2.process)
    unfold Watched.free
    dsimp only [ExceptT.run_mk, StateT.run]
    split
    · exact .failed
    · exact h.free a w.process
  read a n w := h.read a n w.process
  write a bytes w := h.write a bytes w.process
  run plan w := h.run plan w.process
  compile source w := h.compile source w.process

end

end CallThunk
