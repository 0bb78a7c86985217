import Mathlib.Data.List.MinMax
import CallThunk.Proofs.Process.Debuggee

/-!
# Histories of a process

A history is what was asked of a process and what it answered. It alone tells which regions should
be live, what each byte should be and where the next region may lie, without a look at any memory. A
process is faithful to its history if it answers every further request accordingly. Sparse processes
are, from any base, whatever is asked of them.
-/

namespace CallThunk

/-- A request for a memory service. -/
inductive Request where
  | allocate (size align : UInt64)
  | free (address : UInt64)
  | read (address : UInt64) (length : Nat)
  | write (address : UInt64) (bytes : List UInt8)

/-- What a process answers to a request. -/
inductive Answer where
  | address (address : UInt64)
  | bytes (bytes : List UInt8)
  | done
  | fault (error : MemoryFault)
  deriving DecidableEq

/-- Requests with their answers, the newest first. -/
abbrev History := List (Request × Answer)

/-! ## What a history tells -/

namespace History

/-- The regions that were ever handed out, the newest first. -/
def handedOut : History → List Region
  | (.allocate size _, .address a) :: past => ⟨a, size.toNat⟩ :: handedOut past
  | _ :: past => handedOut past
  | [] => []

/-- The regions that were handed out and not freed since, the newest first. -/
def live : History → List Region
  | (.allocate size _, .address a) :: past => ⟨a, size.toNat⟩ :: live past
  | (.free a, .done) :: past => (live past).filter (·.start ≠ a)
  | _ :: past => live past
  | [] => []

/-- The byte at an address: the one last written to it since it was allocated, or zero. -/
def byteAt (x : UInt64) : History → UInt8
  | (.allocate size _, .address a) :: past =>
    if a ≤ x ∧ x.toNat < a.toNat + size.toNat then 0 else byteAt x past
  | (.write a bytes, .done) :: past =>
    if a ≤ x then (bytes[x.toNat - a.toNat]?).getD (byteAt x past) else byteAt x past
  | _ :: past => byteAt x past
  | [] => 0

/-- Whether a range of bytes lies inside one live region. -/
def accessible (events : History) (address : UInt64) (length : Nat) : Bool :=
  events.live.any (·.covers address length)

/-- The live region with the greatest start that is not above an address. -/
def nearest? (events : History) (address : UInt64) : Option Region :=
  (events.live.filter (·.start ≤ address)).argmax (·.start.toNat)

/-- Where the next region may start: at the base, or behind the region that was handed out last and
the byte that is left unused there. An empty region takes up one byte as well. -/
def next (base : UInt64) (events : History) : Nat :=
  match events.handedOut with
  | last :: _ => last.start.toNat + max last.size 1 + 1
  | [] => base.toNat

/-- Where a region of an alignment starts. -/
def nextStart (base : UInt64) (events : History) (align : UInt64) : Nat :=
  alignUp (events.next base) align.toNat

/-- Whether a region can be handed out. -/
def hasRoom (base : UInt64) (events : History) (size align : UInt64) : Bool :=
  isPowerOfTwo (max align.toNat 1) &&
    events.nextStart base align + max size.toNat 1 + 1 < UInt64.size

end History

namespace Context

variable {ω : Type}

/-- Asks for a service. -/
def serve (ctx : Context ω) : Request → StateM ω Answer
  | .allocate size align => answer .address (ctx.allocate size align)
  | .free address => answer (fun _ => .done) (ctx.free address)
  | .read address length => answer .bytes (ctx.read address length)
  | .write address bytes => answer (fun _ => .done) (ctx.write address bytes)
where
  answer {α : Type} (success : α → Answer) (service : Service ω α) : StateM ω Answer := do
    match ← service.run with
    | .ok a => return success a
    | .error error => return .fault error

/-- Makes requests one after the other and adds them to a history. -/
def converse (ctx : Context ω) (events : History) : List Request → StateM ω History
  | [] => return events
  | request :: rest => do
    let answer ← ctx.serve request
    ctx.converse ((request, answer) :: events) rest

/-- A state in which a process answers every request as its history tells. -/
structure Faithful (ctx : Context ω) (base : UInt64) (events : History) (w : ω) : Prop where
  /-- A region lies above all that were handed out before, also above those that were freed, so no
  address is handed out twice. -/
  fresh : events.handedOut.Pairwise Region.Above
  apart : events.live.Pairwise Region.Above
  /-- An alignment of zero asks for none. -/
  aligned (size align a : UInt64) :
    (.allocate size align, .address a) ∈ events → max align.toNat 1 ∣ a.toNat
  /-- An access is allowed by the live region that starts nearest, or it is not allowed. -/
  nearest (a : UInt64) (n : Nat) :
    events.accessible a n = (events.nearest? a).any (·.covers a n)
  allocate (size align : UInt64) : ((ctx.serve (.allocate size align)).run w).1 =
    if events.hasRoom base size align then .address (.ofNat (events.nextStart base align))
    else .fault (.allocationFailed size)
  free (a : UInt64) : ((ctx.serve (.free a)).run w).1 =
    if a ∈ events.live.map Region.start then .done else .fault (.invalidFree a)
  read (a : UInt64) (n : Nat) : ((ctx.serve (.read a n)).run w).1 =
    if events.accessible a n then
      .bytes ((List.range n).map fun i => events.byteAt (a + .ofNat i))
    else .fault (.unmapped a n)
  write (a : UInt64) (bytes : List UInt8) : ((ctx.serve (.write a bytes)).run w).1 =
    if events.accessible a bytes.length then .done else .fault (.unmapped a bytes.length)
  /-- A request that fails leaves everything as it was. -/
  failure (request : Request) (error : MemoryFault) :
    ((ctx.serve request).run w).1 = .fault error → ((ctx.serve request).run w).2 = w

end Context

/-! ## Consequences of a history -/

namespace History

variable {base : UInt64} {events : History} {a x : UInt64} {n : Nat}

theorem live_sublist (events : History) : events.live.Sublist events.handedOut := by
  fun_induction live events with
  | case1 size _ a past ih => exact ih.cons_cons _
  | case2 a past ih => exact (List.filter_sublist ..).trans (by simpa only [handedOut] using ih)
  | case3 event past notAllocate _ ih =>
      rw [handedOut]
      · exact ih
      · exact notAllocate
  | case4 => exact .slnil

/-- The region handed out last lies above all others, so all lie below the next one. -/
theorem lt_next (fresh : events.handedOut.Pairwise Region.Above) {r : Region}
    (member : r ∈ events.handedOut) : r.start.toNat + r.size < events.next base := by
  unfold next
  cases all : events.handedOut with
  | nil => rw [all] at member; cases member
  | cons last older =>
      rw [all] at member fresh
      dsimp only
      rcases List.mem_cons.mp member with rfl | old
      · omega
      · have above := (List.pairwise_cons.mp fresh).1 r old
        unfold Region.Above at above
        omega

theorem accessible_iff : events.accessible a n ↔ ∃ r ∈ events.live, r.covers a n := by
  unfold accessible
  exact List.any_eq_true

/-- Only the live region that starts nearest below an address can hold a byte there: any other one
that starts below ends in front of it. -/
theorem accessible_eq_nearest (apart : events.live.Pairwise Region.Above) :
    events.accessible a n = (events.nearest? a).any (·.covers a n) := by
  rw [Bool.eq_iff_iff, accessible_iff, Option.any_eq_true]
  constructor
  · rintro ⟨r, hr, covers⟩
    obtain ⟨start, inside⟩ := Region.covers_iff.mp covers
    have candidate : r ∈ events.live.filter (·.start ≤ a) :=
      List.mem_filter.mpr ⟨hr, decide_eq_true (UInt64.le_iff_toNat_le.mpr start)⟩
    cases found : events.nearest? a with
    | none =>
        rw [List.argmax_eq_none.mp found] at candidate
        cases candidate
    | some nearest =>
        refine ⟨nearest, rfl, ?_⟩
        have greatest := List.le_of_mem_argmax candidate found
        obtain ⟨hnearest, below⟩ := List.mem_filter.mp (List.argmax_mem found)
        have below := UInt64.le_iff_toNat_le.mp (of_decide_eq_true below)
        by_cases same : nearest = r
        · rw [same]
          exact covers
        · rcases Region.above_or_above apart hnearest hr same with above | above <;>
            unfold Region.Above at above <;> omega
  · rintro ⟨nearest, found, covers⟩
    exact ⟨nearest, (List.mem_filter.mp (List.argmax_mem found)).1, covers⟩

end History

/-! ## Requests as operations on memory -/

namespace Request

/-- The fault by which a request fails. -/
def fault : Request → MemoryFault
  | .allocate size _ => .allocationFailed size
  | .free address => .invalidFree address
  | .read address length => .unmapped address length
  | .write address bytes => .unmapped address bytes.length

/-- What a request does to a memory, and its answer. -/
def perform? (m : Memory) : Request → Option (Answer × Memory)
  | .allocate size align => (m.allocate? size align).map fun given => (.address given.1, given.2)
  | .free address => (m.free? address).map (.done, ·)
  | .read address length => (m.read? address length).map (.bytes ·, m)
  | .write address bytes => (m.write? address bytes).map (.done, ·)

theorem ne_fault {request : Request} {m m' : Memory} {answer : Answer}
    (performed : request.perform? m = some (answer, m')) (error : MemoryFault) :
    answer ≠ .fault error := by
  cases request <;> obtain ⟨_, -, ⟨⟩⟩ := Option.map_eq_some_iff.mp performed <;> nofun

end Request

namespace Debuggee

variable {target : Target} {choice : CompilerChoice} {base : UInt64} {events : History}
  {d : Debuggee}

theorem run_answer {α : Type} (success : α → Answer) (error : MemoryFault)
    (f : Memory → Option (α × Memory)) (d : Debuggee) :
    (Context.serve.answer success (onMemory error f)).run d =
      match (f d.memory).map fun given => (success given.1, given.2) with
      | some (answer, memory) => (answer, { d with memory })
      | none => (.fault error, d) := by
  unfold Context.serve.answer
  rw [StateT.run_bind, run_onMemory]
  cases f d.memory <;> rfl

/-- A sparse process does to its memory what it is asked for, or fails and does nothing. -/
theorem run_serve (faultless : d.faults = {}) (request : Request) :
    ((sparse target choice).serve request).run d =
      match request.perform? d.memory with
      | some (answer, memory) => (answer, { d with memory })
      | none => (.fault request.fault, d) := by
  obtain ⟨memory, faults, script, plans, code⟩ := d
  obtain rfl : faults = {} := faultless
  cases request with
  | allocate size align => exact run_answer .address _ (sparseAllocator · size align) _
  | free a =>
      refine (run_answer (fun _ => .done) _ (fun m => (m.free? a).map ((), ·)) _).trans ?_
      rw [Option.map_map]
      rfl
  | read a n =>
      refine (run_answer .bytes _ (fun m => (m.read? a n).map (·, m)) _).trans ?_
      rw [Option.map_map]
      rfl
  | write a bytes =>
      refine (run_answer (fun _ => .done) _ (fun m => (m.write? a bytes).map ((), ·)) _).trans ?_
      rw [Option.map_map]
      rfl

/-- A debuggee without faults whose memory is as a history tells. -/
structure Tracks (base : UInt64) (events : History) (d : Debuggee) : Prop where
  faults : d.faults = {}
  live : d.memory.live = events.live
  next : d.memory.next.toNat = events.next base
  contents (x : UInt64) : d.memory.contents x = events.byteAt x
  fresh : events.handedOut.Pairwise Region.Above
  aligned (size align a : UInt64) :
    (.allocate size align, .address a) ∈ events → max align.toNat 1 ∣ a.toNat

namespace Tracks

theorem start (base : UInt64) : Tracks base [] { memory := .ofBase base } :=
  ⟨rfl, rfl, rfl, fun _ => rfl, .nil, nofun⟩

variable (h : Tracks base events d)
include h

/-- What changes neither regions nor bytes of the history goes with a memory that stays. -/
theorem quiet {event : Request × Answer} (handedOut : History.handedOut (event :: events) =
      events.handedOut) (live : History.live (event :: events) = events.live)
    (byteAt : ∀ x, History.byteAt x (event :: events) = events.byteAt x)
    (notAllocate : ∀ size align a, event ≠ (.allocate size align, .address a)) :
    Tracks base (event :: events) d where
  faults := h.faults
  live := h.live.trans live.symm
  next := by
    rw [h.next]
    unfold History.next
    rw [handedOut]
  contents x := (h.contents x).trans (byteAt x).symm
  fresh := by
    rw [handedOut]
    exact h.fresh
  aligned size align a member := by
    rcases List.mem_cons.mp member with same | old
    · exact absurd same.symm (notAllocate size align a)
    · exact h.aligned size align a old

theorem region?_isSome (a : UInt64) (n : Nat) :
    (d.memory.region? a n).isSome = events.accessible a n := by
  rw [Bool.eq_iff_iff, Memory.region?_isSome, h.live, History.accessible_iff]

theorem mem_starts (a : UInt64) : a ∈ d.memory.starts ↔ a ∈ events.live.map Region.start := by
  rw [Memory.starts, h.live]

/-- The history tells whether there is room for a region, and where it lies. -/
theorem allocate?_eq (size align : UInt64) :
    d.memory.allocate? size align =
      if events.hasRoom base size align then
        some (.ofNat (events.nextStart base align),
          { d.memory with
            next := .ofNat (events.nextStart base align + max size.toNat 1 + 1)
            live := ⟨.ofNat (events.nextStart base align), size.toNat⟩ :: d.memory.live
            contents := fun x =>
              if (x - .ofNat (events.nextStart base align)).toNat < size.toNat then 0
              else d.memory.contents x })
      else none := by
  have start : alignUp d.memory.next.toNat (max align.toNat 1) =
      events.nextStart base align := by
    rw [h.next, History.nextStart, alignUp, alignUp, Nat.max_eq_left (Nat.le_max_right ..)]
  unfold Memory.allocate? History.hasRoom
  rw [← start]

/-- The next region lies where the history tells. -/
theorem allocated {size align : UInt64} (room : events.hasRoom base size align) {a : UInt64}
    {m : Memory} (given : d.memory.allocate? size align = some (a, m)) :
    Tracks base ((.allocate size align, .address a) :: events) { d with memory := m } := by
  rw [h.allocate?_eq, if_pos room] at given
  obtain ⟨rfl, rfl⟩ := Prod.mk.inj (Option.some.inj given)
  have behind : events.nextStart base align + max size.toNat 1 + 1 < 2 ^ 64 := by
    simpa using (Bool.and_eq_true_iff.mp room).2
  have start : (UInt64.ofNat (events.nextStart base align)).toNat =
      events.nextStart base align := UInt64.toNat_ofNat_of_lt' (by unfold UInt64.size; omega)
  have above : events.next base ≤ events.nextStart base align := le_alignUp ..
  refine ⟨h.faults, congrArg _ h.live, ?_, fun x => ?_, ?_, fun size' align' a' member => ?_⟩
  · show (UInt64.ofNat _).toNat = _ + max size.toNat 1 + 1
    rw [start, UInt64.toNat_ofNat_of_lt' behind]
  · show (if (x - .ofNat (events.nextStart base align)).toNat < size.toNat then 0
      else d.memory.contents x) = if _ ∧ _ then 0 else events.byteAt x
    rw [h.contents]
    -- the distance to a byte in front of the region wraps, and is greater than its size then
    refine if_congr ?_ rfl rfl
    rw [UInt64.le_iff_toNat_le, start]
    by_cases le : events.nextStart base align ≤ x.toNat
    · rw [Contents.toNat_sub_of_le (by rwa [start]), start]
      omega
    · rw [Contents.toNat_sub_of_lt (by omega), start]
      omega
  · refine List.pairwise_cons.mpr ⟨fun old member => ?_, h.fresh⟩
    have below : _ < events.next base := History.lt_next h.fresh member
    unfold Region.Above
    rw [start]
    omega
  · rcases List.mem_cons.mp member with same | old
    · cases same
      rw [start]
      exact Nat.dvd_mul_left ..
    · exact h.aligned size' align' a' old

theorem freed {a : UInt64} {m : Memory} (given : d.memory.free? a = some m) :
    Tracks base ((.free a, .done) :: events) { d with memory := m } := by
  obtain ⟨-, live, next, contents⟩ := Memory.free?_eq_some given
  refine ⟨h.faults, ?_, next ▸ h.next, contents ▸ h.contents, h.fresh, ?_⟩
  · rw [live, h.live]
    rfl
  · exact fun size align a member => h.aligned size align a (by simpa using member)

theorem below_next {a : UInt64} {n : Nat} (accessible : (d.memory.region? a n).isSome) :
    a.toNat + n < d.memory.next.toNat := by
  rw [h.region?_isSome, History.accessible_iff] at accessible
  obtain ⟨r, live, covers⟩ := accessible
  have below : _ < events.next base := History.lt_next h.fresh ((History.live_sublist _).mem live)
  have inside := (Region.covers_iff.mp covers).2
  have next := h.next
  omega

/-- A write lies inside a live region, so it does not go beyond the last address. -/
theorem written {a : UInt64} {bytes : List UInt8} {m : Memory}
    (given : d.memory.write? a bytes = some m) :
    Tracks base ((.write a bytes, .done) :: events) { d with memory := m } := by
  obtain ⟨accessible, rfl⟩ := Memory.write?_eq_some.mp given
  refine ⟨h.faults, h.live, h.next, fun x => ?_, h.fresh, ?_⟩
  · have fits := h.below_next accessible
    have bound := d.memory.next.toNat_lt
    show d.memory.contents.write a bytes x =
      if a ≤ x then (bytes[x.toNat - a.toNat]?).getD (events.byteAt x) else events.byteAt x
    rw [← h.contents]
    split
    next le =>
      rw [Contents.write, Contents.toNat_sub_of_le (UInt64.le_iff_toNat_le.mp le)]
    next lt =>
      rw [UInt64.le_iff_toNat_le] at lt
      exact Contents.write_of_outside (by omega) (.inl (by omega))
  · exact fun size align a member => h.aligned size align a (by simpa using member)

/-- Every request, whatever its answer is, leaves memory as the longer history tells. -/
theorem step (request : Request) :
    let ran := ((sparse target choice).serve request).run d
    Tracks base ((request, ran.1) :: events) ran.2 := by
  rw [run_serve h.faults]
  cases performed : request.perform? d.memory with
  | none => cases request <;> exact h.quiet rfl rfl (fun _ => rfl) nofun
  | some outcome =>
      obtain ⟨answer, m⟩ := outcome
      cases request with
      | allocate size align =>
          obtain ⟨⟨a, m⟩, given, ⟨⟩⟩ := Option.map_eq_some_iff.mp performed
          refine h.allocated ?_ given
          rw [h.allocate?_eq] at given
          by_contra full
          rw [if_neg full] at given
          cases given
      | free a =>
          obtain ⟨m, given, ⟨⟩⟩ := Option.map_eq_some_iff.mp performed
          exact h.freed given
      | read a n =>
          obtain ⟨bytes, given, ⟨⟩⟩ := Option.map_eq_some_iff.mp performed
          exact h.quiet rfl rfl (fun _ => rfl) nofun
      | write a bytes =>
          obtain ⟨m, given, ⟨⟩⟩ := Option.map_eq_some_iff.mp performed
          exact h.written given

theorem converse (requests : List Request) :
    let ran := ((sparse target choice).converse events requests).run d
    Tracks base ran.1 ran.2 := by
  induction requests generalizing events d with
  | nil => exact h
  | cons request rest ih => exact ih (h.step request)

theorem faithful : (sparse target choice).Faithful base events d where
  fresh := h.fresh
  apart := h.fresh.sublist (History.live_sublist events)
  aligned := h.aligned
  nearest a n :=
    History.accessible_eq_nearest (h.fresh.sublist (History.live_sublist events))
  allocate size align := by
    rw [run_serve h.faults, Request.perform?, h.allocate?_eq]
    cases events.hasRoom base size align <;> rfl
  free a := by
    rw [run_serve h.faults, Request.perform?]
    by_cases live : a ∈ events.live.map Region.start
    · obtain ⟨m, freed⟩ := Memory.free?_isSome ((h.mem_starts a).mpr live)
      rw [freed, if_pos live]
      rfl
    · cases freed : d.memory.free? a with
      | some m => exact absurd ((h.mem_starts a).mp (Memory.free?_eq_some freed).1) live
      | none =>
          rw [if_neg live]
          rfl
  read a n := by
    rw [run_serve h.faults, Request.perform?, Memory.read?, h.region?_isSome, Contents.read]
    simp only [h.contents]
    cases events.accessible a n <;> rfl
  write a bytes := by
    rw [run_serve h.faults, Request.perform?, Memory.write?, h.region?_isSome]
    cases events.accessible a bytes.length <;> rfl
  failure request error failed := by
    rw [run_serve h.faults] at failed ⊢
    cases performed : request.perform? d.memory with
    | none => rfl
    | some outcome =>
        rw [performed] at failed
        exact absurd failed (Request.ne_fault performed error)

end Tracks

/-- A sparse process is a faithful memory: from any base and behind any requests, it has the live
regions that the history tells of, it answers each further request as the history tells, and one
that fails has no effect. -/
theorem faithful_sparse (target : Target) (choice : CompilerChoice) (base : UInt64)
    (requests : List Request) :
    let ran := ((sparse target choice).converse [] requests).run { memory := .ofBase base }
    ran.2.memory.live = ran.1.live ∧ (sparse target choice).Faithful base ran.1 ran.2 := by
  intro ran
  have tracks : Tracks base ran.1 ran.2 := (Tracks.start base).converse requests
  exact ⟨tracks.live, tracks.faithful⟩

/-- Four bytes below the end of all addresses there is room for one empty region: it can be read,
though not behind its start, and it is not replaced when it is freed. -/
example : (((sparse ⟨8, .little⟩ .layoutOnly).converse []
      [.allocate 0 0, .read (-4) 0, .read (-3) 0, .free (-4), .read (-4) 0, .allocate 0 0]).run
        { memory := .ofBase (-4) }).1.reverse.map Prod.snd =
    [.address (-4), .bytes [], .fault (.unmapped (-3) 0), .done, .fault (.unmapped (-4) 0),
      .fault (.allocationFailed 0)] := by
  decide +kernel

end Debuggee

end CallThunk
