import CallThunk.Proofs.Process.Debuggee

/-!
# Accounts of memory

Who owns which region is a matter of counting: a run that owned some regions before it and owns
others behind it has allocated and freed exactly the difference, and it has not touched the regions
of anybody else. Such trades are put together from the trades of single services, and a trade goes
on unchanged while others own more. Regions are named by their starts.
-/

namespace CallThunk

/-! ## Trades -/

/-- What is told of a process about its memory. -/
structure Ledger (ω : Type) where
  memory : ω → Memory
  /-- The addresses that were to be freed, the last one first. -/
  frees : ω → List UInt64
  /-- Whether live regions can be freed, from here on. -/
  Reliable : ω → Prop

namespace Ledger

variable {ω : Type}

/-- The owner of some regions holds them: they are live, and no region is held twice. -/
structure Holds (ledger : Ledger ω) (owned : List UInt64) (w : ω) : Prop where
  tidy : (ledger.memory w).Tidy
  live : ∀ a, owned.count a ≤ (ledger.memory w).starts.count a

theorem Holds.left {ledger : Ledger ω} {first rest : List UInt64} {w : ω}
    (h : ledger.Holds (first ++ rest) w) : ledger.Holds first w := by
  refine ⟨h.tidy, fun a => Nat.le_trans ?_ (h.live a)⟩
  rw [List.count_append]
  exact Nat.le_add_right _ _

/-- The order in which regions are listed does not matter. -/
theorem Holds.perm {ledger : Ledger ω} {owned owned' : List UInt64} {w : ω}
    (h : ledger.Holds owned w) (same : owned.Perm owned') : ledger.Holds owned' w := by
  refine ⟨h.tidy, fun a => ?_⟩
  rw [← same.count_eq]
  exact h.live a

theorem Holds.mem_starts {ledger : Ledger ω} {owned : List UInt64} {w : ω}
    (h : ledger.Holds owned w) {a : UInt64} (member : a ∈ owned) :
    a ∈ (ledger.memory w).starts := by
  have counted := List.count_pos_iff.mpr member
  exact List.count_pos_iff.mp (Nat.lt_of_lt_of_le counted (h.live a))

/-- No region was freed twice, and none that was freed is live. -/
structure Spent (ledger : Ledger ω) (w : ω) : Prop where
  nodup : (ledger.frees w).Nodup
  gone : ∀ a ∈ ledger.frees w,
    a.toNat < (ledger.memory w).next.toNat ∧ a ∉ (ledger.memory w).starts

/-- What was freed stays gone while nothing else is freed and new regions lie above it. -/
theorem Spent.later {ledger : Ledger ω} {w w' : ω} (h : ledger.Spent w)
    (frees : ledger.frees w' = ledger.frees w)
    (next : (ledger.memory w).next.toNat ≤ (ledger.memory w').next.toNat)
    (old : ∀ a ∈ (ledger.memory w').starts,
      a ∈ (ledger.memory w).starts ∨ (ledger.memory w).next.toNat ≤ a.toNat) :
    ledger.Spent w' := by
  refine ⟨by rw [frees]; exact h.nodup, fun a member => ?_⟩
  rw [frees] at member
  obtain ⟨below, gone⟩ := h.gone a member
  refine ⟨Nat.lt_of_lt_of_le below next, fun live => ?_⟩
  rcases old a live with before | new
  · exact gone before
  · omega

/-- A live region that is freed was not freed before. -/
theorem Spent.freed {ledger : Ledger ω} {w w' : ω} (h : ledger.Spent w) {a : UInt64}
    (tidy : (ledger.memory w).Tidy) (freed : (ledger.memory w).free? a = some (ledger.memory w'))
    (frees : ledger.frees w' = a :: ledger.frees w) : ledger.Spent w' := by
  obtain ⟨live, -, next, -⟩ := Memory.free?_eq_some freed
  refine ⟨?_, fun x member => ?_⟩
  · rw [frees]
    exact List.nodup_cons.mpr ⟨fun before => (h.gone a before).2 live, h.nodup⟩
  · rw [frees] at member
    rw [next]
    rcases List.mem_cons.mp member with rfl | before
    · exact ⟨tidy.lt_next live, Memory.not_mem_of_free? freed⟩
    · obtain ⟨below, gone⟩ := h.gone x before
      exact ⟨below, fun still => gone (Memory.mem_of_free? freed still)⟩

/-- What a run does to memory whose part in it owns some regions before it and others behind it.
What it gives up without freeing it is lost, which happens only where frees can fail. -/
structure Trades (ledger : Ledger ω) (before : List UInt64) (w : ω) (after : List UInt64) (w' : ω) :
    Prop where
  tidy : (ledger.memory w).Tidy
  tidied : (ledger.memory w').Tidy
  next : (ledger.memory w).next.toNat ≤ (ledger.memory w').next.toNat
  balance : ∀ a, (ledger.memory w).starts.count a + after.count a ≤
    (ledger.memory w').starts.count a + before.count a
  exact : ledger.Reliable w → ledger.Reliable w' ∧
    (∀ a, (ledger.memory w).starts.count a + after.count a =
      (ledger.memory w').starts.count a + before.count a) ∧
    (ledger.Spent w → ledger.Spent w')
  /-- What is owned behind it was owned before or is new. -/
  new : ∀ a ∈ after, a ∈ before ∨ (ledger.memory w).next.toNat ≤ a.toNat
  /-- The regions of others stay as they are. -/
  kept : ∀ r ∈ (ledger.memory w).live, r.start ∉ before → r ∈ (ledger.memory w').live
  old : ∀ r ∈ (ledger.memory w').live, r ∈ (ledger.memory w).live ∨
    (ledger.memory w).next.toNat ≤ r.start.toNat
  /-- What it frees was owned before or is new. -/
  issued : ∃ issued, ledger.frees w' = issued ++ ledger.frees w ∧
    ∀ a ∈ issued, a ∈ before ∨ (ledger.memory w).next.toNat ≤ a.toNat

namespace Trades

variable {ledger : Ledger ω} {before mid after : List UInt64} {w v w' : ω}

/-- The owner holds what it owns behind a trade. -/
theorem holds (h : ledger.Trades before w after w') (holds : ledger.Holds before w) :
    ledger.Holds after w' := by
  refine ⟨h.tidied, fun a => ?_⟩
  have balance := h.balance a
  have live := holds.live a
  omega

/-- Who owned nothing before a trade holds what it gave. -/
theorem acquired (h : ledger.Trades [] w after w') : ledger.Holds after w' :=
  h.holds ⟨h.tidy, fun _ => Nat.zero_le _⟩

theorem trans (h : ledger.Trades before w mid v) (h' : ledger.Trades mid v after w') :
    ledger.Trades before w after w' where
  tidy := h.tidy
  tidied := h'.tidied
  next := Nat.le_trans h.next h'.next
  balance a := by
    have first := h.balance a
    have second := h'.balance a
    omega
  exact reliable := by
    obtain ⟨reliable, first, spent⟩ := h.exact reliable
    obtain ⟨reliable, second, spent'⟩ := h'.exact reliable
    refine ⟨reliable, fun a => ?_, fun before => spent' (spent before)⟩
    have first := first a
    have second := second a
    omega
  new a member := by
    rcases h'.new a member with old | new
    · exact h.new a old
    · exact .inr (Nat.le_trans h.next new)
  kept r hr other := by
    refine h'.kept r (h.kept r hr other) fun member => ?_
    -- what is new lies above all that was live
    rcases h.new r.start member with old | new
    · exact other old
    · have bound := h.tidy.bounded r hr
      omega
  old r hr := by
    rcases h'.old r hr with old | new
    · exact h.old r old
    · exact .inr (Nat.le_trans h.next new)
  issued := by
    obtain ⟨first, frees, owned⟩ := h.issued
    obtain ⟨second, frees', owned'⟩ := h'.issued
    refine ⟨second ++ first, by rw [frees', frees, List.append_assoc], fun a member => ?_⟩
    rcases List.mem_append.mp member with late | early
    · rcases owned' a late with between | new
      · exact h.new a between
      · exact .inr (Nat.le_trans h.next new)
    · exact owned a early

/-- A trade goes on unchanged while others own more. -/
theorem frame (h : ledger.Trades before w after w') (more : List UInt64) :
    ledger.Trades (before ++ more) w (after ++ more) w' where
  tidy := h.tidy
  tidied := h.tidied
  next := h.next
  balance a := by
    have balance := h.balance a
    simp only [List.count_append]
    omega
  exact reliable := by
    obtain ⟨reliable, balance, spent⟩ := h.exact reliable
    refine ⟨reliable, fun a => ?_, spent⟩
    have balance := balance a
    simp only [List.count_append]
    omega
  new a member := by
    rcases List.mem_append.mp member with own | other
    · exact (h.new a own).imp_left (List.mem_append_left _)
    · exact .inl (List.mem_append_right _ other)
  kept r hr other := h.kept r hr fun member => other (List.mem_append_left _ member)
  old := h.old
  issued := by
    obtain ⟨issued, frees, owned⟩ := h.issued
    exact ⟨issued, frees, fun a member => (owned a member).imp_left (List.mem_append_left _)⟩

/-- The order in which regions are listed does not matter. -/
theorem perm {before' after' : List UInt64} (h : ledger.Trades before w after w')
    (first : before.Perm before') (last : after.Perm after') :
    ledger.Trades before' w after' w' where
  tidy := h.tidy
  tidied := h.tidied
  next := h.next
  balance a := by
    rw [← first.count_eq, ← last.count_eq]
    exact h.balance a
  exact reliable := by
    obtain ⟨reliable, balance, spent⟩ := h.exact reliable
    refine ⟨reliable, fun a => ?_, spent⟩
    rw [← first.count_eq, ← last.count_eq]
    exact balance a
  new a member := (h.new a (last.mem_iff.mpr member)).imp_left first.mem_iff.mp
  kept r hr other := h.kept r hr fun member => other (first.mem_iff.mp member)
  old := h.old
  issued := by
    obtain ⟨issued, frees, owned⟩ := h.issued
    exact ⟨issued, frees, fun a member => (owned a member).imp_left first.mem_iff.mp⟩

/-- A service that neither hands out nor frees regions. -/
theorem of_idle (tidy : (ledger.memory w).Tidy)
    (live : (ledger.memory w').live = (ledger.memory w).live)
    (next : (ledger.memory w').next = (ledger.memory w).next)
    (frees : ledger.frees w' = ledger.frees w)
    (reliable : ledger.Reliable w → ledger.Reliable w') : ledger.Trades [] w [] w' := by
  have starts : (ledger.memory w').starts = (ledger.memory w).starts := by
    unfold Memory.starts
    rw [live]
  have tidied : (ledger.memory w').Tidy := by
    refine ⟨fun r hr => ?_, ?_⟩
    · rw [live] at hr
      rw [next]
      exact tidy.bounded r hr
    · rw [live]
      exact tidy.apart
  refine ⟨tidy, tidied, Nat.le_of_eq (by rw [next]), fun a => Nat.le_of_eq (by rw [starts]),
    fun first => ⟨reliable first, fun a => by rw [starts], fun spent => ?_⟩, nofun,
    fun r hr _ => by rwa [live], fun r hr => .inl (by rwa [live] at hr), [], frees, nofun⟩
  exact spent.later frees (Nat.le_of_eq (by rw [next])) fun a member =>
    .inl (by rwa [starts] at member)

theorem refl (tidy : (ledger.memory w).Tidy) : ledger.Trades [] w [] w :=
  of_idle tidy rfl rfl rfl id

theorem of_allocated {a : UInt64} {n : Nat} (tidy : (ledger.memory w).Tidy)
    (allocated : (ledger.memory w).Allocated n a (ledger.memory w'))
    (frees : ledger.frees w' = ledger.frees w)
    (reliable : ledger.Reliable w → ledger.Reliable w') : ledger.Trades [] w [a] w' := by
  have above := allocated.above
  have below := allocated.below
  have starts := allocated.starts_eq
  have balance (x : UInt64) : (ledger.memory w').starts.count x =
      (ledger.memory w).starts.count x + [a].count x := by
    rw [starts, List.count_cons, List.count_singleton]
  refine ⟨tidy, allocated.tidy tidy, by omega, fun x => ?_,
    fun first => ⟨reliable first, fun x => ?_, fun spent => ?_⟩, fun x member => ?_,
    fun r hr _ => ?_, fun r hr => ?_, [], frees, nofun⟩
  · exact Nat.le_of_eq (balance x).symm
  · exact (balance x).symm
  · refine spent.later frees (by omega) fun x member => ?_
    rw [starts] at member
    rcases List.mem_cons.mp member with rfl | old
    · exact .inr above
    · exact .inl old
  · cases List.mem_singleton.mp member
    exact .inr above
  · rw [allocated.live]
    exact List.mem_cons_of_mem _ hr
  · rw [allocated.live] at hr
    rcases List.mem_cons.mp hr with rfl | old
    · exact .inr above
    · exact .inl old

/-- A region that is freed is no longer held; one that cannot be freed is lost. -/
theorem of_frees {a : UInt64} {result : Except MemoryFault PUnit} (holds : ledger.Holds [a] w)
    (ends : (ledger.memory w).Frees a result (ledger.memory w'))
    (frees : ledger.frees w' = a :: ledger.frees w)
    (reliable : ledger.Reliable w → ledger.Reliable w' ∧ result = .ok ()) :
    ledger.Trades [a] w [] w' := by
  have issued : ∃ issued, ledger.frees w' = issued ++ ledger.frees w ∧
      ∀ x ∈ issued, x ∈ [a] ∨ (ledger.memory w).next.toNat ≤ x.toNat :=
    ⟨[a], frees, fun x member => .inl member⟩
  generalize after : ledger.memory w' = m' at ends
  cases ends with
  | failed =>
      -- the region is live and nobody's from here on, so the balance is no equation
      refine ⟨holds.tidy, by rw [after]; exact holds.tidy, Nat.le_of_eq (by rw [after]),
        fun x => ?_, fun first => (nomatch (reliable first).2), nofun, fun r hr _ => by rwa [after],
        fun r hr => .inl (by rwa [after] at hr), issued⟩
      rw [after, List.count_nil]
      exact Nat.le_add_right _ _
  | freed freed =>
      rw [← after] at freed
      obtain ⟨-, live, next, -⟩ := Memory.free?_eq_some freed
      have balance := holds.tidy.count_free? freed
      refine ⟨holds.tidy, holds.tidy.free? freed, Nat.le_of_eq (by rw [next]),
        fun x => Nat.le_of_eq (balance x),
        fun first => ⟨(reliable first).1, balance, fun spent => spent.freed holds.tidy freed frees⟩,
        nofun, fun r hr other => ?_, fun r hr => .inl ?_, issued⟩
      · rw [live]
        refine List.mem_filter.mpr ⟨hr, decide_eq_true fun same => ?_⟩
        exact other (List.mem_singleton.mpr same)
      · rw [live] at hr
        exact (List.mem_filter.mp hr).1

/-- A run that owns nothing before it and nothing behind it leaves the live regions as it found
them. -/
theorem live_iff (h : ledger.Trades [] w [] w') (reliable : ledger.Reliable w) (r : Region) :
    r ∈ (ledger.memory w').live ↔ r ∈ (ledger.memory w).live := by
  refine ⟨fun hr => ?_, fun hr => h.kept r hr nofun⟩
  rcases h.old r hr with old | new
  · exact old
  · have balance := (h.exact reliable).2.1 r.start
    have listed := List.count_pos_iff.mpr (Memory.mem_starts.mpr ⟨r, hr, rfl⟩)
    rw [List.count_nil] at balance
    have below := h.tidy.lt_next (List.count_pos_iff.mp (by omega : 0 < List.count r.start _))
    omega

end Trades

/-- What a service leaves of the accounts that frees nothing. -/
def Quiet (ledger : Ledger ω) (w w' : ω) : Prop :=
  ledger.frees w' = ledger.frees w ∧ (ledger.Reliable w → ledger.Reliable w')

end Ledger

/-! ## Services -/

/-- A process that keeps account of its memory. -/
structure Context.Accounts {ω : Type} (ctx : Context ω) (ledger : Ledger ω) : Prop where
  manages : ctx.Manages ledger.memory
  free : ∀ (a : UInt64) (w : ω), ledger.frees ((ctx.free a).run.run w).2 = a :: ledger.frees w ∧
    (ledger.Reliable w → ledger.Reliable ((ctx.free a).run.run w).2 ∧
      (a ∈ (ledger.memory w).starts → ((ctx.free a).run.run w).1 = .ok ()))
  allocate : ∀ size align, Keeps ledger.Quiet (ctx.allocate size align).run
  read : ∀ address length, Keeps ledger.Quiet (ctx.read address length).run
  write : ∀ address bytes, Keeps ledger.Quiet (ctx.write address bytes).run
  run : ∀ plan, Keeps ledger.Quiet (ctx.run plan)
  compile : ∀ source, Keeps ledger.Quiet (ctx.compile source)

namespace Context.Accounts

variable {ω : Type} {ctx : Context ω} {ledger : Ledger ω} {w w' : ω}

section
variable (h : ctx.Accounts ledger)
include h

theorem trades_allocated {size align a : UInt64} (tidy : (ledger.memory w).Tidy)
    (ran : Yields (ctx.allocate size align) w a w') : ledger.Trades [] w [a] w' := by
  obtain ⟨n, -, allocated⟩ := h.manages.allocated ran
  obtain ⟨frees, reliable⟩ := (h.allocate size align).of_run ran
  exact .of_allocated tidy allocated frees reliable

theorem trades_unallocated {size align : UInt64} {e : MemoryFault}
    (tidy : (ledger.memory w).Tidy)
    (ran : (ctx.allocate size align).run.run w = (.error e, w')) : ledger.Trades [] w [] w' := by
  obtain ⟨frees, reliable⟩ := (h.allocate size align).of_run ran
  have ends := h.manages.allocates ran
  generalize after : ledger.memory w' = m' at ends
  cases ends with
  | failed => exact .of_idle tidy (by rw [after]) (by rw [after]) frees reliable

theorem trades_free {a : UInt64} {result : Except MemoryFault PUnit} (holds : ledger.Holds [a] w)
    (ran : (ctx.free a).run.run w = (result, w')) : ledger.Trades [a] w [] w' := by
  have accounts := h.free a w
  rw [ran] at accounts
  have live := holds.mem_starts (List.mem_singleton_self a)
  exact .of_frees holds (h.manages.frees ran) accounts.1 fun reliable =>
    ⟨(accounts.2 reliable).1, (accounts.2 reliable).2 live⟩

theorem trades_read {a : UInt64} {n : Nat} {result : Except MemoryFault (List UInt8)}
    (tidy : (ledger.memory w).Tidy) (ran : (ctx.read a n).run.run w = (result, w')) :
    ledger.Trades [] w [] w' := by
  obtain ⟨frees, reliable⟩ := (h.read a n).of_run ran
  have same := (h.manages.reads ran).2
  exact .of_idle tidy (by rw [same]) (by rw [same]) frees reliable

theorem trades_write {a : UInt64} {bytes : List UInt8} {result : Except MemoryFault PUnit}
    (tidy : (ledger.memory w).Tidy) (ran : (ctx.write a bytes).run.run w = (result, w')) :
    ledger.Trades [] w [] w' := by
  obtain ⟨frees, reliable⟩ := (h.write a bytes).of_run ran
  have ends := h.manages.stores ran
  generalize after : ledger.memory w' = m' at ends
  cases ends with
  | unmapped => exact .of_idle tidy (by rw [after]) (by rw [after]) frees reliable
  | stored stored =>
      obtain ⟨-, rfl⟩ := Memory.write?_eq_some.mp stored
      exact .of_idle tidy (by rw [after]) (by rw [after]) frees reliable

theorem trades_run {plan : Plan} {stop : Stop} (tidy : (ledger.memory w).Tidy)
    (ran : (ctx.run plan).run w = (stop, w')) : ledger.Trades [] w [] w' := by
  obtain ⟨frees, reliable⟩ := (h.run plan).of_run ran
  obtain ⟨contents, same⟩ := h.manages.run plan w
  rw [ran] at same
  exact .of_idle tidy (by rw [same]) (by rw [same]) frees reliable

theorem trades_compile {source : WrapperSource} {given : Option LoadedWrapper × Diagnostics}
    (tidy : (ledger.memory w).Tidy) (ran : (ctx.compile source).run w = (given, w')) :
    ledger.Trades [] w [] w' := by
  obtain ⟨frees, reliable⟩ := (h.compile source).of_run ran
  have same := h.manages.compile source w
  rw [ran] at same
  exact .of_idle tidy (by rw [same]) (by rw [same]) frees reliable

end

end Context.Accounts

/-! ## Watched processes -/

/-- The ledger of a process under watch. -/
def Watched.ledger {ω : Type} (memory : ω → Memory) (reliable : ω → Prop) : Ledger (Watched ω) where
  memory w := memory w.process
  frees := Watched.frees
  Reliable w := w.failingFrees = [] ∧ reliable w.process

/-- A watched process keeps account of its memory. -/
theorem Context.Manages.accounts {ω : Type} {ctx : Context ω} {memory : ω → Memory}
    {reliable : ω → Prop} (h : ctx.Manages memory)
    (steady : ctx.Respects fun w w' => reliable w → reliable w')
    (free : ∀ a w m, reliable w → (memory w).free? a = some m →
      ((ctx.free a).run.run w).1 = .ok ()) :
    ctx.watched.Accounts (Watched.ledger memory reliable) where
  manages := h.watched
  free a w := by
    show ((Watched.free ctx a).run.run w).2.frees = a :: w.frees ∧
      (w.failingFrees = [] ∧ reliable w.process →
        (((Watched.free ctx a).run.run w).2.failingFrees = [] ∧
          reliable ((Watched.free ctx a).run.run w).2.process) ∧
        (a ∈ (memory w.process).starts → ((Watched.free ctx a).run.run w).1 = .ok ()))
    unfold Watched.free
    dsimp only [ExceptT.run_mk, StateT.run]
    refine ⟨by split <;> rfl, fun ⟨working, sound⟩ => ?_⟩
    rw [working]
    refine ⟨⟨rfl, steady.free a w.process sound⟩, fun live => ?_⟩
    obtain ⟨m, freed⟩ := Memory.free?_isSome live
    exact free a w.process m sound freed
  allocate size align w := by
    show (Watched.ledger memory reliable).Quiet w ((Watched.allocate ctx size align).run.run w).2
    unfold Watched.allocate
    dsimp only [ExceptT.run_mk, StateT.run]
    split
    · exact ⟨rfl, id⟩
    · exact ⟨rfl, fun sound => ⟨sound.1, steady.allocate size align w.process sound.2⟩⟩
  read a n w := ⟨rfl, fun sound => ⟨sound.1, steady.read a n w.process sound.2⟩⟩
  write a bytes w := ⟨rfl, fun sound => ⟨sound.1, steady.write a bytes w.process sound.2⟩⟩
  run plan w := ⟨rfl, fun sound => ⟨sound.1, steady.run plan w.process sound.2⟩⟩
  compile source w := ⟨rfl, fun sound => ⟨sound.1, steady.compile source w.process sound.2⟩⟩

/-- A debuggee under watch keeps account of its memory. -/
theorem Debuggee.accounts {allocator : Debuggee.Allocator} (fresh : Debuggee.Fresh allocator)
    (target : Target) (choice : Debuggee.CompilerChoice) :
    (Debuggee.context target allocator choice).watched.Accounts
      (Watched.ledger Debuggee.memory Debuggee.Reliable) :=
  (Debuggee.manages fresh target choice).accounts
    (Debuggee.respects_reliable target allocator choice) fun _ _ _ => Debuggee.free_eq_ok

end CallThunk
