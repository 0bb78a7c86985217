import CallThunk.Proofs.Call.Endings
import CallThunk.Proofs.Process.Accounts

/-!
# Ownership of memory by calls

What operations on calls do to the regions that an activation owns: its struct, if that was
allocated for it, and its side buffers. An operation on an activation only trades side buffers, a
release frees all that is owned, and a whole call gives back all that it took, however it ends.
-/

namespace CallThunk

open Caller (WriteEnds FetchEnds RunEnds PrepareEnds InsertEnds CallEnds CompileEnds CallWithEnds)

namespace Activation

/-- The struct of an activation that owns it. -/
def ownStruct (activation : Activation) : List UInt64 :=
  if activation.ownsStruct then [activation.structAddress] else []

/-- All that an activation owns. -/
def owned (activation : Activation) : List UInt64 := activation.sides ++ activation.ownStruct

end Activation

/-- What an operation on an activation does to memory: it trades side buffers. -/
structure Ledger.Exchanges {ω : Type} (ledger : Ledger ω) (s s' : Activation × ω) : Prop where
  struct : s'.1.structAddress = s.1.structAddress
  owns : s'.1.ownsStruct = s.1.ownsStruct
  trades : ledger.Holds s.1.sides s.2 → ledger.Trades s.1.sides s.2 s'.1.sides s'.2

namespace Ledger.Exchanges

variable {ω : Type} {ledger : Ledger ω} {s t u : Activation × ω}

theorem refl (s : Activation × ω) : ledger.Exchanges s s :=
  ⟨rfl, rfl, fun holds => (Trades.refl holds.tidy).frame s.1.sides⟩

theorem trans (s t u : Activation × ω) (h : ledger.Exchanges s t) (h' : ledger.Exchanges t u) :
    ledger.Exchanges s u where
  struct := h'.struct.trans h.struct
  owns := h'.owns.trans h.owns
  trades holds := by
    have first := h.trades holds
    exact first.trans (h'.trades (first.holds holds))

theorem ownStruct (h : ledger.Exchanges s t) : t.1.ownStruct = s.1.ownStruct := by
  unfold Activation.ownStruct
  rw [h.owns, h.struct]

/-- The struct of an activation stays out of what its operations trade. -/
theorem owned (h : ledger.Exchanges s t) (holds : ledger.Holds s.1.owned s.2) :
    ledger.Trades s.1.owned s.2 t.1.owned t.2 := by
  have trades := (h.trades holds.left).frame s.1.ownStruct
  unfold Activation.owned
  rwa [h.ownStruct]

end Ledger.Exchanges

theorem exchanges_service {ω α : Type} {ledger : Ledger ω} {sv : Service ω α}
    (idle : ∀ w result w', (ledger.memory w).Tidy → sv.run.run w = (result, w') →
      ledger.Trades [] w [] w') :
    Keeps ledger.Exchanges (Caller.service sv : Caller.OnActivation ω α).run := by
  intro s
  rcases ran : sv.run.run s.2 with ⟨result, w'⟩
  rw [Caller.run_service_of ran]
  exact ⟨rfl, rfl, fun holds => (idle s.2 result w' holds.tidy ran).frame s.1.sides⟩

section
variable {ω : Type} {ctx : Context ω} {ledger : Ledger ω} (accounts : ctx.Accounts ledger)
include accounts

/-! ## Freeing -/

theorem trades_freeEach {addresses : List UInt64} {w w' : ω}
    {result : Except MemoryFault PUnit} (holds : ledger.Holds addresses w)
    (ran : (Activation.freeEach ctx addresses).run w = (result, w')) :
    ledger.Trades addresses w [] w' := by
  induction addresses generalizing w result with
  | nil =>
      cases ran
      exact .refl holds.tidy
  | cons address rest ih =>
      rcases first : (ctx.free address).run.run w with ⟨freed, w₁⟩
      rcases others : (Activation.freeEach ctx rest).run w₁ with ⟨left, w₂⟩
      unfold Activation.freeEach at ran
      rw [run_stateBind_of first, run_stateBind_of others] at ran
      have one : ledger.Holds ([address] ++ rest) w := holds
      have freeing := (accounts.trades_free one.left first).frame rest
      have last : w' = w₂ := by
        cases freed <;> cases ran <;> rfl
      subst last
      exact freeing.trans (ih (freeing.holds one) others)

/-- Freeing all frees what is owned, and leaves nothing owned. -/
theorem trades_freeAll {activation left : Activation} {w w' : ω}
    {result : Except MemoryFault PUnit} (holds : ledger.Holds activation.owned w)
    (ran : (activation.freeAll ctx).run w = ((result, left), w')) :
    ledger.Trades activation.owned w [] w' ∧ left.owned = [] := by
  rcases each : (Activation.freeEach ctx activation.sides).run w with ⟨sides, w₁⟩
  have freeing := (trades_freeEach accounts holds.left each).frame activation.ownStruct
  unfold Activation.freeAll at ran
  rw [run_stateBind_of each] at ran
  have struct : activation.ownStruct =
      if activation.ownsStruct then [activation.structAddress] else [] := rfl
  cases owns : activation.ownsStruct with
  | false =>
      rw [owns] at ran struct
      cases ran
      rw [struct] at freeing
      refine ⟨?_, rfl⟩
      unfold Activation.owned
      rw [struct]
      exact freeing
  | true =>
      rw [owns] at ran struct
      rw [struct] at freeing
      unfold Activation.owned at holds ⊢
      rw [struct] at holds ⊢
      rcases last : (ctx.free activation.structAddress).run.run w₁ with ⟨e | u, w₂⟩
      · dsimp only at ran
        rw [if_pos rfl, run_stateBind_of last] at ran
        cases ran
        exact ⟨freeing.trans (accounts.trades_free (freeing.holds holds) last), rfl⟩
      · dsimp only at ran
        rw [if_pos rfl, run_stateBind_of last] at ran
        cases ran
        exact ⟨freeing.trans (accounts.trades_free (freeing.holds holds) last), rfl⟩

theorem trades_drop {activation : Activation} {w w' : ω} {u : PUnit}
    (holds : ledger.Holds activation.owned w) (ran : (activation.drop ctx).run w = (u, w')) :
    ledger.Trades activation.owned w [] w' := by
  rcases freed : (activation.freeAll ctx).run w with ⟨⟨result, left⟩, w₁⟩
  unfold Activation.drop at ran
  rw [run_stateBind_of freed] at ran
  cases ran
  exact (trades_freeAll accounts holds freed).1

/-- A release frees all that is owned; what is left to be dropped owns nothing. -/
theorem trades_release {activation : Activation} {w w' : ω} {result : Except MemoryFault PUnit}
    (holds : ledger.Holds activation.owned w)
    (ran : (activation.release ctx).run.run w = (result, w')) :
    ledger.Trades activation.owned w [] w' := by
  rcases freed : (activation.freeAll ctx).run w with ⟨⟨first, left⟩, w₁⟩
  rcases dropped : (left.drop ctx).run w₁ with ⟨u, w₂⟩
  obtain ⟨freeing, nothing⟩ := trades_freeAll accounts holds freed
  have release : (activation.release ctx).run.run w = (first, w₂) := by
    show (activation.freeAll ctx >>= fun freed => do
      freed.2.drop ctx
      return freed.1 : StateM ω (Except MemoryFault PUnit)).run w = _
    rw [run_stateBind_of freed, run_stateBind_of dropped]
    rfl
  rw [release] at ran
  cases ran
  have empty : ledger.Holds left.owned w₁ := by
    rw [nothing]
    exact freeing.holds holds
  have dropping := trades_drop accounts empty dropped
  rw [nothing] at dropping
  exact freeing.trans dropping

/-! ## Operations on an activation -/

theorem exchanges_writeSlot (place : SlotPlace) (bytes : List UInt8) :
    Keeps ledger.Exchanges (Caller.writeSlot ctx place bytes).run :=
  .exceptBind Ledger.Exchanges.trans Ledger.Exchanges.refl fun _ =>
    exchanges_service fun _ _ _ => accounts.trades_write

theorem exchanges_freeSides : Keeps ledger.Exchanges (Caller.freeSides ctx).run := by
  intro s
  rw [Caller.run_freeSides]
  exact ⟨rfl, rfl, fun holds => trades_freeEach accounts holds rfl⟩

theorem exchanges_newSide (bytes : List UInt8) (align : UInt32) :
    Keeps ledger.Exchanges (Caller.newSide ctx bytes align).run := by
  intro s
  rcases ran : (ctx.allocate (UInt64.ofNat bytes.length) align.toUInt64).run.run s.2 with
    ⟨e | address, w₁⟩
  · rw [Caller.run_newSide_error ran]
    exact ⟨rfl, rfl, fun holds =>
      (accounts.trades_unallocated holds.tidy ran).frame s.1.sides⟩
  · rw [Caller.run_newSide_ok ran]
    refine ⟨rfl, rfl, fun holds => ?_⟩
    have taken := (accounts.trades_allocated holds.tidy ran).frame s.1.sides
    have owned := taken.perm (.refl _) List.perm_append_comm
    have filled : ledger.Trades [] w₁ [] ((ctx.write address bytes).run.run w₁).2 :=
      accounts.trades_write owned.tidied rfl
    exact owned.trans (filled.frame _)

theorem exchanges_transfer (r : Ready) (function : List UInt8)
    (arguments : List (SlotPlace × Caller.ArgumentImage)) :
    Keeps ledger.Exchanges (Caller.transfer ctx r function arguments).run :=
  Caller.keeps_transfer (P := fun _ _ => True) Ledger.Exchanges.refl Ledger.Exchanges.trans
    (exchanges_freeSides accounts) (fun place bytes _ => exchanges_writeSlot accounts place bytes)
    (exchanges_newSide accounts) trivial fun _ _ _ _ => trivial

variable {caller : Caller} {s t : Activation × ω}

theorem exchanges_write {args : List Value} {result : Except CallError PUnit}
    (h : WriteEnds ctx caller args s result t) : ledger.Exchanges s t := by
  have opened : ledger.Exchanges s (Caller.givenUp s) :=
    ⟨rfl, rfl, fun holds => (Ledger.Trades.refl holds.tidy).frame s.1.sides⟩
  cases h with
  | refused => exact .refl s
  | broken valid failed =>
      exact .trans _ _ _ opened ((exchanges_transfer accounts _ _ _).of_run failed)
  | @done r function arguments t valid transferred =>
      have written := (exchanges_transfer accounts _ _ _).of_run transferred
      have stamped : ledger.Exchanges t
          ({ t.1 with stage := .written, arguments := args }, t.2) :=
        ⟨rfl, rfl, fun holds => (Ledger.Trades.refl holds.tidy).frame t.1.sides⟩
      exact .trans _ _ _ opened (.trans _ _ _ written stamped)

theorem exchanges_fetch {result : Except CallError Value} (h : FetchEnds ctx caller s result t) :
    ledger.Exchanges s t := by
  cases h with
  | unready => exact .refl s
  | early => exact .refl s
  | unreadable ready slot failed =>
      exact ⟨rfl, rfl, fun holds => (accounts.trades_read holds.tidy failed).frame s.1.sides⟩
  | undecodable ready held read =>
      exact ⟨rfl, rfl, fun holds => (accounts.trades_read holds.tidy read).frame s.1.sides⟩
  | decoded completed ready held typed read =>
      exact ⟨rfl, rfl, fun holds => (accounts.trades_read holds.tidy read).frame s.1.sides⟩
  | void => exact ⟨rfl, rfl, fun holds => (Ledger.Trades.refl holds.tidy).frame s.1.sides⟩

theorem exchanges_run {options : RunOptions} {result : Except CallError Value}
    (h : RunEnds ctx caller options s result t) : ledger.Exchanges s t := by
  cases h with
  | refused => exact .refl s
  | interrupted planned stopped =>
      exact ⟨rfl, rfl, fun holds => (accounts.trades_run holds.tidy stopped).frame s.1.sides⟩
  | @completed p stop w result t planned stopped completed fetched =>
      have first : ledger.Exchanges s ({ s.1 with stage := .completed }, w) :=
        ⟨rfl, rfl, fun holds => (accounts.trades_run holds.tidy stopped).frame s.1.sides⟩
      exact .trans _ _ _ first (exchanges_fetch accounts fetched)

variable {w w' : ω}

theorem trades_readBack {activation : Activation} {result : Except CallError (List Value)}
    (tidy : (ledger.memory w).Tidy)
    (ran : (caller.read ctx activation).run.run w = (result, w')) :
    ledger.Trades [] w [] w' := by
  have each (a : UInt64) (n : Nat) : Keeps (fun w w' => (ledger.memory w).Tidy →
      ledger.Trades [] w [] w') (ctx.read a n).run :=
    fun w tidy => accounts.trades_read tidy rfl
  have all := keeps_read (fun w tidy => .refl tidy)
    (fun a b c first second tidy => (first tidy).trans (second (first tidy).tidied)) each caller
    activation
  exact all.of_run ran tidy

/-! ## Whole calls -/

theorem trades_prepare {place : StructPlace} {result : Except CallError Activation}
    (tidy : (ledger.memory w).Tidy) (h : PrepareEnds ctx caller w place result w') :
    ledger.Trades [] w ((result.toOption.map Activation.owned).getD []) w' := by
  cases h with
  | unready => exact .refl tidy
  | unadopted ready failed => exact accounts.trades_read tidy failed
  | adopted ready read => exact accounts.trades_read tidy read
  | unallocated ready failed => exact accounts.trades_unallocated tidy failed
  | allocated ready allocated => exact accounts.trades_allocated tidy allocated

/-- What is done with a struct that was prepared first. -/
theorem trades_operated {place : StructPlace} {activation : Activation}
    (tidy : (ledger.memory w).Tidy) (prepared : PrepareEnds ctx caller w place (.ok activation) w')
    (operated : ledger.Exchanges (activation, w') t) : ledger.Trades [] w t.1.owned t.2 := by
  have preparing := trades_prepare accounts tidy prepared
  exact preparing.trans (operated.owned preparing.acquired)

theorem trades_insert {place : StructPlace} {result : Except CallError Activation}
    (tidy : (ledger.memory w).Tidy) (h : InsertEnds ctx caller place w result w') :
    ledger.Trades [] w ((result.toOption.map Activation.owned).getD []) w' := by
  cases h with
  | unprepared failed => exact trades_prepare accounts tidy failed
  | unwritten prepared failed =>
      have writing := trades_operated accounts tidy prepared (exchanges_write accounts failed)
      exact writing.trans (trades_drop accounts writing.acquired rfl)
  | written prepared written =>
      exact trades_operated accounts tidy prepared (exchanges_write accounts written)

/-- A call gives back all that it took, however it ends. -/
theorem trades_call {args : List Value} {place : StructPlace} {options : RunOptions}
    {result : Except CallError Value} (tidy : (ledger.memory w).Tidy)
    (h : CallEnds ctx caller args place options w result w') : ledger.Trades [] w [] w' := by
  cases h with
  | unprepared failed => exact trades_prepare accounts tidy failed
  | unwritten prepared failed =>
      have writing := trades_operated accounts tidy prepared (exchanges_write accounts failed)
      exact writing.trans (trades_drop accounts writing.acquired rfl)
  | failed prepared written failed =>
      have running := trades_operated accounts tidy prepared
        ((exchanges_write accounts written).trans _ _ _ (exchanges_run accounts failed))
      exact running.trans (trades_drop accounts running.acquired rfl)
  | returned prepared written returned =>
      have running := trades_operated accounts tidy prepared
        ((exchanges_write accounts written).trans _ _ _ (exchanges_run accounts returned))
      exact running.trans (trades_release accounts running.acquired rfl)

theorem trades_compiles {compiled : Caller} (tidy : (ledger.memory w).Tidy)
    (h : CompileEnds ctx caller w compiled w') : ledger.Trades [] w [] w' := by
  cases h with
  | kept => exact .refl tidy
  | compiled new run => exact accounts.trades_compile tidy run

theorem trades_callWith {args : List Value} {place : StructPlace} {options : RunOptions}
    {result : Except CallError Value} {compiled : Caller} (tidy : (ledger.memory w).Tidy)
    (h : CallWithEnds ctx caller args place options w result compiled w') :
    ledger.Trades [] w [] w' := by
  cases h with
  | uncompiled compiles => exact trades_compiles accounts tidy compiles
  | called compiles called =>
      have compiling := trades_compiles accounts tidy compiles
      exact compiling.trans (trades_call accounts compiling.tidied called)

end

end CallThunk
