import Mathlib.Data.List.Induction
import CallThunk.Proofs.Call.Ownership
import CallThunk.Proofs.Call.Steps

/-!
# Whose memory it is

Throughout a session every live region has exactly one owner: the user, who allocated it, or one
activation, whose struct or side buffer it is. Each action trades the regions of the activation that
it is about and nothing else, so whatever the user does, and wherever allocations fail, no region is
lost, owned twice or freed twice.
-/

namespace CallThunk

open Caller (PrepareEnds InsertEnds CallEnds CallWithEnds CompileEnds)

namespace Session

section
variable {ω : Type}

/-- What an activation owns, as long as it is live. -/
def ownedBy (activation : Option Activation) : List UInt64 :=
  (activation.map Activation.owned).getD []

@[simp] theorem ownedBy_some (activation : Activation) :
    ownedBy (some activation) = activation.owned := rfl

@[simp] theorem ownedBy_none : ownedBy none = [] := rfl

/-- What the activations of a session own. -/
def owned (s : Session ω) : List UInt64 := s.activations.flatMap ownedBy

/-- What an action may free, apart from what it allocates itself. -/
def reach (s : Session ω) (action : Action) : List UInt64 :=
  match action, action.activation? with
  | .freeMemory a, _ => [a]
  | _, some index => ownedBy s.activations[index]?.join
  | _, none => []

/-- What the user holds behind an action: what was allocated and not freed by actions. -/
def heldAfter (action : Action) (given : Outcome) (held : List UInt64) : List UInt64 :=
  match action, given with
  | .allocateMemory .., .address a => a :: held
  | .freeMemory a, .done => held.erase a
  | _, _ => held

/-- What the user holds behind a run. -/
def held (ctx : Context ω) (s : Session ω) (actions : List Action) : List UInt64 :=
  noted ctx (fun s action held => heldAfter action ((step ctx action).run s).1 held) [] s actions

/-! ## Counting what is owned -/

/-- An activation that changes takes the place of what it owned. -/
theorem count_set {activations : List (Option Activation)} {index : Nat}
    {old : Option Activation} (live : activations[index]? = some old) (new : Option Activation)
    (a : UInt64) : ((activations.set index new).flatMap ownedBy).count a + (ownedBy old).count a =
      (activations.flatMap ownedBy).count a + (ownedBy new).count a := by
  -- both sides count the other activations and, on top, the old and the new one
  induction activations generalizing index with
  | nil => cases live
  | cons first rest ih =>
      cases index with
      | zero =>
          cases live
          simp only [List.set_cons_zero, List.flatMap_cons, List.count_append]
          omega
      | succ index =>
          have counted := ih live
          simp only [List.set_cons_succ, List.flatMap_cons, List.count_append]
          omega

/-- A live activation is one of those that own something. -/
theorem holds_of_live {ledger : Ledger ω} {s : Session ω} {mine : List UInt64} {index : Nat}
    {activation : Activation} (holds : ledger.Holds (mine ++ s.owned) s.world)
    (live : s.activations[index]? = some (some activation)) :
    ledger.Holds activation.owned s.world := by
  refine ⟨holds.tidy, fun a => ?_⟩
  have all := holds.live a
  have without := count_set live none a
  unfold owned at all
  rw [List.count_append] at all
  rw [ownedBy_some, ownedBy_none, List.count_nil] at without
  omega

/-- What an action may free is owned by the activation that it is about. -/
theorem reach_of_names {s : Session ω} {action : Action} {index : Nat}
    (names : action.activation? = some index) :
    s.reach action = ownedBy s.activations[index]?.join := by
  cases action <;> cases names <;> rfl

theorem reach_of_live {s : Session ω} {action : Action} {index : Nat} {activation : Activation}
    (names : action.activation? = some index)
    (live : s.activations[index]? = some (some activation)) :
    s.reach action = activation.owned := by
  rw [reach_of_names names, Option.join_eq_some_iff.mpr live]
  rfl

end

/-! ## One action -/

section
variable {ω : Type} {ctx : Context ω} {ledger : Ledger ω} {s s' : Session ω} {action : Action}
  {given : Outcome} {mine : List UInt64}

/-- What an action does to memory: it trades what it may reach, and all else stays owned as it
was. -/
structure Accounted (ledger : Ledger ω) (s : Session ω) (action : Action) (mine : List UInt64)
    (s' : Session ω) (mine' : List UInt64) : Prop where
  trades : ∃ after rest, ledger.Trades (s.reach action) s.world after s'.world ∧
    (s.reach action ++ rest).Perm (mine ++ s.owned) ∧ (after ++ rest).Perm (mine' ++ s'.owned)

/-- An action that trades nothing. -/
theorem Accounted.of_idle (trades : ledger.Trades [] s.world [] s'.world)
    (reach : s.reach action = []) (same : s'.owned = s.owned) :
    Accounted ledger s action mine s' mine := by
  refine ⟨[], mine ++ s.owned, ?_, ?_, ?_⟩
  · rw [reach]
    exact trades
  · rw [reach]
    exact .refl _
  · rw [same]
    exact .refl _

/-- An action that trades what one activation owns. -/
theorem Accounted.of_set {index : Nat} {activation : Activation}
    (names : action.activation? = some index)
    (live : s.activations[index]? = some (some activation)) {new : Option Activation}
    (set : s'.activations = s.activations.set index new)
    (trades : ledger.Trades activation.owned s.world (ownedBy new) s'.world) :
    Accounted ledger s action mine s' mine := by
  have without := count_set live none
  have changed := count_set live new
  have after : s'.owned = (s.activations.set index new).flatMap ownedBy := by
    unfold owned
    rw [set]
  rw [← reach_of_live names live] at trades
  rw [ownedBy_some, ← reach_of_live names live] at without changed
  rw [ownedBy_none] at without
  -- what others own is what is owned with this activation taken away
  refine ⟨ownedBy new, mine ++ (s.activations.set index none).flatMap ownedBy, trades, ?_, ?_⟩
  · refine List.perm_iff_count.mpr fun a => ?_
    have without := without a
    unfold owned
    simp only [List.count_append, List.count_nil] at without ⊢
    omega
  · refine List.perm_iff_count.mpr fun a => ?_
    have without := without a
    have changed := changed a
    rw [after]
    simp only [List.count_append, List.count_nil] at without ⊢
    omega

/-- What is done to make an activation acquires what it owns, or nothing if it fails. -/
theorem trades_of_opens (accounts : ctx.Accounts ledger) {caller : Caller} {w w' : ω}
    {result : Except CallError Activation} (tidy : (ledger.memory w).Tidy)
    (opens : Opens ctx caller w action result w') :
    ledger.Trades [] w ((result.toOption.map Activation.owned).getD []) w' := by
  cases opens with
  | prepare ends => exact trades_prepare accounts tidy ends
  | insert ends => exact trades_insert accounts tidy ends

/-- What is done with a live activation exchanges side buffers. -/
theorem exchanges_of_changes (accounts : ctx.Accounts ledger) {index : Nat}
    {t u : Activation × ω} (changes : Changes ctx s.caller index t action given u) :
    ledger.Exchanges t u := by
  cases changes with
  | write ends => exact exchanges_write accounts ends
  | run ends => exact exchanges_run accounts ends
  | fetch ends => exact exchanges_fetch accounts ends

/-- What is done to take a live activation away frees all that it owns. -/
theorem trades_of_closes (accounts : ctx.Accounts ledger) {index : Nat} {activation : Activation}
    {w w' : ω} (holds : ledger.Holds activation.owned w)
    (closes : Closes ctx index activation w action given w') :
    ledger.Trades activation.owned w [] w' := by
  cases closes with
  | release ran =>
      rcases released : (activation.release ctx).run.run w with ⟨result, last⟩
      cases ran.symm.trans (Caller.run_access_of released)
      exact trades_release accounts holds released
  | drop ran => exact trades_drop accounts holds ran

/-- The user's own memory is traded by the user alone. -/
theorem accounted_of_uses (accounts : ctx.Accounts ledger)
    (holds : ledger.Holds (mine ++ s.owned) s.world)
    (own : ∀ a, action = .freeMemory a → a ∈ mine ∧ ledger.Reliable s.world) {w : ω}
    (uses : Uses ctx s.world action given w) :
    Accounted ledger s action mine { s with world := w } (heldAfter action given mine) := by
  have tidy := holds.tidy
  cases uses with
  | @allocate size align result _ ran =>
      cases result with
      | error e => exact .of_idle (accounts.trades_unallocated tidy ran) rfl rfl
      | ok a =>
          exact ⟨[a], mine ++ s.owned, accounts.trades_allocated tidy ran, .refl _, .refl _⟩
  | @free a result _ ran =>
      obtain ⟨member, reliable⟩ := own a rfl
      have listed : ([a] ++ (mine.erase a ++ s.owned)).Perm (mine ++ s.owned) :=
        (List.perm_cons_erase member).symm.append_right s.owned
      have one : ledger.Holds [a] s.world := (holds.perm listed.symm).left
      have live := one.mem_starts (List.mem_singleton_self a)
      have freed := ((accounts.free a s.world).2 reliable).2 live
      rw [ran] at freed
      dsimp only at freed
      subst freed
      exact ⟨[], mine.erase a ++ s.owned, accounts.trades_free one ran, listed, .refl _⟩
  | read ran => exact .of_idle (accounts.trades_read tidy ran) rfl rfl
  | write ran => exact .of_idle (accounts.trades_write tidy ran) rfl rfl

/-- Every action accounts for what it does, if the user frees nothing but the user's own. -/
theorem accounted_of_does (accounts : ctx.Accounts ledger)
    (holds : ledger.Holds (mine ++ s.owned) s.world)
    (own : ∀ a, action = .freeMemory a → a ∈ mine ∧ ledger.Reliable s.world)
    (does : Does ctx s action given s') :
    Accounted ledger s action mine s' (heldAfter action given mine) := by
  have tidy := holds.tidy
  cases does with
  | compiled compiles => exact .of_idle (trades_compiles accounts tidy compiles) rfl rfl
  | called asks ends =>
      have trades := trades_callWith accounts tidy ends
      rcases asks with rfl | ⟨rfl, -⟩
      · exact .of_idle trades rfl rfl
      · exact .of_idle trades rfl rfl
  | @opened _ activation w reports opens =>
      have appended : (s.activations ++ [some activation]).flatMap ownedBy =
          s.owned ++ activation.owned := by
        rw [List.flatMap_append, List.flatMap_singleton]
        rfl
      have moved : (activation.owned ++ (mine ++ s.owned)).Perm
          (mine ++ (s.activations ++ [some activation]).flatMap ownedBy) := by
        rw [appended, ← List.append_assoc mine]
        exact List.perm_append_comm
      have trades := trades_of_opens accounts tidy opens
      cases opens <;> exact ⟨activation.owned, mine ++ s.owned, trades, .refl _, moved⟩
  | unopened opens =>
      have trades := trades_of_opens accounts tidy opens
      cases opens <;> exact .of_idle trades rfl rfl
  | @absent _ index names gone =>
      have reach : s.reach action = [] := by
        rw [reach_of_names names, gone]
        rfl
      have same : heldAfter action .noActivation mine = mine := by
        cases action <;> rfl
      rw [same]
      exact .of_idle (.refl tidy) reach rfl
  | @changed index activation _ _ t live changes =>
      have same : heldAfter action given mine = mine := by
        cases changes <;> rfl
      have exchanges := exchanges_of_changes accounts changes
      rw [same]
      exact .of_set changes.names live rfl (exchanges.owned (holds_of_live holds live))
  | @looked index activation _ _ w live looks =>
      have idle : ledger.Trades [] s.world [] w := by
        cases looks with
        | read ran => exact trades_readBack accounts tidy ran
        | plan => exact .refl tidy
      have same : heldAfter action given mine = mine := by
        cases looks <;> rfl
      rw [same]
      exact .of_set looks.names live (set_of_live live).symm (idle.frame activation.owned)
  | @closed index activation _ _ w live closes =>
      have same : heldAfter action given mine = mine := by
        cases closes <;> rfl
      rw [same]
      exact .of_set closes.names live rfl
        (trades_of_closes accounts (holds_of_live holds live) closes)
  | used uses => exact accounted_of_uses accounts holds own uses

/-! ## Structs of the user -/

/-- A struct that its activation does not own is in use and is none of its side buffers. -/
def Borrows (m : Memory) (activation : Activation) : Prop :=
  activation.ownsStruct = false → activation.structAddress.toNat < m.next.toNat ∧
    activation.structAddress ∉ activation.sides

/-- The struct that the user supplied for what an action is about. -/
inductive Supplies (s : Session ω) : Action → UInt64 → Prop where
  | given {action : Action} {a : UInt64} (given : action.place? = some (.given a)) :
      Supplies s action a
  | live {action : Action} {index : Nat} {activation : Activation}
      (names : action.activation? = some index)
      (live : s.activations[index]? = some (some activation))
      (borrowed : activation.ownsStruct = false) : Supplies s action activation.structAddress

theorem borrows_of_exchanges {s t : Activation × ω} (h : ledger.Exchanges s t)
    (holds : ledger.Holds s.1.sides s.2) (borrows : Borrows (ledger.memory s.2) s.1) :
    Borrows (ledger.memory t.2) t.1 := by
  intro borrowed
  have trades := h.trades holds
  obtain ⟨below, outside⟩ := borrows (h.owns.symm.trans borrowed)
  rw [h.struct]
  refine ⟨Nat.lt_of_lt_of_le below trades.next, fun member => ?_⟩
  rcases trades.new _ member with old | new
  · exact outside old
  · omega

/-- Memory that is adopted is in use. -/
theorem below_of_adopted (accounts : ctx.Accounts ledger) {caller : Caller} {w w' : ω} {a : UInt64}
    {activation : Activation} (tidy : (ledger.memory w).Tidy)
    (h : PrepareEnds ctx caller w (.given a) (.ok activation) w') :
    a.toNat < (ledger.memory w).next.toNat := by
  cases h with
  | adopted ready read =>
      obtain ⟨held, -⟩ := accounts.manages.fetched read
      have below := tidy.bounded.below (Memory.read?_eq_some.mp held).1
      omega

/-- A struct that is not prepared costs no memory. -/
theorem frees_of_unprepared (accounts : ctx.Accounts ledger) {caller : Caller} {w w' : ω}
    {place : StructPlace} {e : CallError} (h : PrepareEnds ctx caller w place (.error e) w') :
    ledger.frees w' = ledger.frees w := by
  cases h with
  | unready => rfl
  | unadopted ready failed => exact ((accounts.read _ _).of_run failed).1
  | unallocated ready failed => exact ((accounts.allocate _ _).of_run failed).1

theorem borrows_of_prepare (accounts : ctx.Accounts ledger) {caller : Caller} {w w' : ω}
    {place : StructPlace} {activation : Activation} (tidy : (ledger.memory w).Tidy)
    (h : PrepareEnds ctx caller w place (.ok activation) w') :
    Borrows (ledger.memory w') activation := by
  have next := (trades_prepare accounts tidy h).next
  cases place with
  | fresh =>
      cases h with
      | allocated => nofun
  | given a =>
      have below := below_of_adopted accounts tidy h
      cases h with
      | adopted => exact fun _ => ⟨by dsimp only; omega, nofun⟩

theorem borrows_of_insert (accounts : ctx.Accounts ledger) {caller : Caller} {w w' : ω}
    {place : StructPlace} {activation : Activation} (tidy : (ledger.memory w).Tidy)
    (h : InsertEnds ctx caller place w (.ok activation) w') :
    Borrows (ledger.memory w') activation := by
  cases h with
  | @written first w₁ t prepared written =>
      have holds : ledger.Holds first.owned w₁ := (trades_prepare accounts tidy prepared).acquired
      exact borrows_of_exchanges (exchanges_write accounts written) holds.left
        (borrows_of_prepare accounts tidy prepared)

theorem borrows_of_opens (accounts : ctx.Accounts ledger) {caller : Caller} {w w' : ω}
    {activation : Activation} (tidy : (ledger.memory w).Tidy)
    (opens : Opens ctx caller w action (.ok activation) w') :
    Borrows (ledger.memory w') activation := by
  cases opens with
  | prepare ends => exact borrows_of_prepare accounts tidy ends
  | insert ends => exact borrows_of_insert accounts tidy ends

theorem quiet_of_compiles (accounts : ctx.Accounts ledger) {caller compiled : Caller} {w w' : ω}
    (h : CompileEnds ctx caller w compiled w') :
    ledger.frees w' = ledger.frees w ∧ ledger.memory w' = ledger.memory w := by
  cases h with
  | kept => exact ⟨rfl, rfl⟩
  | compiled new run =>
      have same := accounts.manages.compile caller.source w
      rw [run] at same
      exact ⟨((accounts.compile _).of_run run).1, same⟩

/-- Memory that the user supplies for a struct is in use, or it is not adopted and nothing is
freed. -/
theorem below_of_given (accounts : ctx.Accounts ledger) (tidy : (ledger.memory s.world).Tidy)
    (does : Does ctx s action given s') {a : UInt64} (supplied : action.place? = some (.given a)) :
    ledger.frees s'.world = ledger.frees s.world ∨
      a.toNat < (ledger.memory s.world).next.toNat := by
  cases does with
  | compiled => cases supplied
  | called asks ends =>
      rcases asks with rfl | ⟨rfl, -, -⟩
      · cases supplied
        cases ends with
        | uncompiled compiles => exact .inl (quiet_of_compiles accounts compiles).1
        | called compiles called =>
            obtain ⟨frees, same⟩ := quiet_of_compiles accounts compiles
            rw [← same] at tidy ⊢
            rw [← frees]
            cases called with
            | unprepared failed => exact .inl (frees_of_unprepared accounts failed)
            | unwritten prepared => exact .inr (below_of_adopted accounts tidy prepared)
            | failed prepared => exact .inr (below_of_adopted accounts tidy prepared)
            | returned prepared => exact .inr (below_of_adopted accounts tidy prepared)
      · cases supplied
  | opened opens =>
      cases opens with
      | prepare ends =>
          cases supplied
          exact .inr (below_of_adopted accounts tidy ends)
      | insert ends =>
          cases supplied
          cases ends with
          | written prepared => exact .inr (below_of_adopted accounts tidy prepared)
  | unopened opens =>
      cases opens with
      | prepare ends => exact .inl (frees_of_unprepared accounts ends)
      | insert ends =>
          cases supplied
          cases ends with
          | unprepared failed => exact .inl (frees_of_unprepared accounts failed)
          | unwritten prepared => exact .inr (below_of_adopted accounts tidy prepared)
  | absent => exact .inl rfl
  | changed live changes => cases changes <;> cases supplied
  | looked live looks => cases looks <;> cases supplied
  | closed live closes => cases closes <;> cases supplied
  | used uses => cases uses <;> cases supplied

/-! ## Runs -/

/-- Every live region has exactly one owner. -/
structure Owns (ledger : Ledger ω) (mine : List UInt64) (s : Session ω) : Prop where
  tidy : (ledger.memory s.world).Tidy
  all : (ledger.memory s.world).starts.Perm (mine ++ s.owned)
  reliable : ledger.Reliable s.world
  spent : ledger.Spent s.world
  borrowed : ∀ activation, some activation ∈ s.activations →
    Borrows (ledger.memory s.world) activation

namespace Owns

theorem holds (h : Owns ledger mine s) : ledger.Holds (mine ++ s.owned) s.world :=
  ⟨h.tidy, fun a => Nat.le_of_eq (h.all.count_eq a).symm⟩

theorem accounted (h : Owns ledger mine s) (accounts : ctx.Accounts ledger)
    (own : ∀ a, action = .freeMemory a → a ∈ mine) (does : Does ctx s action given s') :
    Accounted ledger s action mine s' (heldAfter action given mine) :=
  accounted_of_does accounts h.holds (fun a free => ⟨own a free, h.reliable⟩) does

/-- No action touches the structs of the user that it leaves in place. -/
theorem borrows_of_does (h : Owns ledger mine s) (accounts : ctx.Accounts ledger)
    (next : (ledger.memory s.world).next.toNat ≤ (ledger.memory s'.world).next.toNat)
    (does : Does ctx s action given s') (activation : Activation)
    (member : some activation ∈ s'.activations) : Borrows (ledger.memory s'.world) activation := by
  obtain ⟨index, live⟩ := List.getElem?_of_mem member
  obtain ⟨place, known, moves⟩ := does.moves_to live
  cases moves with
  | kept | looked =>
      intro borrowed
      obtain ⟨below, outside⟩ := h.borrowed activation (List.mem_of_getElem? known) borrowed
      exact ⟨Nat.lt_of_lt_of_le below next, outside⟩
  | changed changes =>
      exact borrows_of_exchanges (exchanges_of_changes accounts changes)
        (holds_of_live h.holds known).left (h.borrowed _ (List.mem_of_getElem? known))
  | opened _ _ _ opens => exact borrows_of_opens accounts h.tidy opens

/-- Every action keeps every live region owned exactly once. -/
theorem step (h : Owns ledger mine s) (accounts : ctx.Accounts ledger)
    (own : ∀ a, action = .freeMemory a → a ∈ mine) (does : Does ctx s action given s') :
    Owns ledger (heldAfter action given mine) s' := by
  obtain ⟨after, rest, trades, before, behind⟩ := (h.accounted accounts own does).trades
  obtain ⟨reliable, balance, spent⟩ := trades.exact h.reliable
  refine ⟨trades.tidied, List.perm_iff_count.mpr fun a => ?_, reliable, spent h.spent,
    h.borrows_of_does accounts trades.next does⟩
  -- the exact balance turns what was owned before the action into what is owned behind it
  have balance := balance a
  have all := h.all.count_eq a
  rw [← before.count_eq, List.count_append] at all
  rw [← behind.count_eq, List.count_append]
  omega

/-- What an action frees it may reach or has allocated itself, and it is gone behind the action. The
user's structs are never among it. -/
theorem issued (h : Owns ledger mine s) (accounts : ctx.Accounts ledger)
    (own : ∀ a, action = .freeMemory a → a ∈ mine) (does : Does ctx s action given s') :
    ∃ issued, ledger.frees s'.world = issued ++ ledger.frees s.world ∧
      (∀ a ∈ issued, a ∉ (ledger.memory s'.world).starts ∧
        (a ∈ s.reach action ∨ (ledger.memory s.world).next.toNat ≤ a.toNat)) ∧
      ∀ a, s.Supplies action a → a ∉ issued := by
  obtain ⟨after, rest, trades, -, -⟩ := (h.accounted accounts own does).trades
  obtain ⟨issued, frees, reached⟩ := trades.issued
  have last := h.step accounts own does
  refine ⟨issued, frees, fun a member => ⟨?_, reached a member⟩, fun a supplies member => ?_⟩
  · exact (last.spent.gone a (by rw [frees]; exact List.mem_append_left _ member)).2
  -- what is not in reach must be new, and what the user supplied is not
  have new := reached a member
  cases supplies with
  | @live index activation names live borrowed =>
      obtain ⟨below, outside⟩ :=
        h.borrowed activation (List.mem_of_getElem? live) borrowed
      have owned : activation.owned = activation.sides ++ [] := by
        unfold Activation.owned Activation.ownStruct
        rw [borrowed]
        rfl
      rw [reach_of_live names live, owned, List.append_nil] at new
      rcases new with old | new
      · exact outside old
      · omega
  | given given =>
      rcases below_of_given accounts h.tidy does given with same | below
      · rw [same] at frees
        rw [List.self_eq_append_left.mp frees] at member
        cases member
      · have reach : s.reach action = [] := by
          cases action <;> first | rfl | cases given
        rw [reach] at new
        rcases new with old | new
        · cases old
        · omega

/-- A call leaves the live regions as it found them. -/
theorem live_iff_of_call (h : Owns ledger mine s) (accounts : ctx.Accounts ledger)
    (calls : action.isCall) (does : Does ctx s action given s') (r : Region) :
    r ∈ (ledger.memory s'.world).live ↔ r ∈ (ledger.memory s.world).live := by
  cases does with
  | called asks ends => exact (trades_callWith accounts h.tidy ends).live_iff h.reliable r
  | compiled => cases calls
  | opened opens => cases opens <;> cases calls
  | unopened opens => cases opens <;> cases calls
  | absent => rfl
  | changed live changes => cases changes <;> cases calls
  | looked live looks => cases looks <;> cases calls
  | closed live closes => cases closes <;> cases calls
  | used uses => cases uses <;> cases calls

/-- Every run keeps every live region owned exactly once. -/
theorem after (accounts : ctx.Accounts ledger) (first : Owns ledger [] s) {actions : List Action}
    (own : ∀ i a, actions[i]? = some (.freeMemory a) → a ∈ held ctx s (actions.take i)) :
    Owns ledger (held ctx s actions) (Session.after ctx s actions) := by
  induction actions using List.reverseRecOn with
  | nil => exact first
  | append_singleton actions action ih =>
      -- what the user holds at an action depends on the actions before it alone
      have before := ih fun i a free => by
        have inside := (List.getElem?_eq_some_iff.mp free).1
        have held := own i a (by rw [List.getElem?_append_left inside]; exact free)
        rwa [List.take_append_of_le_length (Nat.le_of_lt inside)] at held
      have last : ∀ a, action = .freeMemory a → a ∈ held ctx s actions := by
        rintro a rfl
        have held := own actions.length a (List.getElem?_concat_length ..)
        rwa [List.take_left] at held
      have stepped := before.step accounts last (does_after ctx s actions action)
      unfold held
      rw [noted_concat]
      exact stepped

end Owns

end

/-! ## Sparse processes -/

/-- A session at its start, in a sparse process that has not handed out any memory yet. Its
allocations fail as they are told to, and its frees never do. -/
def watching (caller : Caller) (base : UInt64) (script : List Stop) (failing : List Bool) :
    Session (Watched Debuggee) where
  caller
  world := { process := { memory := .ofBase base, script }, failingAllocations := failing }

theorem owns_watching (caller : Caller) (base : UInt64) (script : List Stop)
    (failing : List Bool) :
    Owns (Watched.ledger Debuggee.memory Debuggee.Reliable) []
      (watching caller base script failing) where
  tidy := Memory.tidy_ofBase base
  all := .refl _
  reliable := ⟨rfl, rfl⟩
  spent := ⟨.nil, nofun⟩
  borrowed := nofun

/-- Whatever is done in a session, wherever its allocations fail and however its runs stop, as long
as the user frees only memory that the user allocated: the live regions are the user's own
allocations and the structs and side buffers of live activations, each of them owned once, and none
is ever freed twice. Every action frees only what its own activation owns or what it has allocated
itself, never a struct of the user, and a call leaves the live regions as it found them, however it
ends. -/
theorem memory_ownership (target : Target) (choice : Debuggee.CompilerChoice) (caller : Caller)
    (base : UInt64) (script : List Stop) (failing : List Bool) (actions : List Action) :
    let ctx := (Debuggee.sparse target choice).watched
    let start := watching caller base script failing
    (∀ i a, actions[i]? = some (.freeMemory a) → a ∈ held ctx start (actions.take i)) →
      let s := after ctx start actions
      let mine := held ctx start actions
      s.world.process.memory.starts.Perm (mine ++ s.owned) ∧ (mine ++ s.owned).Nodup ∧
      s.world.frees.Nodup ∧
      ((∀ activation ∈ s.activations, activation = none) →
        s.world.process.memory.starts.Perm mine) ∧
      ∀ action, (∀ a, action = .freeMemory a → a ∈ mine) →
        let t := ((step ctx action).run s).2
        (∃ issued, t.world.frees = issued ++ s.world.frees ∧
          (∀ a ∈ issued, a ∉ t.world.process.memory.starts ∧
            (a ∈ s.reach action ∨ s.world.process.memory.next.toNat ≤ a.toNat)) ∧
          ∀ a, s.Supplies action a → a ∉ issued) ∧
        (action.isCall → ∀ r, r ∈ t.world.process.memory.live ↔
          r ∈ s.world.process.memory.live) := by
  intro ctx start own s mine
  have accounts : ctx.Accounts (Watched.ledger Debuggee.memory Debuggee.Reliable) :=
    Debuggee.accounts Debuggee.fresh_sparse target choice
  have owns := (owns_watching caller base script failing).after accounts own
  have nodup : (mine ++ s.owned).Nodup := owns.all.nodup_iff.mp owns.tidy.nodup
  refine ⟨owns.all, nodup, owns.spent.nodup, fun gone => ?_, fun action own => ⟨?_, ?_⟩⟩
  · have nothing : s.owned = [] := by
      refine List.flatMap_eq_nil_iff.mpr fun activation member => ?_
      rw [gone activation member]
      rfl
    have all := owns.all
    rwa [show (Session.after ctx start actions).owned = [] from nothing, List.append_nil] at all
  · exact owns.issued accounts own (does_step ctx s action)
  · exact fun calls => owns.live_iff_of_call accounts calls (does_step ctx s action)

/-- A ready caller of a function with one aggregate argument. -/
def aggregating : Caller :=
  let pair : RecordTy := ⟨"pair", 16, 8⟩
  let layout : StructLayout := ⟨16, 8, ⟨0, 8, 8⟩, [⟨8, 8, 8⟩], none⟩
  { Caller.ofSignature "f" ⟨⟨.void, [.pointer (.record pair)], false⟩, 0x1000⟩ with
    status := .ready ⟨⟨"__fncall_call_f", 0, [], none⟩, layout, ⟨8, .little⟩⟩ }

/-- Two calls on one aggregate, the second one in a struct of the user's. -/
def rewriting : List Action :=
  let value : Value := .aggregate ⟨"pair", 16, 8⟩ (List.replicate 16 1)
  [.allocateMemory 16 8, .prepare .fresh, .prepare (.given 0x10000000), .write 0 [value],
    .write 1 [value], .write 0 [value], .callWith [value] (.given 0x10000000) {}, .release 1,
    .prepare .fresh, .freeMemory 0x10000000]

/-- The first call is written anew and gets no side buffer then, a whole call runs in the user's
struct and times out, and the user frees that struct in the end: two structs are left, and no
address was freed twice. -/
theorem memory_ownership_rewriting :
    let ctx := (Debuggee.sparse ⟨8, .little⟩ .layoutOnly).watched
    let start := watching aggregating 0x10000000 [.timedOut] [false, false, false, false, true]
    let s := after ctx start rewriting
    (∀ i a, rewriting[i]? = some (.freeMemory a) → a ∈ held ctx start (rewriting.take i)) ∧
      s.world.process.memory.starts.Perm (held ctx start rewriting ++ s.owned) ∧
      held ctx start rewriting = [] ∧ s.owned = [0x10000018, 0x10000078] ∧
      s.world.frees = [0x10000000, 0x10000048, 0x10000060, 0x10000030] ∧
      s.world.frees.Nodup := by
  have own : ∀ i a, rewriting[i]? = some (.freeMemory a) →
      a ∈ held (Debuggee.sparse ⟨8, .little⟩ .layoutOnly).watched
        (watching aggregating 0x10000000 [.timedOut] [false, false, false, false, true])
        (rewriting.take i) := by
    intro i a free
    -- Only the tenth action frees, and there is no eleventh.
    rcases i with _ | _ | _ | _ | _ | _ | _ | _ | _ | _ | i <;> cases free
    decide +kernel
  have result := memory_ownership ⟨8, .little⟩ .layoutOnly aggregating 0x10000000 [.timedOut]
    [false, false, false, false, true] rewriting own
  exact ⟨own, result.1, by decide +kernel, by decide +kernel, by decide +kernel, result.2.2.1⟩

end Session

end CallThunk
