import CallThunk.Call.Session
import CallThunk.Proofs.Call.Endings

/-!
# Steps of sessions

All that one action does to a session: `Session.Does` has one rule for each way in which an action
can end, and `Session.does_step` says that there is no other. A run of a session is a list of
actions; what holds behind every action of every run is shown by going through the rules once.
-/

namespace CallThunk

open Caller (CompileEnds PrepareEnds InsertEnds CallWithEnds WriteEnds RunEnds FetchEnds)

/-- The name of the activation that an action is about. -/
def Action.activation? : Action → Option Nat
  | .write index _ | .read index | .plan index _ | .run index _ | .fetch index | .release index
  | .drop index => some index
  | _ => none

/-- Where the struct lies that an action prepares. -/
def Action.place? : Action → Option StructPlace
  | .prepare place | .insert place | .callWith _ place _ => some place
  | .call _ => some .fresh
  | _ => none

/-- Whether an action is a call on an activation of its own. -/
def Action.isCall : Action → Bool
  | .call _ | .callWith .. => true
  | _ => false

namespace Session

section
variable {ω : Type}

/-- How an action that makes an activation ends. -/
inductive Opens (ctx : Context ω) (caller : Caller) (w : ω) :
    Action → Except CallError Activation → ω → Prop where
  | prepare {place : StructPlace} {result : Except CallError Activation} {w' : ω}
      (ends : PrepareEnds ctx caller w place result w') :
      Opens ctx caller w (.prepare place) result w'
  | insert {place : StructPlace} {result : Except CallError Activation} {w' : ω}
      (ends : InsertEnds ctx caller place w result w') :
      Opens ctx caller w (.insert place) result w'

/-- How an action that changes the activation of a name ends. -/
inductive Changes (ctx : Context ω) (caller : Caller) (index : Nat) (s : Activation × ω) :
    Action → Outcome → Activation × ω → Prop where
  | write {args : List Value} {result : Except CallError PUnit} {t : Activation × ω}
      (ends : WriteEnds ctx caller args s result t) :
      Changes ctx caller index s (.write index args) (outcome (fun _ => .done) result) t
  | run {options : RunOptions} {result : Except CallError Value} {t : Activation × ω}
      (ends : RunEnds ctx caller options s result t) :
      Changes ctx caller index s (.run index options) (outcome .value result) t
  | fetch {result : Except CallError Value} {t : Activation × ω}
      (ends : FetchEnds ctx caller s result t) :
      Changes ctx caller index s (.fetch index) (outcome .value result) t

theorem Changes.names {ctx : Context ω} {caller : Caller} {index : Nat} {s t : Activation × ω}
    {action : Action} {given : Outcome} (h : Changes ctx caller index s action given t) :
    action.activation? = some index := by
  cases h <;> rfl

/-- How an action that only looks at the activation of a name ends. -/
inductive Looks (ctx : Context ω) (caller : Caller) (index : Nat) (activation : Activation)
    (w : ω) : Action → Outcome → ω → Prop where
  | read {result : Except CallError (List Value)} {w' : ω}
      (ran : (caller.read ctx activation).run.run w = (result, w')) :
      Looks ctx caller index activation w (.read index) (outcome .values result) w'
  | plan {options : RunOptions} :
      Looks ctx caller index activation w (.plan index options)
        (outcome .plan (caller.plan activation options)) w

/-- How an action that takes the activation of a name away ends. -/
inductive Closes (ctx : Context ω) (index : Nat) (activation : Activation) (w : ω) :
    Action → Outcome → ω → Prop where
  | release {result : Except CallError PUnit} {w' : ω}
      (ran : (Caller.release ctx activation).run.run w = (result, w')) :
      Closes ctx index activation w (.release index) (outcome (fun _ => .done) result) w'
  | drop {w' : ω} (ran : (activation.drop ctx).run w = ((), w')) :
      Closes ctx index activation w (.drop index) .done w'

theorem Looks.names {ctx : Context ω} {caller : Caller} {index : Nat} {activation : Activation}
    {w w' : ω} {action : Action} {given : Outcome}
    (h : Looks ctx caller index activation w action given w') :
    action.activation? = some index := by
  cases h <;> rfl

theorem Closes.names {ctx : Context ω} {index : Nat} {activation : Activation} {w w' : ω}
    {action : Action} {given : Outcome} (h : Closes ctx index activation w action given w') :
    action.activation? = some index := by
  cases h <;> rfl

/-- The outcome of a memory service. -/
def memoryOutcome {α : Type} (f : α → Outcome) : Except MemoryFault α → Outcome
  | .ok a => f a
  | .error e => .memoryFailed e

/-- What the user does with the memory of the process. -/
inductive Uses (ctx : Context ω) (w : ω) : Action → Outcome → ω → Prop where
  | allocate {size align : UInt64} {result : Except MemoryFault UInt64} {w' : ω}
      (ran : (ctx.allocate size align).run.run w = (result, w')) :
      Uses ctx w (.allocateMemory size align) (memoryOutcome .address result) w'
  | free {address : UInt64} {result : Except MemoryFault PUnit} {w' : ω}
      (ran : (ctx.free address).run.run w = (result, w')) :
      Uses ctx w (.freeMemory address) (memoryOutcome (fun _ => .done) result) w'
  | read {address : UInt64} {length : Nat} {result : Except MemoryFault (List UInt8)} {w' : ω}
      (ran : (ctx.read address length).run.run w = (result, w')) :
      Uses ctx w (.readMemory address length) (memoryOutcome .bytes result) w'
  | write {address : UInt64} {bytes : List UInt8} {result : Except MemoryFault PUnit} {w' : ω}
      (ran : (ctx.write address bytes).run.run w = (result, w')) :
      Uses ctx w (.writeMemory address bytes) (memoryOutcome (fun _ => .done) result) w'

/-- What one action does to a session. -/
inductive Does (ctx : Context ω) (s : Session ω) : Action → Outcome → Session ω → Prop where
  | compiled {n : Nat} {caller : Caller} {w : ω} {reports : Diagnostics}
      (compiles : CompileEnds ctx s.caller s.world caller w) :
      Does ctx s .compile (.errors n) { s with caller, world := w, reports }
  | called {action : Action} {args : List Value} {place : StructPlace} {options : RunOptions}
      {result : Except CallError Value} {caller : Caller} {w : ω} {reports : Diagnostics}
      (asks : action = .callWith args place options ∨
        action = .call options ∧ args = s.caller.defaultArguments ∧ place = .fresh)
      (ends : CallWithEnds ctx s.caller args place options s.world result caller w) :
      Does ctx s action (outcome .value result) { s with caller, world := w, reports }
  | opened {action : Action} {activation : Activation} {w : ω} {reports : Diagnostics}
      (opens : Opens ctx s.caller s.world action (.ok activation) w) :
      Does ctx s action (.activation s.activations.length)
        { s with world := w, activations := s.activations ++ [some activation], reports }
  | unopened {action : Action} {e : CallError} {w : ω} {reports : Diagnostics}
      (opens : Opens ctx s.caller s.world action (.error e) w) :
      Does ctx s action (.failed e) { s with world := w, reports }
  | absent {action : Action} {index : Nat} (names : action.activation? = some index)
      (gone : s.activations[index]?.join = none) : Does ctx s action .noActivation s
  | changed {index : Nat} {activation : Activation} {action : Action} {given : Outcome}
      {t : Activation × ω} (live : s.activations[index]? = some (some activation))
      (changes : Changes ctx s.caller index (activation, s.world) action given t) :
      Does ctx s action given
        { s with world := t.2, activations := s.activations.set index (some t.1) }
  | looked {index : Nat} {activation : Activation} {action : Action} {given : Outcome} {w : ω}
      (live : s.activations[index]? = some (some activation))
      (looks : Looks ctx s.caller index activation s.world action given w) :
      Does ctx s action given { s with world := w }
  | closed {index : Nat} {activation : Activation} {action : Action} {given : Outcome} {w : ω}
      (live : s.activations[index]? = some (some activation))
      (closes : Closes ctx index activation s.world action given w) :
      Does ctx s action given
        { s with world := w, activations := s.activations.set index none }
  | used {action : Action} {given : Outcome} {w : ω} (uses : Uses ctx s.world action given w) :
      Does ctx s action given { s with world := w }

/-- Only a new activation is named as made. -/
theorem Does.ne_activation {ctx : Context ω} {s s' : Session ω} {action : Action} {given : Outcome}
    (h : Does ctx s action given s') {index : Nat} (old : index < s.activations.length) :
    given ≠ .activation index := by
  have failing {α : Type} {f : α → Outcome} {result : Except CallError α}
      (other : ∀ a, f a ≠ .activation index) : outcome f result ≠ .activation index := by
    cases result with
    | error e => simp [outcome]
    | ok a => exact other a
  have faulting {α : Type} {f : α → Outcome} {result : Except MemoryFault α}
      (other : ∀ a, f a ≠ .activation index) : memoryOutcome f result ≠ .activation index := by
    cases result with
    | error e => simp [memoryOutcome]
    | ok a => exact other a
  cases h with
  | compiled | unopened | absent => simp
  | called => exact failing (by simp)
  | opened => exact fun same => Nat.ne_of_lt old (Outcome.activation.inj same).symm
  | changed live changes => cases changes <;> exact failing (by simp)
  | looked live looks => cases looks <;> exact failing (by simp)
  | closed live closes =>
      cases closes with
      | release => exact failing (by simp)
      | drop => simp
  | used uses => cases uses <;> exact faulting (by simp)

/-- What an action does to the call of a name: what the name stands for before the action and
behind it. -/
inductive Moves (ctx : Context ω) (s : Session ω) (action : Action) (given : Outcome)
    (s' : Session ω) (index : Nat) :
    Option (Option Activation) → Option (Option Activation) → Prop where
  /-- The action is about no live call of this name. -/
  | kept {place : Option (Option Activation)}
      (other : ∀ activation, place = some (some activation) → action.activation? ≠ some index) :
      Moves ctx s action given s' index place place
  | looked {activation : Activation}
      (looks : Looks ctx s.caller index activation s.world action given s'.world) :
      Moves ctx s action given s' index (some (some activation)) (some (some activation))
  | changed {activation now : Activation}
      (changes : Changes ctx s.caller index (activation, s.world) action given (now, s'.world)) :
      Moves ctx s action given s' index (some (some activation)) (some (some now))
  | closed {activation : Activation}
      (closes : Closes ctx index activation s.world action given s'.world) :
      Moves ctx s action given s' index (some (some activation)) (some none)
  | opened {activation : Activation} (last : s.activations.length = index)
      (made : given = .activation index) (caller : s'.caller = s.caller)
      (opens : Opens ctx s.caller s.world action (.ok activation) s'.world) :
      Moves ctx s action given s' index none (some (some activation))

/-- An action about the call of one name leaves all others in place. -/
theorem Moves.set_of_ne {ctx : Context ω} {s s' : Session ω} {action : Action} {given : Outcome}
    {index other : Nat} {new : Option Activation} (names : action.activation? = some other)
    (apart : other ≠ index) : Moves ctx s action given s' index s.activations[index]?
      (s.activations.set other new)[index]? := by
  rw [List.getElem?_set_ne apart]
  exact .kept fun _ _ same => apart (Option.some.inj (names.symm.trans same))

/-- An action moves one call at most. -/
theorem Does.moves {ctx : Context ω} {s s' : Session ω} {action : Action} {given : Outcome}
    (h : Does ctx s action given s') (index : Nat) :
    Moves ctx s action given s' index s.activations[index]? s'.activations[index]? := by
  cases h with
  | compiled => exact .kept fun _ _ => nofun
  | called asks =>
      refine .kept fun _ _ => ?_
      rcases asks with rfl | ⟨rfl, -⟩ <;> nofun
  | @opened _ activation _ _ opens =>
      have nameless : action.activation? ≠ some index := by cases opens <;> nofun
      dsimp only
      rcases Nat.lt_trichotomy index s.activations.length with old | rfl | new
      · rw [List.getElem?_append_left old]
        exact .kept fun _ _ => nameless
      · rw [List.getElem?_concat_length, List.getElem?_eq_none (Nat.le_refl _)]
        exact .opened rfl rfl rfl opens
      · have beyond : (s.activations ++ [some activation]).length ≤ index := by
          rw [List.length_append]
          exact new
        rw [List.getElem?_eq_none (Nat.le_of_lt new), List.getElem?_eq_none beyond]
        exact .kept nofun
  | unopened opens =>
      refine .kept fun _ _ => ?_
      cases opens <;> nofun
  | absent names gone =>
      refine .kept fun activation live same => ?_
      cases names.symm.trans same
      rw [live] at gone
      cases gone
  | @changed other activation _ _ t live changes =>
      by_cases same : other = index
      · subst same
        dsimp only
        rw [List.getElem?_set_self (List.getElem?_eq_some_iff.mp live).1, live]
        exact .changed changes
      · exact .set_of_ne changes.names same
  | @looked other activation _ _ w live looks =>
      by_cases same : other = index
      · subst same
        dsimp only
        rw [live]
        exact .looked looks
      · exact .kept fun _ _ again => same (Option.some.inj (looks.names.symm.trans again))
  | @closed other activation _ _ w live closes =>
      by_cases same : other = index
      · subst same
        dsimp only
        rw [List.getElem?_set_self (List.getElem?_eq_some_iff.mp live).1, live]
        exact .closed closes
      · exact .set_of_ne closes.names same
  | used uses =>
      refine .kept fun _ _ => ?_
      cases uses <;> nofun

/-- Where the call comes from that a name stands for behind an action. -/
theorem Does.moves_to {ctx : Context ω} {s s' : Session ω} {action : Action} {given : Outcome}
    (h : Does ctx s action given s') {index : Nat} {after : Option (Option Activation)}
    (place : s'.activations[index]? = after) : ∃ before,
      s.activations[index]? = before ∧ Moves ctx s action given s' index before after :=
  ⟨_, rfl, place ▸ h.moves index⟩

/-- What becomes of the call that a name stands for before an action. -/
theorem Does.moves_from {ctx : Context ω} {s s' : Session ω} {action : Action} {given : Outcome}
    (h : Does ctx s action given s') {index : Nat} {before : Option (Option Activation)}
    (place : s.activations[index]? = before) : ∃ after,
      s'.activations[index]? = after ∧ Moves ctx s action given s' index before after :=
  ⟨_, rfl, place ▸ h.moves index⟩

/-! ## There is no other way -/

variable {ctx : Context ω} {s : Session ω}

theorem run_get (s : Session ω) : (get : StateM (Session ω) (Session ω)).run s = (s, s) := rfl

theorem run_onWorld_of {α : Type} {service : StateM ω α} {a : α} {w : ω}
    (h : service.run s.world = (a, w)) :
    (onWorld service).run s = (a, { s with world := w }) := by
  show ((service.run s.world).1, ({ s with world := (service.run s.world).2 } : Session ω)) = _
  rw [h]

theorem run_reporting_of {α : Type} {operation : StateM (Caller.Reporting ω) α} {a : α}
    {after : Caller.Reporting ω} (h : operation.run ⟨s.world, s.reports⟩ = (a, after)) :
    (reporting operation).run s =
      (a, { s with world := after.world, reports := after.reports }) := by
  show ((operation.run ⟨s.world, s.reports⟩).1, ({ s with
    world := (operation.run ⟨s.world, s.reports⟩).2.world
    reports := (operation.run ⟨s.world, s.reports⟩).2.reports } : Session ω)) = _
  rw [h]

theorem run_onCaller_of {α : Type} {operation : StateM (Caller.Reporting ω) (α × Caller)} {a : α}
    {caller : Caller} {after : Caller.Reporting ω}
    (h : operation.run ⟨s.world, s.reports⟩ = ((a, caller), after)) :
    (onCaller operation).run s =
      (a, { s with caller, world := after.world, reports := after.reports }) := by
  unfold onCaller
  rw [run_stateBind_of (run_reporting_of h)]
  rfl

theorem run_onActivation {α : Type} {index : Nat} {f : α → Outcome}
    {operation : Caller.OnActivation ω α} {activation : Activation}
    (live : s.activations[index]?.join = some activation) {result : Except CallError α}
    {t : Activation × ω} (ran : operation.run.run (activation, s.world) = (result, t)) :
    (onActivation index f operation).run s = (outcome f result,
      { s with world := t.2, activations := s.activations.set index (some t.1) }) := by
  show onActivation index f operation s = _
  unfold onActivation
  rw [live]
  dsimp only
  rw [ran]

theorem run_onActivation_none {α : Type} {index : Nat} {f : α → Outcome}
    {operation : Caller.OnActivation ω α} (gone : s.activations[index]?.join = none) :
    (onActivation index f operation).run s = (.noActivation, s) := by
  show onActivation index f operation s = _
  unfold onActivation
  rw [gone]

theorem does_onActivation {α : Type} {index : Nat} {f : α → Outcome}
    {operation : Caller.OnActivation ω α} {action : Action}
    (names : action.activation? = some index)
    (changes : ∀ activation result t,
      operation.run.run (activation, s.world) = (result, t) →
        Changes ctx s.caller index (activation, s.world) action (outcome f result) t) :
    Does ctx s action ((onActivation index f operation).run s).1
      ((onActivation index f operation).run s).2 := by
  cases live : s.activations[index]?.join with
  | none =>
      rw [run_onActivation_none live]
      exact .absent names live
  | some activation =>
      rcases ran : operation.run.run (activation, s.world) with ⟨result, t⟩
      rw [run_onActivation live ran]
      exact .changed (Option.join_eq_some_iff.mp live) (changes _ _ _ ran)

theorem does_endActivation {index : Nat} {f : Activation → StateM ω Outcome} {action : Action}
    (names : action.activation? = some index)
    (closes : ∀ activation given w, (f activation).run s.world = (given, w) →
      Closes ctx index activation s.world action given w) :
    Does ctx s action ((endActivation index f).run s).1 ((endActivation index f).run s).2 := by
  unfold endActivation
  rw [run_withActivation]
  cases live : s.activations[index]?.join with
  | none => exact .absent names live
  | some activation =>
      exact .closed (Option.join_eq_some_iff.mp live) (closes activation _ _ rfl)

theorem does_keep {action : Action} {result : Except CallError Activation} {w : ω}
    {reports : Diagnostics} (opens : Opens ctx s.caller s.world action result w) :
    Does ctx s action ((keep result).run { s with world := w, reports }).1
      ((keep result).run { s with world := w, reports }).2 := by
  cases result with
  | error e => exact .unopened opens
  | ok activation => exact .opened opens

theorem does_onMemory {α : Type} {f : α → Outcome} {service : Service ω α} {action : Action}
    (uses : ∀ result w, service.run.run s.world = (result, w) →
      Uses ctx s.world action (memoryOutcome f result) w) :
    Does ctx s action ((onMemory f service).run s).1 ((onMemory f service).run s).2 := by
  rcases ran : service.run.run s.world with ⟨result, w⟩
  have kept : (onMemory f service).run s = (memoryOutcome f result, { s with world := w }) := by
    unfold onMemory
    rw [run_stateBind_of (run_onWorld_of ran)]
    cases result <;> rfl
  rw [kept]
  exact .used (uses _ _ ran)

theorem does_withActivation {index : Nat} {f : Activation → StateM (Session ω) Outcome}
    {action : Action} (names : action.activation? = some index)
    (looks : ∀ activation, ∃ given w, (f activation).run s = (given, { s with world := w }) ∧
      Looks ctx s.caller index activation s.world action given w) :
    Does ctx s action ((withActivation index f).run s).1 ((withActivation index f).run s).2 := by
  rw [run_withActivation]
  cases live : s.activations[index]?.join with
  | none => exact .absent names live
  | some activation =>
      obtain ⟨given, w, ran, looks⟩ := looks activation
      dsimp only
      rw [ran]
      exact .looked (Option.join_eq_some_iff.mp live) looks

/-- An action does one of the things that actions do. -/
theorem does_step (ctx : Context ω) (s : Session ω) (action : Action) :
    Does ctx s action ((step ctx action).run s).1 ((step ctx action).run s).2 := by
  -- one run equation or one lemma on what wraps the operation brings each action to its rule
  unfold step
  rw [run_stateBind_of (run_get s)]
  cases action with
  | compile =>
      have compiles := @Caller.compile_ends ω ctx s.caller ⟨s.world, s.reports⟩
      rcases ran : (s.caller.compile ctx).run ⟨s.world, s.reports⟩ with ⟨⟨n, caller⟩, after⟩
      rw [ran] at compiles
      dsimp only
      rw [run_stateBind_of (run_onCaller_of ran)]
      exact .compiled compiles
  | prepare place =>
      rcases ran : (s.caller.prepare ctx place).run.run s.world with ⟨result, w⟩
      dsimp only
      rw [run_stateBind_of (run_onWorld_of ran)]
      exact does_keep (.prepare (Caller.prepare_ends ran))
  | insert place =>
      rcases ran : (s.caller.insert ctx place).run ⟨s.world, s.reports⟩ with ⟨result, after⟩
      dsimp only
      rw [run_stateBind_of (run_reporting_of ran)]
      exact does_keep (.insert (Caller.insert_ends ran))
  | write index args => exact does_onActivation rfl fun _ _ _ ran => .write (Caller.write_ends ran)
  | read index =>
      refine does_withActivation rfl fun activation => ?_
      rcases ran : (s.caller.read ctx activation).run.run s.world with ⟨result, w⟩
      refine ⟨_, w, ?_, .read ran⟩
      rw [run_stateBind_of (run_onWorld_of ran)]
      rfl
  | plan index options => exact does_withActivation rfl fun activation => ⟨_, _, rfl, .plan⟩
  | run index options => exact does_onActivation rfl fun _ _ _ ran => .run (Caller.run_ends ran)
  | fetch index => exact does_onActivation rfl fun _ _ _ ran => .fetch (Caller.fetch_ends ran)
  | release index =>
      refine does_endActivation rfl fun activation given w ran => ?_
      rcases released : (Caller.release ctx activation).run.run s.world with ⟨result, w'⟩
      rw [run_stateBind_of released] at ran
      cases ran
      exact .release released
  | drop index =>
      refine does_endActivation rfl fun activation given w ran => ?_
      rcases dropped : (activation.drop ctx).run s.world with ⟨u, w'⟩
      rw [run_stateBind_of dropped] at ran
      cases ran
      exact .drop dropped
  | call options =>
      rcases ran : (s.caller.call ctx options).run ⟨s.world, s.reports⟩ with
        ⟨⟨result, caller⟩, after⟩
      dsimp only
      rw [run_stateBind_of (run_onCaller_of ran)]
      exact .called (.inr ⟨rfl, rfl, rfl⟩) (Caller.callWith_ends ran)
  | callWith args place options =>
      rcases ran : (s.caller.callWith ctx args place options).run ⟨s.world, s.reports⟩ with
        ⟨⟨result, caller⟩, after⟩
      dsimp only
      rw [run_stateBind_of (run_onCaller_of ran)]
      exact .called (.inl rfl) (Caller.callWith_ends ran)
  | allocateMemory size align => exact does_onMemory fun _ _ ran => .allocate ran
  | freeMemory address => exact does_onMemory fun _ _ ran => .free ran
  | readMemory address length => exact does_onMemory fun _ _ ran => .read ran
  | writeMemory address bytes => exact does_onMemory fun _ _ ran => .write ran

/-! ## Operations on a live activation -/

section
variable {index : Nat} {activation : Activation}

/-- An activation that comes out as it went in changes nothing. -/
theorem set_of_live (live : s.activations[index]? = some (some activation)) :
    s.activations.set index (some activation) = s.activations := by
  obtain ⟨inside, same⟩ := List.getElem?_eq_some_iff.mp live
  rw [← same]
  exact List.set_getElem_self inside

theorem run_step_write_of (live : s.activations[index]? = some (some activation))
    {args : List Value} {result : Except CallError PUnit} {t : Activation × ω}
    (ran : (s.caller.write ctx args).run.run (activation, s.world) = (result, t)) :
    (step ctx (.write index args)).run s = (outcome (fun _ => .done) result,
      { s with world := t.2, activations := s.activations.set index (some t.1) }) := by
  unfold step
  rw [run_stateBind_of (run_get s)]
  exact run_onActivation (Option.join_eq_some_iff.mpr live) ran

theorem run_step_write (live : s.activations[index]? = some (some activation))
    (args : List Value) : ∃ result t,
      WriteEnds ctx s.caller args (activation, s.world) result t ∧
      (step ctx (.write index args)).run s = (outcome (fun _ => .done) result,
        { s with world := t.2, activations := s.activations.set index (some t.1) }) := by
  rcases ran : (s.caller.write ctx args).run.run (activation, s.world) with ⟨result, t⟩
  exact ⟨result, t, Caller.write_ends ran, run_step_write_of live ran⟩

/-- A write that is done is a run of the operation on a live activation. -/
theorem yields_of_step_write {args : List Value} {s' : Session ω}
    (done : (step ctx (.write index args)).run s = (.done, s')) : ∃ before t,
      s.activations[index]? = some (some before) ∧
      Yields (s.caller.write ctx args) (before, s.world) () t ∧
      s' = { s with world := t.2, activations := s.activations.set index (some t.1) } := by
  unfold step at done
  rw [run_stateBind_of (run_get s)] at done
  dsimp only at done
  cases live : s.activations[index]?.join with
  | none =>
      rw [run_onActivation_none live] at done
      cases done
  | some before =>
      rcases ran : (s.caller.write ctx args).run.run (before, s.world) with ⟨e | u, t⟩
      · rw [run_onActivation live ran] at done
        cases done
      · rw [run_onActivation live ran] at done
        cases done
        exact ⟨before, t, Option.join_eq_some_iff.mp live, ran, rfl⟩

theorem run_step_run (live : s.activations[index]? = some (some activation))
    (options : RunOptions) : ∃ result t,
      RunEnds ctx s.caller options (activation, s.world) result t ∧
      (step ctx (.run index options)).run s = (outcome .value result,
        { s with world := t.2, activations := s.activations.set index (some t.1) }) := by
  rcases ran : (s.caller.run ctx options).run.run (activation, s.world) with ⟨result, t⟩
  refine ⟨result, t, Caller.run_ends ran, ?_⟩
  unfold step
  rw [run_stateBind_of (run_get s)]
  exact run_onActivation (Option.join_eq_some_iff.mpr live) ran

theorem run_step_fetch (live : s.activations[index]? = some (some activation)) :
    ∃ result t, FetchEnds ctx s.caller (activation, s.world) result t ∧
      (step ctx (.fetch index)).run s = (outcome .value result,
        { s with world := t.2, activations := s.activations.set index (some t.1) }) := by
  rcases ran : (s.caller.fetch ctx).run.run (activation, s.world) with ⟨result, t⟩
  refine ⟨result, t, Caller.fetch_ends ran, ?_⟩
  unfold step
  rw [run_stateBind_of (run_get s)]
  exact run_onActivation (Option.join_eq_some_iff.mpr live) ran

theorem run_step_plan (live : s.activations[index]? = some (some activation))
    (options : RunOptions) : (step ctx (.plan index options)).run s =
      (outcome .plan (s.caller.plan activation options), s) := by
  unfold step
  rw [run_stateBind_of (run_get s)]
  dsimp only
  rw [run_withActivation, Option.join_eq_some_iff.mpr live]
  rfl

theorem run_step_read (live : s.activations[index]? = some (some activation)) :
    (step ctx (.read index)).run s =
      (outcome .values ((s.caller.read ctx activation).run.run s.world).1,
        { s with world := ((s.caller.read ctx activation).run.run s.world).2 }) := by
  unfold step
  rw [run_stateBind_of (run_get s)]
  dsimp only
  rw [run_withActivation, Option.join_eq_some_iff.mpr live]
  rfl

end

/-! ## Runs -/

/-- The session behind a list of actions. -/
def after (ctx : Context ω) (s : Session ω) : List Action → Session ω
  | [] => s
  | action :: rest => after ctx ((step ctx action).run s).2 rest

/-- What is noted along a list of actions, each of them seen with the session before it. -/
def noted {τ : Type} (ctx : Context ω) (note : Session ω → Action → τ → τ) (first : τ)
    (s : Session ω) : List Action → τ
  | [] => first
  | action :: rest => noted ctx note (note s action first) ((step ctx action).run s).2 rest

theorem after_concat (ctx : Context ω) (s : Session ω) (actions : List Action) (action : Action) :
    after ctx s (actions ++ [action]) = ((step ctx action).run (after ctx s actions)).2 := by
  induction actions generalizing s with
  | nil => rfl
  | cons first rest ih => exact ih _

theorem noted_concat {τ : Type} (ctx : Context ω) (note : Session ω → Action → τ → τ) (first : τ)
    (s : Session ω) (actions : List Action) (action : Action) :
    noted ctx note first s (actions ++ [action]) =
      note (after ctx s actions) action (noted ctx note first s actions) := by
  induction actions generalizing s first with
  | nil => rfl
  | cons head rest ih => exact ih _ _

/-- An action leads on from the session behind the actions before it. -/
theorem does_after (ctx : Context ω) (s : Session ω) (actions : List Action) (action : Action) :
    Does ctx (after ctx s actions) action ((step ctx action).run (after ctx s actions)).1
      (after ctx s (actions ++ [action])) := by
  rw [after_concat]
  exact does_step ctx _ action

end

end Session

end CallThunk
