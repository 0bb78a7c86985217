import CallThunk.Proofs.Call.Protocol

/-!
# Results of calls

A call keeps the value that was last decoded from its return slot. Nothing takes it back: a write
that gives the arguments up and a run that is interrupted leave the value of the run before. So the
value is the one of the most recent run exactly as long as its decoding is the last thing that
happened to the call.
-/

namespace CallThunk

/-- What happens to a call: something that counts for its stage, or a value is decoded from its
return slot. -/
inductive Deed where
  | event (event : CallEvent)
  | decoded (v : Value)
  deriving DecidableEq

namespace Deed

def event? : Deed → Option CallEvent
  | event e => some e
  | decoded _ => none

def value? : Deed → Option Value
  | event _ => none
  | decoded v => some v

end Deed

/-- A value was decoded behind the most recent run of a call. -/
def DecodedSinceRun (past : List Deed) (v : Value) : Prop :=
  ∃ before stop since, past = before ++ .event (.ran stop) :: since ∧
    (∀ other, .event (.ran other) ∉ since) ∧ .decoded v ∈ since

namespace Caller

variable {ω : Type} {ctx : Context ω} {caller : Caller}

/-- What the return slot of a call decodes to. A function without a result gives `void`. -/
inductive SlotGives (ctx : Context ω) (caller : Caller) (activation : Activation) (w : ω) :
    Value → Prop where
  | slot {r : Ready} {place : SlotPlace} {slot : Slot} {bytes : List UInt8} {v : Value}
      (ready : caller.ready = .ok r) (held : r.layout.result = some place)
      (typed : caller.model.resultSlot? = some slot)
      (read : ((ctx.read (slotAddress activation place) place.size.toNat).run.run w).1 = .ok bytes)
      (decodes : Value.decode r.target slot.ty bytes = .ok v) :
      SlotGives ctx caller activation w v
  | void {r : Ready} (ready : caller.ready = .ok r)
      (none : r.layout.result = none ∨ caller.model.resultSlot? = none) :
      SlotGives ctx caller activation w .void

/-- A value that is fetched is kept, and comes from the return slot. -/
theorem FetchEnds.kept {s t : Activation × ω} {v : Value}
    (h : FetchEnds ctx caller s (.ok v) t) :
    t.1 = { s.1 with result := some v } ∧ SlotGives ctx caller s.1 s.2 v := by
  cases h with
  | decoded completed ready held typed read decodes =>
      exact ⟨rfl, .slot ready held typed (congrArg Prod.fst read) decodes⟩
  | void completed ready none => exact ⟨rfl, .void ready none⟩

/-- A fetch that fails keeps what was fetched before. -/
theorem FetchEnds.unchanged {s t : Activation × ω} {e : CallError}
    (h : FetchEnds ctx caller s (.error e) t) : t.1 = s.1 := by
  cases h <;> rfl

theorem WriteEnds.result {args : List Value} {s t : Activation × ω}
    {result : Except CallError PUnit} (h : WriteEnds ctx caller args s result t) :
    t.1.result = s.1.result := by
  cases h with
  | refused => rfl
  | broken valid failed =>
      have same := (keeps_sidesOnly_transfer _ _ _).of_run failed
      exact (congrArg Activation.result same).trans rfl
  | done valid transferred =>
      have same := (keeps_sidesOnly_transfer _ _ _).of_run transferred
      exact (congrArg Activation.result same).trans rfl

end Caller

namespace Session

open Caller (SlotGives)

variable {ω : Type} {ctx : Context ω} {index : Nat} {s : Session ω}

/-! ## What happens to a call -/

/-- The value that an action decodes from the return slot of the call of a name, if it does. -/
def decoded? (ctx : Context ω) (index : Nat) (s : Session ω) (action : Action) : Option Value :=
  match action with
  | .run other _ | .fetch other =>
    if other = index then
      match ((step ctx action).run s).1 with
      | .value v => some v
      | _ => none
    else none
  | _ => none

/-- What an action does to the call of a name, in order. -/
def deeds (ctx : Context ω) (index : Nat) (s : Session ω) (action : Action) : List Deed :=
  ((event? ctx index s action).map Deed.event).toList ++
    ((decoded? ctx index s action).map Deed.decoded).toList

/-- All that happens to the call of a name along a list of actions. -/
def history (ctx : Context ω) (index : Nat) (s : Session ω) (actions : List Action) : List Deed :=
  noted ctx (fun s action past => past ++ deeds ctx index s action) [] s actions

/-- An action decodes a value from the return slot of a completed call, or behind the run that it
completes. -/
inductive Decodes (ctx : Context ω) (index : Nat) (s : Session ω) : Action → Value → Prop where
  | fetch {activation : Activation} {v : Value}
      (live : s.activations[index]? = some (some activation))
      (completed : activation.stage = .completed)
      (gives : SlotGives ctx s.caller activation s.world v) :
      Decodes ctx index s (.fetch index) v
  | run {activation : Activation} {options : RunOptions} {p : Plan} {w : ω} {v : Value}
      (live : s.activations[index]? = some (some activation))
      (planned : s.caller.plan activation options = .ok p)
      (stopped : (ctx.run p).run s.world = (.completed, w))
      (gives : SlotGives ctx s.caller activation w v) :
      Decodes ctx index s (.run index options) v

theorem decoded?_of_other {action : Action} (other : action.activation? ≠ some index) :
    decoded? ctx index s action = none := by
  cases action <;> first | rfl | exact if_neg fun same => other (congrArg some same)

/-- No deeds are done to a call by actions that are not about it. -/
theorem deeds_of_other {action : Action} (other : action.activation? ≠ some index) :
    deeds ctx index s action = [] := by
  unfold deeds
  rw [event?_of_other other, decoded?_of_other other]
  rfl

/-- Looking at a call is no deed. -/
theorem Looks.deeds {activation : Activation} {action : Action} {given : Outcome} {w : ω}
    (h : Looks ctx s.caller index activation s.world action given w) :
    Session.deeds ctx index s action = [] := by
  cases h <;> rfl

/-- A run and a fetch decode what they give. -/
theorem decoded?_of_given {action : Action} {result : Except CallError Value}
    (decodes : action = .fetch index ∨ ∃ options, action = .run index options)
    (given : ((step ctx action).run s).1 = outcome .value result) :
    decoded? ctx index s action = result.toOption := by
  rcases decodes with rfl | ⟨options, rfl⟩
  all_goals
    refine (if_pos rfl).trans ?_
    rw [given]
    cases result <;> rfl

/-- An operation on the call of a name leaves the value it decodes, or else the value it found. What
it decodes comes from the return slot of a completed call. -/
theorem Changes.result {activation : Activation}
    (live : s.activations[index]? = some (some activation)) {action : Action} {given : Outcome}
    {t : Activation × ω} (run : ((step ctx action).run s).1 = given)
    (changes : Changes ctx s.caller index (activation, s.world) action given t) :
    t.1.result = (decoded? ctx index s action).or activation.result ∧
      ∀ v, decoded? ctx index s action = some v →
        t.1.stage = .completed ∧ Decodes ctx index s action v := by
  cases changes with
  | write ends => exact ⟨ends.result, nofun⟩
  | @run options result t ends =>
      rw [decoded?_of_given (.inr ⟨options, rfl⟩) run]
      cases ends with
      | refused | interrupted => exact ⟨rfl, nofun⟩
      | completed planned stopped completed fetched =>
          cases result with
          | error e =>
              have same := congrArg Activation.result fetched.unchanged
              exact ⟨same, nofun⟩
          | ok v =>
              obtain ⟨kept, gives⟩ := fetched.kept
              refine ⟨congrArg Activation.result kept, ?_⟩
              rintro _ ⟨⟩
              cases Stop.isCompleted_iff.mp completed
              refine ⟨fetched.stage, .run live planned stopped ?_⟩
              cases gives with
              | slot ready held typed read decodes => exact .slot ready held typed read decodes
              | void ready none => exact .void ready none
  | @fetch result t ends =>
      rw [decoded?_of_given (.inl rfl) run]
      cases result with
      | error e => exact ⟨congrArg Activation.result ends.unchanged, nofun⟩
      | ok v =>
          obtain ⟨kept, gives⟩ := ends.kept
          refine ⟨congrArg Activation.result kept, ?_⟩
          rintro _ ⟨⟩
          exact ⟨ends.stage.trans ends.completed, .fetch live ends.completed gives⟩

/-- What an action decodes comes from the return slot of the call of a name. -/
theorem decodes_of_decoded? {activation : Activation}
    (live : s.activations[index]? = some (some activation)) {action : Action} {v : Value}
    (decoded : decoded? ctx index s action = some v) : Decodes ctx index s action v := by
  by_cases names : action.activation? = some index
  · cases action with
    | run other options =>
        cases names
        obtain ⟨result, t, ends, run⟩ := @run_step_run ω ctx s index activation live options
        exact ((Changes.run ends).result live (congrArg Prod.fst run)).2 v decoded |>.2
    | fetch other =>
        cases names
        obtain ⟨result, t, ends, run⟩ := @run_step_fetch ω ctx s index activation live
        exact ((Changes.fetch ends).result live (congrArg Prod.fst run)).2 v decoded |>.2
    | _ => cases decoded
  · rw [decoded?_of_other names] at decoded
    cases decoded

/-! ## What a call keeps -/

/-- A live call keeps the value decoded last, and is still completed if nothing happened since. -/
structure Remembers (index : Nat) (past : List Deed) (s : Session ω) : Prop where
  live : ∃ activation, s.activations[index]? = some (some activation) ∧
    activation.result = (past.filterMap Deed.value?).getLast? ∧
    ∀ v, past.getLast? = some (.decoded v) → activation.stage = .completed

section
variable {past : List Deed}

theorem value?_deeds (ctx : Context ω) (index : Nat) (s : Session ω) (action : Action) :
    ((deeds ctx index s action).filterMap Deed.value?).getLast? = decoded? ctx index s action := by
  unfold deeds
  cases event? ctx index s action <;> cases decoded? ctx index s action <;> rfl

theorem event?_deeds (ctx : Context ω) (index : Nat) (s : Session ω) (action : Action) :
    ((deeds ctx index s action).filterMap Deed.event?).getLast? = event? ctx index s action := by
  unfold deeds
  cases event? ctx index s action <;> cases decoded? ctx index s action <;> rfl

/-- An operation on a call makes it remember its deeds. -/
theorem Remembers.change {r : Ready} {counted : Option CallEvent} (h : Remembers index past s)
    (stands : Stands r index counted s) {activation : Activation}
    (live : s.activations[index]? = some (some activation)) {action : Action} {given : Outcome}
    {t : Activation × ω} (run : ((step ctx action).run s).1 = given)
    (changes : Changes ctx s.caller index (activation, s.world) action given t) :
    let now := past ++ deeds ctx index s action
    t.1.result = (now.filterMap Deed.value?).getLast? ∧
      ∀ v, now.getLast? = some (.decoded v) → t.1.stage = .completed := by
  obtain ⟨found, place, result, settled⟩ := h.live
  cases live.symm.trans place
  obtain ⟨after, decodes⟩ := changes.result live run
  refine ⟨?_, fun v last => ?_⟩
  · rw [List.filterMap_append, List.getLast?_append, value?_deeds, ← result, after]
  cases decoded : decoded? ctx index s action with
  | some value => exact (decodes value decoded).1
  | none =>
      -- nothing happened, for an event would be the last deed
      have event := event?_deeds ctx index s action
      have quiet : deeds ctx index s action = [] := by
        cases happened : event? ctx index s action with
        | none =>
            unfold deeds
            rw [happened, decoded]
            rfl
        | some e =>
            unfold deeds at last
            rw [happened, decoded, List.getLast?_append] at last
            cases last
      rw [quiet] at last event
      rw [List.append_nil] at last
      have stage := stands.change live run changes
      rw [← event] at stage
      obtain ⟨_, place', before⟩ := stands.live
      cases live.symm.trans place'
      exact (stage.trans before.symm).trans (settled v last)

/-- Every action makes a call remember its deeds, as long as the call is not taken away. -/
theorem Remembers.step {r : Ready} {counted : Option CallEvent} (h : Remembers index past s)
    (stands : Stands r index counted s) {action : Action}
    (kept : action ≠ .release index ∧ action ≠ .drop index) :
    Remembers index (past ++ deeds ctx index s action) ((step ctx action).run s).2 := by
  have does := does_step ctx s action
  rcases run : (Session.step ctx action).run s with ⟨given, s'⟩
  rw [run] at does
  dsimp only at does ⊢
  obtain ⟨activation, live, remembered⟩ := h.live
  obtain ⟨_, place, moves⟩ := does.moves_from live
  refine ⟨?_⟩
  cases moves with
  | kept other =>
      rw [deeds_of_other (other _ rfl), List.append_nil]
      exact ⟨activation, place, remembered⟩
  | looked looks =>
      rw [looks.deeds, List.append_nil]
      exact ⟨activation, place, remembered⟩
  | changed changes =>
      exact ⟨_, place, h.change stands live (congrArg Prod.fst run) changes⟩
  | closed closes =>
      cases closes with
      | release => exact absurd rfl kept.1
      | drop => exact absurd rfl kept.2

theorem history_concat (ctx : Context ω) (index : Nat) (s : Session ω) (actions : List Action)
    (action : Action) : history ctx index s (actions ++ [action]) =
      history ctx index s actions ++ deeds ctx index (after ctx s actions) action :=
  noted_concat ..

/-- The stage of a call is told by the last event of its history. -/
theorem event?_history (ctx : Context ω) (index : Nat) (s : Session ω) (actions : List Action) :
    ((history ctx index s actions).filterMap Deed.event?).getLast? =
      lastEvent? ctx index s actions := by
  induction actions using List.reverseRecOn with
  | nil => rfl
  | append_singleton actions action ih =>
      unfold lastEvent? at ih ⊢
      rw [noted_concat, history_concat, List.filterMap_append, List.getLast?_append, event?_deeds,
        ih]

theorem Remembers.after {r : Ready} {first : Option CallEvent} (h : Remembers index [] s)
    (stands : Stands r index first s) {actions : List Action}
    (kept : ∀ action ∈ actions, action ≠ .release index ∧ action ≠ .drop index) :
    Remembers index (history ctx index s actions) (after ctx s actions) := by
  induction actions using List.reverseRecOn with
  | nil => exact h
  | append_singleton actions action ih =>
      have earlier (other : Action) (member : other ∈ actions) :=
        kept other (List.mem_append_left _ member)
      rw [history_concat, after_concat]
      exact (ih earlier).step (stands.after earlier)
        (kept action (List.mem_append_right _ (List.mem_singleton_self _)))

/-! ## When a result is stale -/

theorem getLast?_filterMap {α β : Type} {f : α → Option β} {l : List α} {a : α} {b : β}
    (last : l.getLast? = some a) (image : f a = some b) : (l.filterMap f).getLast? = some b := by
  obtain ⟨front, rfl⟩ := List.getLast?_eq_some_iff.mp last
  rw [List.filterMap_append, List.filterMap_cons_some image, List.filterMap_nil,
    List.getLast?_concat]

/-- The last event of a history splits it. -/
theorem split_of_event {e : CallEvent}
    (last : (past.filterMap Deed.event?).getLast? = some e) : ∃ before since,
      past = before ++ .event e :: since ∧ ∀ other, .event other ∉ since := by
  obtain ⟨front, whole⟩ := List.getLast?_eq_some_iff.mp last
  obtain ⟨xs, ys, rfl, -, tail⟩ := List.filterMap_eq_append_iff.mp whole
  obtain ⟨before, deed, since, rfl, -, event, nothing⟩ := List.filterMap_eq_cons_iff.mp tail
  cases deed with
  | decoded v => cases event
  | event other =>
      cases event
      refine ⟨xs ++ before, since, (List.append_assoc ..).symm, fun other member => ?_⟩
      have absent := List.filterMap_eq_nil_iff.mp nothing _ member
      cases absent

/-- The value of a completed call was decoded behind its most recent run exactly if its decoding is
the last thing that happened to the call. -/
theorem decodedSinceRun_iff {v : Value}
    (value : (past.filterMap Deed.value?).getLast? = some v)
    (settled : ∀ v, past.getLast? = some (.decoded v) →
      (past.filterMap Deed.event?).getLast? = some (.ran .completed)) :
    ((past.filterMap Deed.event?).getLast? = some (.ran .completed) ∧ DecodedSinceRun past v) ↔
      past.getLast? = some (.decoded v) := by
  have last_of {before front : List Deed} {first last : Deed} :
      (before ++ first :: (front ++ [last])).getLast? = some last := by
    rw [← List.cons_append, ← List.append_assoc, List.getLast?_concat]
  constructor
  · rintro ⟨event, before, stop, since, rfl, none, member⟩
    rcases since.eq_nil_or_concat with rfl | ⟨front, deed, rfl⟩
    · cases member
    · rw [List.concat_eq_append] at *
      cases deed with
      | decoded other =>
          cases value.symm.trans (getLast?_filterMap last_of rfl)
          exact last_of
      | event e =>
          cases event.symm.trans (getLast?_filterMap last_of rfl)
          exact absurd (List.mem_append_right _ (List.mem_singleton_self _)) (none .completed)
  · intro last
    have event := settled v last
    obtain ⟨before, since, rfl, none⟩ := split_of_event event
    refine ⟨event, before, .completed, since, rfl, fun stop => none _, ?_⟩
    rcases since.eq_nil_or_concat with rfl | ⟨front, deed, rfl⟩
    · rw [List.getLast?_concat] at last
      cases last
    · rw [List.concat_eq_append] at *
      cases last_of.symm.trans last
      exact List.mem_append_right _ (List.mem_singleton_self _)

/-- Whatever is done in a session, the result of a call is the value decoded last, which came from
its return slot behind a completed run. It is the one of the most recent run, and the call is still
completed, exactly if nothing happened to the call since then: a write that gave the arguments up
and a run that was interrupted or whose result was not decoded leave an older value behind. -/
theorem result_history {r : Ready} (ready : s.caller.status = .ready r) {activation : Activation}
    (live : s.activations[index]? = some (some activation))
    (unrun : activation.stage = .prepared ∨ activation.stage = .written)
    (none : activation.result = none) {actions : List Action}
    (kept : ∀ action ∈ actions, action ≠ .release index ∧ action ≠ .drop index) :
    let t := after ctx s actions
    let past := history ctx index s actions
    ∃ now, t.activations[index]? = some (some now) ∧
      now.result = (past.filterMap Deed.value?).getLast? ∧
      (∀ v, now.result = some v →
        (now.stage = .completed ∧ DecodedSinceRun past v ↔ past.getLast? = some (.decoded v))) ∧
      ∀ action v, decoded? ctx index t action = some v → Decodes ctx index t action v := by
  intro t past
  obtain ⟨first, stage, unfinished⟩ : ∃ first : Option CallEvent,
      activation.stage = .behind first ∧ first ≠ some (.ran .completed) := by
    rcases unrun with prepared | written
    · exact ⟨.none, prepared, nofun⟩
    · exact ⟨some .wrote, written, nofun⟩
  have stands : Stands r index first s := ⟨ready, activation, live, stage⟩
  have remembers : Remembers index [] s := ⟨activation, live, none, nofun⟩
  obtain ⟨now, place, result, settled⟩ := (remembers.after stands kept).live
  obtain ⟨_, place', stage⟩ := (stands.after kept).live
  cases place.symm.trans place'
  rw [← event?_history] at stage
  have completed : now.stage = .completed ↔
      (past.filterMap Deed.event?).getLast? = some (.ran .completed) := by
    rw [stage, Stage.behind_eq_completed]
    cases (past.filterMap Deed.event?).getLast? with
    | none => exact ⟨fun same => absurd same unfinished, nofun⟩
    | some e => exact Iff.rfl
  refine ⟨now, place, result, fun v value => ?_, fun _ _ => decodes_of_decoded? place⟩
  rw [completed]
  exact decodedSinceRun_iff (result.symm.trans value) fun v last => completed.mp (settled v last)

/-- A session of a ready caller on a thread that completes once and then stops at a signal, with one
struct prepared. -/
def interruptedRerun : Session Debuggee :=
  { signalled with world := { signalled.world with script := [.completed, .signal 11 "SIGSEGV"] } }

/-- The value that a run gave stands when the arguments are written again and the run that follows
is interrupted. -/
theorem result_history_rerun :
    let ctx := Debuggee.sparse ⟨8, .little⟩ .layoutOnly
    let actions := [.write 0 [.int .i32 (-1)], .run 0 {}, .write 0 [.int .i32 2], .run 0 {}]
    history ctx 0 interruptedRerun actions =
        [.event .wrote, .event (.ran .completed), .decoded (.int .i64 0), .event .wrote,
          .event (.ran (.signal 11 "SIGSEGV"))] ∧
      ∃ now, (after ctx interruptedRerun actions).activations[0]? = some (some now) ∧
        now.result = some (.int .i64 0) ∧
        ¬ (now.stage = .completed ∧
          DecodedSinceRun (history ctx 0 interruptedRerun actions) (.int .i64 0)) := by
  intro ctx actions
  have past : history ctx 0 interruptedRerun actions = [.event .wrote, .event (.ran .completed),
      .decoded (.int .i64 0), .event .wrote, .event (.ran (.signal 11 "SIGSEGV"))] := by
    decide +kernel
  have kept : ∀ action ∈ actions, action ≠ .release 0 ∧ action ≠ .drop 0 := by
    simp [actions]
  obtain ⟨now, live, result, current, -⟩ :=
    @result_history Debuggee ctx 0 interruptedRerun _ rfl _ rfl (.inl rfl) rfl actions kept
  rw [past] at result current ⊢
  refine ⟨rfl, now, live, result, fun held => ?_⟩
  cases (current _ result).mp held

/-- A call that is written again is no completed call, but it still has the result of its run. -/
theorem result_outlives_rewrite :
    ∃ now, (after (Debuggee.sparse ⟨8, .little⟩ .layoutOnly) interruptedRerun
        [.write 0 [.int .i32 (-1)], .run 0 {}, .write 0 [.int .i32 2]]).activations[0]? =
          some (some now) ∧
      now.result = some (.int .i64 0) ∧ now.stage = .written :=
  ⟨_, rfl, by decide +kernel, by decide +kernel⟩

end

end Session

end CallThunk
