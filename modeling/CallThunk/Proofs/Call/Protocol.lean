import Mathlib.Data.List.Induction
import CallThunk.Proofs.Call.Lifecycle

/-!
# The protocol of a call

What the stage of an activation says about all that was done with it. Only two things count: writes
that get past their checks and runs that were started. The stage is told by the last of them, so a
struct that a write has left half-written is neither planned nor run.
-/

namespace CallThunk

/-- What counts in the life of a call. -/
inductive CallEvent where
  /-- The arguments were written. -/
  | wrote
  /-- Writing them failed on the way. -/
  | broke
  /-- The plan was run and came to a stop. -/
  | ran (stop : Stop)
  deriving DecidableEq

/-- The stage behind the last event of a call. -/
def Stage.behind : Option CallEvent → Stage
  | none | some .broke => .prepared
  | some .wrote => .written
  | some (.ran stop) => if stop.isCompleted then .completed else .interrupted

theorem Stage.behind_ne_running (last : Option CallEvent) : Stage.behind last ≠ .running := by
  rcases last with _ | _ | _ | stop
  · nofun
  · nofun
  · nofun
  · unfold behind
    dsimp only
    split <;> nofun

theorem Stop.isCompleted_iff {stop : Stop} : stop.isCompleted ↔ stop = .completed := by
  cases stop <;> simp [Stop.isCompleted]

theorem Stage.behind_eq_completed {last : Option CallEvent} :
    Stage.behind last = .completed ↔ last = some (.ran .completed) := by
  rcases last with _ | _ | _ | stop
  · exact ⟨nofun, nofun⟩
  · exact ⟨nofun, nofun⟩
  · exact ⟨nofun, nofun⟩
  · unfold behind
    dsimp only
    cases completed : stop.isCompleted with
    | true =>
        cases Stop.isCompleted_iff.mp completed
        exact ⟨fun _ => rfl, fun _ => rfl⟩
    | false =>
        refine ⟨nofun, fun same => ?_⟩
        cases same
        cases completed

namespace Caller

variable {ω : Type} {ctx : Context ω} {caller : Caller}

/-! ## Operations keep the stage -/

/-- Whether a call is as before but for the side buffers it owns. -/
def SidesOnly (s t : Activation × ω) : Prop := t.1 = { s.1 with sides := t.1.sides }

theorem sidesOnly_refl (s : Activation × ω) : SidesOnly s s := rfl

theorem sidesOnly_trans (s t u : Activation × ω) (h : SidesOnly s t) (h' : SidesOnly t u) :
    SidesOnly s u := by
  refine Eq.trans h' ?_
  rw [h]

theorem keeps_sidesOnly_service {α : Type} (sv : Service ω α) :
    Keeps SidesOnly (service sv : OnActivation ω α).run := fun _ => rfl

/-- Moving arguments changes nothing else of a call than its side buffers. -/
theorem keeps_sidesOnly_transfer (r : Ready) (function : List UInt8)
    (arguments : List (SlotPlace × ArgumentImage)) :
    Keeps SidesOnly (transfer ctx r function arguments).run := by
  refine keeps_transfer (P := fun _ _ => True) sidesOnly_refl sidesOnly_trans ?_
    (fun place bytes _ => ?_) (fun bytes align => ?_) trivial fun _ _ _ _ => trivial
  · exact .exceptBind sidesOnly_trans sidesOnly_refl fun _ =>
      .exceptBind sidesOnly_trans (fun _ => rfl) fun _ => keeps_sidesOnly_service _
  · exact .exceptBind sidesOnly_trans sidesOnly_refl fun _ => keeps_sidesOnly_service _
  · exact .exceptBind sidesOnly_trans (keeps_sidesOnly_service _) fun _ =>
      .exceptBind sidesOnly_trans (fun _ => rfl) fun _ =>
        .exceptBind sidesOnly_trans (keeps_sidesOnly_service _) fun _ => sidesOnly_refl

/-- Whether two states of a call are at the same stage. -/
def SameStage (s t : Activation × ω) : Prop := t.1.stage = s.1.stage

/-- Moving arguments leaves the stage to the write around it. -/
theorem keeps_sameStage_transfer (r : Ready) (function : List UInt8)
    (arguments : List (SlotPlace × ArgumentImage)) :
    Keeps SameStage (transfer ctx r function arguments).run := by
  intro s
  have same := @keeps_sidesOnly_transfer _ ctx r function arguments s
  exact (congrArg Activation.stage same).trans rfl

theorem FetchEnds.stage {s t : Activation × ω} {result : Except CallError Value}
    (h : FetchEnds ctx caller s result t) : t.1.stage = s.1.stage := by
  cases h <;> rfl

/-- A value is fetched from completed calls alone. -/
theorem FetchEnds.completed {s t : Activation × ω} {v : Value}
    (h : FetchEnds ctx caller s (.ok v) t) : s.1.stage = .completed := by
  cases h with
  | decoded completed => exact completed
  | void completed => exact completed

theorem plan_of_ready {r : Ready} (ready : caller.ready = .ok r) (activation : Activation)
    (options : RunOptions) :
    (activation.stage = .prepared → caller.plan activation options = .error .notWritten) ∧
      (activation.stage ≠ .prepared → ∃ p, caller.plan activation options = .ok p) := by
  unfold plan
  rw [ready]
  constructor
  · intro prepared
    exact if_pos prepared
  · intro written
    exact ⟨_, if_neg written⟩

end Caller

namespace Session

variable {ω : Type} {ctx : Context ω} {index : Nat} {s : Session ω}

/-! ## Events -/

/-- What an action means to the call of a name, if it means anything. -/
def event? (ctx : Context ω) (index : Nat) (s : Session ω) : Action → Option CallEvent
  | .write other args =>
    if other = index then
      match s.caller.validate args, ((step ctx (.write other args)).run s).1 with
      | .error _, _ => none
      | .ok _, .done => some .wrote
      | .ok _, _ => some .broke
    else none
  | .run other options =>
    if other = index then
      match s.activations[other]?.join.map (s.caller.plan · options) with
      | some (.ok p) => some (.ran ((ctx.run p).run s.world).1)
      | _ => none
    else none
  | _ => none

/-- The last event of the call of a name. -/
def lastEvent? (ctx : Context ω) (index : Nat) (s : Session ω) (actions : List Action) :
    Option CallEvent :=
  noted ctx (fun s action last => (event? ctx index s action).or last) none s actions

/-- A live call of a ready caller stands where its last event has put it. -/
structure Stands (r : Ready) (index : Nat) (last : Option CallEvent) (s : Session ω) : Prop where
  ready : s.caller.status = .ready r
  live : ∃ activation, s.activations[index]? = some (some activation) ∧
    activation.stage = .behind last

/-- An action means nothing to the calls that it is not about. -/
theorem event?_of_other {action : Action} (other : action.activation? ≠ some index) :
    event? ctx index s action = none := by
  cases action <;> first | rfl | exact if_neg fun same => other (congrArg some same)

/-- Looking at a call means nothing to it. -/
theorem Looks.event? {activation : Activation} {action : Action} {given : Outcome} {w : ω}
    (h : Looks ctx s.caller index activation s.world action given w) :
    Session.event? ctx index s action = none := by
  cases h <;> rfl

theorem event?_write (args : List Value) : event? ctx index s (.write index args) =
    match s.caller.validate args, ((step ctx (.write index args)).run s).1 with
      | .error _, _ => none
      | .ok _, .done => some .wrote
      | .ok _, _ => some .broke := if_pos rfl

theorem event?_run {activation : Activation}
    (live : s.activations[index]? = some (some activation)) (options : RunOptions) :
    event? ctx index s (.run index options) =
      match s.caller.plan activation options with
      | .ok p => some (.ran ((ctx.run p).run s.world).1)
      | .error _ => none := by
  refine (if_pos rfl).trans ?_
  rw [live]
  show (match some (s.caller.plan activation options) with
    | some (.ok p) => some (CallEvent.ran ((ctx.run p).run s.world).1)
    | _ => none) = _
  cases s.caller.plan activation options <;> rfl

/-! ## Steps -/

section
variable {r : Ready} {last : Option CallEvent}

/-- An operation on the call of a name moves it as the event says that it means. -/
theorem Stands.change (h : Stands r index last s) {activation : Activation}
    (live : s.activations[index]? = some (some activation)) {action : Action} {given : Outcome}
    {t : Activation × ω} (run : ((step ctx action).run s).1 = given)
    (changes : Changes ctx s.caller index (activation, s.world) action given t) :
    t.1.stage = .behind ((event? ctx index s action).or last) := by
  have stage : activation.stage = .behind last := by
    obtain ⟨other, same, stage⟩ := h.live
    cases live.symm.trans same
    exact stage
  cases changes with
  | @write args result t ends =>
      rw [event?_write, run]
      cases ends with
      | refused invalid =>
          rw [invalid]
          exact stage
      | broken valid failed =>
          rw [valid]
          exact (Caller.keeps_sameStage_transfer _ _ _).of_run failed
      | done valid =>
          rw [valid]
          rfl
  | @run options result t ends =>
      rw [event?_run live]
      cases ends with
      | refused unplanned =>
          rw [unplanned]
          exact stage
      | interrupted planned stopped early =>
          rw [planned]
          dsimp only
          rw [stopped]
          show Stage.interrupted = if _ then _ else _
          rw [early]
          rfl
      | completed planned stopped completed fetched =>
          rw [planned]
          dsimp only
          rw [stopped, fetched.stage]
          show Stage.completed = if _ then _ else _
          rw [completed]
          rfl
  | fetch ends => exact ends.stage.trans stage

/-- Every action moves the call of a name as the event says that it means, as long as the call is
not taken away. -/
theorem Stands.step (h : Stands r index last s) {action : Action}
    (kept : action ≠ .release index ∧ action ≠ .drop index) :
    Stands r index ((event? ctx index s action).or last) ((step ctx action).run s).2 := by
  have does := does_step ctx s action
  rcases run : (Session.step ctx action).run s with ⟨given, s'⟩
  rw [run] at does
  dsimp only at does ⊢
  obtain ⟨activation, live, stage⟩ := h.live
  refine ⟨ready_eq_ok.mp (does.ready (ready_eq_ok.mpr h.ready)), ?_⟩
  obtain ⟨_, place, moves⟩ := does.moves_from live
  cases moves with
  | kept other =>
      rw [event?_of_other (other _ rfl)]
      exact ⟨activation, place, stage⟩
  | looked looks =>
      rw [looks.event?]
      exact ⟨activation, place, stage⟩
  | changed changes => exact ⟨_, place, h.change live (congrArg Prod.fst run) changes⟩
  | closed closes =>
      cases closes with
      | release => exact absurd rfl kept.1
      | drop => exact absurd rfl kept.2

/-! ## What can be done where a call stands -/

variable {activation : Activation}

/-- A plan is refused for a call whose arguments are not written. -/
theorem plan_refused_iff (ready : s.caller.ready = .ok r)
    (live : s.activations[index]? = some (some activation)) (options : RunOptions) :
    ((step ctx (.plan index options)).run s).1 = .failed .notWritten ↔
      activation.stage = .prepared := by
  rw [run_step_plan live]
  obtain ⟨refused, planned⟩ := Caller.plan_of_ready ready activation options
  constructor
  · intro failed
    by_contra written
    obtain ⟨p, planned⟩ := planned written
    rw [planned] at failed
    cases failed
  · intro prepared
    rw [refused prepared]
    rfl

/-- A run is refused for a call whose arguments are not written, and then nothing happens. -/
theorem run_refused_iff (ready : s.caller.ready = .ok r)
    (live : s.activations[index]? = some (some activation)) (options : RunOptions) :
    (((step ctx (.run index options)).run s).1 = .failed .notWritten ↔
      activation.stage = .prepared) ∧
    (activation.stage = .prepared →
      (step ctx (.run index options)).run s = (.failed .notWritten, s)) := by
  obtain ⟨refused, planned⟩ := Caller.plan_of_ready ready activation options
  obtain ⟨result, t, ends, run⟩ := @run_step_run ω ctx s index activation live options
  have nothing (prepared : activation.stage = .prepared) :
      (step ctx (.run index options)).run s = (.failed .notWritten, s) := by
    rw [run]
    cases ends with
    | refused unplanned =>
        cases (refused prepared).symm.trans unplanned
        rw [set_of_live live]
        rfl
    | interrupted planned => cases (refused prepared).symm.trans planned
    | completed planned => cases (refused prepared).symm.trans planned
  refine ⟨⟨fun failed => ?_, fun prepared => by rw [nothing prepared]⟩, nothing⟩
  by_contra written
  obtain ⟨p, planned⟩ := planned written
  rw [run] at failed
  cases ends with
  | refused unplanned => cases planned.symm.trans unplanned
  | interrupted => cases failed
  | completed _ _ _ fetched =>
      cases fetched with
      | unready unready => cases ready.symm.trans unready
      | early early => exact early rfl
      | unreadable => cases failed
      | undecodable => cases failed
      | decoded => cases failed
      | void => cases failed

/-- A value is fetched behind a completed run only. -/
theorem completed_of_fetch (live : s.activations[index]? = some (some activation)) {v : Value}
    (given : ((step ctx (.fetch index)).run s).1 = .value v) : activation.stage = .completed := by
  obtain ⟨result, t, ends, run⟩ := @run_step_fetch ω ctx s index activation live
  rw [run] at given
  cases result with
  | error e => cases given
  | ok v => exact ends.completed

/-- A run gives a value only if its thread completed. -/
theorem completed_of_run (live : s.activations[index]? = some (some activation))
    {options : RunOptions} {v : Value}
    (given : ((step ctx (.run index options)).run s).1 = .value v) :
    event? ctx index s (.run index options) = some (.ran .completed) := by
  obtain ⟨result, t, ends, run⟩ := @run_step_run ω ctx s index activation live options
  rw [run] at given
  rw [event?_run live]
  cases ends with
  | refused => cases given
  | interrupted => cases given
  | completed planned stopped completed =>
      rw [planned]
      dsimp only
      rw [stopped, Stop.isCompleted_iff.mp completed]

/-- A write that does not get past its checks does nothing at all. -/
theorem write_refused (live : s.activations[index]? = some (some activation)) {args : List Value}
    {e : CallError} (invalid : s.caller.validate args = .error e) :
    (step ctx (.write index args)).run s = (.failed e, s) := by
  obtain ⟨result, t, ends, run⟩ := @run_step_write ω ctx s index activation live args
  rw [run]
  cases ends with
  | refused other =>
      cases invalid.symm.trans other
      rw [set_of_live live]
      rfl
  | broken valid => cases invalid.symm.trans valid
  | done valid => cases invalid.symm.trans valid

/-! ## Whole runs -/

/-- A call stands where the last event of a run has put it. -/
theorem Stands.after (h : Stands r index last s) {actions : List Action}
    (kept : ∀ action ∈ actions, action ≠ .release index ∧ action ≠ .drop index) :
    Stands r index ((lastEvent? ctx index s actions).or last) (after ctx s actions) := by
  -- the last action is the one that moves the call behind all others
  induction actions using List.reverseRecOn with
  | nil => exact h
  | append_singleton actions action ih =>
      have before := ih fun other member => kept other (List.mem_append_left _ member)
      have stays := kept action (List.mem_append_right _ (List.mem_singleton_self _))
      unfold lastEvent? at before ⊢
      rw [after_concat, noted_concat, Option.or_assoc]
      exact before.step stays

/-- Whatever is done in a session, the stage of a call is told by its last event and is never left
at a run. So a plan and a run are refused exactly as long as the arguments are not written, and a
refused run does nothing; a result is fetched only if the last event is a completed run, and a run
gives one only if its thread completed; and a write that its checks refuse does nothing. -/
theorem call_protocol (ready : s.caller.status = .ready r)
    (live : s.activations[index]? = some (some activation))
    (prepared : activation.stage = .prepared) {actions : List Action}
    (kept : ∀ action ∈ actions, action ≠ .release index ∧ action ≠ .drop index) :
    let t := after ctx s actions
    let last := lastEvent? ctx index s actions
    ∃ now, t.activations[index]? = some (some now) ∧ now.stage = .behind last ∧
      now.stage ≠ .running ∧
      (∀ options,
        (((step ctx (.plan index options)).run t).1 = .failed .notWritten ↔
          now.stage = .prepared) ∧
        (((step ctx (.run index options)).run t).1 = .failed .notWritten ↔
          now.stage = .prepared) ∧
        (now.stage = .prepared →
          (step ctx (.run index options)).run t = (.failed .notWritten, t)) ∧
        ∀ v, ((step ctx (.run index options)).run t).1 = .value v →
          event? ctx index t (.run index options) = some (.ran .completed)) ∧
      (∀ v, ((step ctx (.fetch index)).run t).1 = .value v → last = some (.ran .completed)) ∧
      ∀ args e, t.caller.validate args = .error e →
        (step ctx (.write index args)).run t = (.failed e, t) := by
  intro t last
  have first : Stands r index none s := ⟨ready, activation, live, prepared⟩
  have stands := @Stands.after ω ctx index s r none first actions kept
  rw [Option.or_none] at stands
  obtain ⟨now, live, stage⟩ := stands.live
  have ready := ready_eq_ok.mpr stands.ready
  refine ⟨now, live, stage, ?_, fun options => ?_, fun v given => ?_, fun args e invalid => ?_⟩
  · rw [stage]
    exact Stage.behind_ne_running last
  · obtain ⟨refused, nothing⟩ := @run_refused_iff ω ctx index t r now ready live options
    exact ⟨plan_refused_iff ready live options, refused, nothing,
      fun v given => completed_of_run live given⟩
  · have completed := completed_of_fetch live given
    rw [stage] at completed
    exact Stage.behind_eq_completed.mp completed
  · exact write_refused live invalid

/-- A session of a ready caller on a thread that stops at a signal, with one struct prepared. -/
def signalled : Session Debuggee :=
  let caller := Caller.ofValues "f" ⟨⟨.int .i64, [.int .i64], false⟩, 0x1000⟩ [.int .i32 (-1)]
  let layout : StructLayout := ⟨24, 8, ⟨0, 8, 8⟩, [⟨8, 4, 4⟩], some ⟨16, 8, 8⟩⟩
  { caller := { caller with
      status := .ready ⟨⟨"__fncall_call_f", 0, [], none⟩, layout, ⟨8, .little⟩⟩ }
    world := {
      memory := ⟨0x10000019, [⟨0x10000000, 24⟩], [], .zero⟩
      script := [.signal 11 "SIGSEGV"] }
    activations := [some { structAddress := 0x10000000, ownsStruct := true }] }

/-- A write, a run that stops at a signal and a write that is refused: the call stands where the run
has put it. -/
theorem call_protocol_signalled :
    let ctx := Debuggee.sparse ⟨8, .little⟩ .layoutOnly
    let actions := [.write 0 [.int .i32 (-1)], .run 0 {}, .write 0 []]
    lastEvent? ctx 0 signalled actions = some (.ran (.signal 11 "SIGSEGV")) ∧
      ∃ now, (after ctx signalled actions).activations[0]? = some (some now) ∧
        now.stage = .interrupted ∧
        ∀ v, ((step ctx (.fetch 0)).run (after ctx signalled actions)).1 ≠ .value v := by
  intro ctx actions
  have last : lastEvent? ctx 0 signalled actions = some (.ran (.signal 11 "SIGSEGV")) := by
    decide +kernel
  have kept : ∀ action ∈ actions, action ≠ .release 0 ∧ action ≠ .drop 0 := by
    simp [actions]
  obtain ⟨now, live, stage, -, -, fetched, -⟩ :=
    @call_protocol Debuggee ctx 0 signalled _ _ rfl rfl rfl actions kept
  refine ⟨last, now, live, ?_, fun v given => ?_⟩
  · rw [stage, last]
    rfl
  · have completed := fetched v given
    rw [last] at completed
    cases completed

end

end Session

end CallThunk
