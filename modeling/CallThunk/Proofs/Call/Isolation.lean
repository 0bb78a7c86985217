import Mathlib.Data.List.Forall2
import CallThunk.Proofs.Call.EndToEnd
import CallThunk.Proofs.Call.Frames
import CallThunk.Proofs.Call.Lifecycle
import CallThunk.Proofs.Call.Partition
import CallThunk.Proofs.Call.Protocol
import CallThunk.Proofs.Call.Reading

/-!
# Calls do not disturb each other

Many calls of one caller are under way at once, and allocations and frees may fail at any point.
Every live call lies in regions of its own, and an action changes no region that is out of its
reach, so the arguments last written for a call stay where they are until they are written again.
-/

namespace CallThunk

open Caller (CompileEnds WriteEnds PrepareEnds ArgumentImage)

/-! ## Regions -/

/-- A region that stays live and keeps its bytes. -/
structure Region.Stays (r : Region) (m m' : Memory) : Prop where
  live : r ∈ m'.live
  contents : ∀ x : UInt64, r.start.toNat ≤ x.toNat → x.toNat < r.start.toNat + r.size →
    m'.contents x = m.contents x

section
variable {m m' : Memory} {region : Region} {a : UInt64} {n : Nat}

theorem Region.Stays.read_eq (h : region.Stays m m') (tidy : m.Tidy) (live : region ∈ m.live)
    (covers : region.covers a n) : m'.contents.read a n = m.contents.read a n := by
  obtain ⟨first, last⟩ := Region.covers_iff.mp covers
  have bound := tidy.bounded region live
  have limit := m.next.toNat_lt
  exact Contents.read_congr (by omega) fun x low high => h.contents x (by omega) (by omega)

/-- A range that starts where a region does lies in that region if it is accessible. -/
theorem Memory.Tidy.covers_of_start (tidy : m.Tidy) (live : region ∈ m.live)
    (start : region.start = a) (accessible : (m.region? a n).isSome) : region.covers a n := by
  obtain ⟨other, member, covers⟩ := Memory.region?_isSome.mp accessible
  by_cases same : other = region
  · rwa [same] at covers
  · obtain ⟨first, last⟩ := Region.covers_iff.mp covers
    rw [← start] at first last
    rcases tidy.disjoint member live same with before | behind
    · omega
    · omega

theorem Region.Stays.read?_eq (h : region.Stays m m') (tidy : m.Tidy) (live : region ∈ m.live)
    (start : region.start = a) {bytes : List UInt8} (held : m.read? a n = some bytes) :
    m'.read? a n = some bytes := by
  obtain ⟨accessible, rfl⟩ := Memory.read?_eq_some.mp held
  have covers := tidy.covers_of_start live start accessible
  exact Memory.read?_eq_some.mpr ⟨Memory.region?_isSome.mpr ⟨region, h.live, covers⟩,
    (h.read_eq tidy live covers).symm⟩

end

/-! ## Slots -/

section
variable {target : Target} {base : UInt64} {sides : List UInt64} {m m' : Memory} {stop : Nat}
  {place : SlotPlace} {region : Region}

/-- A slot of a struct lies in the struct's region. -/
theorem covers_slot (tidy : m.Tidy) (live : region ∈ m.live) (start : region.start = base)
    (room : stop ≤ region.size) (within : place.stop ≤ stop) :
    region.covers (base + place.offset.toUInt64) place.size.toNat := by
  have bound := tidy.bounded region live
  have limit := m.next.toNat_lt
  rw [start] at bound
  have exact := @toNat_slotAddress place base (by omega)
  have last : place.stop = place.offset.toNat + place.size.toNat := rfl
  refine Region.covers_iff.mpr ⟨?_, ?_⟩
  · rw [start, exact]
    omega
  · rw [start, exact]
    omega

/-- What a slot holds stays with the region of its struct and those of the side buffers. -/
theorem Stored.stays {image : ArgumentImage} (h : Stored target base sides m stop place image)
    (size : image.length target = place.size.toNat) (tidy : m.Tidy) (live : region ∈ m.live)
    (start : region.start = base) (room : stop ≤ region.size) (within : place.stop ≤ stop)
    (struct : region.Stays m m')
    (buffers : ∀ a ∈ sides, ∃ r ∈ m.live, r.start = a ∧ r.Stays m m') :
    Stored target base sides m' stop place image := by
  have covers := covers_slot tidy live start room within
  have kept {bytes : List UInt8} (length : bytes.length = place.size.toNat)
      (held : m.contents.read (base + place.offset.toUInt64) bytes.length = bytes) :
      m'.contents.read (base + place.offset.toUInt64) bytes.length = bytes := by
    rw [← length] at covers
    rw [struct.read_eq tidy live covers, held]
  cases h with
  | word held => exact .word (kept size held)
  | @side bytes image align address owned behind buffer encoded held =>
      obtain ⟨r, member, first, stays⟩ := buffers address owned
      have width := (length_of_addressImage encoded).trans size
      exact .side owned behind (stays.read?_eq tidy member first buffer) encoded (kept width held)

end

/-! ## Live calls -/

/-- A live call keeps the arguments that were last written for it: its struct lies in a region of
its own, and once it is written its slots carry them. -/
structure Activation.Intact (m : Memory) (caller : Caller) (target : Target)
    (activation : Activation) (last : Option (List Value)) : Prop where
  ready : ∃ r, caller.ready = .ok r
  owns : activation.ownsStruct = true
  room : ∃ region ∈ m.live, region.start = activation.structAddress ∧
    (caller.record target).size.toNat ≤ region.size
  carries : activation.stage ≠ .prepared → last = some activation.arguments ∧
    List.Forall₂ (fun slot v => Carries target activation.structAddress activation.sides m
      (caller.record target).size.toNat slot.ty (fieldPlace (caller.record target) slot) v)
        caller.model.inputSlots activation.arguments

namespace Activation.Intact

variable {m m' : Memory} {caller : Caller} {target : Target} {activation : Activation}
  {last : Option (List Value)}

theorem struct_owned (h : activation.Intact m caller target last) :
    activation.structAddress ∈ activation.owned := by
  unfold Activation.owned Activation.ownStruct
  rw [h.owns]
  exact List.mem_append_right _ (List.mem_singleton_self _)

/-- A live call keeps its arguments as long as its regions stay. -/
theorem stays (h : activation.Intact m caller target last) (codeless : caller.Codeless target)
    (tidy : m.Tidy) (live : ∀ a ∈ activation.owned, a ∈ m.starts)
    (stays : ∀ r ∈ m.live, r.start ∈ activation.owned → r.Stays m m') :
    activation.Intact m' caller target last := by
  obtain ⟨r, ready⟩ := h.ready
  have laid := (codeless.bare r ready).laid
  obtain ⟨region, member, start, room⟩ := h.room
  have struct := stays region member (by rw [start]; exact h.struct_owned)
  have buffers : ∀ a ∈ activation.sides, ∃ r ∈ m.live, r.start = a ∧ r.Stays m m' := by
    intro a side
    have owned : a ∈ activation.owned := List.mem_append_left _ side
    obtain ⟨r, hr, rfl⟩ := Memory.mem_starts.mp (live a owned)
    exact ⟨r, hr, rfl, stays r hr owned⟩
  refine ⟨⟨r, ready⟩, h.owns, ⟨region, struct.live, start, room⟩, fun written => ?_⟩
  obtain ⟨noted, carries⟩ := h.carries written
  refine ⟨noted, ?_⟩
  have each := (List.forall₂_and_left _ _).mpr
    ⟨fun slot (hslot : slot ∈ caller.model.inputSlots) => hslot, carries⟩
  refine each.imp fun {slot v} => ?_
  rintro ⟨hslot, index, image, checked, stored⟩
  have known := inputSlots_subset caller.model hslot
  have size := length_of_argumentImage checked (laid.size slot known)
  exact ⟨index, image, checked, stored.stays size tidy member start room (laid.within slot known)
    struct buffers⟩

/-- What is written for a live call is read back. -/
theorem reads {ω : Type} {ctx : Context ω} {memory : ω → Memory} {w : ω}
    (h : activation.Intact (memory w) caller target last) (codeless : caller.Codeless target)
    (manages : ctx.Manages memory) (tidy : (memory w).Tidy)
    (written : activation.stage ≠ .prepared) :
    last = some activation.arguments ∧ activation.arguments.length = caller.model.arity ∧
      ∃ w', Yields (caller.read ctx activation) w
        (List.zipWith Value.readBack caller.model.argumentTys activation.arguments) w' := by
  obtain ⟨r, ready⟩ := h.ready
  have bare := codeless.bare r ready
  obtain ⟨region, member, start, room⟩ := h.room
  obtain ⟨noted, carries⟩ := h.carries written
  refine ⟨noted, ?_, ?_⟩
  · rw [← carries.length_eq, length_inputSlots]
  · obtain rfl := bare.targeted
    refine yields_readBack manages ready bare.own bare.layout written (fun slot hslot => ?_) carries
    refine Memory.region?_isSome.mpr ⟨region, member, ?_⟩
    exact covers_slot tidy member start room
      (bare.laid.within slot (inputSlots_subset caller.model hslot))

end Activation.Intact

/-! ## Operations on a live call -/

section
variable {ω : Type} {ctx : Context ω} {ledger : Ledger ω} {caller : Caller} {target : Target}
  {activation : Activation} {w : ω} {t : Activation × ω} {last : Option (List Value)}

/-- A write that is done is described by what it does. -/
theorem yields_of_written {args : List Value} {s : Activation × ω}
    (h : WriteEnds ctx caller args s (.ok ()) t) : Yields (caller.write ctx args) s () t := by
  cases h with
  | @done r function arguments t valid transferred =>
      refine (Caller.run_write_of_ok valid s).trans ?_
      exact yields_bind.mpr ⟨(), t, transferred, yields_update.mpr rfl⟩

/-- The struct of a call stays live while its side buffers are traded. -/
theorem struct_of_exchanges (h : ledger.Exchanges (activation, w) t)
    (holds : ledger.Holds activation.owned w) (owns : activation.ownsStruct = true)
    {region : Region} (live : region ∈ (ledger.memory w).live)
    (start : region.start = activation.structAddress) :
    region ∈ (ledger.memory t.2).live := by
  refine (h.trades holds.left).kept region live fun side => ?_
  -- the struct would be owned twice
  have once := holds.live activation.structAddress
  have single := holds.tidy.count_le_one activation.structAddress
  have listed := List.count_pos_iff.mpr side
  have struct : activation.ownStruct = [activation.structAddress] := if_pos owns
  unfold Activation.owned at once
  rw [List.count_append, struct, List.count_singleton_self] at once
  rw [start] at listed
  dsimp only at listed
  omega

/-- What rests keeps the arguments. -/
theorem intact_of_rests (h : activation.Intact (ledger.memory w) caller target last)
    (rests : Rests ledger.memory (activation, w) t) :
    t.1.Intact (ledger.memory t.2) caller target last := by
  refine ⟨h.ready, rests.owns.trans h.owns, ?_, fun written => ?_⟩
  · rw [rests.memory, rests.struct]
    exact h.room
  · rw [rests.memory, rests.struct, rests.sides, rests.arguments]
    exact h.carries (rests.written written)

variable (accounts : ctx.Accounts ledger)
include accounts

/-- A write that fails gives the arguments up, or it is refused and does nothing. -/
theorem intact_of_unwritten {args : List Value} {e : CallError}
    (h : activation.Intact (ledger.memory w) caller target last)
    (holds : ledger.Holds activation.owned w)
    (ends : WriteEnds ctx caller args (activation, w) (.error e) t) :
    t.1.Intact (ledger.memory t.2) caller target last := by
  have exchanges := exchanges_write accounts ends
  obtain ⟨region, live, start, room⟩ := h.room
  have struct := struct_of_exchanges exchanges holds h.owns live start
  cases ends with
  | refused => exact h
  | broken valid failed =>
      have stage : t.1.stage = .prepared := (Caller.keeps_sameStage_transfer _ _ _).of_run failed
      exact ⟨h.ready, exchanges.owns.trans h.owns,
        ⟨region, struct, start.trans exchanges.struct.symm, room⟩,
        fun written => absurd stage written⟩

/-- A write that is done leaves its arguments in memory. -/
theorem intact_of_written {args : List Value}
    (h : activation.Intact (ledger.memory w) caller target last) (codeless : caller.Codeless target)
    (holds : ledger.Holds activation.owned w)
    (ends : WriteEnds ctx caller args (activation, w) (.ok ()) t) :
    t.1.Intact (ledger.memory t.2) caller target (some args) := by
  have exchanges := exchanges_write accounts ends
  obtain ⟨r, ready⟩ := h.ready
  have bare := codeless.bare r ready
  obtain rfl := bare.targeted
  obtain ⟨region, live, start, room⟩ := h.room
  have struct := struct_of_exchanges exchanges holds h.owns live start
  have bound := holds.tidy.bounded region live
  have inside : activation.structAddress.toNat + (caller.record r.target).size.toNat ≤
      (ledger.memory w).next.toNat := by
    rw [← start]
    omega
  obtain ⟨function, arguments, -, -, carries⟩ := carries_of_write accounts.manages ready bare.own
    bare.layout (yields_of_written ends) holds.tidy.bounded inside
  refine ⟨h.ready, exchanges.owns.trans h.owns,
    ⟨region, struct, start.trans exchanges.struct.symm, room⟩, fun _ => ?_⟩
  cases ends with
  | done => exact ⟨rfl, carries⟩

/-- A call that is prepared has a region of its own. -/
theorem intact_of_prepare {w' : ω} (codeless : caller.Codeless target)
    (h : PrepareEnds ctx caller w .fresh (.ok activation) w') :
    activation.Intact (ledger.memory w') caller target last := by
  obtain ⟨r, n, ready, size, region, owns, stage⟩ := allocated_of_prepare accounts.manages h
  rw [(codeless.bare r ready).layout] at size
  refine ⟨⟨r, ready⟩, owns, ⟨⟨activation.structAddress, n⟩, ?_, rfl, size⟩, absurd stage⟩
  rw [region.live]
  exact List.mem_cons_self ..

end

/-- Whether an action leaves memory to the calls: the user neither frees nor writes memory, and
every struct is allocated for its call. -/
def Action.isContained : Action → Bool
  | .prepare place | .insert place | .callWith _ place _ => place = .fresh
  | .freeMemory _ | .writeMemory .. => false
  | _ => true

namespace Session

/-! ## What was written -/

section
variable {ω : Type}

/-- The arguments written for the call of a name behind an action. -/
def writtenBy (index : Nat) (s : Session ω) (action : Action) (given : Outcome)
    (last : Option (List Value)) : Option (List Value) :=
  match action, given with
  | .write other args, .done => if other = index then some args else last
  | .insert _, .activation made => if made = index then some s.caller.defaultArguments else last
  | _, _ => last

/-- The arguments of the last write along a list of actions that was done for the call of a name. -/
def lastWritten? (ctx : Context ω) (index : Nat) (s : Session ω) (actions : List Action) :
    Option (List Value) :=
  noted ctx (fun s action last => writtenBy index s action ((step ctx action).run s).1 last) none s
    actions

end

/-! ## One action -/

section
variable {ω : Type} {ctx : Context ω} {ledger : Ledger ω} {s s' : Session ω} {action : Action}
  {given : Outcome} {mine mine' : List UInt64} {last : Nat → Option (List Value)}

theorem Accounted.holds (h : Accounted ledger s action mine s' mine')
    (holds : ledger.Holds (mine ++ s.owned) s.world) :
    ledger.Holds (mine' ++ s'.owned) s'.world := by
  obtain ⟨after, rest, trades, before, behind⟩ := h.trades
  exact ((trades.frame rest).holds (holds.perm before.symm)).perm behind

/-- No region belongs to two live calls. -/
theorem apart_of_live (holds : ledger.Holds (mine ++ s.owned) s.world) {i j : Nat}
    {first second : Activation} (one : s.activations[i]? = some (some first))
    (two : s.activations[j]? = some (some second)) (other : i ≠ j) {a : UInt64}
    (member : a ∈ first.owned) : a ∉ second.owned := by
  intro shared
  -- with the first call taken away the second one still owns the region, which is live only once
  have without := count_set one none a
  have still : (s.activations.set i none)[j]? = some (some second) := by
    rw [List.getElem?_set_ne other]
    exact two
  have rest := count_set still none a
  rw [ownedBy_some, ownedBy_none, List.count_nil] at without rest
  have once := holds.tidy.count_le_one a
  have all := holds.live a
  unfold owned at all
  rw [List.count_append] at all
  have here := List.count_pos_iff.mpr member
  have there := List.count_pos_iff.mpr shared
  omega

/-- A session in which every live call keeps its arguments. -/
structure Intact (ledger : Ledger ω) (target : Target) (last : Nat → Option (List Value))
    (s : Session ω) : Prop where
  codeless : s.caller.Codeless target
  holds : ∃ mine, ledger.Holds (mine ++ s.owned) s.world
  calls : ∀ (index : Nat) (activation : Activation),
    s.activations[index]? = some (some activation) →
    activation.Intact (ledger.memory s.world) s.caller target (last index)

namespace Intact

theorem accounted (accounts : ctx.Accounts ledger)
    (holds : ledger.Holds (mine ++ s.owned) s.world) (contained : action.isContained)
    (does : Does ctx s action given s') :
    Accounted ledger s action mine s' (heldAfter action given mine) :=
  accounted_of_does accounts holds
    (fun _ frees => absurd contained (by rw [frees]; exact Bool.false_ne_true)) does

/-- What makes a call leaves memory as it is, for its struct is new. -/
theorem leaves_of_opens {memory : ω → Memory} (manages : ctx.Manages memory) {w : ω}
    (codeless : s.caller.Codeless ctx.target) {result : Except CallError Activation}
    (contained : action.isContained) (opens : Opens ctx s.caller s.world action result w) :
    (memory s.world).Leaves (memory w) := by
  cases opens with
  | prepare ends =>
      cases of_decide_eq_true contained
      exact leaves_prepare manages ends
  | insert ends =>
      cases of_decide_eq_true contained
      exact leaves_insert manages codeless.bare ends

/-- Looking at a call changes nothing in memory. -/
theorem memory_of_looks {memory : ω → Memory} (manages : ctx.Manages memory) {index : Nat}
    {activation : Activation} {w : ω}
    (looks : Looks ctx s.caller index activation s.world action given w) :
    memory w = memory s.world := by
  cases looks with
  | read ran => exact memory_of_read manages ran
  | plan => rfl

/-- A write stays inside the struct of its call, which lies apart from all other regions. -/
theorem stays_of_write {memory : ω → Memory} (manages : ctx.Manages memory)
    {activation : Activation} {t : Activation × ω} {args : List Value}
    {result : Except CallError PUnit} {last : Option (List Value)}
    (codeless : s.caller.Codeless ctx.target)
    (intact : activation.Intact (memory s.world) s.caller ctx.target last)
    (ends : WriteEnds ctx s.caller args (activation, s.world) result t)
    (tidy : (memory s.world).Tidy) {region : Region} (live : region ∈ (memory s.world).live)
    (other : region.start ≠ activation.structAddress) (still : region ∈ (memory t.2).live) :
    region.Stays (memory s.world) (memory t.2) := by
  obtain ⟨r, ready⟩ := intact.ready
  obtain ⟨struct, member, start, room⟩ := intact.room
  have below := tidy.bounded struct member
  have bound := tidy.bounded region live
  have confined := (confined_write manages ready (codeless.bare r ready) ends).spares tidy.bounded
    (by dsimp only; rw [← start]; omega)
  refine ⟨still, fun x low high => confined.contents x (by dsimp only; omega) ?_⟩
  dsimp only
  rw [← start]
  rcases tidy.disjoint member live (by rintro rfl; exact other start) with before | behind
  · omega
  · omega

/-- A region that is out of the reach of an action stays as it is. -/
theorem stays_of_does (h : Intact ledger ctx.target last s) (accounts : ctx.Accounts ledger)
    (laysOut : ctx.LaysOut ledger.memory) (contained : action.isContained)
    (does : Does ctx s action given s') {region : Region}
    (live : region ∈ (ledger.memory s.world).live) (outside : region.start ∉ s.reach action) :
    region.Stays (ledger.memory s.world) (ledger.memory s'.world) := by
  obtain ⟨mine, holds⟩ := h.holds
  obtain ⟨after, rest, trades, -, -⟩ := (accounted accounts holds contained does).trades
  have still := trades.kept region live outside
  have tidy := holds.tidy
  have bound := tidy.bounded region live
  have manages := accounts.manages
  have of_leaves (leaves : (ledger.memory s.world).Leaves (ledger.memory s'.world)) :
      region.Stays (ledger.memory s.world) (ledger.memory s'.world) :=
    ⟨still, fun x low high => leaves.contents tidy.bounded (by omega)⟩
  cases does with
  | compiled compiles => exact of_leaves (.of_eq (memory_of_compiles manages compiles))
  | called asks ends =>
      rcases asks with rfl | ⟨rfl, -, rfl⟩
      · cases of_decide_eq_true contained
        exact of_leaves (leaves_callWith manages laysOut h.codeless ends)
      · exact of_leaves (leaves_callWith manages laysOut h.codeless ends)
  | opened opens | unopened opens =>
      exact of_leaves (leaves_of_opens manages h.codeless contained opens)
  | absent => exact of_leaves (.refl _)
  | @changed index activation _ _ t known changes =>
      have intact := h.calls index activation known
      obtain ⟨r, ready⟩ := intact.ready
      cases changes with
      | write ends =>
          refine stays_of_write manages h.codeless intact ends tidy live (fun same => ?_) still
          rw [reach_of_live rfl known, same] at outside
          exact outside intact.struct_owned
      | run ends =>
          have rests := rests_run manages laysOut (fun r ready => (h.codeless.bare r ready).absent)
            ends
          exact of_leaves (.of_eq rests.memory)
      | fetch ends => exact of_leaves (.of_eq (rests_fetch manages ends).memory)
  | looked known looks => exact of_leaves (.of_eq (memory_of_looks manages looks))
  | closed known closes =>
      cases closes with
      | release ran => exact of_leaves ((keeps_access (leaves_release manages _)).of_run ran)
      | drop ran => exact of_leaves ((leaves_drop manages _).of_run ran)
  | used uses =>
      cases uses with
      | allocate ran => exact of_leaves (manages.allocates ran).leaves
      | free => cases contained
      | read ran => exact of_leaves (.of_eq (manages.reads ran).2)
      | write => cases contained

/-- What an action reaches is owned by the call that it is about. -/
theorem mem_reach (contained : action.isContained) {a : UInt64} (member : a ∈ s.reach action) :
    ∃ index activation, action.activation? = some index ∧
      s.activations[index]? = some (some activation) ∧ a ∈ activation.owned := by
  cases names : action.activation? with
  | none =>
      have nothing : s.reach action = [] := by
        cases action <;> first | rfl | (cases names; done) | cases contained
      rw [nothing] at member
      cases member
  | some index =>
      rw [reach_of_names names] at member
      cases found : s.activations[index]?.join with
      | none =>
          rw [found] at member
          cases member
      | some activation =>
          rw [found] at member
          exact ⟨index, activation, rfl, Option.join_eq_some_iff.mp found, member⟩

/-- A live call keeps its arguments through all actions that are not about it. -/
theorem of_other (h : Intact ledger ctx.target last s) (accounts : ctx.Accounts ledger)
    (laysOut : ctx.LaysOut ledger.memory) (contained : action.isContained)
    (does : Does ctx s action given s') {index : Nat} {activation : Activation}
    (live : s.activations[index]? = some (some activation))
    (other : action.activation? ≠ some index) :
    activation.Intact (ledger.memory s'.world) s.caller ctx.target (last index) := by
  obtain ⟨mine, holds⟩ := h.holds
  have own := holds_of_live holds live
  refine (h.calls index activation live).stays h.codeless holds.tidy (fun a member => ?_)
    fun r member owned => h.stays_of_does accounts laysOut contained does member fun reached => ?_
  · exact List.count_pos_iff.mp (Nat.lt_of_lt_of_le (List.count_pos_iff.mpr member) (own.live a))
  · obtain ⟨i, first, names, known, shared⟩ := mem_reach contained reached
    have apart : i ≠ index := by
      rintro rfl
      exact other names
    exact apart_of_live holds known live apart shared owned

/-- Nothing is noted for a call that an action neither makes nor is about. -/
theorem writtenBy_of_other {index : Nat} {last : Option (List Value)}
    (names : action.activation? ≠ some index) (made : given ≠ .activation index) :
    writtenBy index s action given last = last := by
  unfold writtenBy
  split
  · exact if_neg fun same => names (congrArg some same)
  · exact if_neg fun same => made (congrArg Outcome.activation same)
  · rfl

/-- Looking at a call writes nothing. -/
theorem writtenBy_of_looks {index other : Nat} {activation : Activation} {w : ω}
    {last : Option (List Value)}
    (looks : Looks ctx s.caller other activation s.world action given w) :
    writtenBy index s action given last = last := by
  cases looks <;> rfl

/-- A call that is made holds its default arguments if it was inserted. -/
theorem intact_of_opens (accounts : ctx.Accounts ledger) {target : Target} {activation : Activation}
    {w : ω} {last : Option (List Value)} (codeless : s.caller.Codeless target)
    (tidy : (ledger.memory s.world).Tidy) (contained : action.isContained)
    (opens : Opens ctx s.caller s.world action (.ok activation) w) :
    activation.Intact (ledger.memory w) s.caller target
      (writtenBy s.activations.length s action (.activation s.activations.length) last) := by
  cases opens with
  | prepare ends =>
      cases of_decide_eq_true contained
      exact intact_of_prepare accounts codeless ends
  | insert ends =>
      cases of_decide_eq_true contained
      unfold writtenBy
      dsimp only
      rw [if_pos rfl]
      cases ends with
      | @written first w₁ t prepared written =>
          have opened : first.Intact (ledger.memory w₁) s.caller target none :=
            intact_of_prepare accounts codeless prepared
          exact intact_of_written accounts opened codeless
            (trades_prepare accounts tidy prepared).acquired written

/-- A call that an action is about holds what was written last behind it. -/
theorem intact_of_changes (accounts : ctx.Accounts ledger) (laysOut : ctx.LaysOut ledger.memory)
    {index : Nat} {activation : Activation} {t : Activation × ω} {last : Option (List Value)}
    (codeless : s.caller.Codeless ctx.target)
    (intact : activation.Intact (ledger.memory s.world) s.caller ctx.target last)
    (own : ledger.Holds activation.owned s.world)
    (changes : Changes ctx s.caller index (activation, s.world) action given t) :
    t.1.Intact (ledger.memory t.2) s.caller ctx.target (writtenBy index s action given last) := by
  cases changes with
  | @write args result t ends =>
      cases result with
      | error e => exact intact_of_unwritten accounts intact own ends
      | ok u =>
          unfold writtenBy
          dsimp only [outcome]
          rw [if_pos rfl]
          exact intact_of_written accounts intact codeless own ends
  | run ends =>
      exact intact_of_rests intact (rests_run accounts.manages laysOut
        (fun r ready => (codeless.bare r ready).absent) ends)
  | fetch ends => exact intact_of_rests intact (rests_fetch accounts.manages ends)

/-- Every action keeps the arguments of every live call, or writes others. -/
theorem step (h : Intact ledger ctx.target last s) (accounts : ctx.Accounts ledger)
    (laysOut : ctx.LaysOut ledger.memory) (contained : action.isContained)
    (does : Does ctx s action given s') :
    Intact ledger ctx.target (fun index => writtenBy index s action given (last index)) s' := by
  obtain ⟨mine, holds⟩ := h.holds
  have after := (accounted accounts holds contained does).holds holds
  refine ⟨?_, ⟨_, after⟩, fun index activation live => ?_⟩
  · rcases does.caller with ⟨-, same⟩ | ⟨-, w, compiles⟩
    · rw [same]
      exact h.codeless
    · exact h.codeless.compiled laysOut compiles
  -- the caller of a live call is settled, so that no call sees another layout
  have settled {first : Activation} (known : s.activations[index]? = some (some first)) :
      s'.caller = s.caller := by
    obtain ⟨r, ready⟩ := (h.calls index first known).ready
    exact does.settled (by rw [ready_eq_ok.mp ready]; nofun)
  obtain ⟨place, known, moves⟩ := does.moves_to live
  cases moves with
  | kept other =>
      have old := does.ne_activation (List.getElem?_eq_some_iff.mp known).1
      rw [settled known, writtenBy_of_other (other _ rfl) old]
      exact h.of_other accounts laysOut contained does known (other _ rfl)
  | looked looks =>
      rw [settled known, writtenBy_of_looks looks, memory_of_looks accounts.manages looks]
      exact h.calls index activation known
  | changed changes =>
      rw [settled known]
      exact intact_of_changes accounts laysOut h.codeless (h.calls index _ known)
        (holds_of_live holds known) changes
  | opened last made caller opens =>
      subst last made
      rw [caller]
      exact intact_of_opens accounts h.codeless holds.tidy contained opens

/-- Every run keeps the arguments of every live call as they were last written. -/
theorem after (accounts : ctx.Accounts ledger) (laysOut : ctx.LaysOut ledger.memory)
    (first : Intact ledger ctx.target (fun _ => none) s) {actions : List Action}
    (contained : ∀ action ∈ actions, action.isContained) :
    Intact ledger ctx.target (fun index => lastWritten? ctx index s actions)
      (Session.after ctx s actions) := by
  induction actions using List.reverseRecOn with
  | nil => exact first
  | append_singleton actions action ih =>
      have before := ih fun other member => contained other (List.mem_append_left _ member)
      have one := contained action (List.mem_append_right _ (List.mem_singleton_self _))
      have stepped := before.step accounts laysOut one (does_after ctx s actions action)
      unfold lastWritten? at stepped ⊢
      simp only [noted_concat]
      exact stepped

end Intact

/-- No action changes the slots of the caller. -/
theorem model_after (ctx : Context ω) (s : Session ω) (actions : List Action) :
    (after ctx s actions).caller.model = s.caller.model := by
  rw [caller_after]

end

/-! ## Sparse processes -/

/-- A session at its start, in a sparse process in which anything may fail that can. -/
def troubled (caller : Caller) (base : UInt64) (faults : Faults) (script : List Stop)
    (failingAllocations failingFrees : List Bool) : Session (Watched Debuggee) where
  caller
  world := {
    process := { memory := .ofBase base, faults, script }
    failingAllocations
    failingFrees }

/-- Whatever is done with any number of calls, however their runs stop and wherever allocations and
frees fail: a live call whose arguments are written reads them back as they were last written for
it, bit for bit, but for the pointees of pointers, which are those of the slots. -/
theorem reads_last_written (target : Target) {caller : Caller} (made : caller.Made) (base : UInt64)
    (faults : Faults) (script : List Stop) (failingAllocations failingFrees : List Bool)
    {actions : List Action} (contained : ∀ action ∈ actions, action.isContained) :
    let ctx := (Debuggee.sparse target .layoutOnly).watched
    let start := troubled caller base faults script failingAllocations failingFrees
    let s := after ctx start actions
    ∀ index activation, s.activations[index]? = some (some activation) →
      activation.stage ≠ .prepared →
        ∃ args, lastWritten? ctx index start actions = some args ∧
          args.length = caller.model.arity ∧
          ((step ctx (.read index)).run s).1 =
            .values (List.zipWith Value.readBack caller.model.argumentTys args) := by
  intro ctx start s index activation live written
  have accounts : ctx.Accounts (Watched.ledger Debuggee.memory Debuggee.Reliable) :=
    Debuggee.accounts Debuggee.fresh_sparse target .layoutOnly
  have laysOut : ctx.LaysOut fun w => w.process.memory :=
    (Debuggee.laysOut target Debuggee.sparseAllocator).watched
  have first : Intact (Watched.ledger Debuggee.memory Debuggee.Reliable) ctx.target
      (fun _ => none) start := by
    refine ⟨⟨made.source_eq, made.plain, fun r ready => ?_⟩,
      ⟨[], Memory.tidy_ofBase base, fun a => Nat.le_refl _⟩, nofun⟩
    have status := ready_eq_ok.mp ready
    rw [show start.caller.status = .new from made.new] at status
    cases status
  have intact := first.after accounts laysOut contained
  obtain ⟨mine, holds⟩ := intact.holds
  obtain ⟨noted, length, w', reads⟩ := (intact.calls index activation live).reads intact.codeless
    accounts.manages holds.tidy written
  have model : s.caller.model = caller.model := model_after ctx start actions
  rw [show (Session.after ctx start actions).caller.model = caller.model from model] at length reads
  refine ⟨activation.arguments, noted, length, ?_⟩
  rw [run_step_read live]
  dsimp only
  rw [show (s.caller.read ctx activation).run.run s.world = _ from reads]
  rfl

/-- A caller of a function that takes an aggregate and a pointer. -/
def mixing : Caller :=
  .ofSignature "f"
    ⟨⟨.void, [.pointer (.record ⟨"pair", 4, 2⟩), .pointer (.int .i8)], false⟩, 0x1000⟩

theorem compilable_mixing : mixing.model.Compilable
    (WrapperSource.ofModel mixing.name mixing.model).structName 4 := by
  have alone : mixing.model.mentions = [⟨"pair", 4, 2⟩, ⟨"pair", 4, 2⟩] := by decide
  have only : ∀ r ∈ mixing.model.mentions, r = ⟨"pair", 4, 2⟩ := by
    rw [alone]
    decide
  exact {
    named := by rw [alone]; decide
    aligned := fun r hr => by
      rw [only r hr]
      exact ⟨1, rfl⟩
    consistent := fun r hr r' hr' _ => (only r hr).trans (only r' hr').symm
    formed := by decide
    inhabited := by decide
    suits := by decide
    converts := by
      rintro p (_ | ⟨_, _ | ⟨_, ⟨⟩⟩⟩)
      · exact .same
      · exact .same
    fits := by decide }

/-- A session on it, in which the first run times out and one allocation and one free fail. -/
def mixedStart : Session (Watched Debuggee) :=
  troubled mixing 0x10000000 {} [.timedOut] [false, false, false, false, true] [true]

/-- Three calls: the second one is broken by its second write and released, and another one takes
its place. -/
def mixed : List Action :=
  let first : List Value := [.aggregate ⟨"pair", 4, 2⟩ [1, 2, 3, 4], .pointer .void 0x2000]
  let second : List Value := [.aggregate ⟨"pair", 4, 2⟩ [5, 6, 7, 8], .pointer (.int .i8) 0x3000]
  [.prepare .fresh, .prepare .fresh, .write 0 first, .write 1 second, .run 0 {},
    .write 1 first, .release 1, .prepare .fresh, .write 2 second]

/-- On a big-endian target of 32 bits the first call still reads its arguments back. -/
theorem reads_last_written_mixed :
    let ctx := (Debuggee.sparse ⟨4, .big⟩ .layoutOnly).watched
    mixing.Made ∧ (∀ action ∈ Action.compile :: mixed, action.isContained) ∧
      ∃ activation,
        (after ctx mixedStart (.compile :: mixed)).activations[0]? = some (some activation) ∧
        activation.stage = .interrupted ∧
        ((step ctx (.read 0)).run (after ctx mixedStart (.compile :: mixed))).1 =
          .values [.aggregate ⟨"pair", 4, 2⟩ [1, 2, 3, 4], .pointer (.int .i8) 0x2000] := by
  intro ctx
  have made : mixing.Made := .ofSignature "f" _
  have contained : ∀ action ∈ Action.compile :: mixed, action.isContained := by decide
  -- the compilation is told by its lemma, and only what follows it is evaluated
  have compiled := @run_compile_layoutOnly _ ctx mixedStart made compilable_mixing
    (Watched.compile_of_process (Debuggee.compile_layoutOnly ..))
  have stage : (after ctx mixedStart (.compile :: mixed)).activations[0]?.join.map
      Activation.stage = some .interrupted := by
    rw [after, compiled]
    decide +kernel
  have noted : lastWritten? ctx 0 mixedStart (.compile :: mixed) =
      some [.aggregate ⟨"pair", 4, 2⟩ [1, 2, 3, 4], .pointer .void 0x2000] := by
    unfold lastWritten?
    rw [Session.noted, compiled]
    decide +kernel
  obtain ⟨activation, joined, interrupted⟩ := Option.map_eq_some_iff.mp stage
  have live := Option.join_eq_some_iff.mp joined
  obtain ⟨args, last, -, reads⟩ := reads_last_written ⟨4, .big⟩ made 0x10000000 {} [.timedOut]
    [false, false, false, false, true] [true] contained 0 activation live
    (by rw [interrupted]; nofun)
  cases noted.symm.trans last
  exact ⟨made, contained, activation, live, interrupted, reads⟩

end Session

end CallThunk
