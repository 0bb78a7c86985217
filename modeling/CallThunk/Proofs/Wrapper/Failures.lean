import CallThunk.Proofs.Wrapper.Agreement

/-!
# Failures of the compilers

Parsing fails exactly when it reports an error, checking does, and native compilation does as a
whole. Checking alone does so only for its own errors: what the type system reports while it revises
a unit ends a native compilation and is passed over when no code is asked for, so that a wrapper
comes out next to an error.
-/

namespace CallThunk

namespace Source.SourceUnit

variable {source : String}

/-- All that parsing reports is an error. -/
theorem errorCount_parse : (parse source).2.errorCount = (parse source).2.length := by
  refine List.countP_eq_length.mpr fun d hd => ?_
  rcases List.mem_append.mp hd with hd | hd
  · obtain ⟨bad, -, rfl⟩ := List.mem_map.mp hd
    rfl
  · obtain ⟨error, -, rfl⟩ := List.mem_map.mp hd
    rfl

/-- A source has no unit exactly when parsing it reports an error. -/
theorem parse_fails_iff : (parse source).1 = none ↔ 0 < (parse source).2.errorCount := by
  rw [errorCount_parse, List.length_pos_iff]
  show ite ((parse source).2.isEmpty = true) _ _ = none ↔ _
  by_cases clean : (parse source).2 = []
  · simp [clean]
  · simp [clean]

theorem errorCount_of_parse {unit : SourceUnit} {reports : Diagnostics}
    (h : parse source = (some unit, reports)) : reports.errorCount = 0 := by
  have parsed := mt (@parse_fails_iff source).mpr (by rw [h]; exact Option.some_ne_none unit)
  rw [h] at parsed
  exact Nat.eq_zero_of_not_pos parsed

end Source.SourceUnit

namespace Checked

variable {env : Env} {unit : Source.SourceUnit}

/-- A unit has no checked form exactly when checking it reports an error: no check fails without
one. -/
theorem check_fails_iff : (check env unit).1 = none ↔ 0 < (check env unit).2.errorCount := by
  have loud := (@lawful_inferWrapper env unit).loud (declared env unit)
  rw [check_eq]
  dsimp only
  split
  next errors => exact ⟨fun _ => errors, fun _ => rfl⟩
  next clean =>
    rw [Option.map_eq_none_iff]
    constructor
    · intro failed
      exact absurd (Nat.zero_lt_of_lt (loud failed)) clean
    · intro errors
      exact absurd errors clean

end Checked

namespace Compiler

variable {types : TypeSystem} {target : Target} {source : String}

/-- How many errors the type system reports on the unit of a source. -/
def revisionErrors (types : TypeSystem) (source : String) : Nat :=
  match (Source.SourceUnit.parse source).1 with
  | some unit => (types.transform unit).2.errorCount
  | none => 0

/-- Without a unit, an error was reported, and there was nothing to revise. -/
theorem errors_of_front_none {reports : Diagnostics}
    (h : front types source = (none, reports)) :
    revisionErrors types source = 0 ∧ 0 < reports.errorCount := by
  have fails := @Source.SourceUnit.parse_fails_iff source
  unfold front at h
  unfold revisionErrors
  split at h
  next hp =>
    cases h
    rw [hp] at fails ⊢
    exact ⟨rfl, fails.mp rfl⟩
  next => cases h

/-- With a unit, all errors so far are the type system's. -/
theorem errors_of_front_some {unit : Source.SourceUnit} {revision reports : Diagnostics}
    (h : front types source = (some (unit, revision), reports)) :
    revisionErrors types source = revision.errorCount ∧ reports.errorCount = 0 := by
  obtain ⟨parsed, hp, revises⟩ := front_eq_some h
  unfold revisionErrors
  rw [hp]
  dsimp only
  rw [revises]
  exact ⟨rfl, Source.SourceUnit.errorCount_of_parse hp⟩

/-- Parsing and checking, the common part of the compilers, fail with an error of their own. -/
theorem checked_fails_iff : (checked types target source).1 = none ↔
    revisionErrors types source < (checked types target source).2.errorCount := by
  unfold checked
  rcases hf : front types source with ⟨_ | ⟨unit, revision⟩, reports⟩
  · obtain ⟨quiet, errors⟩ := errors_of_front_none hf
    rw [quiet]
    exact ⟨fun _ => errors, fun _ => rfl⟩
  · obtain ⟨revised, clean⟩ := errors_of_front_some hf
    dsimp only
    rw [Checked.check_fails_iff, Checked.errorCount_append, Checked.errorCount_append, revised]
    omega

theorem lowered_fails_iff {entry : UInt64} {program : Checked.Program} {reports : Diagnostics}
    (clean : reports.errorCount = 0) :
    (lowered entry program reports).1 = none ↔
      0 < (lowered entry program reports).2.errorCount := by
  unfold lowered
  cases Machine.Code.ofFunction program.wrapper with
  | ok code => simp [clean]
  | error e =>
      rw [Checked.errorCount_append]
      exact ⟨fun _ => Nat.lt_add_left _ Nat.one_pos, fun _ => rfl⟩

/-- Native compilation fails exactly when an error is reported, whoever reports it. -/
theorem native_fails_iff {entry : UInt64} : (native entry types target source).1 = none ↔
    0 < (native entry types target source).2.errorCount := by
  unfold native
  rcases hf : front types source with ⟨_ | ⟨unit, revision⟩, reports⟩
  · exact ⟨fun _ => (errors_of_front_none hf).2, fun _ => rfl⟩
  have clean := (errors_of_front_some hf).2
  dsimp only
  split
  next errors =>
    rw [Checked.errorCount_append]
    exact ⟨fun _ => Nat.lt_add_left _ errors, fun _ => rfl⟩
  next quiet =>
    split
    next foreign =>
      rw [Checked.errorCount_append]
      exact ⟨fun _ => Nat.lt_add_left _ Nat.one_pos, fun _ => rfl⟩
    next host =>
      have fails := @Checked.check_fails_iff ⟨target.pointerSize, types.external?⟩ unit
      rcases hc : Checked.check ⟨target.pointerSize, types.external?⟩ unit with
        ⟨_ | program, problems⟩ <;> rw [hc] at fails
      · rw [Checked.errorCount_append]
        exact ⟨fun _ => Nat.lt_add_left _ (fails.mp rfl), fun _ => rfl⟩
      · have valid : problems.errorCount = 0 :=
          Nat.eq_zero_of_not_pos (mt fails.mpr (Option.some_ne_none program))
        refine lowered_fails_iff ?_
        rw [Checked.errorCount_append, Checked.errorCount_append, clean, valid]
        omega

/-- When the compilers fail, for every source, target and type system: a native compilation exactly
when an error is reported, and checking alone exactly when an error is reported that is none of the
type system's. -/
theorem fails_iff_errors (entry : UInt64) (types : TypeSystem) (target : Target)
    (source : String) :
    ((native entry types target source).1 = none ↔
      0 < (native entry types target source).2.errorCount) ∧
    ((layoutOnly types target source).1 = none ↔
      revisionErrors types source < (layoutOnly types target source).2.errorCount) := by
  refine ⟨native_fails_iff, ?_⟩
  rw [layoutOnly_eq]
  dsimp only
  rw [Option.map_eq_none_iff]
  exact checked_fails_iff

/-- A type system that allows no unit. -/
def forbidding : TypeSystem where
  external? _ := none
  transform unit := (unit, [{ severity := .error, message := "not allowed here" }])

/-- Checking alone lets a unit through that the type system has found an error in; native
compilation stops at it. -/
theorem layoutOnly_passes_over_error :
    let source := "fn w(p: ptr) \x7b return; \x7d"
    let reports : Diagnostics := [{ severity := .error, message := "not allowed here" }]
    layoutOnly forbidding .host source = (some ⟨"w", 0, [], none⟩, reports) ∧
      reports.errorCount = 1 ∧ native 0x600000 forbidding .host source = (none, reports) := by
  decide +kernel

end Compiler

end CallThunk
