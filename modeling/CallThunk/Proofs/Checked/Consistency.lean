import CallThunk.Proofs.Checked.Coherence

/-!
# Consistency of checked units

The records of a checked unit are consistent when their table is coherent and knows every record
that the types of the body mention: then looking up the name of a record and comparing types never
disagree. Among the units that checking accepts, the consistent ones are those in which no struct
mentions its own name.
-/

namespace CallThunk.Checked

/-! ## Types of bodies -/

mutual
/-- The types in an expression, in the order of its evaluation. -/
def Expr.tys : Expr → List Ty
  | .param ty | .localVar ty _ => [ty]
  | .load ty base _ => base.tys ++ [ty]
  | .convert ty inner => inner.tys ++ [ty]
  | .call callee signature args => callee.tys ++ Expr.tysAll args ++ [signature.ty]
/-- The types in all of some expressions. -/
def Expr.tysAll : List Expr → List Ty
  | [] => []
  | arg :: args => arg.tys ++ Expr.tysAll args
end

def Stmt.tys : Stmt → List Ty
  | .bind _ init => init.tys
  | .store base _ value => base.tys ++ value.tys
  | .storeCall base _ call => base.tys ++ call.tys
  | .eval e => e.tys
  | .ret => []

/-- The types in the body of a wrapper. -/
def Function.tys (wrapper : Function) : List Ty := wrapper.body.flatMap Stmt.tys

end CallThunk.Checked

namespace CallThunk.RecordTable

variable {table later : RecordTable} {tys tys' : List Ty}

/-- A table knows all records that some types mention. -/
def CoversAll (table : RecordTable) (tys : List Ty) : Prop := ∀ ty ∈ tys, table.Covers ty

namespace CoversAll

@[simp] theorem nil : table.CoversAll [] := nofun

@[simp] theorem append_iff :
    table.CoversAll (tys ++ tys') ↔ table.CoversAll tys ∧ table.CoversAll tys' :=
  List.forall_mem_append

@[simp] theorem singleton_iff {ty : Ty} : table.CoversAll [ty] ↔ table.Covers ty :=
  List.forall_mem_singleton

theorem extend (ext : later.Extends table) (h : table.CoversAll tys) : later.CoversAll tys :=
  fun ty hty => (h ty hty).extend ext

/-- A function type mentions what its signature does. -/
theorem of_signature {signature : Signature} (h : table.Covers signature.ty) :
    table.Covers signature.ret ∧ table.CoversAll signature.params := by
  constructor
  · exact fun r hr => h r (List.mem_append_left _ hr)
  · intro ty hty r hr
    exact h r (List.mem_append_right _ (Ty.mem_mentionsAll.mpr ⟨ty, hty, hr⟩))

/-- The type of an expression mentions nothing that its parts do not. -/
theorem ty {e : Checked.Expr} (h : table.CoversAll e.tys) : table.Covers e.ty := by
  cases e with
  | param ty | localVar ty index => exact h ty (List.mem_singleton_self _)
  | load ty base offset => exact (append_iff.mp h).2 ty (List.mem_singleton_self _)
  | convert ty inner => exact (append_iff.mp h).2 ty (List.mem_singleton_self _)
  | call callee signature args =>
      exact (of_signature ((append_iff.mp h).2 _ (List.mem_singleton_self _))).1

end CoversAll

end CallThunk.RecordTable

namespace CallThunk.Checked

variable {env : Env} {scope : Scope} {s s' : State}

/-! ## Expressions -/

/-- The records of the types in scope are known. -/
structure Scope.Covered (scope : Scope) (table : RecordTable) : Prop where
  param : table.Covers scope.param.2
  locals : ∀ l ∈ scope.locals, table.Covers l.2

theorem Scope.Covered.extend {table later : RecordTable} (ext : later.Extends table)
    (h : scope.Covered table) : scope.Covered later where
  param := h.param.extend ext
  locals l hl := (h.locals l hl).extend ext

theorem covers_of_lookup {table : RecordTable} {name : String} {e : Expr}
    (hscope : scope.Covered table) (h : scope.lookup? name = some e) : table.CoversAll e.tys := by
  unfold Scope.lookup? at h
  split at h
  next index ty found =>
    cases h
    obtain ⟨newer, older, locals, -, -⟩ := Scope.local?_eq_some.mp found
    rw [Expr.tys, RecordTable.CoversAll.singleton_iff]
    exact hscope.locals (name, ty) (by simp [locals])
  next =>
    split at h
    · cases h
      exact RecordTable.CoversAll.singleton_iff.mpr hscope.param
    · cases h

/-- The type of a field is one of a coherent table. -/
theorem covers_of_selectField {base ty : Ty} {field : Source.Ident} {offset : UInt32}
    (hs : s.records.Coherent) (h : (selectField base field).Gives s (ty, offset) s') :
    s' = s ∧ s.records.Covers ty := by
  obtain ⟨rfl, r, record, f, -, known, member, rfl, -⟩ := selectField_gives h
  exact ⟨rfl, hs.closed record (RecordTable.mem_of_find? known) f member⟩

theorem covers_of_adapt {value e : Expr} {target : Ty} {span : Source.Span} {table : RecordTable}
    (hvalue : table.CoversAll value.tys) (htarget : table.Covers target)
    (h : (adapt value target span).Gives s e s') : table.CoversAll e.tys := by
  have converted : table.CoversAll (Expr.convert target value).tys := by
    simp [Expr.tys, hvalue, htarget]
  unfold adapt at h
  split at h
  · obtain ⟨rfl, -⟩ := Check.gives_pure.mp h
    split
    · exact hvalue
    · exact converted
  · simp only [Check.gives_bind, Check.gives_pure] at h
    obtain ⟨-, -, -, rfl, -⟩ := h
    exact converted
  · exact absurd h Check.not_gives_reject

mutual
/-- All records of the types in a checked expression are known behind the check. -/
theorem covers_of_inferExpr : {e : Source.Expr} → {c : Expr} → {s s' : State} →
    scope.Covered s.records → s.records.Coherent → (inferExpr env scope e).Gives s c s' →
      s'.records.CoversAll c.tys
  | .var .., _, _, _, hscope, _, h => by
      cases exprGives_of_inferExpr h with
      | var found => exact covers_of_lookup hscope found
  | .cast _ ty _, _, _, _, hscope, hs, h => by
      cases exprGives_of_inferExpr h with
      | cast value_gives target_gives =>
          have first := covers_of_inferExpr hscope hs value_gives
          have ext := ((lawful_tyOf ty).steps_of_gives target_gives).extends
          simp [Expr.tys, first.extend ext, (covers_of_tyOf target_gives).1]
  | .field base _ _, _, _, _, hscope, hs, h => by
      cases exprGives_of_inferExpr h with
      | field base_gives field_gives =>
          have first := covers_of_inferExpr hscope hs base_gives
          have coherent := ((lawful_inferExpr scope base).steps_of_gives base_gives).coherent hs
          obtain ⟨rfl, covered⟩ := covers_of_selectField coherent field_gives
          simp [Expr.tys, first, covered]
  | .call callee _ _, _, _, _, hscope, hs, h => by
      cases exprGives_of_inferExpr h with
      | call target_gives signature_gives _ args_give =>
          have first := covers_of_inferExpr hscope hs target_gives
          have steps := (lawful_inferExpr scope callee).steps_of_gives target_gives
          obtain ⟨hty, rfl⟩ := calleeSignature_gives signature_gives
          have covered := hty ▸ first.ty
          have ext := ((lawful_inferArgs _ _ _).steps_of_gives args_give).extends
          have rest := covers_of_inferArgs (hscope.extend steps.extends) (steps.coherent hs)
            (RecordTable.CoversAll.of_signature covered).2 args_give
          simp [Expr.tys, first.extend ext, rest, covered.extend ext]
theorem covers_of_inferArgs : {params : List Ty} → {args : List Source.Expr} →
    {values : List Expr} → {s s' : State} → scope.Covered s.records → s.records.Coherent →
      s.records.CoversAll params →
        Check.Gives (.mk (inferArgs env scope params args)) s values s' →
          s'.records.CoversAll (Expr.tysAll values)
  | params, [], values, s, s', _, _, _, h => by
      obtain ⟨rfl, rfl⟩ := Check.gives_pure.mp h
      exact .nil
  | params, arg :: args, values, s, s', hscope, hs, hparams, h => by
      rw [inferArgs_cons, Check.gives_cons] at h
      obtain ⟨value, t, rest, hvalue, hrest, rfl⟩ := h
      obtain ⟨first, u, hfirst, hvalue⟩ := Check.gives_bind.mp hvalue
      have typed := covers_of_inferExpr hscope hs hfirst
      have steps := (lawful_inferExpr scope arg).steps_of_gives hfirst
      have behind := ((lawful_inferArgs scope params.tail args).steps_of_gives hrest).extends
      rw [Expr.tysAll, RecordTable.CoversAll.append_iff]
      cases params with
      | nil =>
          obtain ⟨rfl, rfl⟩ := Check.gives_pure.mp hvalue
          exact ⟨typed.extend behind, covers_of_inferArgs (hscope.extend steps.extends)
            (steps.coherent hs) .nil hrest⟩
      | cons p params =>
          have adapts := (@lawful_adapt env first p arg.span).steps_of_gives hvalue
          have ext := adapts.extends.trans steps.extends
          have declared : t.records.Covers p :=
            (hparams p (List.mem_cons_self ..)).extend ext
          refine ⟨(covers_of_adapt (typed.extend adapts.extends) declared hvalue).extend behind,
            covers_of_inferArgs (hscope.extend ext) (adapts.coherent (steps.coherent hs)) ?_ hrest⟩
          exact fun ty hty => (hparams ty (List.mem_cons_of_mem _ hty)).extend ext
end

/-! ## Statements -/

/-- The types of a checked statement, and those that are in scope behind it, only have known
records. -/
theorem covers_of_inferStmt {stmt : Source.Stmt} {c : Stmt} {scope' : Scope}
    (hscope : scope.Covered s.records) (hs : s.records.Coherent)
    (h : (inferStmt env scope stmt).Gives s (c, scope') s') :
    scope'.Covered s'.records ∧ s'.records.CoversAll c.tys := by
  have kept := hscope.extend ((@lawful_inferStmt env scope stmt).steps_of_gives h).extends
  cases stmtGives_of_inferStmt h with
  | bind value_gives =>
      have first := covers_of_inferExpr hscope hs value_gives
      refine ⟨⟨kept.param, ?_⟩, first⟩
      rintro l (_ | ⟨_, hl⟩)
      · exact first.ty
      · exact kept.locals l hl
  | store base_gives field_gives value_gives _ adapts =>
      have first := covers_of_inferExpr hscope hs base_gives
      have steps := (lawful_inferExpr _ _).steps_of_gives base_gives
      obtain ⟨rfl, covered⟩ := covers_of_selectField (steps.coherent hs) field_gives
      have second := covers_of_inferExpr (hscope.extend steps.extends) (steps.coherent hs)
        value_gives
      have ext := ((lawful_inferExpr _ _).steps_of_gives value_gives).extends
      have ext' := ((@lawful_adapt env _ _ _).steps_of_gives adapts).extends
      refine ⟨kept, RecordTable.CoversAll.append_iff.mpr ⟨first.extend (ext'.trans ext), ?_⟩⟩
      exact covers_of_adapt (second.extend ext') (covered.extend (ext'.trans ext)) adapts
  | storeCall base_gives field_gives value_gives =>
      have first := covers_of_inferExpr hscope hs base_gives
      have steps := (lawful_inferExpr _ _).steps_of_gives base_gives
      obtain ⟨rfl, -⟩ := covers_of_selectField (steps.coherent hs) field_gives
      have second := covers_of_inferExpr (hscope.extend steps.extends) (steps.coherent hs)
        value_gives
      have ext := ((lawful_inferExpr _ _).steps_of_gives value_gives).extends
      exact ⟨kept, RecordTable.CoversAll.append_iff.mpr ⟨first.extend ext, second⟩⟩
  | eval value_gives _ records =>
      have first := covers_of_inferExpr hscope hs value_gives
      rw [← records] at first
      exact ⟨kept, first⟩
  | ret => exact ⟨hscope, .nil⟩

theorem covers_of_inferBody {stmts : List Source.Stmt} {scope : Scope} {s : State}
    (hscope : scope.Covered s.records) (hs : s.records.Coherent) :
    ((inferBody env scope stmts).run s : List Stmt × State).2.records.CoversAll
      (((inferBody env scope stmts).run s : List Stmt × State).1.flatMap Stmt.tys) := by
  induction stmts generalizing scope s with
  | nil => exact .nil
  | cons stmt stmts ih =>
      have steps := (@lawful_inferStmt env scope stmt).steps s
      rw [run_inferBody_cons]
      rcases hr : (inferStmt env scope stmt).exec s with ⟨_ | ⟨checked, scope'⟩, t⟩ <;>
        rw [hr] at steps
      · exact ih (hscope.extend steps.extends) (steps.coherent hs)
      · obtain ⟨hscope', first⟩ := covers_of_inferStmt hscope hs hr
        have rest := ih hscope' (steps.coherent hs)
        have ext := (@steps_inferBody env scope' stmts t).extends
        cases checked with
        | ret => exact .nil
        | bind | store | storeCall | eval =>
            rw [List.flatMap_cons, RecordTable.CoversAll.append_iff]
            exact ⟨first.extend ext, rest⟩

/-! ## Units -/

/-- The records of a program are consistent: no name is used twice, and every record that the type
of a field or a type in the body mentions is found under its name, with its size and alignment. -/
structure Program.Consistent (program : Program) : Prop where
  coherent : program.records.Coherent
  covered : program.records.CoversAll program.wrapper.tys

theorem covers_of_inferFunction {decl : Source.FunctionDecl} {wrapper : Function}
    (hs : s.records.Coherent) (h : (inferFunction env decl).Gives s wrapper s') :
    s'.records.CoversAll wrapper.tys := by
  unfold inferFunction at h
  split at h
  next param _ =>
    obtain ⟨ty, t, hty, h⟩ := Check.gives_bind.mp h
    have coherent := ((lawful_tyOf param.ty).steps_of_gives hty).coherent hs
    dsimp only at h
    split at h
    next =>
      simp only [Check.gives_bind, Check.gives_liftM, Check.gives_pure] at h
      obtain ⟨body, u, hbody, rfl, rfl⟩ := h
      have covered := @covers_of_inferBody env decl.body ⟨(param.name.name, ty), []⟩ t
        ⟨(covers_of_tyOf hty).1, fun _ hl => absurd hl List.not_mem_nil⟩ coherent
      rwa [hbody] at covered
    next => exact absurd h Check.not_gives_reject_bind
  next => exact absurd h Check.not_gives_reject

theorem covers_of_inferWrapper {unit : Source.SourceUnit} {wrapper : Function}
    (hs : s.records.Coherent) (h : (inferWrapper env unit).Gives s wrapper s') :
    s'.records.CoversAll wrapper.tys := by
  unfold inferWrapper at h
  split at h
  · exact covers_of_inferFunction hs h
  · simp at h
  · exact absurd h Check.not_gives_reject

/-- An accepted unit has declared all its items without an error, so a struct that mentions itself
has given its name to two records. -/
theorem not_distinct_of_check {unit : Source.SourceUnit} {program : Program}
    {reports : Diagnostics} (h : check env unit = (some program, reports))
    {decl : Source.StructDecl} (member : .structItem decl ∈ unit.items)
    (self : decl.MentionsItself) : ¬ program.records.names.Nodup := by
  obtain ⟨gives, clean⟩ := check_eq_some.mp h
  have steps := (lawful_inferWrapper unit).steps_of_gives gives
  have none := steps.errorCount_le
  obtain ⟨before, behind, items⟩ := List.append_of_mem member
  -- No error in the end means none anywhere, so none while the struct is declared.
  unfold declared at steps none
  rw [items, run_declareAll_append, run_declareAll_cons] at steps none
  generalize ((declareAll env before).run ⟨[], []⟩ : PUnit × State).2 = s at steps none
  have lower := @errorCount_le_declareItem env (.structItem decl) s
  have upper := @errorCount_le_declareAll env behind
    ((declareItem env (.structItem decl)).exec s).2
  intro distinct
  refine @not_distinct_declareStruct env s decl self (by dsimp only at none; omega) ?_
  exact (((names_declareAll behind _).trans steps.names_kept).sublist).nodup distinct

/-- Among the accepted units, for every pointer size and every type system, the consistent ones are
those in which no struct mentions its own name: then no name is used for two records, and every
record in the type of a field or in a type of the body is found under its name with its own size and
alignment. -/
theorem check_consistent_iff {unit : Source.SourceUnit} {program : Program}
    {reports : Diagnostics} (h : check env unit = (some program, reports)) :
    program.Consistent ↔ ∀ decl, .structItem decl ∈ unit.items → ¬ decl.MentionsItself := by
  constructor
  · intro consistent decl member self
    exact not_distinct_of_check h member self consistent.coherent.distinct
  · intro plain
    obtain ⟨gives, -⟩ := check_eq_some.mp h
    have coherent : (declared env unit).records.Coherent := coherent_declareAll plain .nil
    have steps := (lawful_inferWrapper unit).steps_of_gives gives
    exact ⟨steps.coherent coherent, covers_of_inferWrapper coherent gives⟩

/-- A struct with the address of a record of some name, and a wrapper that loads it. -/
def pointingUnit (name : String) : Source.SourceUnit :=
  let span : Source.Span := ⟨0, 0⟩
  let ident (name : String) : Source.Ident := ⟨name, span⟩
  let pointer (name : String) : Source.TyExpr := .pointer (.named (ident name)) span
  ⟨[.structItem ⟨ident "S", [⟨ident "next", pointer name⟩], span⟩,
    .functionItem ⟨ident "w", [⟨ident "p", pointer "S"⟩],
      [.bind (ident "q") (.field (.var (ident "p") span) (ident "next") span) span], span⟩]⟩

/-- A debugger that knows every name as that of 16 bytes. -/
def knowing : Env := ⟨8, fun _ => some (16, 8)⟩

theorem check_consistent_iff_pointing : ∃ program reports,
    check knowing (pointingUnit "FILE") = (some program, reports) ∧ program.Consistent := by
  have checked : (check knowing (pointingUnit "FILE")).1.isSome := by decide
  obtain ⟨program, hp⟩ := Option.isSome_iff_exists.mp checked
  refine ⟨program, _, Prod.ext hp rfl, (check_consistent_iff (Prod.ext hp rfl)).mpr ?_⟩
  intro decl member
  obtain rfl := show decl = _ by simpa [pointingUnit] using member
  decide

/-- A struct that points to itself, under a name that the type system knows as well, is accepted
with two records of one name; its field is declared to point to 16 bytes, and 8 bytes are found
under the name. -/
theorem check_double_record :
    let double : PlacedRecord := ⟨"S", 8, 8, [⟨"next", .pointer (.record ⟨"S", 16, 8⟩), 0, 8, 8⟩]⟩
    ∃ program, check knowing (pointingUnit "S") = (some program, []) ∧
      program.records = [double, double] ∧ ¬ program.Consistent := by
  intro double
  have accepted : (check knowing (pointingUnit "S")).1.map (fun program => program.records) =
      some [double, double] := by decide
  have silent : (check knowing (pointingUnit "S")).2 = [] := by decide
  obtain ⟨program, found, records⟩ := Option.map_eq_some_iff.mp accepted
  refine ⟨program, Prod.ext found silent, records, fun consistent => ?_⟩
  have distinct := consistent.coherent.distinct
  rw [records] at distinct
  exact absurd distinct (by decide)

end CallThunk.Checked
