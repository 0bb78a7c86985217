import CallThunk.Proofs.Wrapper.Checking

/-!
# Printed types mean themselves

The text of a type is cut, parsed and resolved to that type again, wherever it stands in a unit that
declares the records of the type by size and alignment. Declarations only add to what is known, so a
record that one item declares stays declared behind all others.
-/

namespace CallThunk

open Source (Token Word Lexes Ends Parse SourceUnit)
open Source.Parse (headKind)
open Checked (Env State Steps declared declareAll declareItem tyOf)
open WrapperSource (Declares opaqueLine)

namespace Checked

variable {env : Env} {s : State}

/-! ## Declarations stay -/

/-- An item declares no name again, not even one that its own fields adopt. -/
theorem extends_declareItem (item : Source.Item) :
    ((declareItem env item).exec s).2.records.Extends s.records := by
  cases item with
  | functionItem decl => exact .refl _
  | opaqueItem decl =>
      rw [declareItem, exec_declareOpaque]
      split
      · exact .refl _
      next fresh =>
        split
        · exact RecordTable.extends_insert
            (RecordTable.contains_eq_false_iff.mp (by simpa using fresh))
        · exact .refl _
  | structItem decl =>
      have fields := (@steps_placeFields env .empty decl.fields s).extends
      rw [declareItem, exec_declareStruct]
      split
      · exact .refl _
      next fresh =>
        dsimp only
        split
        next record finished =>
          intro name found hfound
          have unknown : s.records.find? decl.name.name = none :=
            RecordTable.contains_eq_false_iff.mp (by simpa using fresh)
          dsimp only
          rw [RecordTable.find?_insert, Placement.name_of_finish? finished, if_neg]
          · exact fields name found hfound
          · rintro rfl
            rw [unknown] at hfound
            cases hfound
        next => exact fields

theorem extends_declareAll (items : List Source.Item) :
    ((declareAll env items).run s : PUnit × State).2.records.Extends s.records := by
  induction items generalizing s with
  | nil => exact .refl _
  | cons item items ih =>
      rw [run_declareAll_cons]
      exact ih.trans (extends_declareItem item)

/-- An item of a unit declares a record by size and alignment, under a name that none of the items
before it uses. -/
def DeclaresOpaque (env : Env) (unit : SourceUnit) (r : RecordTy) : Prop :=
  ∃ before item after, unit.items = before ++ item :: after ∧ Declares item r ∧
    (declared env ⟨before⟩).records.contains r.name = false

/-- A record that is declared by size and alignment is known behind all items. -/
theorem DeclaresOpaque.knows {unit : SourceUnit} {r : RecordTy} (h : DeclaresOpaque env unit r)
    (free : Ty.builtin? r.name = none) (aligned : isPowerOfTwo r.align.toNat) :
    (declared env unit).records.Knows r := by
  obtain ⟨before, item, after, split, ⟨decl, rfl, name, size, align⟩, fresh⟩ := h
  refine ⟨free, r.placed, ?_, rfl⟩
  unfold declared at fresh ⊢
  rw [split, run_declareAll_append, run_declareAll_cons]
  refine extends_declareAll after r.name r.placed ?_
  rw [declareItem, exec_declareOpaque, name, size, align, fresh, aligned]
  simp only [Bool.false_eq_true, if_false, if_true]
  rw [RecordTable.find?_insert]
  exact if_pos rfl

/-- Records of distinct names are all declared by items that declare one each. -/
theorem declaresOpaque_of_forall₂ (env : Env) {items : List Source.Item} {rs : List RecordTy}
    (declares : List.Forall₂ Declares items rs) (distinct : (rs.map RecordTy.name).Nodup)
    (aligned : ∀ r ∈ rs, isPowerOfTwo r.align.toNat) :
    (declared env ⟨items⟩).reports = [] ∧ ∀ r ∈ rs, DeclaresOpaque env ⟨items⟩ r := by
  have run {items : List Source.Item} {rs : List RecordTy}
      (declares : List.Forall₂ Declares items rs) (distinct : (rs.map RecordTy.name).Nodup)
      (aligned : ∀ r ∈ rs, isPowerOfTwo r.align.toNat) :
      declared env ⟨items⟩ = ⟨rs.map RecordTy.placed, []⟩ :=
    run_opaques declares (fun _ _ => rfl) distinct aligned
  refine ⟨by rw [run declares distinct aligned], fun r hr => ?_⟩
  obtain ⟨before, after, rfl⟩ := List.append_of_mem hr
  have front := List.forall₂_take_append _ _ _ declares
  have back := List.forall₂_drop_append _ _ _ declares
  obtain ⟨item, items', first, -, split⟩ := List.forall₂_cons_right_iff.mp back
  rw [List.map_append, List.map_cons, List.nodup_append] at distinct
  obtain ⟨distinctFront, -, apart⟩ := distinct
  refine ⟨items.take before.length, item, items', ?_, first, ?_⟩
  · rw [← split]
    exact (List.take_append_drop before.length items).symm
  · rw [run front distinctFront fun r hr => aligned r (List.mem_append_left _ hr)]
    refine RecordTable.contains_eq_false_iff.mpr (List.find?_eq_none.mpr ?_)
    intro placed hplaced
    obtain ⟨old, hold, rfl⟩ := List.mem_map.mp hplaced
    have different := apart _ (List.mem_map_of_mem hold) r.name List.mem_cons_self
    exact fun same => different (of_decide_eq_true same)

end Checked

/-! ## Types that can be printed -/

/-- What a type must satisfy for its text to be the text of a type in the language. -/
structure Ty.Printable (t : Ty) : Prop where
  /-- Names of records are identifiers, so no keywords. -/
  names : t.Nameable
  /-- No name of a record means a builtin type. -/
  free : ∀ r ∈ t.mentions, Ty.builtin? r.name = none
  /-- Records of one name are the same record. -/
  consistent : Consistent t.mentions
  aligned : ∀ r ∈ t.mentions, isPowerOfTwo r.align.toNat
  /-- Parameters are neither `void` nor records. -/
  formed : t.wellFormed

theorem Ty.mem_records {t : Ty} (h : Consistent t.mentions) {r : RecordTy} :
    r ∈ t.records ↔ r ∈ t.mentions := (Ty.collects_addRecords t []).mem h

/-- The declarations of the records of a type are a unit that declares them all. -/
theorem Ty.Printable.declarations {t : Ty} (h : t.Printable) :
    ∃ unit, SourceUnit.parse (String.join (t.records.map opaqueLine)) = (some unit, []) ∧
      ∀ env, (declared env unit).reports = [] ∧
        ∀ r ∈ t.mentions, Checked.DeclaresOpaque env unit r := by
  have line (r : RecordTy) (hr : r ∈ t.records) {rest : List Char} {ws : List Source.Word}
      (behind : Source.Lexes rest ws) :
      Source.Lexes ((opaqueLine r).toList ++ rest) (WrapperSource.opaqueWords r ++ ws) :=
    WrapperSource.lexes_opaqueLine (h.names r ((Ty.mem_records h.consistent).mp hr)) behind
  have words := WrapperSource.lexes_join line Source.lexes_nil
  rw [List.append_nil, List.append_nil] at words
  obtain ⟨clean, text⟩ := words 0
  obtain ⟨items, derives, declares⟩ := WrapperSource.derives_records text
  have distinct : (t.records.map RecordTy.name).Nodup :=
    (Ty.collects_addRecords t []).distinct List.nodup_nil
  refine ⟨⟨items⟩, Source.parse_eq_some.mpr ⟨clean, derives, rfl⟩, fun env => ?_⟩
  obtain ⟨quiet, all⟩ := Checked.declaresOpaque_of_forall₂ env declares distinct
    fun r hr => h.aligned r ((Ty.mem_records h.consistent).mp hr)
  exact ⟨quiet, fun r hr => all r ((Ty.mem_records h.consistent).mpr hr)⟩

/-- The words of a type are parsed as an expression that means the type, in front of anything that
is no arrow. -/
theorem Ty.parses_words {t : Ty} {ts us : List Token} (words : ts.map Token.word = t.words)
    (behind : headKind us ≠ .arrow) :
    ∃ e, (∀ budget, ts.length ≤ budget → Parse.tyExpr budget (ts ++ us) = .ok (e, us)) ∧
      Means e t := by
  obtain ⟨e, derived, means⟩ := t.derives_words words
  exact ⟨e, fun budget enough => Parse.complete_tyExpr budget derived enough behind, means⟩

/-- Printing a type is undone by the language. Whatever clean text stands behind the text of a type,
as long as it goes on neither with its last word nor with an arrow, the text is cut into tokens that
are parsed as one type expression, to its end; and at every point of checking a unit that declares
the records of the type by size and alignment, the expression resolves to the type, with nothing
reported. There is such a unit: the declarations as wrapper source spells them. -/
theorem Ty.Printable.read_back {t : Ty} (h : t.Printable) :
    (∀ (rest : List Char) (ws : List Word), Ends rest → Lexes rest ws →
      (∀ w ∈ ws.head?, w.1 ≠ .arrow) → ∀ offset, ∃ ts us e,
        Source.cut offset 0 (t.text.toList ++ rest) = ⟨ts ++ us, []⟩ ∧ us.map Token.word = ws ∧
          (∀ budget, ts.length ≤ budget → Parse.tyExpr budget (ts ++ us) = .ok (e, us)) ∧
          ∀ env unit, (∀ r ∈ t.mentions, Checked.DeclaresOpaque env unit r) →
            ∀ s, Steps env (declared env unit) s → (tyOf env e).Gives s t s) ∧
      ∃ unit, SourceUnit.parse (String.join (t.records.map opaqueLine)) = (some unit, []) ∧
        ∀ env, (declared env unit).reports = [] ∧
          ∀ r ∈ t.mentions, Checked.DeclaresOpaque env unit r := by
  refine ⟨fun rest ws ends clean noArrow offset => ?_, h.declarations⟩
  obtain ⟨noErrors, words⟩ := t.lexes_text h.names ends clean offset
  obtain ⟨ts, us, split, typeWords, behindWords⟩ := List.map_eq_append_iff.mp words
  have behind : headKind us ≠ .arrow := by
    cases us with
    | nil => decide
    | cons u us =>
        rw [← behindWords] at noArrow
        exact noArrow u.word rfl
  obtain ⟨e, parsed, means⟩ := Ty.parses_words typeWords behind
  refine ⟨ts, us, e, ?_, behindWords, parsed, fun env unit declares s steps => ?_⟩
  · rw [← split, ← noErrors]
  · refine Checked.gives_tyOf means (fun r hr => ?_) h.formed
    exact ((declares r hr).knows (h.free r hr) (h.aligned r hr)).extend steps.extends

/-- A variadic function type with a record behind its second arrow. -/
def handlerTy : Ty :=
  .function (.function (.record ⟨"S", 24, 8⟩) [.untypedPointer] false)
    [.pointer (.record ⟨"S", 24, 8⟩)] true

theorem handlerTy_printable : handlerTy.Printable where
  names := by unfold Ty.Nameable; decide
  free := by decide
  consistent := by unfold Consistent; decide
  aligned := by decide
  formed := by decide

example : handlerTy.text = "fn(*S, ...) -> fn(ptr) -> S" := by decide

/-- The text is read back in the unit that declares its one record. -/
theorem handlerTy_read_back : ∃ unit ts e,
    SourceUnit.parse (String.join (handlerTy.records.map opaqueLine)) = (some unit, []) ∧
      Source.cut 0 0 handlerTy.text.toList = ⟨ts, []⟩ ∧
        Parse.tyExpr ts.length ts = .ok (e, []) ∧
          (tyOf ⟨8, fun _ => none⟩ e).Gives (declared ⟨8, fun _ => none⟩ unit) handlerTy
            (declared ⟨8, fun _ => none⟩ unit) := by
  obtain ⟨back, unit, parsed, declares⟩ := Ty.Printable.read_back handlerTy_printable
  obtain ⟨ts, us, e, cuts, nothing, taken, resolves⟩ := back [] [] nofun Source.lexes_nil nofun 0
  obtain rfl := List.map_eq_nil_iff.mp nothing
  simp only [List.append_nil] at cuts taken
  exact ⟨unit, ts, e, parsed, cuts, taken _ (Nat.le_refl _),
    resolves _ unit (declares _).2 _ .refl⟩

end CallThunk
