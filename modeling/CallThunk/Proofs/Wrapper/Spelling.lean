import CallThunk.Wrapper.Source
import CallThunk.Proofs.Ty.Spelling
import CallThunk.Proofs.Source.Parsing
import Mathlib.Data.List.Forall2

/-!
# Wrapper source is read back

The source of a wrapper is cut into words that the grammar derives one unit from: the records that
the slots mention, the struct of the slots, and a function that makes one call.
-/

namespace CallThunk

open Source (Word Token Lexes Ends isIdentifier)

/-! ## Names -/

namespace Source

def keywords : List String := ["struct", "opaque", "fn", "let", "as", "return"]

/-- A word that does not start as a keyword does is an identifier. -/
theorem isIdentifier_of_start {c d : Char} {cs : List Char} (hc : isWordStart c)
    (hcs : ∀ x ∈ d :: cs, isWordChar x)
    (start : ∀ word ∈ keywords, word.toList.take 2 ≠ [c, d]) :
    isIdentifier (String.ofList (c :: d :: cs)) := by
  have different (word : String) (h : word ∈ keywords) : c :: d :: cs ≠ word.toList := by
    intro same
    refine start word h ?_
    rw [← same]
    rfl
  refine isIdentifier_ofList hc hcs ?_
  unfold wordKind
  rw [if_neg (different _ (by decide)), if_neg (different _ (by decide)),
    if_neg (different _ (by decide)), if_neg (different _ (by decide)),
    if_neg (different _ (by decide)), if_neg (different _ (by decide))]

/-- A word is one token of its kind. -/
theorem lexes_keyword (word : String) {kind : TokenKind} {rest : List Char} {ws : List Word}
    (start : word.toList.head?.any isWordStart) (chars : word.toList.all isWordChar)
    (hkind : wordKind word.toList = kind) (ends : Ends rest) (h : Lexes rest ws) :
    Lexes (word.toList ++ rest) ((kind, word) :: ws) := by
  cases heq : word.toList with
  | nil =>
      rw [heq] at start
      cases start
  | cons c cs =>
      rw [heq] at start chars hkind
      have whole : word = String.ofList (c :: cs) := by
        rw [← heq, String.ofList_toList]
      rw [whole, ← hkind]
      exact lexes_word start (fun x hx => List.all_eq_true.mp chars x (List.mem_cons_of_mem _ hx))
        ends h

/-- A dot in front of a name is no part of `...`. -/
theorem piece_of_dot {name : String} (h : isIdentifier name) (rest : List Char) :
    Piece.at ('.' :: (name.toList ++ rest)) = .token .dot 1 := by
  unfold isIdentifier at h
  split at h
  · cases h
  next c cs heq =>
    have notDot : c ≠ '.' := by
      rintro rfl
      revert h
      simp [isWordStart]
    rw [heq, List.cons_append, Piece.at]
    intro _ dots
    exact notDot (List.cons.inj dots).1

end Source

theorem SlotRole.isIdentifier_field (role : SlotRole) : isIdentifier role.field := by
  cases role with
  | callee => decide
  | result => decide
  | argument index =>
      have digits : ∀ x ∈ (Numeral.decimal index).toList, Source.isWordChar x := fun x hx => by
        simp [Source.isWordChar, Numeral.isDigit_of_mem_decimal hx]
      have text : (SlotRole.argument index).field =
          String.ofList ('a' :: 'r' :: 'g' :: '_' :: (Numeral.decimal index).toList) := by
        apply String.toList_injective
        simp [field]
      rw [text]
      refine Source.isIdentifier_of_start (by decide) ?_ (by decide)
      simpa using ⟨by decide, by decide, by decide, digits⟩

namespace WrapperSource

theorem isWordChar_of_mem_identifierPart {name : String} {c : Char}
    (h : c ∈ (identifierPart name).toList) : Source.isWordChar c := by
  unfold identifierPart at h
  split at h
  · have anon : "anon".toList.all Source.isWordChar := by decide
    exact List.all_eq_true.mp anon c h
  · rw [String.toList_ofList] at h
    obtain ⟨d, -, rfl⟩ := List.mem_map.mp h
    split
    next word =>
      simp only [Char.isAlphanum, Bool.or_eq_true, decide_eq_true_eq] at word
      rcases word with (alpha | digit) | rfl
      · simp [Source.isWordChar, Source.isWordStart, alpha]
      · simp [Source.isWordChar, digit]
      · decide
    next => decide

/-- The names that a source defines start with two underscores. -/
theorem isIdentifier_underscores (stem name : String) (hstem : stem.toList.all Source.isWordChar) :
    isIdentifier ("__" ++ stem ++ identifierPart name) := by
  have text : "__" ++ stem ++ identifierPart name =
      String.ofList ('_' :: '_' :: (stem.toList ++ (identifierPart name).toList)) := by
    apply String.toList_injective
    simp
  rw [text]
  refine Source.isIdentifier_of_start (by decide) ?_ (by decide)
  intro x hx
  rcases List.mem_cons.mp hx with rfl | hx
  · decide
  · rcases List.mem_append.mp hx with hx | hx
    · exact List.all_eq_true.mp hstem x hx
    · exact isWordChar_of_mem_identifierPart hx

variable {name : String} {model : StructModel}

theorem isIdentifier_structName : isIdentifier (ofModel name model).structName := by
  have stem : "__fncall_args_" = "__" ++ "fncall_args_" := by decide
  show isIdentifier ("__fncall_args_" ++ identifierPart name)
  rw [stem]
  exact isIdentifier_underscores _ name (by decide)

theorem isIdentifier_functionName : isIdentifier (ofModel name model).functionName := by
  have stem : "__fncall_wrapper_" = "__" ++ "fncall_wrapper_" := by decide
  show isIdentifier ("__fncall_wrapper_" ++ identifierPart name)
  rw [stem]
  exact isIdentifier_underscores _ name (by decide)

/-! ## Words -/

def opaqueWords (r : RecordTy) : List Word :=
  [(.kwOpaque, "opaque"), (.ident, r.name), (.colon, ":"), (.ident, "size"),
    (.int, Numeral.decimal r.size.toNat), (.comma, ","), (.ident, "align"),
    (.int, Numeral.decimal r.align.toNat), (.semi, ";")]

def fieldWords (slot : Slot) : List Word :=
  (.ident, slot.field) :: (.colon, ":") :: (slot.ty.words ++ [(.comma, ",")])

def selectWords (slot : Slot) : List Word := [(.ident, "args"), (.dot, "."), (.ident, slot.field)]

def argWords : List Slot → List Word
  | [] => []
  | [slot] => selectWords slot
  | slot :: slots => selectWords slot ++ (.comma, ",") :: argWords slots

def callWords (model : StructModel) : List Word :=
  selectWords model.calleeSlot ++ (.lParen, "(") :: (argWords model.inputSlots ++ [(.rParen, ")")])

def placeWords (model : StructModel) : List Word :=
  match model.resultSlot? with
  | some slot => selectWords slot ++ [(.eq, "=")]
  | none => []

def bindWords (structName : String) : List Word :=
  [(.kwLet, "let"), (.ident, "args"), (.eq, "="), (.ident, "input"), (.kwAs, "as"), (.star, "*"),
    (.ident, structName), (.semi, ";")]

def structWords (structName : String) (model : StructModel) : List Word :=
  (.kwStruct, "struct") :: (.ident, structName) :: (.lBrace, "\x7b") ::
    (model.slots.flatMap fieldWords ++ [(.rBrace, "\x7d")])

def functionWords (functionName structName : String) (model : StructModel) : List Word :=
  (.kwFn, "fn") :: (.ident, functionName) :: (.lParen, "(") :: (.ident, "input") :: (.colon, ":") ::
    (.ident, "ptr") :: (.rParen, ")") :: (.lBrace, "\x7b") ::
    (bindWords structName ++ (placeWords model ++ callWords model ++ [(.semi, ";")]) ++
      [(.rBrace, "\x7d")])

/-- The words of the source of a wrapper. -/
def words (name : String) (model : StructModel) : List Word :=
  (records model).flatMap opaqueWords ++ structWords (ofModel name model).structName model ++
    functionWords (ofModel name model).functionName (ofModel name model).structName model

/-! ## Cutting -/

section
variable {rest : List Char} {ws : List Word}

theorem lexes_indent (h : Lexes rest ws) : Lexes ("    ".toList ++ rest) ws :=
  Source.lexes_blank (c := ' ') (by decide) (Source.lexes_blank (c := ' ') (by decide)
    (Source.lexes_blank (c := ' ') (by decide) (Source.lexes_blank (c := ' ') (by decide) h)))

/-- The empty line behind declarations. -/
theorem lexes_gap (none : Bool) (h : Lexes rest ws) :
    Lexes ((if none then "" else "\n").toList ++ rest) ws := by
  cases none with
  | true => exact h
  | false => exact Source.lexes_blank (c := '\n') (by decide) h

theorem lexes_opaqueLine {r : RecordTy} (hr : isIdentifier r.name) (h : Lexes rest ws) :
    Lexes ((opaqueLine r).toList ++ rest) (opaqueWords r ++ ws) := by
  have stop := lexes_symbol (c := ';') rfl (Source.lexes_blank (c := '\n') (by decide) h)
  have align := Source.lexes_keyword "align" (by decide) (by decide) rfl (ends_cons (by decide))
    (Source.lexes_blank (c := ' ') (by decide)
      (Source.lexes_decimal (n := r.align.toNat) (ends_cons (by decide)) stop))
  have size := Source.lexes_keyword "size" (by decide) (by decide) rfl (ends_cons (by decide))
    (Source.lexes_blank (c := ' ') (by decide)
      (Source.lexes_decimal (n := r.size.toNat) (ends_cons (by decide))
        (lexes_symbol (c := ',') rfl (Source.lexes_blank (c := ' ') (by decide) align))))
  have word := Source.lexes_keyword "opaque" (by decide) (by decide) rfl (ends_cons (by decide))
    (Source.lexes_blank (c := ' ') (by decide)
      (Source.lexes_identifier hr (ends_cons (by decide))
        (lexes_symbol (c := ':') rfl (Source.lexes_blank (c := ' ') (by decide) size))))
  unfold opaqueLine
  simp only [String.toList_append, List.append_assoc]
  exact word

theorem lexes_fieldLine {slot : Slot} (names : slot.ty.Nameable) (h : Lexes rest ws) :
    Lexes ((fieldLine slot).toList ++ rest) (fieldWords slot ++ ws) := by
  have comma := lexes_symbol (c := ',') rfl (Source.lexes_blank (c := '\n') (by decide) h)
  have typed := lexes_symbol (c := ':') rfl (Source.lexes_blank (c := ' ') (by decide)
    (Ty.lexes_text slot.ty names (ends_cons (by decide)) comma))
  have line := lexes_indent
    (Source.lexes_identifier slot.role.isIdentifier_field (ends_cons (by decide)) typed)
  unfold fieldLine fieldWords
  simp only [String.toList_append, List.append_assoc, List.cons_append]
  exact line

theorem lexes_select {slot : Slot} (ends : Ends rest) (h : Lexes rest ws) :
    Lexes (("args." ++ slot.field).toList ++ rest) (selectWords slot ++ ws) := by
  have field := lexes_symbol (Source.piece_of_dot slot.role.isIdentifier_field rest)
    (Source.lexes_identifier slot.role.isIdentifier_field ends h)
  have word := Source.lexes_keyword "args" (by decide) (by decide) rfl (ends_cons (by decide)) field
  rw [String.toList_append, List.append_assoc]
  exact word

theorem lexes_args {slots : List Slot} (ends : Ends rest) (h : Lexes rest ws) :
    Lexes ((String.intercalate ", " (slots.map fun slot => "args." ++ slot.field)).toList ++ rest)
      (argWords slots ++ ws) := by
  induction slots with
  | nil => exact h
  | cons slot slots ih =>
      cases slots with
      | nil =>
          have only := @lexes_select rest ws slot ends h
          simpa [argWords] using only
      | cons next slots =>
          have comma := lexes_symbol (c := ',') rfl (Source.lexes_blank (c := ' ') (by decide) ih)
          have first := @lexes_select _ _ slot (ends_cons (by decide)) comma
          rw [List.map_cons, String.intercalate_cons_of_ne_nil (by simp)]
          simp only [argWords, String.toList_append, List.append_assoc, List.cons_append] at first ⊢
          exact first

theorem lexes_callText (model : StructModel) (h : Lexes rest ws) :
    Lexes ((callText model).toList ++ rest) (callWords model ++ ws) := by
  have closes := lexes_symbol (c := ')') rfl h
  have args := @lexes_args _ _ model.inputSlots (ends_cons (by decide)) closes
  have opens := lexes_symbol (c := '(') rfl args
  have call := @lexes_select _ _ model.calleeSlot (ends_cons (by decide)) opens
  unfold callText callWords
  simp only [String.toList_append, List.append_assoc, List.cons_append] at call ⊢
  exact call

theorem lexes_callLine (model : StructModel) (h : Lexes rest ws) :
    Lexes ((callLine model).toList ++ rest)
      (placeWords model ++ callWords model ++ (.semi, ";") :: ws) := by
  have stop := lexes_symbol (c := ';') rfl (Source.lexes_blank (c := '\n') (by decide) h)
  have call := lexes_callText model stop
  unfold callLine placeWords
  cases model.resultSlot? with
  | none =>
      have line := lexes_indent call
      simp only [String.toList_append, List.append_assoc]
      exact line
  | some slot =>
      have eq := Source.lexes_blank (c := ' ') (by decide)
        (lexes_symbol (c := '=') rfl (Source.lexes_blank (c := ' ') (by decide) call))
      have line := lexes_indent (@lexes_select _ _ slot (ends_cons (by decide)) eq)
      simp only [String.toList_append, List.append_assoc] at line ⊢
      exact line

theorem lexes_join {α : Type} {line : α → String} {word : α → List Word} {xs : List α}
    (hline : ∀ x ∈ xs, ∀ {rest : List Char} {ws : List Word}, Lexes rest ws →
      Lexes ((line x).toList ++ rest) (word x ++ ws)) (h : Lexes rest ws) :
    Lexes ((String.join (xs.map line)).toList ++ rest) (xs.flatMap word ++ ws) := by
  induction xs with
  | nil => exact h
  | cons x xs ih =>
      have first := hline x (List.mem_cons_self ..)
        (ih fun y hy => hline y (List.mem_cons_of_mem _ hy))
      simpa [String.join_cons] using first

theorem lexes_structText {structName : String} (hname : isIdentifier structName)
    (names : ∀ slot ∈ model.slots, slot.ty.Nameable) (h : Lexes rest ws) :
    Lexes (("struct " ++ structName ++ " \x7b\n" ++ String.join (model.slots.map fieldLine) ++
      "\x7d\n\n").toList ++ rest) (structWords structName model ++ ws) := by
  have closes := lexes_symbol (c := '\x7d') rfl (Source.lexes_blank (c := '\n') (by decide)
    (Source.lexes_blank (c := '\n') (by decide) h))
  have fields := lexes_join (fun slot hslot _ _ => lexes_fieldLine (names slot hslot)) closes
  have opens := Source.lexes_blank (c := ' ') (by decide) (lexes_symbol (c := '\x7b') rfl
    (Source.lexes_blank (c := '\n') (by decide) fields))
  have word := Source.lexes_keyword "struct" (by decide) (by decide) rfl (ends_cons (by decide))
    (Source.lexes_blank (c := ' ') (by decide)
      (Source.lexes_identifier hname (ends_cons (by decide)) opens))
  unfold structWords
  simp only [String.toList_append, List.append_assoc, List.cons_append]
  exact word

theorem lexes_bindText {structName : String} (hname : isIdentifier structName)
    (h : Lexes rest ws) :
    Lexes (("    let args = input as *" ++ structName ++ ";\n").toList ++ rest)
      (bindWords structName ++ ws) := by
  have stop := lexes_symbol (c := ';') rfl (Source.lexes_blank (c := '\n') (by decide) h)
  have star := lexes_symbol (c := '*') rfl
    (Source.lexes_identifier hname (ends_cons (by decide)) stop)
  have as := Source.lexes_keyword "as" (by decide) (by decide) rfl (ends_cons (by decide))
    (Source.lexes_blank (c := ' ') (by decide) star)
  have input := Source.lexes_keyword "input" (by decide) (by decide) rfl (ends_cons (by decide))
    (Source.lexes_blank (c := ' ') (by decide) as)
  have eq := lexes_symbol (c := '=') rfl (Source.lexes_blank (c := ' ') (by decide) input)
  have args := Source.lexes_keyword "args" (by decide) (by decide) rfl (ends_cons (by decide))
    (Source.lexes_blank (c := ' ') (by decide) eq)
  have line := lexes_indent (Source.lexes_keyword "let" (by decide) (by decide) rfl
    (ends_cons (by decide)) (Source.lexes_blank (c := ' ') (by decide) args))
  simp only [String.toList_append, List.append_assoc]
  exact line

theorem lexes_functionText {functionName structName : String}
    (hfunction : isIdentifier functionName) (hstruct : isIdentifier structName)
    (model : StructModel) :
    Lexes ("fn " ++ functionName ++ "(input: ptr) \x7b\n" ++ "    let args = input as *" ++
      structName ++ ";\n" ++ callLine model ++ "\x7d\n").toList
      (functionWords functionName structName model) := by
  have closes := lexes_symbol (c := '\x7d') rfl (Source.lexes_blank (c := '\n') (by decide)
    Source.lexes_nil)
  have body := lexes_bindText hstruct (lexes_callLine model closes)
  have opens := lexes_symbol (c := ')') rfl (Source.lexes_blank (c := ' ') (by decide)
    (lexes_symbol (c := '\x7b') rfl (Source.lexes_blank (c := '\n') (by decide) body)))
  have ptr := lexes_symbol (c := ':') rfl (Source.lexes_blank (c := ' ') (by decide)
    (Source.lexes_keyword "ptr" (by decide) (by decide) rfl (ends_cons (by decide)) opens))
  have input := lexes_symbol (c := '(') rfl
    (Source.lexes_keyword "input" (by decide) (by decide) rfl (ends_cons (by decide)) ptr)
  have word := Source.lexes_keyword "fn" (by decide) (by decide) rfl (ends_cons (by decide))
    (Source.lexes_blank (c := ' ') (by decide)
      (Source.lexes_identifier hfunction (ends_cons (by decide)) input))
  unfold functionWords
  simp only [String.toList_append, List.append_assoc, List.cons_append] at word ⊢
  exact word

theorem newline_not_mem_identifierPart : '\n' ∉ (identifierPart name).toList := by
  intro h
  have word := isWordChar_of_mem_identifierPart h
  revert word
  decide

theorem isIdentifier_of_mem_records (names : ∀ slot ∈ model.slots, slot.ty.Nameable) {r : RecordTy}
    (h : r ∈ records model) : isIdentifier r.name := by
  rcases (Ty.collects_addRecordsList (model.slots.map Slot.ty) []).only r h with h | h
  · cases h
  · obtain ⟨ty, hty, hr⟩ := Ty.mem_mentionsAll.mp h
    obtain ⟨slot, hslot, rfl⟩ := List.mem_map.mp hty
    exact names slot hslot r hr

/-- The source is cut into its words when the names of all records are identifiers. -/
theorem lexes_text (names : ∀ slot ∈ model.slots, slot.ty.Nameable) :
    Lexes (ofModel name model).text.toList (words name model) := by
  have function := lexes_functionText (@isIdentifier_functionName name model)
    (@isIdentifier_structName name model) model
  have fields := lexes_structText (@isIdentifier_structName name model) names function
  have declarations := lexes_join
    (fun r hr _ _ => lexes_opaqueLine (isIdentifier_of_mem_records names hr))
    (lexes_gap ((records model).map opaqueLine).isEmpty fields)
  have callee : model.calleeSlot.ty.Nameable := names _ (List.mem_cons_self ..)
  have line : '\n' ∉ (" call wrapper for `" ++ identifierPart name ++ "`: " ++
      model.signature.ty.text).toList := by
    simp only [String.toList_append, List.mem_append, not_or]
    exact ⟨⟨⟨by decide, newline_not_mem_identifierPart⟩, by decide⟩,
      model.calleeSlot.ty.newline_not_mem_text callee⟩
  have comment := Source.lexes_comment line declarations
  have slashes : "// call wrapper for `".toList = '/' :: '/' :: " call wrapper for `".toList := by
    decide
  unfold words
  unfold ofModel at comment ⊢
  simp only [String.toList_append, List.append_assoc, List.cons_append, slashes] at comment ⊢
  exact comment

end

/-! ## Deriving -/

open Source (TyDerives TypedDerives ListDerives AtomDerives SelectionsDerive CastsDerive ExprDerives
  StmtDerives BodyDerives ItemDerives UnitDerives)

/-- An item that declares a record by its size and alignment. -/
def Declares (item : Source.Item) (r : RecordTy) : Prop :=
  ∃ decl, item = .opaqueItem decl ∧ decl.name.name = r.name ∧ decl.size = r.size ∧
    decl.align = r.align

/-- A field that is written as a slot. -/
def Holds (field : Source.Typed) (slot : Slot) : Prop :=
  field.name.name = slot.field ∧ Means field.ty slot.ty

/-- An expression that selects the field of a slot. -/
def Selects (e : Source.Expr) (slot : Slot) : Prop :=
  ∃ args span field span', e = .field (.var args span) field span' ∧ args.name = "args" ∧
    field.name = slot.field

/-- An expression that calls the function of a model with all its arguments. -/
def Calls (e : Source.Expr) (model : StructModel) : Prop :=
  ∃ callee args span, e = .call callee args span ∧ Selects callee model.calleeSlot ∧
    List.Forall₂ Selects args model.inputSlots

/-- A statement that binds the address of the struct. -/
def Binds (stmt : Source.Stmt) (structName : String) : Prop :=
  ∃ args input span ty span' span'', stmt = .bind args (.cast (.var input span) ty span') span'' ∧
    args.name = "args" ∧ input.name = "input" ∧
    ∀ r : RecordTy, r.name = structName → Means ty (.pointer (.record r))

/-- A statement that calls the function of a model and keeps the result, if there is one. -/
def Keeps (stmt : Source.Stmt) (model : StructModel) : Prop :=
  match model.resultSlot? with
  | some slot => ∃ place value span, stmt = .assign place value span ∧ Selects place slot ∧
      Calls value model
  | none => ∃ call, stmt = .eval call ∧ Calls call model

theorem derives_opaque {ts : List Token} {r : RecordTy}
    (h : ts.map Token.word = opaqueWords r) : ∃ item, ItemDerives ts item ∧ Declares item r := by
  obtain ⟨start, us, rfl, starts, -, h⟩ := words_eq_cons h
  obtain ⟨name, us, rfl, word, hname, h⟩ := words_eq_cons h
  obtain ⟨colon, us, rfl, separates, -, h⟩ := words_eq_cons h
  obtain ⟨sizeWord, us, rfl, sizeKind, sizeText, h⟩ := words_eq_cons h
  obtain ⟨size, us, rfl, sizeInt, sizeIs, h⟩ := words_eq_cons h
  obtain ⟨comma, us, rfl, separates', -, h⟩ := words_eq_cons h
  obtain ⟨alignWord, us, rfl, alignKind, alignText, h⟩ := words_eq_cons h
  obtain ⟨align, us, rfl, alignInt, alignIs, h⟩ := words_eq_cons h
  obtain ⟨stop, us, rfl, stops, -, h⟩ := words_eq_cons h
  obtain rfl := List.map_eq_nil_iff.mp h
  have sizeValue : size.IsInteger r.size := ⟨sizeInt, by rw [sizeIs, Numeral.value?_decimal]⟩
  have alignValue : align.IsInteger r.align := ⟨alignInt, by rw [alignIs, Numeral.value?_decimal]⟩
  exact ⟨_, .opaqueItem starts word separates ⟨sizeKind, sizeText⟩ sizeValue separates'
    ⟨alignKind, alignText⟩ alignValue stops, _, rfl, hname, rfl, rfl⟩

theorem derives_fields {slots : List Slot} {ts : List Token}
    (h : ts.map Token.word = slots.flatMap fieldWords) :
    ∃ fields, ListDerives TypedDerives ts fields ∧ List.Forall₂ Holds fields slots := by
  induction slots generalizing ts with
  | nil =>
      obtain rfl := List.map_eq_nil_iff.mp h
      exact ⟨[], .nil, .nil⟩
  | cons slot slots ih =>
      obtain ⟨us, rest, rfl, hus, hrest⟩ := List.map_eq_append_iff.mp h
      obtain ⟨name, us, rfl, word, hname, hus⟩ := words_eq_cons hus
      obtain ⟨colon, us, rfl, separates, -, hus⟩ := words_eq_cons hus
      obtain ⟨ty, us, rfl, hty, hus⟩ := List.map_eq_append_iff.mp hus
      obtain ⟨comma, us, rfl, comma_is, -, hus⟩ := words_eq_cons hus
      obtain rfl := List.map_eq_nil_iff.mp hus
      obtain ⟨e, derived, means⟩ := slot.ty.derives_words hty
      obtain ⟨fields, derives, holds⟩ := ih hrest
      have first : TypedDerives (name :: colon :: ty) ⟨name.ident, e⟩ := .mk word separates derived
      have all := ListDerives.cons first comma_is derives
      rw [show name :: colon :: ty ++ comma :: rest = name :: colon :: (ty ++ [comma]) ++ rest by
        simp] at all
      exact ⟨_, all, .cons ⟨hname, means⟩ holds⟩

theorem derives_select {ts : List Token} {slot : Slot} (h : ts.map Token.word = selectWords slot) :
    ∃ args dot field, ts = [args, dot, field] ∧ args.kind = .ident ∧ dot.kind = .dot ∧
      field.kind = .ident ∧ args.lexeme = "args" ∧ field.lexeme = slot.field := by
  obtain ⟨args, us, rfl, word, hargs, h⟩ := words_eq_cons h
  obtain ⟨dot, us, rfl, selects, -, h⟩ := words_eq_cons h
  obtain ⟨field, us, rfl, word', hfield, h⟩ := words_eq_cons h
  obtain rfl := List.map_eq_nil_iff.mp h
  exact ⟨args, dot, field, rfl, word, selects, word', hargs, hfield⟩

theorem exprDerives_select {ts : List Token} {slot : Slot}
    (h : ts.map Token.word = selectWords slot) : ∃ e, ExprDerives ts e ∧ Selects e slot := by
  obtain ⟨args, dot, field, rfl, word, selects, word', hargs, hfield⟩ := derives_select h
  have derived : ExprDerives ([args] ++ [dot, field] ++ []) _ :=
    .mk (.var word) (.field selects word' .nil) .nil
  exact ⟨_, derived, _, _, _, _, rfl, hargs, hfield⟩

theorem derives_args {slots : List Slot} {ts : List Token}
    (h : ts.map Token.word = argWords slots) :
    ∃ args, ListDerives ExprDerives ts args ∧ List.Forall₂ Selects args slots := by
  induction slots generalizing ts with
  | nil =>
      obtain rfl := List.map_eq_nil_iff.mp h
      exact ⟨[], .nil, .nil⟩
  | cons slot slots ih =>
      cases slots with
      | nil =>
          obtain ⟨e, derived, selects⟩ := exprDerives_select h
          exact ⟨[e], .last derived, .cons selects .nil⟩
      | cons next slots =>
          obtain ⟨us, rest, rfl, hus, hrest⟩ := List.map_eq_append_iff.mp h
          obtain ⟨comma, rest, rfl, separates, -, hrest⟩ := words_eq_cons hrest
          obtain ⟨e, derived, selects⟩ := exprDerives_select hus
          obtain ⟨args, derives, selectsAll⟩ := ih hrest
          exact ⟨e :: args, .cons derived separates derives, .cons selects selectsAll⟩

theorem derives_call {ts : List Token} {model : StructModel}
    (h : ts.map Token.word = callWords model) : ∃ e, ExprDerives ts e ∧ Calls e model := by
  obtain ⟨us, rest, rfl, hus, h⟩ := List.map_eq_append_iff.mp h
  obtain ⟨opens, rest, rfl, left, -, h⟩ := words_eq_cons h
  obtain ⟨vs, rest, rfl, hvs, h⟩ := List.map_eq_append_iff.mp h
  obtain ⟨closes, rest, rfl, right, -, h⟩ := words_eq_cons h
  obtain rfl := List.map_eq_nil_iff.mp h
  obtain ⟨args, dot, field, rfl, word, selects, word', hargs, hfield⟩ := derives_select hus
  obtain ⟨values, passed, selectsAll⟩ := derives_args hvs
  have derived : ExprDerives ([args] ++ (dot :: field :: (opens :: vs ++ closes :: [])) ++ []) _ :=
    .mk (.var word) (.field selects word' (.call left passed right .nil)) .nil
  rw [List.append_nil] at derived
  exact ⟨_, derived, _, _, _, rfl, ⟨_, _, _, _, rfl, hargs, hfield⟩, selectsAll⟩

theorem derives_bind {ts : List Token} {structName : String}
    (h : ts.map Token.word = bindWords structName) :
    ∃ stmt, StmtDerives ts stmt ∧ Binds stmt structName := by
  obtain ⟨start, us, rfl, starts, -, h⟩ := words_eq_cons h
  obtain ⟨args, us, rfl, word, hargs, h⟩ := words_eq_cons h
  obtain ⟨eq, us, rfl, is, -, h⟩ := words_eq_cons h
  obtain ⟨input, us, rfl, word', hinput, h⟩ := words_eq_cons h
  obtain ⟨mark, us, rfl, marks, -, h⟩ := words_eq_cons h
  obtain ⟨star, us, rfl, points, -, h⟩ := words_eq_cons h
  obtain ⟨record, us, rfl, word'', hrecord, h⟩ := words_eq_cons h
  obtain ⟨stop, us, rfl, stops, -, h⟩ := words_eq_cons h
  obtain rfl := List.map_eq_nil_iff.mp h
  have value : ExprDerives ([input] ++ [] ++ (mark :: [star, record] ++ [])) _ :=
    .mk (.var word') .nil (.cons marks (.pointer points (.named word'')) .nil)
  exact ⟨_, .bind starts word is value stops, _, _, _, _, _, _, rfl, hargs, hinput,
    fun r hr => .pointer (.record (hrecord.trans hr.symm))⟩

theorem derives_keep {ts : List Token} {model : StructModel}
    (h : ts.map Token.word = placeWords model ++ callWords model ++ [(.semi, ";")]) :
    ∃ stmt, StmtDerives ts stmt ∧ Keeps stmt model := by
  obtain ⟨us, rest, rfl, hus, hrest⟩ := List.map_eq_append_iff.mp h
  obtain ⟨stop, rest, rfl, stops, -, hrest⟩ := words_eq_cons hrest
  obtain rfl := List.map_eq_nil_iff.mp hrest
  obtain ⟨ps, cs, rfl, hps, hcs⟩ := List.map_eq_append_iff.mp hus
  obtain ⟨call, derived, calls⟩ := derives_call hcs
  unfold placeWords at hps
  unfold Keeps
  cases hresult : model.resultSlot? with
  | none =>
      rw [hresult] at hps
      obtain rfl := List.map_eq_nil_iff.mp hps
      exact ⟨_, .eval derived stops, _, rfl, calls⟩
  | some slot =>
      rw [hresult] at hps
      obtain ⟨place, eqs, rfl, hplace, heqs⟩ := List.map_eq_append_iff.mp hps
      obtain ⟨eq, eqs, rfl, is, -, heqs⟩ := words_eq_cons heqs
      obtain rfl := List.map_eq_nil_iff.mp heqs
      obtain ⟨e, derives, selects⟩ := exprDerives_select hplace
      have assigns := StmtDerives.assign derives is derived stops
      rw [List.append_assoc place [eq] cs]
      exact ⟨_, assigns, _, _, _, rfl, selects, calls⟩

/-- A struct definition with the slots of a model as its fields. -/
structure Lists (decl : Source.StructDecl) (structName : String) (model : StructModel) : Prop where
  name : decl.name.name = structName
  fields : List.Forall₂ Holds decl.fields model.slots

/-- A function that takes the address of the struct and makes the call. -/
structure Wraps (decl : Source.FunctionDecl) (functionName structName : String)
    (model : StructModel) : Prop where
  name : decl.name.name = functionName
  params : ∃ param, decl.params = [param] ∧ param.name.name = "input" ∧
    Means param.ty .untypedPointer
  body : ∃ bind keep, decl.body = [bind, keep] ∧ Binds bind structName ∧ Keeps keep model

/-- The unit of a wrapper: declarations of the mentioned records, the struct and the function. -/
def Spells (unit : Source.SourceUnit) (name : String) (model : StructModel) : Prop :=
  ∃ declarations struct function,
    unit.items = declarations ++ [.structItem struct, .functionItem function] ∧
      List.Forall₂ Declares declarations (records model) ∧
        Lists struct (ofModel name model).structName model ∧
          Wraps function (ofModel name model).functionName (ofModel name model).structName model

theorem derives_records {rs : List RecordTy} {ts : List Token}
    (h : ts.map Token.word = rs.flatMap opaqueWords) :
    ∃ items, UnitDerives ts items ∧ List.Forall₂ Declares items rs := by
  induction rs generalizing ts with
  | nil =>
      obtain rfl := List.map_eq_nil_iff.mp h
      exact ⟨[], .nil, .nil⟩
  | cons r rs ih =>
      obtain ⟨us, rest, rfl, hus, hrest⟩ := List.map_eq_append_iff.mp h
      obtain ⟨item, derived, declares⟩ := derives_opaque hus
      obtain ⟨items, derives, declaresAll⟩ := ih hrest
      exact ⟨item :: items, .cons derived derives, .cons declares declaresAll⟩

theorem derives_struct {ts : List Token} {structName : String} {model : StructModel}
    (h : ts.map Token.word = structWords structName model) :
    ∃ decl, ItemDerives ts (.structItem decl) ∧ Lists decl structName model := by
  obtain ⟨start, us, rfl, starts, -, h⟩ := words_eq_cons h
  obtain ⟨name, us, rfl, word, hname, h⟩ := words_eq_cons h
  obtain ⟨opens, us, rfl, left, -, h⟩ := words_eq_cons h
  obtain ⟨us, rest, rfl, hus, h⟩ := List.map_eq_append_iff.mp h
  obtain ⟨closes, rest, rfl, right, -, h⟩ := words_eq_cons h
  obtain rfl := List.map_eq_nil_iff.mp h
  obtain ⟨fields, derives, holds⟩ := derives_fields hus
  exact ⟨_, .structItem starts word left derives right, hname, holds⟩

theorem derives_function {ts : List Token} {functionName structName : String}
    {model : StructModel} (h : ts.map Token.word = functionWords functionName structName model) :
    ∃ decl, ItemDerives ts (.functionItem decl) ∧ Wraps decl functionName structName model := by
  obtain ⟨start, us, rfl, starts, -, h⟩ := words_eq_cons h
  obtain ⟨name, us, rfl, word, hname, h⟩ := words_eq_cons h
  obtain ⟨opens, us, rfl, left, -, h⟩ := words_eq_cons h
  obtain ⟨input, us, rfl, inputWord, hinput, h⟩ := words_eq_cons h
  obtain ⟨colon, us, rfl, separates, -, h⟩ := words_eq_cons h
  obtain ⟨ptr, us, rfl, ptrWord, hptr, h⟩ := words_eq_cons h
  obtain ⟨closes, us, rfl, right, -, h⟩ := words_eq_cons h
  obtain ⟨brace, us, rfl, braces, -, h⟩ := words_eq_cons h
  obtain ⟨us, rest, rfl, hus, h⟩ := List.map_eq_append_iff.mp h
  obtain ⟨brace', rest, rfl, braces', -, h⟩ := words_eq_cons h
  obtain rfl := List.map_eq_nil_iff.mp h
  obtain ⟨bs, ks, rfl, hbs, hks⟩ := List.map_eq_append_iff.mp hus
  obtain ⟨bind, bound, binds⟩ := derives_bind hbs
  obtain ⟨keep, kept, keeps⟩ := derives_keep hks
  have takes : ListDerives TypedDerives [input, colon, ptr] [⟨input.ident, .named ptr.ident⟩] :=
    .last (.mk inputWord separates (.named ptrWord))
  have untyped : Ty.builtin? ptr.ident.name = some .untypedPointer := by
    show Ty.builtin? ptr.lexeme = _
    rw [hptr]
    rfl
  have does := BodyDerives.cons bound (.cons kept .nil)
  rw [List.append_nil] at does
  exact ⟨_, .functionItem starts word left takes right braces does braces', hname,
    ⟨_, rfl, hinput, .builtin untyped⟩, bind, keep, rfl, binds, keeps⟩

theorem unitDerives_append {ts us : List Token} {items items' : List Source.Item}
    (h : UnitDerives ts items) (h' : UnitDerives us items') :
    UnitDerives (ts ++ us) (items ++ items') := by
  induction h with
  | nil => exact h'
  | cons first _ ih =>
      rw [List.append_assoc, List.cons_append]
      exact .cons first ih

/-- Tokens with the words of a wrapper are derived, as the unit of that wrapper. -/
theorem spells_of_words {ts : List Token} {name : String} {model : StructModel}
    (h : ts.map Token.word = words name model) :
    ∃ unit : Source.SourceUnit, UnitDerives ts unit.items ∧ Spells unit name model := by
  obtain ⟨us, fs, rfl, hus, hfs⟩ := List.map_eq_append_iff.mp h
  obtain ⟨ds, ss, rfl, hds, hss⟩ := List.map_eq_append_iff.mp hus
  obtain ⟨declarations, derives, declares⟩ := derives_records hds
  obtain ⟨struct, structDerives, lists⟩ := derives_struct hss
  obtain ⟨function, functionDerives, wraps⟩ := derives_function hfs
  have items := UnitDerives.cons structDerives (.cons functionDerives .nil)
  rw [List.append_nil] at items
  refine ⟨⟨_⟩, ?_, declarations, struct, function, rfl, declares, lists, wraps⟩
  rw [List.append_assoc]
  exact unitDerives_append derives items

/-- The source of a wrapper is parsed as its unit when the names of all records are identifiers. -/
theorem parse_ofModel {name : String} {model : StructModel}
    (names : ∀ slot ∈ model.slots, slot.ty.Nameable) :
    ∃ unit, Source.SourceUnit.parse (ofModel name model).text = (some unit, []) ∧
      Spells unit name model := by
  obtain ⟨clean, ws⟩ := @lexes_text name model names 0
  obtain ⟨unit, derives, spells⟩ := spells_of_words ws
  exact ⟨unit, Source.parse_eq_some.mpr ⟨clean, derives, rfl⟩, spells⟩

end WrapperSource

end CallThunk
