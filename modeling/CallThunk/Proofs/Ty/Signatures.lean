import CallThunk.Ty.Reader
import CallThunk.Proofs.Runs
import CallThunk.Proofs.Ty.Spelling
import Mathlib.Data.List.Forall2
import Mathlib.Data.List.TakeWhile

/-!
# Spelled signatures are read back

A signature is written as its result with its parameters in parentheses, each type by its text, with
blanks around types, behind asterisks, in empty parentheses and at the end. However many blanks
there are, reading gives the signature again, and only types without functions and records can be
read. What follows `...` is refused.
-/

namespace CallThunk

namespace Text

/-! ## Trimming and splitting -/

/-- A text of blanks. -/
def AllBlank (cs : List Char) : Prop := ∀ c ∈ cs, isBlank c

instance (cs : List Char) : Decidable (AllBlank cs) :=
  decidable_of_iff (cs.all isBlank) List.all_eq_true

theorem trimStart_append {blanks : List Char} (h : AllBlank blanks) (cs : List Char) :
    trimStart (blanks ++ cs) = trimStart cs := List.dropWhile_append_of_pos h

theorem trimStart_of_head {c : Char} {cs : List Char} (h : ¬ isBlank c) :
    trimStart (c :: cs) = c :: cs := List.dropWhile_cons_of_neg h

theorem trimEnd_append {blanks : List Char} (h : AllBlank blanks) (cs : List Char) :
    trimEnd (cs ++ blanks) = trimEnd cs := by
  have reversed : ∀ c ∈ blanks.reverse, isBlank c := by
    intro c hc
    exact h c (List.mem_reverse.mp hc)
  unfold trimEnd
  rw [List.reverse_append, List.dropWhile_append_of_pos reversed]

theorem trimEnd_concat {c : Char} (h : ¬ isBlank c) (cs : List Char) :
    trimEnd (cs ++ [c]) = cs ++ [c] := by
  unfold trimEnd
  rw [List.reverse_append, List.reverse_singleton, List.singleton_append,
    List.dropWhile_cons_of_neg h]
  simp

theorem trim_blank {blanks : List Char} (h : AllBlank blanks) : trim blanks = [] := by
  have start := trimStart_append h []
  rw [List.append_nil] at start
  unfold trim
  rw [start]
  rfl

/-- A visible character is not trimmed away. -/
theorem mem_trim {c : Char} {cs : List Char} (hc : c ∈ cs) (h : ¬ isBlank c) : c ∈ trim cs := by
  have front : c ∈ trimStart cs := by
    rw [← List.takeWhile_append_dropWhile (p := isBlank) (l := cs)] at hc
    rcases List.mem_append.mp hc with taken | left
    · exact absurd (List.mem_takeWhile_imp taken) h
    · exact left
  have back : c ∈ (trimStart cs).reverse.dropWhile isBlank := by
    have reversed : c ∈ (trimStart cs).reverse := List.mem_reverse.mpr front
    rw [← List.takeWhile_append_dropWhile (p := isBlank) (l := (trimStart cs).reverse)] at reversed
    rcases List.mem_append.mp reversed with taken | left
    · exact absurd (List.mem_takeWhile_imp taken) h
    · exact left
  exact List.mem_reverse.mpr back

theorem split_of_not_mem {separator : Char} {cs : List Char} (h : separator ∉ cs) :
    split separator cs = [cs] := by
  induction cs with
  | nil => rfl
  | cons c cs ih =>
      simp only [List.mem_cons, not_or] at h
      rw [split, if_neg (Ne.symm h.1), ih h.2]

theorem split_ne_nil (separator : Char) (cs : List Char) : split separator cs ≠ [] := by
  cases cs with
  | nil => simp [split]
  | cons c cs =>
      rw [split]
      split
      · simp
      · split <;> simp

/-- A separator splits a text. -/
theorem split_append_cons (separator : Char) (xs ys : List Char) :
    split separator (xs ++ separator :: ys) = split separator xs ++ split separator ys := by
  induction xs with
  | nil => simp [split]
  | cons x xs ih =>
      by_cases h : x = separator
      · simp [split, h, ih]
      · obtain ⟨piece, pieces, front⟩ := List.exists_cons_of_ne_nil (split_ne_nil separator xs)
        simp [split, h, ih, front]

/-- What is no separator is in a piece. -/
theorem exists_mem_split {separator c : Char} {cs : List Char} (hc : c ∈ cs) (h : c ≠ separator) :
    ∃ piece ∈ split separator cs, c ∈ piece := by
  induction cs with
  | nil => cases hc
  | cons d cs ih =>
      obtain ⟨first, others, pieces⟩ := List.exists_cons_of_ne_nil (split_ne_nil separator cs)
      by_cases ends : d = separator
      · rcases List.mem_cons.mp hc with rfl | hc
        · exact absurd ends h
        · obtain ⟨piece, hpiece, hmem⟩ := ih hc
          rw [split, if_pos ends]
          exact ⟨piece, List.mem_cons_of_mem _ hpiece, hmem⟩
      · rw [split, if_neg ends, pieces]
        rw [pieces] at ih
        rcases List.mem_cons.mp hc with rfl | hc
        · exact ⟨_, List.mem_cons_self, List.mem_cons_self⟩
        · obtain ⟨piece, hpiece, hmem⟩ := ih hc
          rcases List.mem_cons.mp hpiece with rfl | hpiece
          · exact ⟨_, List.mem_cons_self, List.mem_cons_of_mem _ hmem⟩
          · exact ⟨piece, List.mem_cons_of_mem _ hpiece, hmem⟩

/-! ## Blanks in a text -/

/-- A text with blanks behind its asterisks. -/
inductive Spaced : List Char → List Char → Prop where
  | nil : Spaced [] []
  | star {text blanks cs : List Char} (blank : AllBlank blanks) (rest : Spaced text cs) :
      Spaced ('*' :: text) ('*' :: (blanks ++ cs))
  | other {c : Char} {text cs : List Char} (noStar : c ≠ '*') (rest : Spaced text cs) :
      Spaced (c :: text) (c :: cs)

/-- A text with blanks around it and behind its asterisks. -/
inductive Padded (text : List Char) : List Char → Prop where
  | mk {left cs right : List Char} (before : AllBlank left) (spaced : Spaced text cs)
      (behind : AllBlank right) : Padded text (left ++ cs ++ right)

/-- A text without blanks, commas and opening parentheses that does not end with an asterisk. -/
structure Solid (text : List Char) : Prop where
  visible : ∀ c ∈ text, ¬ isBlank c ∧ c ≠ ',' ∧ c ≠ '('
  nonempty : text ≠ []
  ends : text.getLast? ≠ some '*'

theorem solid_iff {text : List Char} :
    (text.all fun c => !isBlank c && c ≠ ',' && c ≠ '(') ∧ text ≠ [] ∧ text.getLast? ≠ some '*' ↔
      Solid text := by
  rw [List.all_eq_true]
  simp only [Bool.and_eq_true, Bool.not_eq_true', decide_eq_true_eq, and_assoc]
  constructor
  · rintro ⟨visible, nonempty, ends⟩
    exact ⟨by simpa using visible, nonempty, ends⟩
  · rintro ⟨visible, nonempty, ends⟩
    exact ⟨by simpa using visible, nonempty, ends⟩

instance (text : List Char) : Decidable (Solid text) := decidable_of_iff _ solid_iff

theorem Solid.exists_mem {text : List Char} (h : Solid text) :
    ∃ c ∈ text, ¬ isBlank c ∧ c ≠ ',' := by
  obtain ⟨c, hc⟩ := List.exists_mem_of_ne_nil text h.nonempty
  obtain ⟨visible, noComma, -⟩ := h.visible c hc
  exact ⟨c, hc, visible, noComma⟩

theorem Spaced.refl (text : List Char) : Spaced text text := by
  induction text with
  | nil => exact .nil
  | cons c text ih =>
      by_cases h : c = '*'
      · subst h
        exact @Spaced.star text [] text nofun ih
      · exact .other h ih

theorem Padded.refl (text : List Char) : Padded text text := by
  have padded := @Padded.mk text [] text [] nofun (.refl text) nofun
  simpa using padded

/-- Without an asterisk there is no place for blanks. -/
theorem Spaced.eq_of_not_mem {text cs : List Char} (h : Spaced text cs) (noStar : '*' ∉ text) :
    cs = text := by
  induction h with
  | nil => rfl
  | star => exact absurd List.mem_cons_self noStar
  | other _ _ ih => rw [ih fun hmem => noStar (List.mem_cons_of_mem _ hmem)]

theorem Spaced.mem {text cs : List Char} (h : Spaced text cs) {c : Char} (hc : c ∈ cs) :
    c ∈ text ∨ isBlank c := by
  induction h with
  | nil => cases hc
  | star blank _ ih =>
      rcases List.mem_cons.mp hc with rfl | hc
      · exact .inl List.mem_cons_self
      · rcases List.mem_append.mp hc with hc | hc
        · exact .inr (blank c hc)
        · exact (ih hc).imp_left (List.mem_cons_of_mem _)
  | other _ _ ih =>
      rcases List.mem_cons.mp hc with rfl | hc
      · exact .inl List.mem_cons_self
      · exact (ih hc).imp_left (List.mem_cons_of_mem _)

theorem Padded.mem {text cs : List Char} (h : Padded text cs) {c : Char} (hc : c ∈ cs) :
    c ∈ text ∨ isBlank c := by
  obtain ⟨before, spaced, behind⟩ := h
  rcases List.mem_append.mp hc with hc | hc
  · rcases List.mem_append.mp hc with hc | hc
    · exact .inr (before c hc)
    · exact spaced.mem hc
  · exact .inr (behind c hc)

theorem Spaced.mem_of_mem {text cs : List Char} (h : Spaced text cs) {c : Char} (hc : c ∈ text) :
    c ∈ cs := by
  induction h with
  | nil => cases hc
  | star _ _ ih =>
      rcases List.mem_cons.mp hc with rfl | hc
      · exact List.mem_cons_self
      · exact List.mem_cons_of_mem _ (List.mem_append_right _ (ih hc))
  | other _ _ ih =>
      rcases List.mem_cons.mp hc with rfl | hc
      · exact List.mem_cons_self
      · exact List.mem_cons_of_mem _ (ih hc)

theorem Padded.mem_of_mem {text cs : List Char} (h : Padded text cs) {c : Char} (hc : c ∈ text) :
    c ∈ cs := by
  obtain ⟨_, spaced, _⟩ := h
  exact List.mem_append_left _ (List.mem_append_right _ (spaced.mem_of_mem hc))

/-- Blanks in front of a text may be more. -/
theorem Padded.cons {text cs : List Char} (h : Padded text cs) {c : Char} (hc : isBlank c) :
    Padded text (c :: cs) := by
  obtain ⟨before, spaced, behind⟩ := h
  exact .mk (List.forall_mem_cons.mpr ⟨hc, before⟩) spaced behind

/-- The last character of a text that does not end with an asterisk stays the last one. -/
theorem Spaced.getLast?_eq {text cs : List Char} (h : Spaced text cs)
    (ends : text.getLast? ≠ some '*') : cs.getLast? = text.getLast? := by
  induction h with
  | nil => rfl
  | @star text blanks cs _ rest ih =>
      cases rest with
      | nil => exact absurd rfl ends
      | star _ _ | other _ _ =>
          rw [List.getLast?_cons_cons] at ends ⊢
          rw [← List.cons_append, List.getLast?_append_of_ne_nil _ (List.cons_ne_nil _ _), ih ends]
  | @other c text cs _ rest ih =>
      cases rest with
      | nil => rfl
      | star _ _ | other _ _ =>
          rw [List.getLast?_cons_cons] at ends ⊢
          rw [List.getLast?_cons_cons, ih ends]

theorem Spaced.ne_nil {text cs : List Char} (h : Spaced text cs) (nonempty : text ≠ []) :
    cs ≠ [] := by
  cases h with
  | nil => exact nonempty
  | star => exact List.cons_ne_nil _ _
  | other => exact List.cons_ne_nil _ _

theorem Solid.trimEnd_spaced {text cs : List Char} (h : Solid text) (spaced : Spaced text cs)
    (front : List Char) : trimEnd (front ++ cs) = front ++ cs := by
  have last := spaced.getLast?_eq h.ends
  rw [List.getLast?_eq_some_getLast h.nonempty] at last
  obtain ⟨ds, rfl⟩ := List.getLast?_eq_some_iff.mp last
  rw [← List.append_assoc]
  exact trimEnd_concat (h.visible _ (List.getLast_mem _)).1 _

theorem Solid.trimStart_spaced {text cs : List Char} (h : Solid text) (spaced : Spaced text cs)
    (behind : List Char) : trimStart (cs ++ behind) = cs ++ behind := by
  cases spaced with
  | nil => exact absurd rfl h.nonempty
  | star => exact trimStart_of_head (by decide)
  | other => exact trimStart_of_head (h.visible _ List.mem_cons_self).1

/-- Trimming takes the blanks around a text away. -/
theorem Solid.trim_padded {text cs : List Char} (h : Solid text) (padded : Padded text cs) :
    Spaced text (trim cs) := by
  obtain ⟨before, spaced, behind⟩ := padded
  have back := h.trimEnd_spaced spaced []
  rw [List.nil_append] at back
  rw [trim, List.append_assoc, trimStart_append before, h.trimStart_spaced spaced,
    trimEnd_append behind, back]
  exact spaced

/-! ## Lists with commas -/

/-- Texts with commas between them, each with blanks around it; for none there are only blanks. -/
inductive Listed : List (List Char) → List Char → Prop where
  | none {blanks : List Char} (blank : AllBlank blanks) : Listed [] blanks
  | last {text cs : List Char} (only : Padded text cs) : Listed [text] cs
  | cons {text cs ds : List Char} {texts : List (List Char)} (first : Padded text cs)
      (more : texts ≠ []) (rest : Listed texts ds) : Listed (text :: texts) (cs ++ ',' :: ds)

theorem Listed.padFront {texts : List (List Char)} {cs : List Char} (h : Listed texts cs) {c : Char}
    (hc : isBlank c) : Listed texts (c :: cs) := by
  cases h with
  | none blank => exact .none (List.forall_mem_cons.mpr ⟨hc, blank⟩)
  | last only => exact .last (only.cons hc)
  | cons first more rest => exact .cons (first.cons hc) more rest

/-- The pieces of a text between commas that are not blank, trimmed. -/
def pieces (cs : List Char) : List (List Char) :=
  ((split ',' cs).map trim).filter (!·.isEmpty)

theorem pieces_append_cons (cs ds : List Char) :
    pieces (cs ++ ',' :: ds) = pieces cs ++ pieces ds := by
  simp [pieces, split_append_cons]

theorem Solid.pieces_padded {text cs : List Char} (h : Solid text) (padded : Padded text cs) :
    pieces cs = [trim cs] := by
  have whole : split ',' cs = [cs] := by
    apply split_of_not_mem
    intro hmem
    rcases padded.mem hmem with hmem | blank
    · exact (h.visible _ hmem).2.1 rfl
    · revert blank
      decide
  have visible := (h.trim_padded padded).ne_nil h.nonempty
  simp [pieces, whole, visible]

/-- The pieces of a list are its texts. -/
theorem Listed.pieces {texts : List (List Char)} {cs : List Char} (h : Listed texts cs)
    (solid : ∀ text ∈ texts, Solid text) : List.Forall₂ Spaced texts (pieces cs) := by
  induction h with
  | @none blanks blank =>
      have noComma : ',' ∉ blanks := by
        intro hmem
        have := blank _ hmem
        revert this
        decide
      simp [Text.pieces, split_of_not_mem noComma, trim_blank blank]
  | last only =>
      have text := solid _ List.mem_cons_self
      rw [text.pieces_padded only]
      exact .cons (text.trim_padded only) .nil
  | cons first _ _ ih =>
      have text := solid _ List.mem_cons_self
      rw [pieces_append_cons, text.pieces_padded first]
      exact .cons (text.trim_padded first) (ih fun t ht => solid t (List.mem_cons_of_mem _ ht))

end Text

open Text

namespace Ty

/-! ## Reading types -/

/-- Types that are read: there are no functions and no records in them. -/
def isPlain : Ty → Bool
  | void | bool | int _ | float _ => true
  | pointer pointee => pointee.isPlain
  | function .. | record _ => false

theorem solid_text : (ty : Ty) → ty.isPlain → Solid ty.text.toList
  | .void, _ | .bool, _ => by decide
  | .int kind, _ => by cases kind <;> decide
  | .float kind, _ => by cases kind <;> decide
  | .pointer pointee, plain => by
      rw [Ty.text]
      split
      · decide
      · obtain ⟨visible, nonempty, ends⟩ := solid_text pointee plain
        rw [String.toList_append]
        refine ⟨List.forall_mem_cons.mpr ⟨by decide, visible⟩, List.cons_ne_nil _ _, ?_⟩
        rwa [List.getLast?_append_of_ne_nil _ nonempty]

theorem readTrimmed_append {blanks : List Char} (h : AllBlank blanks) (cs : List Char) :
    readTrimmed (blanks ++ cs) = readTrimmed cs := by
  induction blanks with
  | nil => rfl
  | cons c blanks ih =>
      obtain ⟨blank, blanks⟩ := List.forall_mem_cons.mp h
      rw [List.cons_append, readTrimmed, if_pos blank, ih blanks]

/-- Blanks behind asterisks do not count. -/
theorem readTrimmed_spaced : (ty : Ty) → ty.isPlain → {cs : List Char} →
    Spaced ty.text.toList cs → readTrimmed cs = .ok ty
  | .void, _, _, spaced => by rw [spaced.eq_of_not_mem (by decide)]; rfl
  | .bool, _, _, spaced => by rw [spaced.eq_of_not_mem (by decide)]; rfl
  | .int kind, _, _, spaced => by cases kind <;> (rw [spaced.eq_of_not_mem (by decide)]; rfl)
  | .float kind, _, _, spaced => by cases kind <;> (rw [spaced.eq_of_not_mem (by decide)]; rfl)
  | .pointer pointee, plain, cs, spaced => by
      rw [Ty.text] at spaced
      split at spaced
      next untyped =>
        rw [isVoid_iff.mp untyped, spaced.eq_of_not_mem (by decide)]
        rfl
      next =>
        rw [String.toList_append] at spaced
        cases spaced with
        | star blank rest =>
            have inner := readTrimmed_spaced pointee plain rest
            rw [readTrimmed, if_neg (by decide), if_pos rfl, readTrimmed_append blank, inner]
            rfl
        | other noStar => exact absurd rfl noStar

theorem read_padded {ty : Ty} (plain : ty.isPlain) {cs : List Char}
    (h : Padded ty.text.toList cs) : Ty.read cs = .ok ty := by
  obtain ⟨before, spaced, behind⟩ := h
  unfold Ty.read
  rw [trimEnd_append behind, (solid_text ty plain).trimEnd_spaced spaced, readTrimmed_append before]
  exact readTrimmed_spaced ty plain spaced

theorem read_spaced {ty : Ty} (plain : ty.isPlain) {cs : List Char}
    (h : Spaced ty.text.toList cs) : Ty.read cs = .ok ty := by
  have back := (solid_text ty plain).trimEnd_spaced h []
  unfold Ty.read
  rw [← List.nil_append cs, back]
  exact readTrimmed_spaced ty plain h

theorem isPlain_of_builtin {name : String} {ty : Ty} (h : builtin? name = some ty) :
    ty.isPlain := by
  unfold builtin? at h
  split at h <;> cases h <;> rfl

/-- Only plain types are read. -/
theorem isPlain_of_readTrimmed {cs : List Char} {ty : Ty} (h : readTrimmed cs = .ok ty) :
    ty.isPlain := by
  induction cs generalizing ty with
  | nil => cases h
  | cons c cs ih =>
      rw [readTrimmed] at h
      split at h
      · exact ih h
      · split at h
        · obtain ⟨pointee, inner, rfl⟩ := map_eq_ok.mp h
          have plain := ih inner
          exact plain
        · dsimp only at h
          split at h
          next named =>
            cases h
            exact isPlain_of_builtin named
          · cases h

theorem isPlain_of_read {cs : List Char} {ty : Ty} (h : Ty.read cs = .ok ty) : ty.isPlain :=
  isPlain_of_readTrimmed h

end Ty

namespace Signature

/-! ## Reading signatures -/

/-- Signatures that are read. -/
def isPlain (s : Signature) : Bool := s.ret.isPlain && s.params.all Ty.isPlain

/-- The mark of a variadic signature. -/
abbrev dots : List Char := ['.', '.', '.']

/-- What stands between the parentheses of a signature. -/
def entries (s : Signature) : List (List Char) :=
  s.params.map (·.text.toList) ++ if s.variadic then [dots] else []

/-- A way to write a signature: with blanks around each type and behind asterisks, and with blanks
in empty parentheses and at the end. -/
structure Spelling (s : Signature) where
  result : List Char
  inside : List Char
  behind : List Char
  result_padded : Padded s.ret.text.toList result
  inside_listed : Listed s.entries inside
  behind_blank : AllBlank behind

/-- The text of a spelling with more text in front of the closing parenthesis. -/
def Spelling.textWith {s : Signature} (spelling : s.Spelling) (more : List Char) : String :=
  String.ofList (spelling.result ++ '(' :: (spelling.inside ++ more) ++ ')' :: spelling.behind)

def Spelling.text {s : Signature} (spelling : s.Spelling) : String := spelling.textWith []

theorem solid_dots : Solid dots := by decide

theorem solid_entries {s : Signature} (h : s.isPlain) : ∀ text ∈ s.entries, Solid text := by
  intro text ht
  simp only [isPlain, Bool.and_eq_true, List.all_eq_true] at h
  rcases List.mem_append.mp ht with ht | ht
  · obtain ⟨ty, hty, rfl⟩ := List.mem_map.mp ht
    exact Ty.solid_text ty (h.2 ty hty)
  · split at ht
    · rw [List.mem_singleton.mp ht]
      exact solid_dots
    · cases ht

/-- The mark of a variadic signature is no type. -/
theorem ne_dots_of_read {cs : List Char} {ty : Ty} (h : Ty.read cs = .ok ty) : cs ≠ dots := by
  rintro rfl
  have refused : Ty.read dots = .error (.unknownType "...") := by rfl
  rw [refused] at h
  cases h

theorem readParams_cons {cs : List Char} {ty : Ty} (h : Ty.read cs = .ok ty)
    (rest : List (List Char)) :
    readParams (cs :: rest) = do
      let (tys, variadic) ← readParams rest
      return (ty :: tys, variadic) := by
  rw [readParams, if_neg (ne_dots_of_read h), h]
  rfl

/-- Parameters are read up to the mark of a variadic signature, behind which there must not be
anything. -/
theorem readParams_append {params : List Ty} (plain : ∀ ty ∈ params, ty.isPlain)
    {texts : List (List Char)} (h : List.Forall₂ Spaced (params.map (·.text.toList)) texts)
    (rest : List (List Char)) :
    readParams (texts ++ rest) = do
      let (tys, variadic) ← readParams rest
      return (params ++ tys, variadic) := by
  induction params generalizing texts with
  | nil =>
      cases h
      rw [List.nil_append]
      cases readParams rest <;> rfl
  | cons ty params ih =>
      cases h with
      | cons first others =>
          obtain ⟨hty, hparams⟩ := List.forall_mem_cons.mp plain
          rw [List.cons_append, readParams_cons (Ty.read_spaced hty first), ih hparams others]
          cases readParams rest <;> rfl

/-- The result ends at the first parenthesis, and the parameters at the last one. -/
theorem read_parts {result inside behind : List Char} (noOpen : '(' ∉ result)
    (blank : AllBlank behind) :
    Signature.read (String.ofList (result ++ '(' :: inside ++ ')' :: behind)) = do
      let ret ← Ty.read result
      let (params, variadic) ← readParams (pieces inside)
      return ⟨ret, params, variadic⟩ := by
  have front : ∀ c ∈ result, decide (c ≠ '(') = true := by
    intro c hc
    exact decide_eq_true (ne_of_mem_of_not_mem hc noOpen)
  have taken : (result ++ '(' :: (inside ++ ')' :: behind)).takeWhile (· ≠ '(') = result := by
    rw [List.takeWhile_append_of_pos front]
    simp
  have left : (result ++ '(' :: (inside ++ ')' :: behind)).dropWhile (· ≠ '(') =
      '(' :: (inside ++ ')' :: behind) := by
    rw [List.dropWhile_append_of_pos front]
    simp
  have trimmed : trimEnd (inside ++ ')' :: behind) = inside ++ [')'] := by
    rw [← List.singleton_append, ← List.append_assoc, trimEnd_append blank]
    exact trimEnd_concat (by decide) inside
  -- parentheses in between do not matter: only the last character is taken off
  have closed : (inside ++ [')']).getLast? = some ')' := List.getLast?_concat
  unfold Signature.read
  rw [String.toList_ofList, List.append_assoc, List.cons_append]
  dsimp only
  rw [left, taken]
  dsimp only
  rw [trimmed, if_neg (not_not_intro closed), List.dropLast_concat]
  rfl

/-- The pieces of a spelling are those of the parameters, and `...` behind them. -/
theorem exists_front {s : Signature} {texts : List (List Char)}
    (h : List.Forall₂ Spaced s.entries texts) :
    ∃ front, texts = front ++ (if s.variadic then [dots] else []) ∧
      List.Forall₂ Spaced (s.params.map (·.text.toList)) front := by
  have params := (List.forall₂_take_append _ _ _ h.flip).flip
  have mark := (List.forall₂_drop_append _ _ _ h.flip).flip
  generalize (s.params.map (·.text.toList)).length = length at params mark
  have whole := List.take_append_drop length texts
  generalize texts.drop length = last at mark whole
  refine ⟨texts.take length, ?_, params⟩
  refine whole.symm.trans (congrArg (texts.take length ++ ·) ?_)
  split at mark
  · cases mark with
    | cons only none =>
        cases none
        -- the mark has no asterisk, so there is no place for blanks in it
        rw [only.eq_of_not_mem (by decide), if_pos ‹_›]
  · cases mark
    rw [if_neg ‹_›]

theorem readParams_spaced {s : Signature} (plain : s.isPlain) {texts : List (List Char)}
    (h : List.Forall₂ Spaced s.entries texts) : readParams texts = .ok (s.params, s.variadic) := by
  simp only [isPlain, Bool.and_eq_true, List.all_eq_true] at plain
  obtain ⟨front, rfl, params⟩ := exists_front h
  rw [readParams_append plain.2 params]
  cases s.variadic with
  | false =>
      show Except.ok (s.params ++ [], false) = _
      rw [List.append_nil]
  | true =>
      show Except.ok (s.params ++ [], true) = _
      rw [List.append_nil]

theorem readParams_behind {s : Signature} (plain : s.isPlain) (variadic : s.variadic)
    {texts : List (List Char)} (h : List.Forall₂ Spaced s.entries texts) {rest : List (List Char)}
    (more : rest ≠ []) : readParams (texts ++ rest) = .error .behindVariadic := by
  simp only [isPlain, Bool.and_eq_true, List.all_eq_true] at plain
  obtain ⟨front, rfl, params⟩ := exists_front h
  obtain ⟨next, others, rfl⟩ := List.exists_cons_of_ne_nil more
  rw [List.append_assoc, readParams_append plain.2 params, variadic]
  rfl

/-- There is no parenthesis in a result. -/
theorem Spelling.noOpen {s : Signature} (spelling : s.Spelling) (plain : s.isPlain) :
    '(' ∉ spelling.result := by
  simp only [isPlain, Bool.and_eq_true] at plain
  intro hmem
  rcases spelling.result_padded.mem hmem with hmem | blank
  · exact ((Ty.solid_text s.ret plain.1).visible _ hmem).2.2 rfl
  · revert blank
    decide

theorem read_text {s : Signature} (plain : s.isPlain) (spelling : s.Spelling) :
    Signature.read spelling.text = .ok s := by
  have params := readParams_spaced plain (spelling.inside_listed.pieces (solid_entries plain))
  have noOpen := spelling.noOpen plain
  simp only [isPlain, Bool.and_eq_true] at plain
  unfold Spelling.text Spelling.textWith
  rw [List.append_nil, read_parts noOpen spelling.behind_blank,
    Ty.read_padded plain.1 spelling.result_padded, params]
  rfl

/-- A character that is neither blank nor a comma makes a piece. -/
theorem pieces_ne_nil {cs : List Char} (h : ∃ c ∈ cs, ¬ isBlank c ∧ c ≠ ',') : pieces cs ≠ [] := by
  obtain ⟨c, hc, visible, noComma⟩ := h
  obtain ⟨piece, hpiece, hmem⟩ := exists_mem_split hc noComma
  have inside := mem_trim hmem visible
  have kept : trim piece ∈ pieces cs := by
    apply List.mem_filter.mpr
    refine ⟨List.mem_map_of_mem hpiece, ?_⟩
    simp [List.ne_nil_of_mem inside]
  exact List.ne_nil_of_mem kept

theorem read_textWith {s : Signature} (plain : s.isPlain) (variadic : s.variadic)
    (spelling : s.Spelling) {more : List Char} (h : ∃ c ∈ more, ¬ isBlank c ∧ c ≠ ',') :
    Signature.read (spelling.textWith (',' :: more)) = .error .behindVariadic := by
  have params := readParams_behind plain variadic
    (spelling.inside_listed.pieces (solid_entries plain)) (pieces_ne_nil h)
  have noOpen := spelling.noOpen plain
  simp only [isPlain, Bool.and_eq_true] at plain
  unfold Spelling.textWith
  rw [read_parts noOpen spelling.behind_blank, Ty.read_padded plain.1 spelling.result_padded,
    pieces_append_cons, params]
  rfl

theorem isPlain_of_readParams {texts : List (List Char)} {params : List Ty} {variadic : Bool}
    (h : readParams texts = .ok (params, variadic)) : params.all Ty.isPlain := by
  induction texts generalizing params with
  | nil =>
      cases h
      rfl
  | cons text texts ih =>
      rw [readParams] at h
      split at h
      · split at h
        · cases h
          rfl
        · cases h
      · obtain ⟨ty, first, h⟩ := bind_eq_ok.mp h
        obtain ⟨⟨tys, variadic'⟩, others, h⟩ := bind_eq_ok.mp h
        cases h
        rw [List.all_cons, Ty.isPlain_of_read first, ih others]
        rfl

/-- Only plain signatures are read. -/
theorem isPlain_of_read {text : String} {s : Signature} (h : Signature.read text = .ok s) :
    s.isPlain := by
  unfold Signature.read at h
  dsimp only at h
  split at h
  · cases h
  · split at h
    · cases h
    · obtain ⟨ret, result, h⟩ := bind_eq_ok.mp h
      obtain ⟨⟨params, variadic⟩, others, h⟩ := bind_eq_ok.mp h
      cases h
      simp [isPlain, Ty.isPlain_of_read result, isPlain_of_readParams others]

/-! ## Writing signatures -/

/-- The text of a signature. -/
def text (s : Signature) : String :=
  s.ret.text ++ "(" ++ Ty.paramText s.params s.variadic ++ ")"

theorem listed_paramText (ret : Ty) (params : List Ty) (variadic : Bool) :
    Listed (entries ⟨ret, params, variadic⟩) (Ty.paramText params variadic).toList := by
  induction params with
  | nil =>
      cases variadic with
      | false => exact .none nofun
      | true => exact .last (.refl dots)
  | cons ty params ih =>
      rw [Ty.paramText_cons]
      by_cases last : params.isEmpty && !variadic
      · obtain ⟨rfl, rfl⟩ : params = [] ∧ variadic = false := by simpa using last
        rw [if_pos (by decide), String.append_empty]
        exact .last (.refl ty.text.toList)
      · have more : entries ⟨ret, params, variadic⟩ ≠ [] := by
          intro none
          refine last ?_
          cases params <;> cases variadic <;> simp_all [entries]
        rw [if_neg last]
        simp only [String.toList_append]
        exact .cons (.refl ty.text.toList) more (ih.padFront (by decide))

/-- The spelling with a blank behind each comma and no other ones. -/
def spelling (s : Signature) : s.Spelling where
  result := s.ret.text.toList
  inside := (Ty.paramText s.params s.variadic).toList
  behind := []
  result_padded := .refl _
  inside_listed := listed_paramText s.ret s.params s.variadic
  behind_blank := nofun

theorem text_spelling (s : Signature) : s.spelling.text = s.text := by
  apply String.toList_inj.mp
  simp [spelling, Spelling.text, Spelling.textWith, Signature.text]

end Signature

/-- Types whose text is more than blanks and commas, as it is but for names of records. -/
def Ty.Visible : Ty → Prop
  | .record r => ∃ c ∈ r.name.toList, ¬ isBlank c ∧ c ≠ ','
  | _ => True

theorem Ty.Visible.exists_mem {ty : Ty} (h : ty.Visible) :
    ∃ c ∈ ty.text.toList, ¬ isBlank c ∧ c ≠ ',' := by
  cases ty with
  | void | bool | int | float => exact (Ty.solid_text _ rfl).exists_mem
  | pointer pointee =>
      rw [Ty.text]
      split
      · exact (Ty.solid_text .untypedPointer rfl).exists_mem
      · rw [String.toList_append]
        exact ⟨'*', List.mem_cons_self, by decide, by decide⟩
  | function ret params variadic =>
      refine ⟨'(', ?_, by decide, by decide⟩
      simp [Ty.text]
  | record r => exact h

/-- Reading inverts writing: however blanks are put into the text of a signature, it is read, a type
behind `...` is refused, and what is read is written in a way that is read again. -/
theorem Callee.read_spelled :
    (∀ (callee : Callee) (spelling : callee.signature.Spelling), callee.signature.isPlain →
      Callee.read spelling.text callee.address = .ok callee) ∧
    (∀ (s : Signature) (spelling : s.Spelling) (address : UInt64) (further : Ty) (more : List Char),
      s.isPlain → s.variadic → further.Visible → Padded further.text.toList more →
      Callee.read (spelling.textWith (',' :: more)) address = .error .behindVariadic) ∧
    ∀ (text : String) (address : UInt64) (callee : Callee),
      Callee.read text address = .ok callee →
      callee.address = address ∧ callee.signature.isPlain ∧
      Callee.read callee.signature.text address = .ok callee ∧
      ∀ spelling : callee.signature.Spelling, Callee.read spelling.text address = .ok callee := by
  have whole : ∀ (s : Signature) (spelling : s.Spelling) (address : UInt64), s.isPlain →
      Callee.read spelling.text address = .ok ⟨s, address⟩ := by
    intro s spelling address plain
    unfold Callee.read
    rw [Signature.read_text plain spelling]
    rfl
  refine ⟨?_, ?_, ?_⟩
  · intro callee spelling plain
    exact whole callee.signature spelling callee.address plain
  · intro s spelling address further more plain variadic visible padded
    have some_char : ∃ c ∈ more, ¬ isBlank c ∧ c ≠ ',' := by
      obtain ⟨c, hc, visible⟩ := visible.exists_mem
      exact ⟨c, padded.mem_of_mem hc, visible⟩
    unfold Callee.read
    rw [Signature.read_textWith plain variadic spelling some_char]
    rfl
  · intro text address callee h
    obtain ⟨s, read, h⟩ := bind_eq_ok.mp h
    cases h
    have plain := Signature.isPlain_of_read read
    refine ⟨rfl, plain, ?_, ?_⟩
    · rw [← s.text_spelling]
      exact whole s s.spelling address plain
    · intro spelling
      exact whole s spelling address plain

/-- A signature with blanks in all places that take them. -/
def Signature.sparse : Signature.Spelling ⟨.int .i32, [.pointer (.int .i8)], true⟩ where
  result := " i32 ".toList
  inside := " * i8 , ... ".toList
  behind := "  ".toList
  result_padded := @Padded.mk _ [' '] "i32".toList [' '] (by decide) (.refl _) (by decide)
  inside_listed := by
    have pointee : Padded "*i8".toList " * i8 ".toList :=
      @Padded.mk _ [' '] "* i8".toList [' '] (by decide)
        (@Spaced.star _ [' '] _ (by decide) (.refl "i8".toList)) (by decide)
    have mark : Padded Signature.dots " ... ".toList :=
      @Padded.mk _ [' '] Signature.dots [' '] (by decide) (.refl _) (by decide)
    exact .cons pointee (List.cons_ne_nil _ _) (.last mark)
  behind_blank := by decide

theorem Callee.read_spelled_sparse :
    Callee.read " i32 ( * i8 , ... )  " 0x1000 =
      .ok ⟨⟨.int .i32, [.pointer (.int .i8)], true⟩, 0x1000⟩ ∧
    Callee.read " i32 ( * i8 , ... ,u8)  " 0x1000 = .error .behindVariadic ∧
    Callee.read "i32(*i8, ...)" 0x1000 =
      .ok ⟨⟨.int .i32, [.pointer (.int .i8)], true⟩, 0x1000⟩ := by
  obtain ⟨reads, refuses, again⟩ := Callee.read_spelled
  have first := reads ⟨_, 0x1000⟩ Signature.sparse rfl
  have behind := refuses _ Signature.sparse 0x1000 (.int .u8) _ rfl rfl trivial (.refl _)
  have written := (again _ 0x1000 _ first).2.2.1
  have text : Signature.sparse.text = " i32 ( * i8 , ... )  " := rfl
  have more : Signature.sparse.textWith (',' :: (Ty.int .u8).text.toList) =
      " i32 ( * i8 , ... ,u8)  " := rfl
  have canonical : Signature.text ⟨.int .i32, [.pointer (.int .i8)], true⟩ = "i32(*i8, ...)" := rfl
  rw [text] at first
  rw [more] at behind
  rw [canonical] at written
  exact ⟨first, behind, written⟩

end CallThunk
