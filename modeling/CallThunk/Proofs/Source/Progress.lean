import CallThunk.Source.Parser

/-!
# How far parsers read

What a parser does with the tokens that are left depends on them alone: not on its budget as long as
that is larger than their number, and not on what stands behind the end of input. It leaves a rest
of these tokens, and an error it fails with is about one of them or about their end. All of this is
said at once by comparing two runs, and it carries over from the parts of a parser to the whole.
-/

namespace CallThunk.Source

/-- An error found in front of a tail, whose first token it is about when it is about the end. -/
def SyntaxError.before (tail : List Token) : SyntaxError → SyntaxError
  | unexpected expected none => unexpected expected tail.head?
  | error => error

/-- The token an error is about; without one it is about the end of input. -/
def SyntaxError.token? : SyntaxError → Option Token
  | unexpected _ found => found
  | integerRange t => some t

/-- A failure in front of a tail. -/
def Failure.before (tail : List Token) (failure : Failure) : Failure :=
  ⟨failure.error.before tail, failure.rest ++ tail⟩

namespace Parse

variable {α β : Type} {tail ts : List Token} {bound least : Nat}

/-- How a run on some tokens went and how it went in front of a tail: it took the same tokens, at
least as many as given when it did not fail, and left the rest. -/
inductive Alike (tail ts : List Token) (least : Nat) :
    Except Failure (α × List Token) → Except Failure (α × List Token) → Prop where
  | gives {a : α} {rest : List Token} (left : rest <:+ ts)
      (taken : rest.length + least ≤ ts.length) :
      Alike tail ts least (.ok (a, rest)) (.ok (a, rest ++ tail))
  | fails {failure : Failure} (left : failure.rest <:+ ts)
      (place : ∀ t ∈ failure.error.token?, t ∈ ts) :
      Alike tail ts least (.error failure) (.error (failure.before tail))

/-- Two parsers run alike on all token lists below a length, the second one in front of a tail. -/
def Agree (tail : List Token) (bound least : Nat) (p q : Parse α) : Prop :=
  ∀ ts, (∀ t ∈ ts, t.kind ≠ .eof) → ts.length < bound → Alike tail ts least (p ts) (q (ts ++ tail))

namespace Agree

variable {p q : Parse α} {f g : α → Parse β}

/-- No list is shorter than the empty one. -/
theorem zero : Agree tail 0 least p q := fun _ _ small => nomatch small

theorem mono {bound' least' : Nat} (h : Agree tail bound least p q) (hbound : bound' ≤ bound)
    (hleast : least' ≤ least) : Agree tail bound' least' p q := by
  intro ts clean small
  have run := h ts clean (by omega)
  generalize p ts = x, q (ts ++ tail) = y at run ⊢
  cases run with
  | gives left taken => exact .gives left (by omega)
  | fails left place => exact .fails left place

protected theorem pure (a : α) : Agree tail bound 0 (pure a) (pure a) :=
  fun ts _ _ => .gives (List.suffix_refl ts) (Nat.le_refl _)

/-- What goes on does so with fewer tokens, and needs to take fewer. -/
theorem bind {first : Nat} (h : Agree tail bound first p q)
    (next : ∀ a, Agree tail (bound - first) (least - first) (f a) (g a)) :
    Agree tail bound least (p >>= f) (q >>= g) := by
  intro ts clean small
  have run := h ts clean small
  show Alike tail ts least ((p ts).bind fun r => f r.1 r.2)
    ((q (ts ++ tail)).bind fun r => g r.1 r.2)
  generalize p ts = x, q (ts ++ tail) = y at run ⊢
  cases run with
  | fails left place => exact .fails left place
  | @gives a rest left taken =>
      have run := next a rest (fun t ht => clean t (left.mem ht)) (by omega)
      show Alike tail ts least (f a rest) (g a (rest ++ tail))
      generalize f a rest = x, g a (rest ++ tail) = y at run ⊢
      cases run with
      | gives left' taken' => exact .gives (left'.trans left) (by omega)
      | fails left' place => exact .fails (left'.trans left) fun t ht => left.mem (place t ht)

end Agree

/-! ## Single tokens -/

section
-- what stands behind the tokens is nothing, or the end of input in front of anything
variable (closes : ∀ t ∈ tail.head?, t.kind = .eof)
include closes

variable {enough budget budget' : Nat}

end

end Parse

end CallThunk.Source
