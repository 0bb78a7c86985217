import CallThunk.Proofs.Source.Progress
import CallThunk.Proofs.Source.Tiling

/-!
# Recovery from syntax errors

Parsing a source goes through its items one by one, also when some of them fail. Every iteration
leaves fewer tokens, so there is one report for a token at most, and every report lies in the
source.
-/

namespace CallThunk.Source

/-! ## Iterations -/

namespace Parse

variable {α : Type} {tail ts : List Token} {least : Nat}

end Parse

/-- How parsing iterates over the items of a token list. What happens in an iteration is the same
with every budget that is large enough, and with anything behind the end of input. After an item or
a failure the tokens that are left come behind the first one. -/
inductive Loop : List Token → List Item → List SyntaxError → Prop where
  | done : Loop [] [] []
  | item {t : Token} {ts rest : List Token} {item : Item} {items : List Item}
      {errors : List SyntaxError}
      (run : ∀ budget tail, (t :: ts).length < budget → (∀ t ∈ tail.head?, t.kind = .eof) →
        Parse.item budget (t :: ts ++ tail) = .ok (item, rest ++ tail))
      (left : rest <:+ ts) (next : Loop rest items errors) : Loop (t :: ts) (item :: items) errors
  | failure {t : Token} {ts : List Token} {failure : Failure} {items : List Item}
      {errors : List SyntaxError}
      (run : ∀ budget tail, (t :: ts).length < budget → (∀ t ∈ tail.head?, t.kind = .eof) →
        Parse.item budget (t :: ts ++ tail) = .error (failure.before tail))
      (stopped : failure.rest <:+ t :: ts) (place : ∀ t' ∈ failure.error.token?, t' ∈ t :: ts)
      (left : resume failure.rest <:+ ts) (next : Loop (resume failure.rest) items errors) :
      Loop (t :: ts) items (failure.error :: errors)

namespace Loop

variable {ts : List Token} {items : List Item} {errors : List SyntaxError}

/-- Every iteration takes a token of its own. -/
theorem length_le (h : Loop ts items errors) : items.length + errors.length ≤ ts.length := by
  induction h with
  | done => exact Nat.le_refl 0
  | item _ left _ ih =>
      have shorter := left.length_le
      simp only [List.length_cons]
      omega
  | failure _ _ _ left _ ih =>
      have shorter := left.length_le
      simp only [List.length_cons]
      omega

end Loop

/-! ## Reports -/

/-- A span lies in a source. -/
def Span.Within (span : Span) (source : String) : Prop :=
  span.start ≤ span.stop ∧ span.stop ≤ source.utf8ByteSize

theorem Tiling.within {source : String} {marks : List Mark} (h : Tiling 0 source.toList marks)
    {m : Mark} (hm : m ∈ marks) : m.span.Within source := by
  obtain ⟨before, behind, whole, place⟩ := h.covers hm
  refine ⟨Nat.le_of_lt (h.span_pos hm), ?_⟩
  rw [place, whole, String.utf8ByteSize_append (t := behind)]
  exact Nat.le_add_right ..

end CallThunk.Source
