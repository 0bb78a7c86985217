import CallThunk.Checked.Tree

/-!
# Uses of checked bodies

What a checked body asks of a code generator: the functions that it calls and the offsets at which
it reads and writes fields. Lowering supports some uses only.
-/

namespace CallThunk.Checked

/-- What a checked body asks of a code generator: calls, with their arguments, and the offsets of
loads and stores. -/
inductive Use where
  | call (signature : Signature) (args : List Expr)
  | access (offset : UInt32)

mutual
/-- The uses in an expression, in the order of its evaluation. -/
def Expr.uses : Expr → List Use
  | .param _ | .localVar .. => []
  | .load _ base offset => base.uses ++ [.access offset]
  | .convert _ inner => inner.uses
  | .call callee signature args => callee.uses ++ Expr.usesList args ++ [.call signature args]
/-- The uses in all of some expressions. -/
def Expr.usesList : List Expr → List Use
  | [] => []
  | arg :: args => arg.uses ++ Expr.usesList args
end

/-- The uses in a statement. A call with a record result gets the address of its field as an
argument, so the offset of that field is no use. -/
def Stmt.uses : Stmt → List Use
  | .bind _ init => init.uses
  | .store base offset value => base.uses ++ value.uses ++ [.access offset]
  | .storeCall base _ call => base.uses ++ call.uses
  | .eval e => e.uses
  | .ret => []

/-- The uses in the body of a wrapper. -/
def Function.uses (wrapper : Function) : List Use := wrapper.body.flatMap Stmt.uses

/-- All uses are ones that lowering supports. -/
structure Lowerable (uses : List Use) : Prop where
  fixed : ∀ signature args, .call signature args ∈ uses → signature.variadic = false
  large : ∀ signature args r, .call signature args ∈ uses → signature.ret = .record r → 16 < r.size
  near : ∀ offset, .access offset ∈ uses → offset.toNat ≤ 2 ^ 31 - 1

namespace Lowerable

@[simp] theorem nil : Lowerable [] := ⟨nofun, nofun, nofun⟩

@[simp] theorem append_iff {uses uses' : List Use} :
    Lowerable (uses ++ uses') ↔ Lowerable uses ∧ Lowerable uses' := by
  constructor
  · intro h
    exact ⟨⟨fun s args m => h.fixed s args (List.mem_append_left _ m),
        fun s args r m => h.large s args r (List.mem_append_left _ m),
        fun o m => h.near o (List.mem_append_left _ m)⟩,
      ⟨fun s args m => h.fixed s args (List.mem_append_right _ m),
        fun s args r m => h.large s args r (List.mem_append_right _ m),
        fun o m => h.near o (List.mem_append_right _ m)⟩⟩
  · rintro ⟨h, h'⟩
    exact ⟨fun s args m => (List.mem_append.mp m).elim (h.fixed s args) (h'.fixed s args),
      fun s args r m => (List.mem_append.mp m).elim (h.large s args r) (h'.large s args r),
      fun o m => (List.mem_append.mp m).elim (h.near o) (h'.near o)⟩

theorem call {signature : Signature} {args : List Expr} (fixed : signature.variadic = false)
    (large : ∀ r, signature.ret = .record r → 16 < r.size) :
    Lowerable [.call signature args] where
  fixed s args m := by
    cases List.mem_singleton.mp m
    exact fixed
  large s args r m := by
    cases List.mem_singleton.mp m
    exact large r
  near _ m := nomatch List.mem_singleton.mp m

theorem access {offset : UInt32} (near : offset.toNat ≤ 2 ^ 31 - 1) :
    Lowerable [.access offset] where
  fixed _ _ m := nomatch List.mem_singleton.mp m
  large _ _ _ m := nomatch List.mem_singleton.mp m
  near o m := by
    cases List.mem_singleton.mp m
    exact near

end Lowerable

end CallThunk.Checked
