import QueryExpr.Convert
import QueryExpr.Expr
import QueryExpr.Input

/-!
# Evaluation

The value of an expression for an input, together with the look-ups made on the way, in order and
with the failing one included. Truth has three values; a connective stops at the first operand that
decides it, and a CASE at the first condition that is definitely true.
-/

namespace QueryExpr

/-- What came of a computation, and what it asked of the input. -/
structure Outcome (α : Type) where
  result : Except Error α
  lookups : List Lookup

namespace Outcome

variable {α β : Type}

/-- Computes without asking anything. -/
def ofResult (result : Except Error α) : Outcome α := ⟨result, []⟩

protected def bind (o : Outcome α) (f : α → Outcome β) : Outcome β :=
  match o.result with
  | .error e => ⟨.error e, o.lookups⟩
  | .ok a =>
      let rest := f a
      ⟨rest.result, o.lookups ++ rest.lookups⟩

instance : Monad Outcome where
  pure a := ofResult (.ok a)
  bind := Outcome.bind

@[simp] theorem result_pure (a : α) : (pure a : Outcome α).result = .ok a := rfl

@[simp] theorem lookups_pure (a : α) : (pure a : Outcome α).lookups = [] := rfl

@[simp] theorem result_bind (o : Outcome α) (f : α → Outcome β) :
    (o >>= f).result = o.result.bind fun a => (f a).result := by
  change (Outcome.bind o f).result = _
  unfold Outcome.bind
  cases o.result <;> rfl

theorem lookups_bind (o : Outcome α) (f : α → Outcome β) :
    (o >>= f).lookups = o.lookups ++
      match o.result with
      | .ok a => (f a).lookups
      | .error _ => [] := by
  change (Outcome.bind o f).lookups = _
  unfold Outcome.bind
  cases o.result <;> simp

end Outcome

namespace Input

/-- An answer the input must have. -/
def require (input : Input) (lookup : Lookup) : Outcome Value :=
  let missing : EvaluationFault :=
    match lookup with
    | .column name => .unresolvedColumn name
    | .argument position => .unresolvedArgument position
  ⟨match input.answer? lookup with
    | some v => .ok v
    | none => .error (Error.evaluation missing), [lookup]⟩

end Input

/-- A comparison with null is unknown; values that are not comparable are an error. -/
def Comparison.apply (op : Comparison) (left right : Value) : Except Error Value :=
  if left.isNull || right.isNull then .ok .null
  else
    match left.compare? right with
    | some order => .ok (.bool (op.holds order))
    | none => .error (Error.evaluation (.incomparable left.ty right.ty))

/-- Converts the result of a CASE to its type, if it has one. -/
def Ty.settle (ty : Option Ty) (value : Value) : Except Error Value :=
  match ty with
  | some ty => ty.convert value
  | none => .ok value

namespace Expr

variable (input : Input)

mutual

def eval : Expr → Outcome Value
  | val v => pure v
  | arg position => input.require (.argument position)
  | col name _ => input.require (.column name)
  | and xs => evalOperands false false xs
  | or xs => evalOperands true false xs
  | cmp op l r => do
      let left ← eval l
      let right ← eval r
      Outcome.ofResult (op.apply left right)
  | case whens otherwise ty => do
      match ← evalWhens whens with
      | some value => Outcome.ofResult (Ty.settle ty value)
      | none =>
          let value ← evalOption otherwise
          Outcome.ofResult (Ty.settle ty value)
  | cast x ty => do
      let value ← eval x
      Outcome.ofResult (ty.convert value)
  | isNull negated x => do
      let value ← eval x
      pure (.bool (value.isNull != negated))
  | not x => do
      let value ← eval x
      let truth ← Outcome.ofResult value.truth
      pure (Value.ofTruth (truth.map (!·)))

/--
The operands of a connective that `decisive` decides. Without a deciding operand the result is
null if a null was seen, and the other truth value if not.
-/
def evalOperands (decisive sawNull : Bool) : List Expr → Outcome Value
  | [] => pure (if sawNull then .null else .bool (!decisive))
  | x :: xs => do
      let value ← eval x
      match ← Outcome.ofResult value.truth with
      | some b => if b = decisive then pure (.bool b) else evalOperands decisive sawNull xs
      | none => evalOperands decisive true xs

/-- The result of the first branch whose condition is definitely true. -/
def evalWhens : List (When Expr) → Outcome (Option Value)
  | [] => pure none
  | ⟨c, r⟩ :: ws => do
      let condition ← eval c
      match ← Outcome.ofResult condition.truth with
      | some true =>
          let value ← eval r
          pure (some value)
      | _ => evalWhens ws

def evalOption : Option Expr → Outcome Value
  | none => pure .null
  | some x => eval x

end

/-- A filter keeps a row only if its condition is definitely true. -/
def evalBool (e : Expr) : Outcome Bool := do
  let value ← e.eval input
  let truth ← Outcome.ofResult value.truth
  pure (truth.getD false)

/-- The value an expression has without any input. -/
def evalConst (e : Expr) : Except Error Value := (e.eval Input.empty).result

end Expr

end QueryExpr
