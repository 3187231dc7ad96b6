import QueryExpr.Proofs.Soundness

/-!
# Splitting a CASE

The branches of a CASE are tried in order, so those behind any point may as well be a CASE of their
own in the ELSE of those before it. If a type is stored, the value of a later branch is converted
on both levels, and the second conversion changes nothing.
-/

namespace QueryExpr

theorem Ty.settle_settle {ty : Option Ty} {v w : Value} (h : Ty.settle ty v = .ok w) :
    Ty.settle ty w = .ok w := by
  cases ty with
  | none => rfl
  | some ty => exact Ty.convert_convert h

namespace Expr

variable (input : Input)

/-- Trying some branches first, and the others only if none of these is chosen. -/
theorem evalWhens_append (before after : List (When Expr)) :
    evalWhens input (before ++ after) =
      evalWhens input before >>= fun choice =>
        match choice with
        | some v => pure (some v)
        | none => evalWhens input after := by
  induction before with
  | nil => rw [List.nil_append, evalWhens, pure_bind]
  | cons w ws ih =>
      rw [List.cons_append, evalWhens_cons, evalWhens_cons]
      apply Outcome.bind_truth
      intro truth
      rcases truth with _ | _ | _
      · exact ih
      · exact ih
      · rw [bind_assoc]
        rfl

theorem evalBranches_append (before after : List (When Expr)) (otherwise : Option Expr) :
    evalBranches input (before ++ after) otherwise =
      evalWhens input before >>= fun choice =>
        match choice with
        | some v => pure v
        | none => evalBranches input after otherwise := by
  rw [evalBranches, evalWhens_append, bind_assoc]
  congr 1
  funext choice
  cases choice <;> rfl

theorem eval_case_settled (whens : List (When Expr)) (otherwise : Option Expr) (ty : Option Ty) :
    ((case whens otherwise ty).eval input >>= fun v => Outcome.ofResult (Ty.settle ty v)) =
      (case whens otherwise ty).eval input := by
  rw [eval_case, bind_assoc]
  congr 1
  funext v
  cases hv : Ty.settle ty v with
  | error e => exact Outcome.bind_of_error rfl _
  | ok w =>
      rw [Outcome.ofResult_ok, pure_bind, Ty.settle_settle hv]
      rfl

/--
A CASE evaluates as the CASE of its first branches whose ELSE is a CASE of the others, all of the
same stored type: to the same value or error and with the same look-ups.
-/
theorem eval_case_append (before after : List (When Expr)) (otherwise : Option Expr)
    (ty : Option Ty) :
    (case (before ++ after) otherwise ty).eval input =
      (case before (some (case after otherwise ty)) ty).eval input := by
  have hnested : evalBranches input before (some (case after otherwise ty)) =
      evalWhens input before >>= fun choice =>
        match choice with
        | some v => pure v
        | none => (case after otherwise ty).eval input := rfl
  rw [eval_case, evalBranches_append, eval_case input before, hnested, bind_assoc, bind_assoc]
  congr 1
  funext choice
  cases choice with
  | some v => rfl
  | none =>
      change evalBranches input after otherwise >>= _ = (case after otherwise ty).eval input >>= _
      rw [eval_case_settled, eval_case]

end Expr

end QueryExpr
