import QueryExpr.Proofs.Folding
import QueryExpr.Proofs.Preparation
import QueryExpr.Proofs.Walks

/-!
# Renaming columns

A suffix on every column's name changes nothing but the names: neither the inferred types nor what is
constant depends on them, so every rule of simplification does the same before and after. On a row
whose columns are renamed alike the evaluation finds the same values.
-/

namespace QueryExpr

open QueryExpr.Expr

/-- Both are failures to evaluate, both are failures to convert, or neither is one or the other. -/
def Error.SameKind (e f : Error) : Prop :=
  e.isEvaluation = f.isEvaluation ∧ e.isConversion = f.isConversion

/-- The same value, or errors of the same kind. -/
inductive Alike {α : Type} : Except Error α → Except Error α → Prop
  | value (a : α) : Alike (.ok a) (.ok a)
  | failure {e f : Error} (h : e.SameKind f) : Alike (.error e) (.error f)

theorem Alike.refl {α : Type} (r : Except Error α) : Alike r r := by
  cases r with
  | ok a => exact .value a
  | error e => exact .failure ⟨rfl, rfl⟩

theorem Outcome.congruence_alike : Congruence fun o p => Alike o.result p.result where
  refl o := .refl o.result
  bind := by
    intro α β o p f g hop hfg
    rw [result_bind, result_bind]
    generalize o.result = r at hop
    generalize p.result = r' at hop
    cases hop with
    | value a => exact hfg a
    | failure h => exact .failure h

variable (suffix : String) (arguments : List Ty)

namespace Expr

theorem renameColumns_eq_rebuild (e : Expr) :
    e.renameColumns suffix = e.rebuild (LeafChange.rename suffix).leaf :=
  (LeafChange.rename suffix).visit_visitor e

theorem renameColumns_eq (e : Expr) :
    e.renameColumns suffix = match e with
      | col name ty => col (name ++ suffix) ty
      | e => e.mapChildren (renameColumns suffix) := by
  rw [renameColumns_eq_rebuild, rebuild_eq, ← funext (renameColumns_eq_rebuild suffix)]
  cases e <;> rfl

theorem subterms_renameColumns (e : Expr) :
    (e.renameColumns suffix).subterms = e.subterms.map (renameColumns suffix) := by
  have hleaf : ∀ x, ((LeafChange.rename suffix).leaf x).children = x.children := by
    intro x
    cases x <;> rfl
  rw [renameColumns_eq_rebuild, funext (renameColumns_eq_rebuild suffix), subterms_rebuild hleaf]

theorem infer_renameColumns (e : Expr) :
    (e.renameColumns suffix).infer arguments = e.infer arguments := by
  induction e using induct with
  | node e ih =>
      rw [renameColumns_eq]
      cases e with
      | col name ty => rfl
      | _ => exact infer_mapChildren ih

theorem isConst_renameColumns (e : Expr) : (e.renameColumns suffix).isConst = e.isConst := by
  have hlookup : ∀ x, (renameColumns suffix x).lookup? = none ↔ x.lookup? = none := by
    intro x
    cases x with
    | arg | col => exact ⟨nofun, nofun⟩
    | _ => exact Iff.rfl
  rw [Bool.eq_iff_iff, isConst_iff_everywhere, isConst_iff_everywhere, Everywhere,
    subterms_renameColumns, List.forall_mem_map]
  exact forall₂_congr fun x _ => hlookup x

theorem renameColumns_of_isConst {e : Expr} (h : e.isConst = true) :
    e.renameColumns suffix = e := by
  rw [renameColumns_eq_rebuild]
  apply rebuild_of_everywhere
  intro x hx
  have hlookup := isConst_iff_everywhere.mp h x hx
  cases x with
  | col name ty => cases hlookup
  | _ => rfl

end Expr

namespace Simplify

theorem foldConst_renameColumns (e : Expr) :
    foldConst (e.renameColumns suffix) = (foldConst e).renameColumns suffix := by
  cases hconst : e.isConst with
  | true =>
      rw [renameColumns_of_isConst suffix hconst]
      rcases foldConst_cases e with ⟨v, hv, -, -⟩ | ⟨hkeep, -⟩
      · rw [hv]
        rfl
      · rw [hkeep, renameColumns_of_isConst suffix hconst]
  | false =>
      have hrenamed := (isConst_renameColumns suffix e).trans hconst
      simp only [foldConst, hconst, hrenamed, Bool.false_eq_true, if_false]

theorem decision?_renameColumns (c : Expr) :
    decision? (c.renameColumns suffix) = decision? c := by
  cases hconst : c.isConst with
  | true => rw [renameColumns_of_isConst suffix hconst]
  | false =>
      have hrenamed := (isConst_renameColumns suffix c).trans hconst
      simp only [decision?, hconst, hrenamed, Bool.false_eq_true, if_false]

section Connective

variable {connective : List Expr → Expr} {parts : Expr → List Expr}

theorem isTruth_renameColumns (truth : Bool) (x : Expr) :
    (x.renameColumns suffix).isTruth truth = x.isTruth truth := by
  cases x <;> rfl

private theorem flatMap_renameColumns (hparts : ∀ x,
      parts (x.renameColumns suffix) = (parts x).map (renameColumns suffix)) (xs : List Expr) :
    (xs.map (renameColumns suffix)).flatMap parts =
      (xs.flatMap parts).map (renameColumns suffix) := by
  rw [List.flatMap_map, List.map_flatMap]
  exact congrArg xs.flatMap (funext hparts)

private theorem connect_renameColumns (decisive : Bool)
    (hrename : ∀ ys, (connective ys).renameColumns suffix =
      connective (ys.map (renameColumns suffix))) (xs : List Expr) :
    connect decisive connective (xs.map (renameColumns suffix)) =
      (connect decisive connective xs).renameColumns suffix := by
  have hany : (xs.map (renameColumns suffix)).any (isTruth decisive) =
      xs.any (isTruth decisive) := by
    rw [List.any_map]
    congr 1
    funext x
    exact isTruth_renameColumns suffix decisive x
  have hkept : (xs.map (renameColumns suffix)).filter (fun x => !x.isTruth (!decisive)) =
      (xs.filter fun x => !x.isTruth (!decisive)).map (renameColumns suffix) := by
    rw [List.filter_map]
    congr 2
    funext x
    exact congrArg (!·) (isTruth_renameColumns suffix (!decisive) x)
  unfold connect
  rw [hany, hkept]
  split
  · rfl
  · generalize xs.filter (fun x => !x.isTruth (!decisive)) = ys
    match ys with
    | [] => rfl
    | [y] => rfl
    | y :: z :: ys => exact (hrename (y :: z :: ys)).symm

private theorem conjuncts_renameColumns (x : Expr) :
    conjuncts (x.renameColumns suffix) = (conjuncts x).map (renameColumns suffix) := by
  cases x with
  | and xs =>
      rw [renameColumns_eq]
      rfl
  | _ => rfl

private theorem disjuncts_renameColumns (x : Expr) :
    disjuncts (x.renameColumns suffix) = (disjuncts x).map (renameColumns suffix) := by
  cases x with
  | or xs =>
      rw [renameColumns_eq]
      rfl
  | _ => rfl

end Connective

private theorem compareOperands_renameColumns (op : Comparison) (l r : Expr) :
    compareOperands op (l.renameColumns suffix) (r.renameColumns suffix) =
      (compareOperands op l r).renameColumns suffix := by
  have hnull : ∀ x, (renameColumns suffix x).isNullValue = x.isNullValue := by
    intro x
    cases x <;> rfl
  have hvalue : ∀ x, (renameColumns suffix x).isValue = x.isValue := by
    intro x
    cases x <;> rfl
  unfold compareOperands
  rw [hnull, hnull, hvalue, hvalue]
  split
  · rfl
  · split <;> rfl

private theorem castOperand_renameColumns (x : Expr) (ty : Ty) :
    castOperand arguments (x.renameColumns suffix) ty =
      (castOperand arguments x ty).renameColumns suffix := by
  unfold castOperand
  rw [infer_renameColumns]
  split <;> rfl

private theorem testNull_renameColumns (negated : Bool) (x : Expr) :
    testNull arguments negated (x.renameColumns suffix) =
      (testNull arguments negated x).renameColumns suffix := by
  cases x with
  | cast y ty =>
      change (if castCannotFail arguments (y.renameColumns suffix) ty then _ else _) =
        renameColumns suffix (if castCannotFail arguments y ty then _ else _)
      unfold castCannotFail
      rw [infer_renameColumns]
      split <;> rfl
  | _ => rfl

private theorem negate_renameColumns (x : Expr) :
    negate (x.renameColumns suffix) = (negate x).renameColumns suffix := by
  cases x <;> rfl

private theorem foldCase_renameColumns (whens : List (When Expr)) (otherwise : Option Expr) :
    foldCase arguments (whens.map (When.map (renameColumns suffix)))
        (otherwise.map (renameColumns suffix)) =
      (foldCase arguments whens otherwise).renameColumns suffix := by
  have hdrop : (whens.map (When.map (renameColumns suffix))).dropWhile
        neverSelected =
      (whens.dropWhile neverSelected).map
        (When.map (renameColumns suffix)) := by
    rw [List.dropWhile_map]
    congr 2
    funext w
    exact congrArg (· == some false) (decision?_renameColumns suffix w.condition)
  have hty : Ty.ofBranches arguments (whens.map (When.map (renameColumns suffix)))
        (otherwise.map (renameColumns suffix)) = Ty.ofBranches arguments whens otherwise := by
    have hinfer := infer_renameColumns suffix arguments (case whens otherwise none)
    rwa [renameColumns_eq] at hinfer
  unfold foldCase
  rw [hdrop, hty]
  cases whens.dropWhile neverSelected with
  | nil => cases otherwise <;> rfl
  | cons w ws =>
      change (if decision? (w.condition.renameColumns suffix) = some true then _ else _) =
        renameColumns suffix (if decision? w.condition = some true then _ else _)
      rw [decision?_renameColumns]
      split
      · rfl
      · rw [renameColumns_eq]
        rfl

/-- Every rule of simplification does to the renamed node what it does to the node. -/
theorem node_renameColumns (e : Expr) :
    node arguments (e.renameColumns suffix) = (node arguments e).renameColumns suffix := by
  have hand : ∀ ys, (Expr.and ys).renameColumns suffix = .and (ys.map (renameColumns suffix)) :=
    fun ys => renameColumns_eq suffix (.and ys)
  have hor : ∀ ys, (Expr.or ys).renameColumns suffix = .or (ys.map (renameColumns suffix)) :=
    fun ys => renameColumns_eq suffix (.or ys)
  cases e with
  | val | arg | col => rfl
  | and xs =>
      rw [hand, node_eq_rule rfl, rule, flatMap_renameColumns suffix (conjuncts_renameColumns suffix),
        connect_renameColumns suffix false hand, foldConst_renameColumns]
      rfl
  | or xs =>
      rw [hor, node_eq_rule rfl, rule, flatMap_renameColumns suffix (disjuncts_renameColumns suffix),
        connect_renameColumns suffix true hor, foldConst_renameColumns]
      rfl
  | cmp op l r =>
      change foldConst (compareOperands op (l.renameColumns suffix) (r.renameColumns suffix)) = _
      rw [compareOperands_renameColumns, foldConst_renameColumns]
      rfl
  | case whens otherwise ty =>
      rw [renameColumns_eq]
      exact foldCase_renameColumns suffix arguments whens otherwise
  | cast x ty =>
      change foldConst (castOperand arguments (x.renameColumns suffix) ty) = _
      rw [castOperand_renameColumns, foldConst_renameColumns]
      rfl
  | isNull negated x =>
      change foldConst (testNull arguments negated (x.renameColumns suffix)) = _
      rw [testNull_renameColumns, foldConst_renameColumns]
      rfl
  | not x =>
      change foldConst (negate (x.renameColumns suffix)) = _
      rw [negate_renameColumns, foldConst_renameColumns]
      rfl

end Simplify

theorem Expr.simplify_renameColumns (e : Expr) :
    (e.renameColumns suffix).simplify arguments = (e.simplify arguments).renameColumns suffix := by
  induction e using induct with
  | node e ih =>
      have hparts : (e.renameColumns suffix).mapChildren (simplify arguments) =
          (e.mapChildren (simplify arguments)).renameColumns suffix := by
        rw [renameColumns_eq, renameColumns_eq]
        cases e with
        | col name ty => rfl
        | _ =>
            refine (mapChildren_mapChildren _ _ _).trans ?_
            rw [mapChildren_congr ih]
            exact (mapChildren_mapChildren _ _ _).symm
      rw [simplify_eq, simplify_eq, hparts, Simplify.node_renameColumns]

/-- The row with the suffix on the name of every column. -/
def Row.renameColumns (row : Row) : Row :=
  ⟨row.columns.map fun binding => (binding.1 ++ suffix, binding.2), row.arguments⟩

namespace Row

/-- A suffix keeps names apart, so a renamed column is found where the column was. -/
theorem get?_renameColumns (row : Row) (name : String) :
    (row.renameColumns suffix).get? (name ++ suffix) = row.get? name := by
  have hkept : ∀ columns : List (String × Value),
      (columns.map fun binding => (binding.1 ++ suffix, binding.2)).lookup (name ++ suffix) =
        columns.lookup name := by
    intro columns
    induction columns with
    | nil => rfl
    | cons binding columns ih =>
        have hname : (name ++ suffix == binding.1 ++ suffix) = (name == binding.1) := by
          rw [Bool.eq_iff_iff, beq_iff_eq, beq_iff_eq, String.append_left_inj]
        rw [List.map_cons, List.lookup_cons, List.lookup_cons, hname, ih]
  exact hkept row.columns

theorem require_renameColumns (row : Row) (name : String) :
    Alike (row.toInput.require (.column name)).result
      ((row.renameColumns suffix).toInput.require (.column (name ++ suffix))).result := by
  have hget : (row.renameColumns suffix).toInput.answer? (.column (name ++ suffix)) =
      row.toInput.answer? (.column name) := get?_renameColumns suffix row name
  unfold Input.require
  rw [hget]
  cases row.toInput.answer? (.column name) with
  | some v => exact .value v
  | none => exact .failure ⟨rfl, rfl⟩

end Row

namespace Expr

theorem eval_renameColumns (e : Expr) (row : Row) :
    Alike (e.eval row.toInput).result
      ((e.renameColumns suffix).eval (row.renameColumns suffix).toInput).result := by
  induction e using induct with
  | node e ih =>
      rw [renameColumns_eq]
      cases e with
      | arg position => exact .refl _
      | col name ty => exact Row.require_renameColumns suffix row name
      | _ => exact eval_mapChildren Outcome.congruence_alike rfl ih

/--
Columns may be renamed before an expression is simplified or afterwards, with the same outcome. On
the row with the new names the renamed expression has the value that the expression has on the row,
or fails with an error of the same kind.
-/
theorem renameColumns_commutes (e : Expr) (row : Row) :
    (e.renameColumns suffix).simplify arguments = (e.simplify arguments).renameColumns suffix ∧
      Alike (e.eval row.toInput).result
        ((e.renameColumns suffix).eval (row.renameColumns suffix).toInput).result :=
  ⟨simplify_renameColumns suffix arguments e, eval_renameColumns suffix e row⟩

end Expr

end QueryExpr
