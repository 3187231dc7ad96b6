import QueryExpr.Proofs.Folding
import QueryExpr.Proofs.Preparation

/-!
# Failures of constants

A constant that fails is left for the evaluation to fail on, unless a rule of simplification drops
what fails: next to a null or to an operand that decides, in a CASE that gives way to one of its
results, and where a lone operand or one under a double negation is no truth value. Where no rule
does so, simplification keeps the outcome of a constant, the error included.
-/

namespace QueryExpr

open QueryExpr.Expr

namespace Expr

/-- The value of a constant, if evaluating it does not fail. -/
def known? (e : Expr) : Option Value := e.evalConst.toOption

/-- What a negation of a literal negates. -/
def negated? : Expr → Option Value
  | not (val v) => some v
  | _ => none

/--
Next to an operand that decides, the connective has a value. Where all operands but one decide
nothing, none of them is a value that the connective refuses.
-/
def OperandsKeep (decisive : Bool) (whole : Option Value) (operands : List (Option Value)) : Prop :=
  (some (.bool decisive) ∈ operands → whole.isSome = true) ∧
    ((operands.filter fun v? => v? != some (.bool !decisive)).length = 1 →
      ∀ v? ∈ operands, ∀ v ∈ v?, v.Fits .bool)

instance (decisive : Bool) (whole : Option Value) (operands : List (Option Value)) :
    Decidable (OperandsKeep decisive whole operands) :=
  inferInstanceAs (Decidable (_ ∧ _))

/--
What a node has to meet for its failure to survive the rule of simplification. Nothing may settle a
connective or a comparison that fails; an operand that is left alone, or below two negations, is no
value that a condition refuses; and the type that a CASE carries makes no difference.
-/
def KeepsFailure (arguments : List Ty) : Expr → Prop
  | and xs => OperandsKeep false (and xs).known? (xs.map known?)
  | or xs => OperandsKeep true (or xs).known? (xs.map known?)
  | cmp op l r => l.known? = some .null ∨ r.known? = some .null → (cmp op l r).known?.isSome = true
  | case whens otherwise ty => (case whens otherwise ty).known? = (case whens otherwise none).known?
  | not x => ∀ v ∈ (x.simplify arguments).negated?, v.Fits .bool
  | _ => True

instance (arguments : List Ty) : DecidablePred (KeepsFailure arguments)
  | and xs => inferInstanceAs (Decidable (OperandsKeep false (and xs).known? (xs.map known?)))
  | or xs => inferInstanceAs (Decidable (OperandsKeep true (or xs).known? (xs.map known?)))
  | cmp op l r => inferInstanceAs (Decidable
      (l.known? = some .null ∨ r.known? = some .null → (cmp op l r).known?.isSome = true))
  | case whens otherwise ty => inferInstanceAs (Decidable
      ((case whens otherwise ty).known? = (case whens otherwise none).known?))
  | not x => inferInstanceAs (Decidable (∀ v ∈ (x.simplify arguments).negated?, v.Fits .bool))
  | val _ | arg _ | col _ _ | cast _ _ | isNull _ _ => inferInstanceAs (Decidable True)

theorem known?_eq_some {e : Expr} {v : Value} : e.known? = some v ↔ e.evalConst = .ok v := by
  unfold known?
  cases e.evalConst <;> simp [Except.toOption]

theorem known?_isSome {e : Expr} : e.known?.isSome = true ↔ ∃ v, e.evalConst = .ok v := by
  simp only [Option.isSome_iff_exists, known?_eq_some]

theorem isTruth_iff {truth : Bool} {e : Expr} :
    e.isTruth truth = true ↔ e.value? = some (.bool truth) := by
  constructor
  · intro h
    rw [eq_of_isTruth h]
    rfl
  · intro h
    cases e with
    | val v =>
        cases h
        exact beq_self_eq_true truth
    | _ => cases h

theorem isNullValue_iff {e : Expr} : e.isNullValue = true ↔ e.value? = some .null := by
  cases e with
  | val v => cases v <;> simp [isNullValue, value?]
  | _ => simp [isNullValue, value?]

theorem eq_val_of_value? {e : Expr} {v : Value} (h : e.value? = some v) : e = val v := by
  cases e with
  | val w =>
      cases h
      rfl
  | _ => cases h

theorem isConst_untyped {whens : List (When Expr)} {otherwise : Option Expr} {ty : Option Ty}
    (h : (case whens otherwise ty).isConst = true) : (case whens otherwise none).isConst = true := by
  rw [isConst_eq] at h ⊢
  exact h

end Expr

namespace Simplify

variable {arguments : List Ty}

theorem SettledConstant.known?_eq {e : Expr} (h : SettledConstant arguments e) :
    e.known? = e.value? := by
  rcases h.cases with ⟨v, rfl⟩ | ⟨hvalue, err, herr⟩
  · rfl
  · rw [known?, herr, Option.not_isSome_iff_eq_none.mp (Bool.eq_false_iff.mp hvalue)]
    rfl

section Connective

variable {decisive : Bool} {connective : List Expr → Expr} {parts : Expr → List Expr}

/-- A connective: how it is taken apart and evaluated, and what it holds where it is settled. -/
structure Connects (arguments : List Ty) (decisive : Bool) (connective : List Expr → Expr)
    (parts : Expr → List Expr) : Prop extends Splits connective parts where
  eval : ∀ input xs, (connective xs).eval input = evalOperands input decisive false xs
  settled : ∀ {xs}, Settled arguments (connective xs) →
    2 ≤ xs.length ∧ OperandsSuit connective xs

theorem connects_and : Connects arguments false .and conjuncts where
  toSplits := splits_conjuncts
  eval _ _ := rfl
  settled h := ⟨h.1.1, h.2⟩

theorem connects_or : Connects arguments true .or disjuncts where
  toSplits := splits_disjuncts
  eval _ _ := rfl
  settled h := ⟨h.1.1, h.2⟩

private theorem evalOperands_sole {x : Expr} (h : ∀ v ∈ x.known?, v.Fits .bool) :
    (evalOperands Input.empty decisive false [x]).result = x.evalConst := by
  rw [evalOperands_cons, Outcome.result_bind]
  change x.evalConst.bind _ = _
  cases hx : x.evalConst with
  | error err => rfl
  | ok v =>
      obtain ⟨truth, rfl⟩ : ∃ truth, v = Value.ofTruth truth := by
        rcases h v (known?_eq_some.mpr hx) with rfl | hty | hty
        · exact ⟨none, rfl⟩
        · cases v <;> cases hty
          exact ⟨some _, rfl⟩
        · cases hty
      change (Outcome.ofResult (Value.ofTruth truth).truth >>= _).result = _
      rw [truth_ofTruth, Outcome.ofResult_ok, pure_bind]
      cases truth with
      | none => rfl
      | some b => cases b <;> cases decisive <;> rfl

private theorem fits_of_evalOperands {v w : Value}
    (h : (evalOperands Input.empty decisive false [val v]).result = .ok w) : v.Fits .bool := by
  rw [evalOperands_cons] at h
  obtain ⟨u, hu, h⟩ := Outcome.result_bind_ok.mp h
  obtain ⟨truth, htruth, -⟩ := Outcome.result_bind_ok.mp h
  cases hu
  rw [truth_ok htruth]
  exact fits_bool_of_truth

private theorem eval_kept (hc : Connects arguments decisive connective parts) (xs : List Expr) :
    (connective xs).eval Input.empty = evalOperands Input.empty decisive false
      ((xs.flatMap parts).filter fun x => !x.isTruth (!decisive)) := by
  rw [evalOperands_filter, evalOperands_flatMap, hc.eval]
  intro x
  by_cases hx : ∃ ys, x = connective ys
  · obtain ⟨ys, rfl⟩ := hx
    right
    rw [hc.same, hc.eval]
  · exact Or.inl (hc.other (not_exists.mp hx))

private theorem ne_connective_of_value (hc : Connects arguments decisive connective parts)
    {v : Value} (h : Settled arguments (.val v)) (ys : List Expr) : val v ≠ connective ys := by
  intro hv
  have hnone : [] = ys := (congrArg children hv).trans (hc.children ys)
  rw [hv] at h
  have htwo := (hc.settled h).1
  rw [← hnone] at htwo
  cases htwo

private theorem length_filter_known? {xs : List Expr} (hxs : ∀ x ∈ xs, SettledConstant arguments x)
    (b : Bool) :
    ((xs.map known?).filter fun v? => v? != some (.bool b)).length =
      (xs.filter fun x => !x.isTruth b).length := by
  rw [List.filter_map, List.length_map]
  congr 1
  apply List.filter_congr
  intro x hx
  rw [Function.comp_apply, (hxs x hx).known?_eq, Bool.eq_iff_iff]
  simp only [bne_iff_ne, Bool.not_eq_true', ← Bool.not_eq_true, isTruth_iff, ne_eq]

variable {xs : List Expr} (hc : Connects arguments decisive connective parts)
  (hxs : ∀ x ∈ xs, SettledConstant arguments x)
include hc hxs

private theorem mem_of_isTruth {z : Expr} {b : Bool} (hz : z ∈ xs.flatMap parts)
    (htruth : z.isTruth b = true) : z ∈ xs := by
  obtain ⟨x, hx, hzx⟩ := List.mem_flatMap.mp hz
  by_cases hsplit : ∃ ys, x = connective ys
  · obtain ⟨ys, rfl⟩ := hsplit
    rw [hc.same] at hzx
    have hother := ((hc.settled (hxs _ hx).1).2 z hzx).2 b
    rw [htruth] at hother
    cases hother
  · rw [hc.other (not_exists.mp hsplit), List.mem_singleton] at hzx
    rwa [hzx]

private theorem flatMap_of_sole {z : Expr}
    (h : (xs.flatMap parts).filter (fun x => !x.isTruth (!decisive)) = [z]) :
    xs.flatMap parts = xs := by
  apply hc.flatMap_eq_self
  rintro _ hx ys rfl
  obtain ⟨htwo, hsuit⟩ := hc.settled (hxs _ hx).1
  have hkept : ys.filter (fun x => !x.isTruth (!decisive)) = ys := by
    rw [List.filter_eq_self]
    intro y hy
    rw [(hsuit y hy).2]
    rfl
  have hsub : ys.Sublist (xs.flatMap parts) := by
    have hmem : parts (connective ys) ∈ xs.map parts := List.mem_map_of_mem hx
    rw [hc.same] at hmem
    rw [List.flatMap_def]
    exact List.sublist_flatten_of_mem hmem
  have hlength := (hsub.filter fun x => !x.isTruth (!decisive)).length_le
  rw [hkept, h, List.length_singleton] at hlength
  omega

private theorem evalConst_connect
    (hkeep : OperandsKeep decisive (connective xs).known? (xs.map known?)) :
    (connect decisive connective (xs.flatMap parts)).evalConst = (connective xs).evalConst := by
  have hkept := eval_kept hc xs
  unfold connect
  split
  · rename_i hany
    obtain ⟨z, hz, htruth⟩ := List.any_eq_true.mp hany
    have hmem : z ∈ xs := mem_of_isTruth hc hxs hz htruth
    have hdecisive : z.known? = some (.bool decisive) := by
      rw [(hxs z hmem).known?_eq, isTruth_iff.mp htruth]
    obtain ⟨v, hv⟩ := known?_isSome.mp (hkeep.1 (hdecisive ▸ List.mem_map_of_mem hmem))
    have hdecided : v = .bool decisive := by
      rw [evalConst, hc.eval] at hv
      exact evalOperands_decided Input.empty decisive (eq_of_isTruth htruth ▸ hmem) hv
    rw [hv, hdecided]
    rfl
  · split
    · rename_i hnil
      rw [hnil] at hkept
      rw [evalConst, evalConst, hkept]
      rfl
    · rename_i z hz
      have hsole : xs.filter (fun x => !x.isTruth (!decisive)) = [z] := by
        rw [← hz, flatMap_of_sole hc hxs hz]
      have hmem : z ∈ xs := (List.mem_filter.mp (hsole ▸ List.mem_singleton_self z)).1
      have hlength : ((xs.map known?).filter fun v? => v? != some (.bool !decisive)).length = 1 := by
        rw [length_filter_known? hxs, hsole, List.length_singleton]
      have haccepted := hkeep.2 hlength z.known? (List.mem_map_of_mem hmem)
      have hwhole : (connective xs).evalConst = z.evalConst := by
        rw [evalConst, hkept, hz]
        exact evalOperands_sole haccepted
      exact hwhole.symm
    · rw [evalConst, evalConst, hc.eval, hkept]

private theorem connect_of_lone {v : Value} (hv : ∀ b, (val v).isTruth b = false)
    (h : xs.filter (fun x => !x.isTruth (!decisive)) = [val v]) :
    xs.flatMap parts = xs ∧ connect decisive connective (xs.flatMap parts) = val v := by
  have hxs' : ∀ x ∈ xs, x.isTruth (!decisive) = true ∨ x = val v := by
    intro x hx
    cases hkept : x.isTruth (!decisive) with
    | true => exact Or.inl rfl
    | false =>
        right
        rw [← List.mem_singleton, ← h, List.mem_filter, hkept]
        exact ⟨hx, rfl⟩
  have hflat : xs.flatMap parts = xs := by
    apply hc.flatMap_eq_self
    intro x hx ys hsplit
    obtain ⟨w, rfl⟩ : ∃ w, x = val w := by
      rcases hxs' x hx with htruth | hlone
      · exact ⟨_, eq_of_isTruth htruth⟩
      · exact ⟨v, hlone⟩
    exact ne_connective_of_value hc (hxs _ hx).1 ys hsplit
  have hany : xs.any (Expr.isTruth decisive) = false := by
    rw [List.any_eq_false]
    intro x hx
    rcases hxs' x hx with htruth | rfl
    · rw [eq_of_isTruth htruth]
      cases decisive <;> nofun
    · rw [hv]
      nofun
  refine ⟨hflat, ?_⟩
  rw [hflat, connect, hany, h]
  rfl

private theorem operandsKeep_of_connect
    (h : (connect decisive connective (xs.flatMap parts)).evalConst = (connective xs).evalConst) :
    OperandsKeep decisive (connective xs).known? (xs.map known?) := by
  constructor
  · intro hmem
    obtain ⟨x, hx, hdecisive⟩ := List.mem_map.mp hmem
    have hvalue : x.value? = some (.bool decisive) := (hxs x hx).known?_eq.symm.trans hdecisive
    have hwhole : parts x = [x] := by
      apply hc.other
      rw [eq_val_of_value? hvalue]
      exact ne_connective_of_value hc (eq_val_of_value? hvalue ▸ (hxs x hx).1)
    have hmem : x ∈ xs.flatMap parts :=
      List.mem_flatMap.mpr ⟨x, hx, hwhole ▸ List.mem_singleton_self x⟩
    rw [connect, if_pos (List.any_eq_true.mpr ⟨x, hmem, isTruth_iff.mpr hvalue⟩)] at h
    exact known?_isSome.mpr ⟨_, h.symm⟩
  · intro hlength v? hv? v hv
    obtain ⟨x, hx, rfl⟩ := List.mem_map.mp hv?
    obtain rfl : x = val v := eq_val_of_value? ((hxs x hx).known?_eq.symm.trans hv)
    by_cases hfits : v.Fits .bool
    · exact hfits
    -- An operand that is refused is the one that is left, and then it is not refused.
    · have hneither : ∀ b, (val v).isTruth b = false := by
        intro b
        cases v with
        | bool => exact absurd (Or.inr (Or.inl rfl)) hfits
        | _ => rfl
      rw [length_filter_known? hxs] at hlength
      obtain ⟨z, hz⟩ := List.length_eq_one_iff.mp hlength
      obtain rfl : val v = z := by
        rw [← List.mem_singleton, ← hz, List.mem_filter, hneither]
        exact ⟨hx, rfl⟩
      obtain ⟨hflat, hlone⟩ := connect_of_lone hc hxs hneither hz
      rw [hlone, evalConst, evalConst, eval_kept hc, hflat, hz] at h
      exact fits_of_evalOperands h.symm

end Connective

section Rules

theorem evalConst_compareOperands_iff {op : Comparison} {l r : Expr}
    (hl : SettledConstant arguments l) (hr : SettledConstant arguments r) :
    (compareOperands op l r).evalConst = (Expr.cmp op l r).evalConst ↔
      (l.known? = some .null ∨ r.known? = some .null →
        (Expr.cmp op l r).known?.isSome = true) := by
  rw [hl.known?_eq, hr.known?_eq, ← isNullValue_iff,
    ← isNullValue_iff, ← Bool.or_eq_true, known?_isSome]
  constructor
  · intro h hnull
    rw [compareOperands, if_pos hnull] at h
    exact ⟨.null, h.symm⟩
  · intro h
    by_cases hnull : (l.isNullValue || r.isNullValue) = true
    · obtain ⟨v, hv⟩ := h hnull
      exact (compareOperands_refinedBy op l r v hv).1.trans hv.symm
    · unfold compareOperands
      rw [if_neg hnull]
      split
      · rename_i hswap
        rw [Bool.and_eq_true, Bool.not_eq_true'] at hswap
        -- The operand that is no literal fails, on either side.
        rcases hl.cases with ⟨v, rfl⟩ | ⟨hl, -⟩
        · rcases hr.cases with ⟨w, rfl⟩ | ⟨-, err, herr⟩
          · cases hswap.2
          · rw [evalConst_of_part (e := .cmp op.swap r (.val v)) rfl herr,
              evalConst_of_part (e := .cmp op (.val v) r) (pure_bind _ _) herr]
        · rw [hl] at hswap
          cases hswap.1
      · rfl

private theorem evalConst_not_not_iff {v : Value} :
    (Expr.val v).evalConst = (Expr.not (.not (.val v))).evalConst ↔ v.Fits .bool := by
  constructor
  · intro h
    cases v with
    | null => exact Or.inl rfl
    | bool => exact Or.inr (Or.inl rfl)
    | _ => cases h
  · rintro (rfl | hty | hty)
    · rfl
    · cases v with
      | bool b => cases b <;> rfl
      | _ => cases hty
    · cases hty

theorem evalConst_negate_iff {x : Expr} (hx : Everywhere (Settled arguments) x)
    (hconst : x.isConst = true) :
    (negate x).evalConst = (Expr.not x).evalConst ↔ ∀ v ∈ x.negated?, v.Fits .bool := by
  cases x with
  | not y =>
      rcases (settledConstant_child (List.mem_singleton_self y) hx hconst).cases with
        ⟨v, rfl⟩ | ⟨hvalue, err, herr⟩
      · rw [negate, evalConst_not_not_iff]
        exact ⟨fun h w hw => Option.some.inj hw ▸ h, fun h => h v rfl⟩
      · have hinner : (Expr.not y).evalConst = .error err := evalConst_of_part rfl herr
        rw [negate, herr, evalConst_of_part (e := .not (.not y)) rfl hinner]
        cases y with
        | val => cases hvalue
        | _ => exact ⟨fun _ => nofun, fun _ => rfl⟩
  | _ => exact ⟨fun _ => nofun, fun _ => rfl⟩

theorem evalConst_untyped_iff {whens : List (When Expr)} {otherwise : Option Expr}
    {ty : Option Ty} :
    (Expr.case whens otherwise none).evalConst = (Expr.case whens otherwise ty).evalConst ↔
      (Expr.case whens otherwise ty).known? = (Expr.case whens otherwise none).known? := by
  constructor
  · intro h
    rw [known?, known?, h]
  · intro h
    cases hbranches : (evalBranches Input.empty whens otherwise).result with
    | error err =>
        rw [evalConst, evalConst, eval_case, eval_case, Outcome.bind_of_error hbranches,
          Outcome.bind_of_error hbranches]
    | ok v =>
        have hvalue : (Expr.case whens otherwise none).evalConst = .ok v := by
          rw [evalConst, eval_case, Outcome.bind_of_ok hbranches]
          rfl
        rw [known?_eq_some.mpr hvalue, known?_eq_some] at h
        rw [hvalue, h]

/-- The rule keeps the outcome of a constant node exactly if no failure is lost there. -/
theorem evalConst_node_iff {e : Expr} (hparts : ∀ x ∈ e.children, Everywhere (Settled arguments) x)
    (hconst : e.isConst = true) :
    (node arguments e).evalConst = e.evalConst ↔ KeepsFailure arguments e := by
  have hpart : ∀ x ∈ e.children, SettledConstant arguments x := fun x hx =>
    ⟨hparts x hx x x.self_mem_subterms, isConst_of_child hconst hx⟩
  have hfold : ∀ y : Expr, (foldConst y).evalConst = y.evalConst := by
    intro y
    rw [evalConst, eval_foldConst]
    rfl
  cases e with
  | val | arg | col => exact ⟨fun _ => trivial, fun _ => rfl⟩
  | and xs =>
      rw [node_eq_rule rfl, rule, hfold]
      exact ⟨operandsKeep_of_connect connects_and hpart, evalConst_connect connects_and hpart⟩
  | or xs =>
      rw [node_eq_rule rfl, rule, hfold]
      exact ⟨operandsKeep_of_connect connects_or hpart, evalConst_connect connects_or hpart⟩
  | cmp op l r =>
      rw [node_eq_rule rfl, rule, hfold]
      exact evalConst_compareOperands_iff (hpart l (by simp [children]))
        (hpart r (by simp [children]))
  | case whens otherwise ty =>
      rw [node, evalConst_foldCase (isConst_untyped hconst) (suited_node hparts)]
      exact evalConst_untyped_iff
  | cast x ty =>
      have hx := hpart x (List.mem_singleton_self x)
      rw [node_eq_rule rfl, rule, hfold]
      exact ⟨fun _ => trivial, fun _ => evalConst_castOperand hx⟩
  | isNull negated x =>
      have hx := List.mem_singleton_self x
      rw [node_eq_rule rfl, rule, hfold]
      exact ⟨fun _ => trivial, fun _ => evalConst_testNull (hparts x hx) (hpart x hx).2⟩
  | not x =>
      have hx := List.mem_singleton_self x
      rw [node_eq_rule rfl, rule, hfold, KeepsFailure, simplify_of_settled arguments (hparts x hx)]
      exact evalConst_negate_iff (hparts x hx) (hpart x hx).2

end Rules

end Simplify

namespace Expr

variable {arguments : List Ty}

private theorem evalConst_mapChildren {e : Expr} (hconst : e.isConst = true)
    (hparts : ∀ x ∈ e.children, (x.simplify arguments).evalConst = x.evalConst) :
    (e.mapChildren (simplify arguments)).evalConst = e.evalConst := by
  have heval := eval_mapChildren_same Outcome.congruence_eq (i := Input.empty)
    (f := simplify arguments) (e := e) fun x hx => by
      have hx' := isConst_of_child hconst hx
      rw [eval_of_isConst hx', eval_of_isConst (isConst_simplify hx'), hparts x hx]
  rw [evalConst, ← heval]
  rfl

/-- Whether a node loses a failure is a question of the outcomes of its parts. -/
private theorem keepsFailure_mapChildren_iff {e : Expr} (hconst : e.isConst = true)
    (hparts : ∀ x ∈ e.children, (x.simplify arguments).evalConst = x.evalConst) :
    KeepsFailure arguments (e.mapChildren (simplify arguments)) ↔ KeepsFailure arguments e := by
  have hpart : ∀ x ∈ e.children, (x.simplify arguments).known? = x.known? :=
    fun x hx => congrArg Except.toOption (hparts x hx)
  have hwhole : (e.mapChildren (simplify arguments)).known? = e.known? :=
    congrArg Except.toOption (evalConst_mapChildren hconst hparts)
  cases e with
  | val | arg | col | cast | isNull => exact Iff.rfl
  | and xs | or xs =>
      have hoperands : (xs.map (simplify arguments)).map known? = xs.map known? := by
        rw [List.map_map]
        exact List.map_congr_left hpart
      rw [mapChildren] at hwhole
      rw [mapChildren, KeepsFailure, KeepsFailure, hwhole, hoperands]
  | cmp op l r =>
      rw [mapChildren] at hwhole
      rw [mapChildren, KeepsFailure, KeepsFailure, hwhole, hpart l (by simp [children]),
        hpart r (by simp [children])]
  | case whens otherwise ty =>
      have huntyped : (mapChildren (simplify arguments) (case whens otherwise none)).known? = _ :=
        congrArg Except.toOption (evalConst_mapChildren (isConst_untyped hconst) hparts)
      rw [mapChildren] at hwhole huntyped
      rw [mapChildren, KeepsFailure, KeepsFailure, hwhole, huntyped]
      rfl
  | not x => rw [mapChildren, KeepsFailure, KeepsFailure, simplify_simplify]

/--
Where the parts of a constant keep their outcomes, simplification keeps its outcome exactly if no
failure is lost at the node itself.
-/
theorem evalConst_simplify_iff {e : Expr} (hconst : e.isConst = true)
    (hparts : ∀ x ∈ e.children, (x.simplify arguments).evalConst = x.evalConst) :
    (e.simplify arguments).evalConst = e.evalConst ↔ KeepsFailure arguments e := by
  rw [simplify_eq, ← evalConst_mapChildren hconst hparts]
  exact (Simplify.evalConst_node_iff (fun _ => settled_mapChildren)
    (isConst_mapChildren_simplify hconst)).trans (keepsFailure_mapChildren_iff hconst hparts)

theorem evalConst_simplify_of_keepsFailure {e : Expr} (hconst : e.isConst = true)
    (h : Everywhere (KeepsFailure arguments) e) :
    (e.simplify arguments).evalConst = e.evalConst := by
  induction e using induct with
  | node e ih =>
      obtain ⟨hnode, hparts⟩ := everywhere_iff.mp h
      refine (evalConst_simplify_iff hconst fun x hx => ?_).mpr hnode
      exact ih x hx (isConst_of_child hconst hx) (hparts x hx)

/-- Without a node that loses a failure, a constant that fails is left to fail in the same way. -/
theorem simplify_keeps_error {e : Expr} (hconst : e.isConst = true)
    (h : Everywhere (KeepsFailure arguments) e) {err : Error} (hfail : e.evalConst = .error err) :
    (e.simplify arguments).evalConst = .error err :=
  (evalConst_simplify_of_keepsFailure hconst h).trans hfail

/-- A text and a number, which are not comparable. -/
def incomparable : Expr := cmp .eq (val (.string "a")) (val (.i64 1))

/-- Behind an operand that is dropped and a double negation, a cast that fails. -/
def strandedFailure : Expr :=
  or [val (.bool false), not (not (isNull false (cast (val (.string "x")) .i64))),
    case [⟨incomparable, val .null⟩] (some (not (val (.i64 5)))) none]

theorem simplify_keeps_error_stranded :
    strandedFailure.isConst = true ∧ Everywhere (KeepsFailure [.bool]) strandedFailure ∧
      ∃ err, strandedFailure.evalConst = .error err ∧
        (strandedFailure.simplify [.bool]).evalConst = .error err :=
  ⟨rfl, by decide, _, rfl, simplify_keeps_error rfl (by decide) rfl⟩

/--
Constants that lose their failure, one for each way: next to an operand that decides, next to null,
as a lone operand or below a double negation, and with the type of a CASE.
-/
def hiddenFailures : List Expr :=
  [and [incomparable, val (.bool false)], or [incomparable, val (.bool true)],
    cmp .lt (val .null) incomparable, and [val (.bool true), val (.i64 5)],
    or [val (.i64 5), val (.bool false)], not (not (val (.i64 5))),
    case [⟨val (.bool true), val (.string "x")⟩] none (some .i64)]

/-- That a constant fails does not mean that it still fails once it is simplified. -/
theorem simplify_hides_error :
    (¬ ∀ (arguments : List Ty) (e : Expr) (err : Error), e.isConst = true →
      Everywhere (·.hasOperands = true) e → e.evalConst = .error err →
      ∃ err', (e.simplify arguments).evalConst = .error err') ∧
    ∀ e ∈ hiddenFailures, e.isConst = true ∧ Everywhere (·.hasOperands = true) e ∧
      ∃ err v, e.evalConst = .error err ∧ (e.simplify []).evalConst = .ok v := by
  constructor
  · intro h
    obtain ⟨err, herr⟩ := h [] (and [incomparable, val (.bool false)]) _ rfl (by decide) rfl
    have hfolded : ((and [incomparable, val (.bool false)]).simplify []).evalConst =
        .ok (.bool false) := rfl
    cases hfolded.symm.trans herr
  · intro e he
    simp only [hiddenFailures, List.mem_cons, List.not_mem_nil, or_false] at he
    rcases he with rfl | rfl | rfl | rfl | rfl | rfl | rfl <;>
      exact ⟨rfl, by decide, _, _, rfl, rfl⟩

end Expr

end QueryExpr
