import QueryExpr.Proofs.CaseTypes

/-!
# Converting to a shared type

Types are unified towards the one of highest rank, and a value of a lower rank converts to it unless
it is a text. So storing the type that the results of a CASE share makes no evaluation fail, as long
as the results are simplified, for then their inferred types are right, and none of them is a text.
-/

namespace QueryExpr

namespace Ty

/-- Values other than texts convert to every type of the same or of a higher rank. -/
theorem exists_convert_of_rank_le {ty : Ty} {v : Value} (hv : v.ty ≠ .string)
    (h : v.ty.rank ≤ ty.rank) : ∃ w, ty.convert v = .ok w := by
  cases v with
  | null => exact ⟨.null, convert_null ty⟩
  | string s => exact absurd rfl hv
  | bool b | i32 n | i64 n | f64 x =>
      cases ty <;> first | exact ⟨_, rfl⟩ | simp [Value.ty, rank] at h

theorem rank_le_rank_orString (t : Ty) : t.rank ≤ t.orString.rank := by cases t <;> decide

theorem exists_convert_unifyAll {ts : List Ty} {v : Value} (hv : v.ty ≠ .string)
    (hmem : v.ty ∈ ts) : ∃ w, (unifyAll ts).orString.convert v = .ok w :=
  exists_convert_of_rank_le hv
    (Nat.le_trans (rank_le_unifyAll hmem) (rank_le_rank_orString (unifyAll ts)))

end Ty

namespace Expr

variable {arguments : List Ty} {input : Input}

/-- A node that is shaped as simplification leaves it has values of its inferred type. -/
theorem fits_of_shaped {e : Expr} (hshaped : Simplify.Shaped arguments e)
    (hin : Answered arguments input e) {v : Value} (hv : (e.eval input).result = .ok v) :
    v.Fits (e.infer arguments) := by
  cases e with
  | val w =>
      cases hv
      exact Or.inr (Or.inl rfl)
  | arg position | col name ty => exact hin v (require_ok hv)
  | and | or | cmp | isNull | not => exact fits_bool_of_eval rfl hv
  | case whens otherwise ty =>
      cases hshaped
      rw [eval_case] at hv
      obtain ⟨w, -, hv⟩ := Outcome.result_bind_ok.mp hv
      rw [infer]
      exact (Ty.convert_typed (Ty.isIndeterminate_ofBranches _ _ _) hv).imp id Or.inl
  | cast x ty =>
      obtain ⟨w, -, hv⟩ := Outcome.result_bind_ok.mp hv
      exact (Ty.convert_typed hshaped.1 hv).imp id Or.inl

theorem fits_simplify (e : Expr) (hin : RespectedBy arguments input (e.simplify arguments))
    {v : Value} (hv : ((e.simplify arguments).eval input).result = .ok v) :
    v.Fits ((e.simplify arguments).infer arguments) :=
  fits_of_shaped (simplify_reduced arguments e _ (self_mem_subterms _)).1
    (hin _ (self_mem_subterms _)) hv

/-- A result whose type can be shared without a refusal: simplified, known and not a text. -/
def Widens (arguments : List Ty) (x : Expr) : Prop :=
  (∃ e : Expr, x = e.simplify arguments) ∧ x.infer arguments ≠ .string ∧
    x.infer arguments ≠ .unknown

theorem exists_convert_ofBranches {whens : List (When Expr)} {otherwise : Option Expr}
    {ty : Option Ty} (hwiden : ∀ x ∈ results whens otherwise, Widens arguments x)
    (hin : RespectedBy arguments input (case whens otherwise ty)) {v : Value}
    (hv : (evalBranches input whens otherwise).result = .ok v) :
    ∃ w, (Ty.ofBranches arguments whens otherwise).convert v = .ok w := by
  rcases evalBranches_ok hv with rfl | ⟨x, hx, hxv⟩
  · exact ⟨.null, Ty.convert_null _⟩
  · obtain ⟨⟨e, rfl⟩, hstring, hunknown⟩ := hwiden x hx
    have hfits := fits_simplify e (hin.child (mem_children_of_mem_results hx)) hxv
    rcases hfits with rfl | hty | hty
    · exact ⟨.null, Ty.convert_null _⟩
    · rw [Ty.ofBranches_eq]
      apply Ty.exists_convert_unifyAll
      · rwa [hty]
      · rw [hty]
        exact List.mem_map.mpr ⟨_, hx, rfl⟩
    · exact absurd hty hunknown

/--
A value that is no text converts to the type that its type is unified into, together with any number
of others. So a CASE whose results are simplified, of known types and no texts evaluates with its
inferred type stored wherever it evaluates without, to its value converted and with the same
look-ups.
-/
theorem unified_type_admits :
    (∀ (ts : List Ty) (v : Value), v.ty ≠ .string → v.ty ∈ ts →
      ∃ w, (ts.foldl Ty.unify .unknown).orString.convert v = .ok w) ∧
    ∀ (arguments : List Ty) (input : Input) (whens : List (When Expr)) (otherwise : Option Expr)
      (v : Value), (∀ x ∈ results whens otherwise, Widens arguments x) →
      RespectedBy arguments input (case whens otherwise none) →
      ((case whens otherwise none).eval input).result = .ok v →
      ∃ w, ((case whens otherwise none).infer arguments).convert v = .ok w ∧
        (case whens otherwise (some ((case whens otherwise none).infer arguments))).eval input =
          ⟨.ok w, ((case whens otherwise none).eval input).lookups⟩ := by
  refine ⟨fun ts v hv hmem => Ty.exists_convert_unifyAll hv hmem, ?_⟩
  intro arguments input whens otherwise v hwiden hin hv
  rw [eval_case_none] at hv ⊢
  obtain ⟨w, hw⟩ := exists_convert_ofBranches hwiden hin hv
  refine ⟨w, hw, ?_⟩
  rw [eval_case, Outcome.bind_of_ok hv, Outcome.result_ofResult, Outcome.lookups_ofResult,
    List.append_nil]
  exact congrArg (Outcome.mk · _) hw

/-- A boolean, an integer argument and a double, of which the boolean is chosen. -/
def mixedBranches : List (When Expr) :=
  [⟨.cmp .gt (.col "x" .i64) (.val (.i64 0)), .col "flag" .bool⟩, ⟨.col "flag" .bool, .arg 0⟩]

def mixedElse : Option Expr := some (.val (.f64 .zero))

def mixedRow : Row := ⟨[("x", .i64 3), ("flag", .bool true)], [.i32 7]⟩

theorem unified_type_admits_mixedBranches :
    (∃ w, ([Ty.string, .bool, .f64, .null].foldl Ty.unify .unknown).orString.convert (.bool true) =
      .ok w) ∧
    (∀ x ∈ results mixedBranches mixedElse, Widens [.i32] x) ∧
    RespectedBy [.i32] mixedRow.toInput (case mixedBranches mixedElse none) ∧
    ((case mixedBranches mixedElse none).eval mixedRow.toInput).result = .ok (.bool true) ∧
    ∃ w, Ty.f64.convert (.bool true) = .ok w ∧
      (case mixedBranches mixedElse (some .f64)).eval mixedRow.toInput =
        ⟨.ok w, [.column "x", .column "flag"]⟩ := by
  have hwiden : ∀ x ∈ results mixedBranches mixedElse, Widens [.i32] x := by
    intro x hx
    simp only [results, mixedBranches, mixedElse, List.map_cons, List.map_nil, Option.toList_some,
      List.cons_append, List.nil_append, List.mem_cons, List.not_mem_nil, or_false] at hx
    rcases hx with rfl | rfl | rfl
    · exact ⟨⟨.not (.not (.col "flag" .bool)), rfl⟩, by decide, by decide⟩
    · exact ⟨⟨.cast (.arg 0) .i32, rfl⟩, by decide, by decide⟩
    · exact ⟨⟨.cast (.val (.i64 0)) .f64, rfl⟩, by decide, by decide⟩
  have hin : RespectedBy [.i32] mixedRow.toInput (case mixedBranches mixedElse none) := by decide
  exact ⟨unified_type_admits.1 _ _ (by decide) (by decide), hwiden, hin, rfl,
    unified_type_admits.2 [.i32] mixedRow.toInput mixedBranches mixedElse _ hwiden hin rfl⟩

end Expr

end QueryExpr
