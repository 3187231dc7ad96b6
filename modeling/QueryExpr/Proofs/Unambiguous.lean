import QueryExpr.Proofs.Legible
import QueryExpr.Proofs.Rewriting

/-!
# Canonical texts are unambiguous

An operand ends where its own lexemes end, whatever follows it. An expression that is not bracketed
ends in front of a bracket or a keyword of the expression around it. So the lexemes of a legible
expression determine the expression, up to what is not written, and with them its text does.
-/

namespace QueryExpr

/-- The mark ends the unbracketed expression in front of it. -/
def Mark.ends : Mark → Bool
  | closing | branch | result | otherwise | caseEnd | castEnd _ => true
  | _ => false

namespace Lexeme

/-- What may follow an expression that is not bracketed. -/
def Ends (rest : List Lexeme) : Prop := ∀ a ∈ rest.head?, ∃ m : Mark, a = .mark m ∧ m.ends = true

theorem ends_nil : Ends [] := nofun

theorem ends_mark {m : Mark} (h : m.ends = true) (rest : List Lexeme) :
    Ends (.mark m :: rest) := by
  intro a ha
  cases ha
  exact ⟨m, rfl, h⟩

/-- The mark that an expression goes on with. -/
def joint? : List Lexeme → Option Mark
  | .mark m :: _ => if m.ends then none else some m
  | _ => none

theorem Ends.joint? {rest : List Lexeme} (h : Ends rest) : joint? rest = none := by
  cases rest with
  | nil => rfl
  | cons a rest =>
      obtain ⟨m, rfl, hm⟩ := h a rfl
      rw [Lexeme.joint?, if_pos hm]

theorem castEnd_cons_inj {ty ty' : Ty} {l k : List Lexeme}
    (h : mark (.castEnd ty) :: l = mark (.castEnd ty') :: k) : ty = ty' ∧ l = k := by
  cases h
  exact ⟨rfl, rfl⟩

end Lexeme

open Lexeme (castEnd_cons_inj Ends ends_nil ends_mark joint?)

namespace Expr

def joint : Expr → Option Mark
  | and _ => some .conjunction
  | or _ => some .disjunction
  | cmp op _ _ => some (.comparison op)
  | isNull negated _ => some (.test negated)
  | _ => none

theorem joint_of_primary {e : Expr} (h : e.needsParentheses = false) : e.joint = none := by
  cases e <;> first | rfl | cases h

/-- An expression, its first operand and what follows the operand. -/
inductive Chain : Expr → Expr → List Lexeme → Prop
  | primary {e : Expr} (h : e.needsParentheses = false) : Chain e e []
  | and (x : Expr) {xs : List Expr} (h : xs ≠ []) :
      Chain (and (x :: xs)) x (restLexemes .conjunction xs)
  | or (x : Expr) {xs : List Expr} (h : xs ≠ []) :
      Chain (or (x :: xs)) x (restLexemes .disjunction xs)
  | cmp (op : Comparison) (l r : Expr) :
      Chain (cmp op l r) l (.mark (.comparison op) :: r.operand)
  | isNull (negated : Bool) (x : Expr) : Chain (isNull negated x) x [.mark (.test negated)]

theorem operand_of_primary {e : Expr} (h : e.needsParentheses = false) :
    e.operand = e.lexemes := by
  rw [operand, bracket, h]
  rfl

theorem operand_of_bracketed {e : Expr} (h : e.needsParentheses = true) :
    e.operand = .mark .opening :: (e.lexemes ++ [.mark .closing]) := by
  rw [operand, bracket, h]
  rfl

private theorem exists_rest {xs : List Expr} (h : 2 ≤ xs.length) :
    ∃ y ys, xs = y :: ys ∧ ys ≠ [] := by
  cases xs with
  | nil => simp at h
  | cons y ys =>
      refine ⟨y, ys, rfl, ?_⟩
      rintro rfl
      simp at h

theorem not_or_chain {e : Expr} (h : Legible e) :
    (∃ x, e = not x) ∨ ∃ x tail, Chain e x tail ∧ e.lexemes = x.operand ++ tail := by
  have hprimary : e.needsParentheses = false →
      ∃ x tail, Chain e x tail ∧ e.lexemes = x.operand ++ tail := fun he =>
    ⟨e, [], .primary he, by rw [operand_of_primary he, List.append_nil]⟩
  cases e with
  | val | arg | col | case | cast => exact Or.inr (hprimary rfl)
  | not x => exact Or.inl ⟨x, rfl⟩
  | and xs =>
      obtain ⟨x, xs, rfl, hne⟩ := exists_rest h
      exact Or.inr ⟨x, _, .and x hne, by rw [lexemes, intercalate_operands]⟩
  | or xs =>
      obtain ⟨x, xs, rfl, hne⟩ := exists_rest h
      exact Or.inr ⟨x, _, .or x hne, by rw [lexemes, intercalate_operands]⟩
  | cmp op l r => exact Or.inr ⟨l, _, .cmp op l r, rfl⟩
  | isNull negated x => exact Or.inr ⟨x, _, .isNull negated x, rfl⟩

theorem Chain.joint? {e x : Expr} {tail rest : List Lexeme} (h : Chain e x tail)
    (hrest : Ends rest) : joint? (tail ++ rest) = e.joint := by
  cases h with
  | primary h =>
      rw [List.nil_append, hrest.joint?, joint_of_primary h]
  | @and x xs h | @or x xs h =>
      obtain ⟨y, ys, rfl⟩ := List.exists_cons_of_ne_nil h
      rfl
  | cmp op l r => rfl
  | isNull negated x => rfl

/-- An operand by the lexeme it begins with. -/
inductive Operand : Expr → List Lexeme → Prop
  | bracketed {e : Expr} (h : e.needsParentheses = true) :
      Operand e (.mark .opening :: (e.lexemes ++ [.mark .closing]))
  | leaf {e : Expr} {a : Lexeme} (h : Leaf e a) : Operand e [a]
  | special {x : Double} {text : String} (h : Value.specialText? x = some text) :
      Operand (val (.f64 x))
        [.mark .castStart, .quoted text.toList, .mark (.castEnd .f64)]
  | cast (x : Expr) (ty : Ty) :
      Operand (cast x ty) (.mark .castStart :: (x.lexemes ++ [.mark (.castEnd ty)]))
  | case (whens : List (When Expr)) (otherwise : Option Expr) (ty : Option Ty) :
      Operand (case whens otherwise ty)
        (.mark .caseStart :: (whenLexemes whens ++ (elseLexemes otherwise ++ [.mark .caseEnd])))

theorem operand_view {e : Expr} (h : Legible e) : Operand e e.operand := by
  cases hneeds : e.needsParentheses with
  | true =>
      rw [operand_of_bracketed hneeds]
      exact .bracketed hneeds
  | false =>
      rw [operand_of_primary hneeds]
      cases e with
      | val v =>
          rcases leaf_or_special v with ⟨a, ha⟩ | ⟨x, text, rfl, hx⟩
          · rw [ha.lexemes]
            exact .leaf ha
          · rw [lexemes_special hx]
            exact .special hx
      | arg position => exact .leaf (.arg position)
      | col name ty => exact .leaf (.col ty h)
      | case whens otherwise ty =>
          rw [lexemes_case]
          exact .case whens otherwise ty
      | cast x ty =>
          rw [lexemes_cast h.1]
          exact .cast x ty
      | and | or | cmp | isNull | not => cases hneeds

theorem operand_ne_negation {e : Expr} (h : Legible e) (rest tail : List Lexeme) :
    e.operand ++ rest ≠ .mark .negation :: tail := by
  have hview := operand_view h
  generalize e.operand = l at hview
  cases hview with
  | leaf ha => cases ha <;> simp
  | _ => simp

/-- The lexemes of the operand determine it and where it ends. -/
def OperandUnique (e : Expr) : Prop :=
  ∀ {e' : Expr} {rest rest' : List Lexeme}, Everywhere Legible e' →
    e.operand ++ rest = e'.operand ++ rest' → e.skeleton = e'.skeleton ∧ rest = rest'

/-- The lexemes of the expression determine it, where something ends it. -/
def Unique (e : Expr) : Prop :=
  ∀ {e' : Expr} {rest rest' : List Lexeme}, Everywhere Legible e' → Ends rest → Ends rest' →
    e.lexemes ++ rest = e'.lexemes ++ rest' → e.skeleton = e'.skeleton ∧ rest = rest'

theorem Leaf.operandUnique {e : Expr} {a : Lexeme} (h : Leaf e a) : OperandUnique e := by
  intro e' rest rest' h' heq
  have hoperand : e.operand = [a] := by
    rw [operand_of_primary (by cases h <;> rfl), h.lexemes]
  have hview := operand_view (everywhere_iff.mp h').1
  generalize e'.operand = l at hview heq
  rw [hoperand] at heq
  cases hview with
  | leaf ha =>
      obtain ⟨rfl, hrest⟩ := List.cons.inj heq
      exact ⟨h.unique ha, hrest⟩
  | _ =>
      obtain ⟨rfl, -⟩ := List.cons.inj heq
      cases h

theorem rest_unique {m : Mark} (hm : m.ends = false) {xs ys : List Expr}
    (hxs : ∀ x ∈ xs, OperandUnique x) (hys : ∀ y ∈ ys, Everywhere Legible y)
    {rest rest' : List Lexeme} (hrest : Ends rest) (hrest' : Ends rest')
    (h : restLexemes m xs ++ rest = restLexemes m ys ++ rest') :
    xs.map skeleton = ys.map skeleton ∧ rest = rest' := by
  have hmark : ∀ {l k : List Lexeme}, Ends l → l ≠ .mark m :: k := by
    rintro l k hl rfl
    obtain ⟨n, hn, hends⟩ := hl _ rfl
    cases hn
    rw [hm] at hends
    cases hends
  induction xs generalizing ys with
  | nil =>
      cases ys with
      | nil => exact ⟨rfl, h⟩
      | cons y ys => exact absurd h (hmark hrest)
  | cons x xs ih =>
      cases ys with
      | nil => exact absurd h.symm (hmark hrest')
      | cons y ys =>
          obtain ⟨hx, hxs⟩ := List.forall_mem_cons.mp hxs
          obtain ⟨hy, hys⟩ := List.forall_mem_cons.mp hys
          have hoperands : x.operand ++ (restLexemes m xs ++ rest) =
              y.operand ++ (restLexemes m ys ++ rest') := by
            simpa [restLexemes] using h
          obtain ⟨hskeleton, htail⟩ := hx hy hoperands
          obtain ⟨hmap, hend⟩ := ih hxs hys htail
          exact ⟨by rw [List.map_cons, List.map_cons, hskeleton, hmap], hend⟩

private theorem operands_unique {m : Mark} (hm : m.ends = false) {x y : Expr} {xs ys : List Expr}
    (hxs : ∀ z ∈ x :: xs, OperandUnique z) (hys : ∀ z ∈ y :: ys, Everywhere Legible z)
    {rest rest' : List Lexeme} (hrest : Ends rest) (hrest' : Ends rest')
    (hskeleton : x.skeleton = y.skeleton)
    (htail : restLexemes m xs ++ rest = restLexemes m ys ++ rest') :
    (x :: xs).map skeleton = (y :: ys).map skeleton ∧ rest = rest' := by
  obtain ⟨-, hxs⟩ := List.forall_mem_cons.mp hxs
  obtain ⟨-, hys⟩ := List.forall_mem_cons.mp hys
  obtain ⟨hmap, hend⟩ := rest_unique hm hxs hys hrest hrest' htail
  exact ⟨by rw [List.map_cons, List.map_cons, hskeleton, hmap], hend⟩

theorem else_unique {otherwise otherwise' : Option Expr} (h : ∀ x ∈ otherwise, Unique x)
    (h' : ∀ x ∈ otherwise', Everywhere Legible x) {rest rest' : List Lexeme}
    (heq : elseLexemes otherwise ++ ([.mark .caseEnd] ++ rest) =
      elseLexemes otherwise' ++ ([.mark .caseEnd] ++ rest')) :
    otherwise.map skeleton = otherwise'.map skeleton ∧ rest = rest' := by
  cases otherwise with
  | none =>
      cases otherwise' with
      | none => exact ⟨rfl, (List.cons.inj heq).2⟩
      | some y => simp [elseLexemes] at heq
  | some x =>
      cases otherwise' with
      | none => simp [elseLexemes] at heq
      | some y =>
          obtain ⟨hskeleton, hend⟩ := h x rfl (h' y rfl) (ends_mark rfl _) (ends_mark rfl _)
            (List.cons.inj heq).2
          exact ⟨congrArg some hskeleton, (List.cons.inj hend).2⟩

theorem case_unique {whens whens' : List (When Expr)} {otherwise otherwise' : Option Expr}
    (h : ∀ w ∈ whens, Unique w.condition ∧ Unique w.result)
    (h' : ∀ w ∈ whens', Everywhere Legible w.condition ∧ Everywhere Legible w.result)
    (ho : ∀ x ∈ otherwise, Unique x) (ho' : ∀ x ∈ otherwise', Everywhere Legible x)
    {rest rest' : List Lexeme}
    (heq : whenLexemes whens ++ (elseLexemes otherwise ++ ([.mark .caseEnd] ++ rest)) =
      whenLexemes whens' ++ (elseLexemes otherwise' ++ ([.mark .caseEnd] ++ rest'))) :
    whens.map (When.map skeleton) = whens'.map (When.map skeleton) ∧
      otherwise.map skeleton = otherwise'.map skeleton ∧ rest = rest' := by
  have hbranch : ∀ (o : Option Expr) (l : List Lexeme) {k : List Lexeme},
      elseLexemes o ++ ([.mark .caseEnd] ++ l) ≠ .mark .branch :: k := by
    intro o l k
    cases o <;> simp [elseLexemes]
  have hends : ∀ (ws : List (When Expr)) (o : Option Expr) (l : List Lexeme),
      Ends (whenLexemes ws ++ (elseLexemes o ++ ([.mark .caseEnd] ++ l))) := by
    intro ws o l
    cases ws with
    | cons w ws => exact ends_mark rfl _
    | nil => cases o <;> exact ends_mark rfl _
  induction whens generalizing whens' with
  | nil =>
      cases whens' with
      | nil =>
          obtain ⟨hskeleton, hend⟩ := else_unique ho ho' heq
          exact ⟨rfl, hskeleton, hend⟩
      | cons w ws => exact absurd heq (hbranch _ _)
  | cons w ws ih =>
      cases whens' with
      | nil => exact absurd heq.symm (hbranch _ _)
      | cons v vs =>
          obtain ⟨⟨hcondition, hresult⟩, hws⟩ := List.forall_mem_cons.mp h
          obtain ⟨⟨hcondition', hresult'⟩, hvs⟩ := List.forall_mem_cons.mp h'
          have hsplit : ∀ (u : When Expr) (us : List (When Expr)) (l : List Lexeme),
              whenLexemes (u :: us) ++ l = .mark .branch :: (u.condition.lexemes ++
                (.mark .result :: (u.result.lexemes ++ (whenLexemes us ++ l)))) := by
            intro u us l
            simp [whenLexemes]
          rw [hsplit, hsplit] at heq
          obtain ⟨hc, heq⟩ := hcondition hcondition' (ends_mark rfl _) (ends_mark rfl _)
            (List.cons.inj heq).2
          obtain ⟨hr, heq⟩ := hresult hresult' (hends ws _ _) (hends vs _ _) (List.cons.inj heq).2
          obtain ⟨hmap, hrest⟩ := ih hws hvs heq
          refine ⟨?_, hrest⟩
          rw [List.map_cons, List.map_cons, hmap, When.map, When.map, hc, hr]

private theorem Chain.legible {e x : Expr} {tail : List Lexeme} (hchain : Chain e x tail)
    (h : Everywhere Legible e) : Everywhere Legible x := by
  cases hchain with
  | primary => exact h
  | and | or | cmp | isNull => exact (everywhere_iff.mp h).2 x (by simp [children])

/-- After a common first operand, what follows it tells how the expressions go on. -/
private theorem chain_unique {e e' x x' : Expr} {tail tail' rest rest' : List Lexeme}
    (hchain : Chain e x tail) (hchain' : Chain e' x' tail')
    (h : ∀ y ∈ e.children, OperandUnique y) (h' : Everywhere Legible e') (hrest : Ends rest)
    (hrest' : Ends rest') (hskeleton : x.skeleton = x'.skeleton)
    (htail : tail ++ rest = tail' ++ rest') : e.skeleton = e'.skeleton ∧ rest = rest' := by
  have hjoint : e.joint = e'.joint := by
    rw [← hchain.joint? hrest, htail, hchain'.joint? hrest']
  have hparts := (everywhere_iff.mp h').2
  cases hchain with
  | primary hprimary =>
      rw [joint_of_primary hprimary] at hjoint
      cases hchain' with
      | primary => exact ⟨hskeleton, htail⟩
      | _ => cases hjoint
  | and x =>
      cases hchain' with
      | primary hprimary => cases hjoint.trans (joint_of_primary hprimary)
      | and y =>
          obtain ⟨hmap, hend⟩ := operands_unique rfl h hparts hrest hrest' hskeleton htail
          exact ⟨skeleton_congr (congrArg and hmap), hend⟩
      | _ => cases hjoint
  | or x =>
      cases hchain' with
      | primary hprimary => cases hjoint.trans (joint_of_primary hprimary)
      | or y =>
          obtain ⟨hmap, hend⟩ := operands_unique rfl h hparts hrest hrest' hskeleton htail
          exact ⟨skeleton_congr (congrArg or hmap), hend⟩
      | _ => cases hjoint
  | cmp op l r =>
      cases hchain' with
      | primary hprimary => cases hjoint.trans (joint_of_primary hprimary)
      | cmp op' l' r' =>
          cases hjoint
          obtain ⟨hright, hend⟩ := h r (by simp [children]) (hparts r' (by simp [children]))
            (List.cons.inj htail).2
          exact ⟨skeleton_congr (by simp only [mapChildren, hskeleton, hright]), hend⟩
      | _ => cases hjoint
  | isNull negated x =>
      cases hchain' with
      | primary hprimary => cases hjoint.trans (joint_of_primary hprimary)
      | isNull negated' x' =>
          cases hjoint
          have hend : rest = rest' := (List.cons.inj htail).2
          exact ⟨skeleton_congr (by simp only [mapChildren, hskeleton]), hend⟩
      | _ => cases hjoint

theorem unique_of_operands {e : Expr} (he : Everywhere Legible e)
    (hself : e.needsParentheses = false → OperandUnique e)
    (h : ∀ x ∈ e.children, OperandUnique x) : Unique e := by
  intro e' rest rest' h' hrest hrest' heq
  obtain ⟨hnode, hparts⟩ := everywhere_iff.mp he
  obtain ⟨hnode', hparts'⟩ := everywhere_iff.mp h'
  rcases not_or_chain hnode with ⟨x, rfl⟩ | ⟨x, tail, hchain, hlexemes⟩
  · rcases not_or_chain hnode' with ⟨y, rfl⟩ | ⟨y, tail', hchain', hlexemes'⟩
    · obtain ⟨hskeleton, hend⟩ := h x (List.mem_singleton_self x)
        (hparts' y (List.mem_singleton_self y)) (List.cons.inj heq).2
      exact ⟨skeleton_congr (by simp only [mapChildren, hskeleton]), hend⟩
    · rw [hlexemes', List.append_assoc] at heq
      have hfirst : Legible y := (everywhere_iff.mp (hchain'.legible h')).1
      exact absurd heq.symm (operand_ne_negation hfirst _ _)
  · rcases not_or_chain hnode' with ⟨y, rfl⟩ | ⟨y, tail', hchain', hlexemes'⟩
    · rw [hlexemes, List.append_assoc] at heq
      have hfirst : Legible x := (everywhere_iff.mp (hchain.legible he)).1
      exact absurd heq (operand_ne_negation hfirst _ _)
    · have hoperand : OperandUnique x := by
        cases hchain with
        | primary hprimary => exact hself hprimary
        | and | or | cmp | isNull => exact h x (by simp [children])
      rw [hlexemes, hlexemes', List.append_assoc, List.append_assoc] at heq
      obtain ⟨hskeleton, htail⟩ := hoperand (hchain'.legible h') heq
      exact chain_unique hchain hchain' h h' hrest hrest' hskeleton htail

theorem Leaf.legible {e : Expr} {a : Lexeme} (h : Leaf e a) : Everywhere Legible e := by
  rw [everywhere_iff]
  cases h with
  | col ty hname => exact ⟨hname, nofun⟩
  | _ => exact ⟨trivial, nofun⟩

theorem Leaf.unique_of_ends {e : Expr} {a : Lexeme} (h : Leaf e a) : Unique e := by
  refine unique_of_operands h.legible (fun _ => h.operandUnique) ?_
  cases h <;> exact nofun

theorem eq_string_of_skeleton {x : Expr} {text : String}
    (h : x.skeleton = (val (.string text)).skeleton) : x = val (.string text) := by
  rw [skeleton_eq, skeleton_eq (val _)] at h
  cases x with
  | val v =>
      cases v with
      | string s => exact h
      | f64 y =>
          simp only [mapChildren, blur, Value.blur, val.injEq] at h
          split at h <;> cases h
      | _ => simp [mapChildren, blur, Value.blur] at h
  | _ => simp [mapChildren, blur] at h

private theorem reading_of_specialText {x y : Double} {text : String}
    (hx : Value.specialText? x = some text) (hy : Value.specialText? y = some text) :
    x.reading = y.reading := by
  have hsign : ∀ b c : Bool,
      (if b then "-Infinity" else "Infinity") = (if c then "-Infinity" else "Infinity") → b = c := by
    decide
  have hname : ∀ b : Bool, (if b then "-Infinity" else "Infinity") ≠ "NaN" := by decide
  unfold Value.specialText? at hx hy
  cases hread : x.reading <;> cases hread' : y.reading <;>
    simp only [hread, hread', reduceCtorEq, Option.some.injEq] at hx hy
  · rfl
  · exact absurd (hy.trans hx.symm) (hname _)
  · exact absurd (hx.trans hy.symm) (hname _)
  · rw [hsign _ _ (hx.trans hy.symm)]

private theorem skeleton_of_special {x y : Double} {text : String}
    (hx : Value.specialText? x = some text) (hy : Value.specialText? y = some text) :
    (val (.f64 x)).skeleton = (val (.f64 y)).skeleton := by
  have hreading := reading_of_specialText hx hy
  cases hread : x.reading with
  | nan =>
      apply skeleton_congr
      simp only [mapChildren, blur, Value.blur, hread, ← hreading]
  | infinite negative => rw [Double.eq_of_infinite hread (hreading ▸ hread)]
  | finite negative m q => simp [Value.specialText?, hread] at hx

private theorem operandUnique_special {x : Double} {text : String}
    (h : Value.specialText? x = some text) : OperandUnique (val (.f64 x)) := by
  intro e' rest rest' h' heq
  obtain ⟨hnode', hparts'⟩ := everywhere_iff.mp h'
  have hview := operand_view hnode'
  generalize e'.operand = l at hview heq
  rw [operand_of_primary rfl, lexemes_special h] at heq
  cases hview with
  | special hy =>
      simp only [List.cons_append, List.nil_append, List.cons.injEq, Lexeme.quoted.injEq,
        String.toList_inj, true_and] at heq
      obtain ⟨rfl, hend⟩ := heq
      exact ⟨skeleton_of_special h hy, hend⟩
  | cast y ty =>
      have htext : (val (.string text)).lexemes ++ (.mark (.castEnd .f64) :: rest) =
          y.lexemes ++ (.mark (.castEnd ty) :: rest') := by
        simpa [lexemes, Value.lexemes] using heq
      obtain ⟨hskeleton, hend⟩ := (Leaf.string text).unique_of_ends
        (hparts' y (List.mem_singleton_self y)) (ends_mark rfl _) (ends_mark rfl _) htext
      -- such a cast would have been folded
      have hty : ty = .f64 := (castEnd_cons_inj hend).1.symm
      exact absurd hty (hnode'.2 text (mem_specialTexts h) (eq_string_of_skeleton hskeleton.symm))
  | leaf ha =>
      obtain ⟨rfl, -⟩ := List.cons.inj heq
      cases ha
  | _ => simp at heq

private theorem operandUnique_cast {x : Expr} {ty : Ty} (he : Legible (cast x ty))
    (h : Unique x) : OperandUnique (cast x ty) := by
  intro e' rest rest' h' heq
  obtain ⟨hnode', hparts'⟩ := everywhere_iff.mp h'
  have hview := operand_view hnode'
  generalize e'.operand = l at hview heq
  rw [operand_of_primary rfl, lexemes_cast he.1] at heq
  cases hview with
  | @special y text hy =>
      have htext : x.lexemes ++ (.mark (.castEnd ty) :: rest) =
          (val (.string text)).lexemes ++ (.mark (.castEnd .f64) :: rest') := by
        simpa [lexemes, Value.lexemes] using heq
      obtain ⟨hskeleton, hend⟩ := h (Leaf.string text).legible (ends_mark rfl _) (ends_mark rfl _)
        htext
      have hty : ty = .f64 := (castEnd_cons_inj hend).1
      exact absurd hty (he.2 text (mem_specialTexts hy) (eq_string_of_skeleton hskeleton))
  | cast y ty' =>
      have hoperands : x.lexemes ++ (.mark (.castEnd ty) :: rest) =
          y.lexemes ++ (.mark (.castEnd ty') :: rest') := by
        simpa using heq
      obtain ⟨hskeleton, hend⟩ := h (hparts' y (List.mem_singleton_self y)) (ends_mark rfl _)
        (ends_mark rfl _) hoperands
      obtain ⟨hty, hrest⟩ := castEnd_cons_inj hend
      exact ⟨skeleton_congr (by simp only [mapChildren, hskeleton, hty]), hrest⟩
  | leaf ha =>
      obtain ⟨rfl, -⟩ := List.cons.inj heq
      cases ha
  | _ => simp at heq

private theorem operandUnique_case {whens : List (When Expr)} {otherwise : Option Expr}
    {ty : Option Ty} (h : ∀ x ∈ (case whens otherwise ty).children, Unique x) :
    OperandUnique (case whens otherwise ty) := by
  intro e' rest rest' h' heq
  obtain ⟨hnode', hparts'⟩ := everywhere_iff.mp h'
  have hview := operand_view hnode'
  generalize e'.operand = l at hview heq
  rw [operand_of_primary rfl, lexemes_case] at heq
  cases hview with
  | case whens' otherwise' ty' =>
      have hbranches : whenLexemes whens ++
          (elseLexemes otherwise ++ ([.mark .caseEnd] ++ rest)) =
          whenLexemes whens' ++ (elseLexemes otherwise' ++ ([.mark .caseEnd] ++ rest')) := by
        simpa using heq
      have hunique : ∀ w ∈ whens, Unique w.condition ∧ Unique w.result := by
        intro w hw
        exact ⟨h _ (condition_mem_children hw), h _ (result_mem_children hw)⟩
      have hlegible : ∀ w ∈ whens',
          Everywhere Legible w.condition ∧ Everywhere Legible w.result := by
        intro w hw
        exact ⟨hparts' _ (condition_mem_children hw), hparts' _ (result_mem_children hw)⟩
      obtain ⟨hwhens, hotherwise, hrest⟩ := case_unique hunique hlegible
        (fun x hx => h x (otherwise_mem_children hx))
        (fun x hx => hparts' x (otherwise_mem_children hx)) hbranches
      exact ⟨skeleton_congr (by simp only [mapChildren, hwhens, hotherwise, blur]), hrest⟩
  | leaf ha =>
      obtain ⟨rfl, -⟩ := List.cons.inj heq
      cases ha
  | _ => simp at heq

private theorem operandUnique_bracketed {e : Expr} (he : e.needsParentheses = true)
    (h : Unique e) : OperandUnique e := by
  intro e' rest rest' h' heq
  have hview := operand_view (everywhere_iff.mp h').1
  generalize e'.operand = l at hview heq
  rw [operand_of_bracketed he] at heq
  cases hview with
  | bracketed he' =>
      have hinner : e.lexemes ++ (.mark .closing :: rest) =
          e'.lexemes ++ (.mark .closing :: rest') := by
        simpa using heq
      obtain ⟨hskeleton, hend⟩ := h h' (ends_mark rfl _) (ends_mark rfl _) hinner
      exact ⟨hskeleton, (List.cons.inj hend).2⟩
  | leaf ha =>
      obtain ⟨rfl, -⟩ := List.cons.inj heq
      cases ha
  | _ => simp at heq

/-- Legible expressions and their operands are determined by their lexemes. -/
theorem unique_of_legible {e : Expr} (h : Everywhere Legible e) : OperandUnique e ∧ Unique e := by
  induction e using induct with
  | node e ih =>
      obtain ⟨hnode, hparts⟩ := everywhere_iff.mp h
      have hchild : ∀ x ∈ e.children, OperandUnique x ∧ Unique x := fun x hx =>
        ih x hx (hparts x hx)
      have hprimary : e.needsParentheses = false → OperandUnique e := by
        intro hneeds
        cases e with
        | val v =>
            rcases leaf_or_special v with ⟨a, ha⟩ | ⟨x, text, rfl, hx⟩
            · exact ha.operandUnique
            · exact operandUnique_special hx
        | arg position => exact (Leaf.arg position).operandUnique
        | col name ty => exact (Leaf.col ty hnode).operandUnique
        | case whens otherwise ty => exact operandUnique_case fun x hx => (hchild x hx).2
        | cast x ty => exact operandUnique_cast hnode (hchild x (List.mem_singleton_self x)).2
        | and | or | cmp | isNull | not => cases hneeds
      have hunique : Unique e := unique_of_operands h hprimary fun x hx => (hchild x hx).1
      refine ⟨?_, hunique⟩
      cases hneeds : e.needsParentheses with
      | false => exact hprimary hneeds
      | true => exact operandUnique_bracketed hneeds hunique

theorem skeleton_eq_of_canonicalText {e e' : Expr} (h : Everywhere Legible e)
    (h' : Everywhere Legible e') (htext : e.canonicalText = e'.canonicalText) :
    e.skeleton = e'.skeleton := by
  have hlexemes := lexemes_eq_of_canonicalText (fun x hx => (h x hx).hasPlainName)
    (fun x hx => (h' x hx).hasPlainName) htext
  exact ((unique_of_legible h).2 h' ends_nil ends_nil (by rw [hlexemes])).1

variable {arguments arguments' : List Ty}

/-- Casting a text to the double it is written for succeeds, so that such a cast is folded. -/
private theorem not_unfoldable_special {text : String} (h : text ∈ specialTexts) :
    ¬ Simplify.Unfoldable (cast (val (.string text)) .f64) := by
  have hfold : ∃ v, (cast (val (.string text)) .f64).evalConst = .ok v := by
    simp only [specialTexts, List.mem_cons, List.not_mem_nil, or_false] at h
    rcases h with rfl | rfl | rfl <;> exact ⟨_, rfl⟩
  rintro (hvalue | hconst | ⟨err, herr⟩)
  · cases hvalue
  · cases hconst
  · obtain ⟨v, hv⟩ := hfold
    rw [hv] at herr
    cases herr

theorem legible_simplify {e : Expr} (h : Everywhere HasPlainName (e.simplify arguments)) :
    Everywhere Legible (e.simplify arguments) := by
  intro x hx
  obtain ⟨hshaped, hfold⟩ := simplify_reduced arguments e x hx
  have hname := h x hx
  cases x with
  | col name ty => exact hname
  | and xs | or xs => exact hshaped
  | cast y ty =>
      refine ⟨hshaped.1, ?_⟩
      rintro text htext rfl rfl
      rcases hfold with hcase | hfold
      · cases hcase
      · exact not_unfoldable_special htext hfold
  | _ => trivial

/--
Simplified expressions with plain column names that have one canonical text are the same expression,
up to integer widths, column types, CASE types and payloads of NaN.
-/
theorem skeleton_simplify_eq {e e' : Expr}
    (h : Everywhere HasPlainName (e.simplify arguments))
    (h' : Everywhere HasPlainName (e'.simplify arguments'))
    (htext : (e.simplify arguments).canonicalText = (e'.simplify arguments').canonicalText) :
    (e.simplify arguments).skeleton = (e'.simplify arguments').skeleton :=
  skeleton_eq_of_canonicalText (legible_simplify h) (legible_simplify h') htext

/-- A branch on a narrow constant, and a result that is not a number. -/
def narrowCase : Expr :=
  case [⟨cmp .gt (col "x" .i64) (val (.i32 1)), cast (arg 0) .f64⟩] (some (val (.f64 .nan))) none

/-- The same on a wide constant and another column, with another payload. -/
def wideCase : Expr :=
  case [⟨cmp .lt (val (.i64 1)) (col "x" .f64), cast (arg 0) .f64⟩]
    (some (val (.f64 ⟨0x7FF8000000000001⟩))) (some .string)

theorem skeleton_simplify_narrowCase :
    Everywhere HasPlainName (narrowCase.simplify []) ∧
      Everywhere HasPlainName (wideCase.simplify [.i64]) ∧
      (narrowCase.simplify []).canonicalText = (wideCase.simplify [.i64]).canonicalText ∧
      (narrowCase.simplify []).skeleton = (wideCase.simplify [.i64]).skeleton :=
  ⟨by decide, by decide, by decide +kernel,
    skeleton_simplify_eq (by decide) (by decide) (by decide +kernel)⟩

end Expr

end QueryExpr
