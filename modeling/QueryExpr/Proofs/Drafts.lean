import Mathlib.Algebra.Group.Nat.Defs
import Mathlib.Order.Bounds.Defs
import QueryExpr.Case

/-!
# Drafts of CASE expressions

A draft is open until it has its ELSE. An open draft takes every step and a closed one refuses every
step, so a run of steps comes down to those that lead up to the first ELSE. They are all that is
seen of the run afterwards: they fix the size of the draft, its room for branches and the parts of
the CASE it becomes.
-/

namespace QueryExpr.Case

/-- The steps that collect the parts of a CASE in a draft. -/
def steps (c : Case) : List Draft.Step :=
  c.whens.map .branch ++ c.otherwise.toList.map .otherwise

namespace Draft

namespace Step

def isBranch : Step → Bool
  | branch _ => true
  | otherwise _ => false

/-- The parts that the step adds to the CASE. -/
def parts : Step → List Expr
  | branch w => [w.condition, w.result]
  | otherwise result => [result]

/-- Why a closed draft refuses the step. -/
def fault : Step → Fault
  | branch _ => .branchAfterElse
  | otherwise _ => .secondElse

end Step

end Draft

section Steps

open Draft

theorem countP_isBranch_steps (c : Case) : c.steps.countP Step.isBranch = c.whens.length := by
  have hbranch : Step.isBranch ∘ Step.branch = fun _ => true := rfl
  have hotherwise : Step.isBranch ∘ Step.otherwise = fun _ => false := rfl
  simp [steps, List.countP_map, hbranch, hotherwise]

theorem size_eq (c : Case) :
    c.size = 2 * c.steps.countP Step.isBranch + c.steps.countP (!·.isBranch) := by
  have hbranch : (!·.isBranch) ∘ Step.branch = fun _ => false := rfl
  have hotherwise : (!·.isBranch) ∘ Step.otherwise = fun _ => true := rfl
  rw [countP_isBranch_steps, size]
  congr 1
  simp [steps, List.countP_map, hbranch, hotherwise]

theorem parts_eq (c : Case) : c.parts = c.steps.flatMap Step.parts := by
  rw [steps, List.flatMap_append, List.flatMap_map, List.flatMap_map, parts, Expr.whenParts]
  congr 1
  cases c.otherwise <;> rfl

theorem eq_of_steps_eq {b c : Case} (hsteps : b.steps = c.steps) (hty : b.ty = c.ty) : b = c := by
  obtain ⟨whens, otherwise, ty⟩ := b
  obtain ⟨whens', otherwise', ty'⟩ := c
  obtain rfl : ty = ty' := hty
  induction whens generalizing whens' with
  | nil =>
      cases whens' with
      | nil => cases otherwise <;> cases otherwise' <;> simp_all [steps]
      | cons w ws => cases otherwise <;> simp [steps] at hsteps
  | cons w ws ih =>
      cases whens' with
      | nil => cases otherwise' <;> simp [steps] at hsteps
      | cons w' ws' =>
          simp only [steps, List.map_cons, List.cons_append, List.cons.injEq,
            Step.branch.injEq] at hsteps
          have htail := ih ws' hsteps.2
          simp_all

end Steps

namespace Draft

/-- The steps up to the first ELSE, that one included. -/
def untilElse : List Step → List Step
  | [] => []
  | .branch w :: steps => .branch w :: untilElse steps
  | .otherwise result :: _ => [.otherwise result]

/-- The steps that a draft does not refuse when it is put through all of them. -/
def accepted (d : Draft) (steps : List Step) : List Step :=
  ((steps.zip (d.history steps)).filter fun entry => entry.2.2.isNone).map (·.1)

/-- The steps that made the draft. -/
def taken (d : Draft) : List Step := (d.finalize none).steps

/-- The room is the least power of two that the initial room and the number of branches allow. -/
def RoomFor (branches room : Nat) : Prop :=
  IsLeast {c | (∃ k, c = 2 ^ k) ∧ 2 ≤ c ∧ branches ≤ c} room

def Snug (d : Draft) : Prop := RoomFor d.whens.length d.capacity

theorem snug_empty : empty.Snug :=
  ⟨⟨⟨1, rfl⟩, Nat.le_refl 2, Nat.zero_le 2⟩, fun _ hc => hc.2.1⟩

/-- One more branch fits, or else the room is doubled. -/
theorem RoomFor.succ {branches room : Nat} (h : RoomFor branches room) :
    RoomFor (branches + 1)
      (if branches = room then room + max room initialCapacity else room) := by
  obtain ⟨⟨⟨k, hk⟩, htwo, hfits⟩, hleast⟩ := h
  split
  · rename_i hfull
    have hdouble : room + max room initialCapacity = 2 ^ (k + 1) := by
      have hmax : max room initialCapacity = room := Nat.max_eq_left htwo
      rw [hmax, hk, Nat.pow_succ]
      omega
    rw [hdouble]
    refine ⟨⟨⟨k + 1, rfl⟩, by omega, by omega⟩, ?_⟩
    rintro _ ⟨⟨j, rfl⟩, -, hj⟩
    have hlt : 2 ^ k < 2 ^ j := by omega
    exact Nat.pow_le_pow_right (by decide) ((Nat.pow_lt_pow_iff_right (by decide)).mp hlt)
  · rename_i hroom
    refine ⟨⟨⟨k, hk⟩, htwo, by omega⟩, fun c hc => hleast ⟨hc.1, hc.2.1, ?_⟩⟩
    have := hc.2.2
    omega

section Step

variable {d : Draft}

theorem run_requireOpen (fault : Fault) :
    (requireOpen fault).run d = if d.otherwise.isSome then .error fault d else .ok () d := by
  simp only [requireOpen, EStateM.run_bind, EStateM.run_get]
  split <;> rfl

theorem step_of_closed (h : d.otherwise.isSome = true) (s : Step) :
    (step s).run d = .error s.fault d := by
  cases s <;> simp only [step, EStateM.run_bind, run_requireOpen, if_pos h] <;> rfl

theorem advance_of_closed (h : d.otherwise.isSome = true) (s : Step) : d.advance s = d := by
  rw [advance, step_of_closed h]

/-- An open draft takes any step, and an ELSE closes it. -/
theorem step_of_open (h : d.otherwise.isSome = false) (s : Step) :
    (step s).run d = .ok () (d.advance s) ∧ (d.advance s).taken = d.taken ++ [s] ∧
      (d.advance s).otherwise.isSome = !s.isBranch ∧ (d.Snug → (d.advance s).Snug) := by
  have hopen : ¬d.otherwise.isSome = true := Bool.eq_false_iff.mp h
  have hadvance {left : Draft} (hstep : (step s).run d = .ok () left) : d.advance s = left := by
    rw [advance, hstep]
  obtain ⟨whens, otherwise, capacity⟩ := d
  obtain rfl : otherwise = none := Option.not_isSome_iff_eq_none.mp hopen
  cases s with
  | branch w =>
      let room := if whens.length = capacity then capacity + max capacity initialCapacity
        else capacity
      have hstep : (step (.branch w)).run ⟨whens, none, capacity⟩ =
          .ok () ⟨whens ++ [w], none, room⟩ := by
        simp only [step, EStateM.run_bind, run_requireOpen, if_neg hopen, grow, EStateM.run_modify]
        split <;> simp [room, *]
      rw [hadvance hstep]
      refine ⟨hstep, by simp [taken, steps, finalize], rfl, fun hsnug => ?_⟩
      rw [Snug, List.length_append]
      exact hsnug.succ
  | otherwise result =>
      have hstep : (step (.otherwise result)).run ⟨whens, none, capacity⟩ =
          .ok () ⟨whens, some result, capacity⟩ := by
        simp only [step, EStateM.run_bind, run_requireOpen, if_neg hopen, EStateM.run_modify]
      rw [hadvance hstep]
      exact ⟨hstep, by simp [taken, steps, finalize], rfl, id⟩

theorem refusal_eq (d : Draft) (s : Step) :
    d.refusal s = if d.otherwise.isSome then some s.fault else none := by
  rw [refusal]
  cases hclosed : d.otherwise.isSome with
  | true =>
      rw [step_of_closed hclosed]
      rfl
  | false =>
      rw [(step_of_open hclosed s).1]
      rfl

theorem advance_eq_self_iff {s : Step} : d.advance s = d ↔ d.otherwise.isSome = true := by
  cases hclosed : d.otherwise.isSome with
  | true => exact iff_of_true (advance_of_closed hclosed s) rfl
  | false =>
      refine iff_of_false (fun hsame => ?_) Bool.false_ne_true
      have htaken := (step_of_open hclosed s).2.1
      rw [hsame] at htaken
      simp at htaken

theorem snug_advance (h : d.Snug) (s : Step) : (d.advance s).Snug := by
  cases hclosed : d.otherwise.isSome with
  | true => rwa [advance_of_closed hclosed]
  | false => exact (step_of_open hclosed s).2.2.2 h

end Step

section Run

theorem snug_foldl_advance {d : Draft} (h : d.Snug) (steps : List Step) :
    (steps.foldl advance d).Snug := by
  induction steps generalizing d with
  | nil => exact h
  | cons s steps ih => exact ih (snug_advance h s)

theorem foldl_advance_of_closed {d : Draft} (h : d.otherwise.isSome = true) (steps : List Step) :
    steps.foldl advance d = d := by
  induction steps with
  | nil => rfl
  | cons s steps ih => rw [List.foldl_cons, advance_of_closed h, ih]

/-- A run takes the steps up to the first ELSE. -/
theorem taken_foldl_advance {d : Draft} (h : d.otherwise.isSome = false) (steps : List Step) :
    (steps.foldl advance d).taken = d.taken ++ untilElse steps := by
  induction steps generalizing d with
  | nil => exact (List.append_nil _).symm
  | cons s steps ih =>
      obtain ⟨-, htaken, hclosed, -⟩ := step_of_open h s
      rw [List.foldl_cons]
      cases s with
      | branch w =>
          rw [ih hclosed, htaken, List.append_assoc]
          rfl
      | otherwise result => rw [foldl_advance_of_closed hclosed, htaken, untilElse]

theorem isSome_otherwise_foldl_advance (d : Draft) (steps : List Step) :
    (steps.foldl advance d).otherwise.isSome =
      (d.otherwise.isSome || !steps.all Step.isBranch) := by
  induction steps generalizing d with
  | nil => exact (Bool.or_false _).symm
  | cons s steps ih =>
      rw [List.foldl_cons, ih, List.all_cons, Bool.not_and, ← Bool.or_assoc]
      congr 1
      cases hclosed : d.otherwise.isSome with
      | true => rw [advance_of_closed hclosed, hclosed, Bool.true_or]
      | false => rw [(step_of_open hclosed s).2.2.1, Bool.false_or]

theorem history_eq (d : Draft) (steps : List Step) :
    d.history steps = steps.mapIdx fun i s =>
      ((steps.take (i + 1)).foldl advance d,
        if ((steps.take i).foldl advance d).otherwise.isSome then some s.fault else none) := by
  induction steps generalizing d with
  | nil => rfl
  | cons s steps ih =>
      rw [history, List.mapIdx_cons, ih, refusal_eq]
      rfl

theorem accepted_cons (d : Draft) (s : Step) (steps : List Step) :
    d.accepted (s :: steps) =
      (if d.otherwise.isSome then [] else [s]) ++ (d.advance s).accepted steps := by
  cases hclosed : d.otherwise.isSome <;> simp [accepted, history, refusal_eq, hclosed]

theorem accepted_of_closed {d : Draft} (h : d.otherwise.isSome = true) (steps : List Step) :
    d.accepted steps = [] := by
  induction steps with
  | nil => rfl
  | cons s steps ih => rw [accepted_cons, if_pos h, advance_of_closed h, ih, List.append_nil]

theorem accepted_of_open {d : Draft} (h : d.otherwise.isSome = false) (steps : List Step) :
    d.accepted steps = untilElse steps := by
  induction steps generalizing d with
  | nil => rfl
  | cons s steps ih =>
      have hclosed := (step_of_open h s).2.2.1
      rw [accepted_cons, if_neg (Bool.eq_false_iff.mp h)]
      cases s with
      | branch w =>
          rw [ih hclosed]
          rfl
      | otherwise result =>
          rw [accepted_of_closed hclosed]
          rfl

end Run

theorem steps_finalize_run (steps : List Step) (ty : Option Ty) :
    ((run steps).finalize ty).steps = untilElse steps :=
  taken_foldl_advance rfl steps

theorem isSome_otherwise_run (steps : List Step) :
    (run steps).otherwise.isSome = !steps.all Step.isBranch :=
  isSome_otherwise_foldl_advance empty steps

theorem untilElse_steps (c : Case) : untilElse c.steps = c.steps := by
  obtain ⟨whens, otherwise, ty⟩ := c
  induction whens with
  | nil => cases otherwise <;> rfl
  | cons w ws ih => exact congrArg (Step.branch w :: ·) ih

/-- Taken apart and collected again, a CASE has lost none of its parts. -/
theorem finalize_run_steps (c : Case) (ty : Option Ty) :
    (run c.steps).finalize ty = ⟨c.whens, c.otherwise, ty⟩ := by
  refine eq_of_steps_eq ?_ rfl
  rw [steps_finalize_run, untilElse_steps, steps, steps]

theorem history_empty_getElem? (steps : List Step) (i : Fin steps.length) :
    ∃ refusal, (empty.history steps)[i.val]? = some (run (steps.take (i + 1)), refusal) ∧
      (refusal = if (steps.take i).all Step.isBranch then none else some steps[i].fault) ∧
      (refusal.isSome = true ↔ run (steps.take (i + 1)) = run (steps.take i)) := by
  have hrun : run (steps.take (i + 1)) = (run (steps.take i)).advance steps[i] := by
    rw [run, List.take_succ_eq_append_getElem i.isLt, List.foldl_append]
    rfl
  have hreport : (empty.history steps)[i.val]? = some (run (steps.take (i + 1)),
      if (run (steps.take i)).otherwise.isSome then some steps[i].fault else none) := by
    rw [history_eq, List.getElem?_mapIdx, List.getElem?_eq_getElem i.isLt]
    rfl
  refine ⟨_, hreport, ?_, ?_⟩
  · rw [isSome_otherwise_run]
    cases (steps.take i).all Step.isBranch <;> rfl
  · rw [hrun, advance_eq_self_iff]
    cases (run (steps.take i)).otherwise.isSome <;> simp

/--
A run of steps on a fresh draft. A step is refused, with a fault that tells which kind it is, just
when an ELSE came before it, and just then it changes nothing. So the steps taken are the branches
before the first ELSE and that ELSE; the draft counts a branch twice, for its condition and its
result, and an ELSE once; its room for branches is the least power of two, from two on, that is
enough; and the CASE it becomes has the parts of the steps taken, in their order.
-/
theorem run_outcome (steps : List Step) (ty : Option Ty) :
    (∀ i : Fin steps.length, ∃ refusal,
      (empty.history steps)[i.val]? = some (run (steps.take (i + 1)), refusal) ∧
      (refusal = if (steps.take i).all Step.isBranch then none else some steps[i].fault) ∧
      (refusal.isSome = true ↔ run (steps.take (i + 1)) = run (steps.take i))) ∧
    empty.accepted steps = untilElse steps ∧
    (run steps).size = 2 * (empty.accepted steps).countP Step.isBranch +
      (empty.accepted steps).countP (!·.isBranch) ∧
    RoomFor ((empty.accepted steps).countP Step.isBranch) (run steps).capacity ∧
    ((run steps).finalize ty).parts = (empty.accepted steps).flatMap Step.parts := by
  have hsteps (ty : Option Ty) : ((run steps).finalize ty).steps = empty.accepted steps := by
    rw [steps_finalize_run, accepted_of_open rfl]
  refine ⟨history_empty_getElem? steps, accepted_of_open rfl steps, ?_, ?_, ?_⟩
  · rw [← hsteps none]
    exact size_eq _
  · rw [← hsteps none, countP_isBranch_steps]
    exact snug_foldl_advance snug_empty steps
  · rw [← hsteps ty]
    exact parts_eq _

/-- A branch and a second ELSE come too late, and change nothing. -/
example (w : When Expr) (x y : Expr) :
    (run [.branch w, .otherwise x, .branch w, .otherwise y]).finalize none = ⟨[w], some x, none⟩ :=
  rfl

end Draft

end QueryExpr.Case
