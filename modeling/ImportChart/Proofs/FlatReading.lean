import ImportChart.Proofs.ExpressionGrammar
import Mathlib.Data.List.Forall2

/-!
# Expressions without their parentheses

What is left of a build expression when its parentheses are passed over:
alternatives, each a list of terms (`BuildExpr.alternatives`). In a conjunction
the last alternative of the left side and the first one of the right side
become one, and all others stay as they are. So whatever makes an expression
true makes one of its alternatives true (`exists_alternative_of_eval`), and if
no alternatives stand within a conjunction, then the converse holds as well
(`eval_eq_true_iff_of_isFlat`).
-/

namespace ImportChart.Source

/-! ## Joining two lists at their ends -/

section JoinEnds

variable {α β : Type} {glue : α → α → α} {glue' : β → β → β}

/-- The elements of two lists in order, the last one of the first list and the
first one of the second made into one. -/
def joinEnds (glue : α → α → α) : List α → List α → List α
  | [], ys => ys
  | [x], ys => ys.modifyHead (glue x)
  | x :: x' :: xs, ys => x :: joinEnds glue (x' :: xs) ys

theorem joinEnds_cons {x : α} {xs : List α} (h : xs ≠ []) (ys : List α) :
    joinEnds glue (x :: xs) ys = x :: joinEnds glue xs ys := by
  cases xs with
  | nil => exact absurd rfl h
  | cons x' xs => rfl

theorem joinEnds_modifyHead {f : α → α}
    (hglue : ∀ x y, glue (f x) y = f (glue x y)) {xs : List α} (h : xs ≠ [])
    (ys : List α) :
    joinEnds glue (xs.modifyHead f) ys = (joinEnds glue xs ys).modifyHead f := by
  match xs, h with
  | [x], _ =>
      have hhead : glue (f x) = f ∘ glue x := funext (hglue x)
      simp only [List.modifyHead_cons, joinEnds, List.modifyHead_modifyHead,
        hhead]
  | _ :: _ :: _, _ => rfl

theorem map_joinEnds {f : α → β}
    (hglue : ∀ x y, f (glue x y) = glue' (f x) (f y)) : ∀ xs ys : List α,
    (joinEnds glue xs ys).map f = joinEnds glue' (xs.map f) (ys.map f)
  | [], _ => rfl
  | [_], [] => rfl
  | [x], y :: ys => congrArg (· :: ys.map f) (hglue x y)
  | x :: x' :: xs, ys => congrArg (f x :: ·) (map_joinEnds hglue (x' :: xs) ys)

/-- A property that both lists have somewhere is not lost if gluing keeps it. -/
theorem exists_mem_joinEnds {P : α → Prop}
    (hglue : ∀ x y, P x → P y → P (glue x y)) : ∀ {xs ys : List α},
    (∃ x ∈ xs, P x) → (∃ y ∈ ys, P y) → ∃ z ∈ joinEnds glue xs ys, P z
  | [], _, ⟨_, hmem, _⟩, _ => absurd hmem List.not_mem_nil
  | [x], [], _, ⟨_, hmem, _⟩ => absurd hmem List.not_mem_nil
  | [x], y :: ys, ⟨_, hx, hPx⟩, ⟨z, hz, hPz⟩ => by
      rw [List.mem_singleton.mp hx] at hPx
      rcases List.mem_cons.mp hz with rfl | hz
      · exact ⟨glue x z, List.mem_cons_self, hglue x z hPx hPz⟩
      · exact ⟨z, List.mem_cons_of_mem _ hz, hPz⟩
  | x :: x' :: xs, ys, ⟨z, hz, hPz⟩, hys => by
      rcases List.mem_cons.mp hz with rfl | hz
      · exact ⟨z, List.mem_cons_self, hPz⟩
      · obtain ⟨w, hw, hPw⟩ := exists_mem_joinEnds hglue ⟨z, hz, hPz⟩ hys
        exact ⟨w, List.mem_cons_of_mem x hw, hPw⟩

theorem forall₂_joinEnds {R : α → β → Prop}
    (hglue : ∀ x y x' y', R x x' → R y y' → R (glue x y) (glue' x' y'))
    {xs ys : List α} {xs' ys' : List β} (hxs : List.Forall₂ R xs xs')
    (hys : List.Forall₂ R ys ys') :
    List.Forall₂ R (joinEnds glue xs ys) (joinEnds glue' xs' ys') := by
  induction hxs with
  | nil => exact hys
  | @cons x x' xs xs' hx hxs ih =>
      cases hxs with
      | nil =>
          cases hys with
          | nil => exact .nil
          | cons hy hys => exact .cons (hglue _ _ _ _ hx hy) hys
      | cons => exact .cons hx ih

end JoinEnds

/-! ## Alternatives -/

namespace BuildExpr

/-- The alternatives of an expression without its parentheses. -/
def alternatives : BuildExpr → List (List Term)
  | .term x => [[x]]
  | .and left right => joinEnds (· ++ ·) left.alternatives right.alternatives
  | .or left right => left.alternatives ++ right.alternatives

variable {value : Term → Bool} {expr : BuildExpr}

/-- An expression that is true has an alternative that is. -/
theorem exists_alternative_of_eval (h : expr.eval value = true) :
    ∃ terms ∈ expr.alternatives, ∀ x ∈ terms, value x = true := by
  induction expr with
  | term x =>
      refine ⟨[x], List.mem_singleton_self _, fun y hy => ?_⟩
      rw [List.mem_singleton.mp hy]
      exact h
  | and left right ihLeft ihRight =>
      have hboth := Bool.and_eq_true_iff.mp h
      refine exists_mem_joinEnds ?_ (ihLeft hboth.1) (ihRight hboth.2)
      intro xs ys hxs hys x hx
      exact (List.mem_append.mp hx).elim (hxs x) (hys x)
  | or left right ihLeft ihRight =>
      rcases Bool.or_eq_true_iff.mp h with hleft | hright
      · obtain ⟨terms, hmem, hall⟩ := ihLeft hleft
        exact ⟨terms, List.mem_append_left _ hmem, hall⟩
      · obtain ⟨terms, hmem, hall⟩ := ihRight hright
        exact ⟨terms, List.mem_append_right _ hmem, hall⟩

/-- Without alternatives of its own an expression is a conjunction of terms. -/
theorem alternatives_of_not_hasOr (value : Term → Bool)
    (h : expr.hasOr = false) :
    ∃ terms, expr.alternatives = [terms]
      ∧ (expr.eval value = true ↔ ∀ x ∈ terms, value x = true) := by
  induction expr with
  | term x => exact ⟨[x], rfl, by simp [eval]⟩
  | and left right ihLeft ihRight =>
      have hnone := Bool.or_eq_false_iff.mp h
      obtain ⟨xs, hxs, hleft⟩ := ihLeft hnone.1
      obtain ⟨ys, hys, hright⟩ := ihRight hnone.2
      refine ⟨xs ++ ys, by rw [alternatives, hxs, hys]; rfl, ?_⟩
      rw [eval, Bool.and_eq_true_iff, hleft, hright, List.forall_mem_append]
  | or left right => cases h

/-- A flat expression is true if and only if one of its alternatives is. -/
theorem eval_eq_true_iff_of_isFlat (hflat : expr.isFlat = true) :
    expr.eval value = true
      ↔ ∃ terms ∈ expr.alternatives, ∀ x ∈ terms, value x = true := by
  refine ⟨exists_alternative_of_eval, ?_⟩
  induction expr with
  | term x => simp [alternatives, eval]
  | and left right =>
      rw [isFlat, Bool.and_eq_true_iff, Bool.not_eq_true', Bool.not_eq_true']
        at hflat
      have hnone : (and left right).hasOr = false :=
        Bool.or_eq_false_iff.mpr hflat
      obtain ⟨terms, hterms, heval⟩ := alternatives_of_not_hasOr value hnone
      rw [hterms, heval]
      rintro ⟨terms', hmem, hall⟩
      rw [List.mem_singleton.mp hmem] at hall
      exact hall
  | or left right ihLeft ihRight =>
      have hboth := Bool.and_eq_true_iff.mp hflat
      rintro ⟨terms, hmem, hall⟩
      rw [eval, Bool.or_eq_true_iff]
      rcases List.mem_append.mp hmem with hleft | hright
      · exact .inl (ihLeft hboth.1 ⟨terms, hleft, hall⟩)
      · exact .inr (ihRight hboth.2 ⟨terms, hright, hall⟩)

/-! ## The tag that counts -/

/-- If each alternative has the tag `ignore`, the expression does not hold
without it. -/
theorem holds_eq_false_of_forall_mem {truth : Tag → Bool}
    (hignore : truth .ignore = false)
    (h : ∀ terms ∈ expr.alternatives, .tag .ignore ∈ terms) :
    expr.holds truth = false := by
  refine Bool.eq_false_iff.mpr fun htrue => ?_
  obtain ⟨terms, hmem, hall⟩ := exists_alternative_of_eval htrue
  have hholds : truth .ignore = true := hall (.tag .ignore) (h terms hmem)
  rw [hignore] at hholds
  cases hholds

/-- With no tag negated it is the same to count every other tag as satisfied
and to count every other term as satisfied. -/
theorem holds_othersHold_of_isPositive (h : expr.isPositive = true) :
    expr.holds othersHold = expr.eval (· != .tag .ignore) := by
  induction expr with
  | term x =>
      cases x with
      | tag t =>
          show (t != Tag.ignore) = (Term.tag t != Term.tag Tag.ignore)
          rw [Bool.eq_iff_iff]
          simp
      | notTag t => cases h
  | and left right ihLeft ihRight =>
      have hboth := Bool.and_eq_true_iff.mp h
      exact congrArg₂ (· && ·) (ihLeft hboth.1) (ihRight hboth.2)
  | or left right ihLeft ihRight =>
      have hboth := Bool.and_eq_true_iff.mp h
      exact congrArg₂ (· || ·) (ihLeft hboth.1) (ihRight hboth.2)

/-- A flat expression cannot hold without the tag `ignore` exactly if each of
its alternatives has it. -/
theorem eval_ne_ignore_eq_false_iff_of_isFlat (hflat : expr.isFlat = true) :
    expr.eval (· != .tag .ignore) = false
      ↔ ∀ terms ∈ expr.alternatives, .tag .ignore ∈ terms := by
  rw [Bool.eq_false_iff, Ne, eval_eq_true_iff_of_isFlat hflat]
  constructor
  · intro h terms hmem
    by_contra hnot
    exact h ⟨terms, hmem, fun x hx =>
      bne_iff_ne.mpr fun heq => hnot (heq ▸ hx)⟩
  · rintro h ⟨terms, hmem, hall⟩
    exact bne_iff_ne.mp (hall _ (h terms hmem)) rfl

end BuildExpr

end ImportChart.Source
