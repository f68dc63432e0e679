import Mathlib.Logic.Basic

-- Nodes with at most one parent each, and the chain of parents above a node.
namespace Forest

inductive Below (up : α → Option α) (a : α) : α → Prop where
  | self : Below up a a
  | step : up i = some p → Below up a p → Below up a i

section Chains
variable {α : Type} {up up' : α → Option α} {a i x d : α}

lemma Below.not_self (top : up a = none) (below : Below up a i) : up i ≠ some i := by
  induction below with
  | self => rw [top]; exact nofun
  | @step i p parent _ ih =>
    intro loop
    obtain rfl : p = i := Option.mem_unique parent loop
    exact ih loop

-- A chain that does not go through x does not see a change at x.
lemma Below.keep (eq : ∀ j p,j ≠ x → up j = some p → up' j = some p) (below : Below up a i) (clear : ¬ Below up x i) : Below up' a i := by
  induction below with
  | self => exact .self
  | step parent _ ih =>
    refine .step (eq _ _ ?_ parent) (ih fun inside => clear (.step parent inside))
    rintro rfl
    exact clear .self

-- x gets a new parent d that is not below x: every chain still ends where it did.
lemma Below.graft (eq : ∀ j p,j ≠ x → up j = some p → up' j = some p) (moved : up' x = some d) (goal : Below up a d)
    (clear : ¬ Below up x d) (below : Below up a i) : Below up' a i := by
  induction below with
  | self => exact .self
  | @step j p parent _ ih =>
    by_cases here : j = x
    · subst here
      exact .step moved (goal.keep eq clear)
    exact .step (eq j p here parent) ih

lemma Below.mono (eq : ∀ j p,up j = some p → up' j = some p) (below : Below up a i) : Below up' a i := by
  induction below with
  | self => exact .self
  | step parent _ ih => exact .step (eq _ _ parent) ih

-- Nothing but a itself is below a node without children.
lemma Below.only (leaf : ∀ c,up c ≠ some a) (below : Below up a i) : i = a := by
  induction below with
  | self => rfl
  | step parent _ ih =>
    rw [ih] at parent
    exact absurd parent (leaf _)

end Chains
end Forest
