import Mathlib.Data.Set.Card
import Mathlib.Tactic.Common

-- How many keys of a table hold a value of a given kind.
namespace Tally
open Function (update update_of_ne)

open Classical in
noncomputable def one (p : Prop) : Nat := if p then 1 else 0

lemma one_pos {p : Prop} (holds : p) : one p = 1 := if_pos holds
lemma one_neg {p : Prop} (fails : ¬ p) : one p = 0 := if_neg fails

section Tables
variable {κ β : Type} {f : κ → β} {q : β → Prop}

noncomputable def tally (f : κ → β) (q : β → Prop) : Nat := {k | q (f k)}.ncard

lemma tally_pos (finite : {k | q (f k)}.Finite) (held : q (f k)) : 0 < tally f q := (Set.ncard_pos finite).mpr ⟨k,held⟩

lemma tally_zero (none : ∀ k,¬ q (f k)) : tally f q = 0 := by
  have empty : {k | q (f k)} = ∅ := Set.eq_empty_iff_forall_notMem.mpr none
  rw [tally,empty,Set.ncard_empty]

lemma tally_le_one (finite : {k | q (f k)}.Finite) (few : tally f q ≤ 1) (one : q (f j)) (two : q (f k)) : j = k :=
  (Set.ncard_le_one finite).mp few j one k two

variable [DecidableEq κ]

lemma update_finite (finite : {k | q (f k)}.Finite) (k : κ) (b : β) : {j | q (update f k b j)}.Finite := by
  refine (finite.insert k).subset fun j held => ?_
  rcases eq_or_ne j k with rfl | ne
  · exact .inl rfl
  rw [Set.mem_ofPred_eq,update_of_ne ne] at held
  exact .inr held

lemma tally_update (finite : {k | q (f k)}.Finite) (k : κ) (b : β) : tally (update f k b) q + one (q (f k)) = tally f q + one (q b) := by
  have rest : ∀ g : κ → β,{j | q (g j)}.Finite → {j | q (g j)}.ncard = ({j | q (g j)} \ {k}).ncard + one (q (g k)) := by
    intro g finite
    by_cases held : q (g k)
    · rw [one_pos held,Set.ncard_sdiff_singleton_add_one (show k ∈ {j | q (g j)} from held) finite]
    rw [one_neg held,Set.sdiff_singleton_eq_self (show k ∉ {j | q (g j)} from held),add_zero]
  have eq : {j | q (update f k b j)} \ {k} = {j | q (f j)} \ {k} := by
    ext j
    rcases eq_or_ne j k with rfl | ne
    · simp
    simp [update_of_ne ne]
  have new := rest (update f k b) (update_finite finite k b)
  have old := rest f finite
  rw [eq,Function.update_self] at new
  simp only [tally]
  omega

lemma tally_unchanged (finite : {k | q (f k)}.Finite) (eq : q (f k) ↔ q b) : tally (update f k b) q = tally f q := by
  have step := tally_update finite k b
  rw [show one (q (f k)) = one (q b) by simp only [eq]] at step
  omega

end Tables
end Tally
