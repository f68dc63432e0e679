import Mathlib.Tactic.Tauto

-- Cells of a store handed out to places. own names the cell a place holds, 0
-- for none; used says which cells are taken; base holds the taken cells that
-- belong to no place.
namespace Ownership

structure Exact {P : Type} (own : P → Nat) (used base : Nat → Prop) : Prop where
  accounted : ∀ b,used b ↔ base b ∨ (b ≠ 0 ∧ ∃ p,own p = b)
  single : ∀ p q,own p ≠ 0 → own p = own q → p = q
  apart : ∀ p,own p ≠ 0 → ¬ base (own p)

namespace Exact
variable {P : Type} {own own' : P → Nat} {used used' base base' : Nat → Prop} {p : P} {b : Nat}

section
variable (exact : Exact own used base)
include exact

lemma owned (held : own p ≠ 0) : used (own p) := (exact.accounted _).mpr (.inr ⟨held,p,rfl⟩)

lemma based (held : base b) : used b := (exact.accounted b).mpr (.inl held)

lemma congr (places : ∀ q,own' q = own q) (cells : ∀ x,used' x ↔ used x) (rest : ∀ x,base' x ↔ base x) : Exact own' used' base' := by
  obtain rfl : own' = own := funext places
  obtain rfl : used' = used := funext fun x => propext (cells x)
  obtain rfl : base' = base := funext fun x => propext (rest x)
  exact exact

lemma reserve (free : ¬ used b) : Exact own (fun x => used x ∨ x = b) (fun x => base x ∨ x = b) := by
  refine ⟨fun x => ?_,exact.single,fun q held => ?_⟩
  · have := exact.accounted x
    tauto
  rintro (old | rfl)
  · exact exact.apart q held old
  exact free (exact.owned held)

lemma discard (held : base b) : Exact own (fun x => used x ∧ x ≠ b) (fun x => base x ∧ x ≠ b) := by
  refine ⟨fun x => ?_,exact.single,fun q spot old => exact.apart q spot old.1⟩
  rw [exact.accounted x]
  constructor
  · rintro ⟨old | ⟨pos,q,rfl⟩,ne⟩
    · exact .inl ⟨old,ne⟩
    exact .inr ⟨pos,q,rfl⟩
  rintro (⟨old,ne⟩ | ⟨pos,q,rfl⟩)
  · exact ⟨.inl old,ne⟩
  refine ⟨.inr ⟨pos,q,rfl⟩,?_⟩
  rintro rfl
  exact exact.apart q pos held

end

lemma adopt [DecidableEq P] (exact : Exact own used base) (held : base b) (pos : b ≠ 0) (free : own p = 0) :
    Exact (fun q => if q = p then b else own q) used (fun x => base x ∧ x ≠ b) := by
  refine ⟨fun x => ?_,fun q r spot eq => ?_,fun q spot => ?_⟩
  · rw [exact.accounted x]
    constructor
    · rintro (old | ⟨nz,q,rfl⟩)
      · by_cases eq : x = b
        · exact .inr ⟨eq ▸ pos,p,by simp [eq]⟩
        exact .inl ⟨old,eq⟩
      refine .inr ⟨nz,q,?_⟩
      rw [if_neg]
      rintro rfl
      exact nz free
    rintro (⟨old,_⟩ | ⟨nz,q,rfl⟩)
    · exact .inl old
    by_cases eq : q = p
    · simp only [eq,if_true]; exact .inl held
    simp only [eq,if_false] at nz ⊢
    exact .inr ⟨nz,q,rfl⟩
  · by_cases one : q = p
    · by_cases two : r = p
      · rw [one,two]
      simp only [one,if_true,two,if_false] at eq
      exact absurd held (eq ▸ exact.apart r (eq ▸ pos))
    by_cases two : r = p
    · simp only [two,if_true,one,if_false] at eq
      exact absurd held (eq ▸ exact.apart q (eq ▸ pos))
    simp only [one,two,if_false] at eq spot
    exact exact.single q r spot eq
  by_cases eq : q = p
  · simp [eq]
  simp only [eq,if_false] at spot ⊢
  exact fun old => exact.apart q spot old.1

lemma abandon (exact : Exact own used base) (group : P → Prop) [DecidablePred group] :
    Exact (fun q => if group q then 0 else own q) used (fun x => base x ∨ (x ≠ 0 ∧ ∃ q,group q ∧ own q = x)) := by
  refine ⟨fun x => ?_,fun q r spot eq => ?_,fun q spot => ?_⟩
  · rw [exact.accounted x]
    constructor
    · rintro (old | ⟨nz,q,rfl⟩)
      · exact .inl (.inl old)
      by_cases low : group q
      · exact .inl (.inr ⟨nz,q,low,rfl⟩)
      exact .inr ⟨nz,q,by simp [low]⟩
    rintro ((old | ⟨nz,q,_,rfl⟩) | ⟨nz,q,rfl⟩)
    · exact .inl old
    · exact .inr ⟨nz,q,rfl⟩
    by_cases low : group q
    · simp [low] at nz
    simp only [low,if_false] at nz ⊢
    exact .inr ⟨nz,q,rfl⟩
  · by_cases one : group q
    · simp [one] at spot
    by_cases two : group r
    · simp only [two,if_true,one,if_false] at eq spot
      exact absurd eq spot
    simp only [one,two,if_false] at eq spot
    exact exact.single q r spot eq
  by_cases low : group q
  · simp [low] at spot
  simp only [low,if_false] at spot ⊢
  rintro (old | ⟨_,r,mem,equal⟩)
  · exact exact.apart q spot old
  exact low (exact.single q r spot equal.symm ▸ mem)

lemma release [DecidableEq P] (exact : Exact own used base) (held : own p ≠ 0) :
    Exact (fun q => if q = p then 0 else own q) used (fun x => base x ∨ x = own p) := by
  refine (exact.abandon (· = p)).congr (fun _ => rfl) (fun _ => .rfl) fun x => or_congr_right ⟨?_,?_⟩
  · rintro rfl
    exact ⟨held,p,rfl,rfl⟩
  rintro ⟨_,_,rfl,rfl⟩
  rfl

lemma assign [DecidableEq P] (exact : Exact own used base) (free : ¬ used b) (pos : b ≠ 0) (vacant : own p = 0) :
    Exact (fun q => if q = p then b else own q) (fun x => used x ∨ x = b) base := by
  refine ((exact.reserve free).adopt (.inr rfl) pos vacant).congr (fun _ => rfl) (fun _ => .rfl) fun x => ?_
  have ne : base x → x ≠ b := by
    rintro old rfl
    exact free (exact.based old)
  tauto

lemma clear [DecidableEq P] (exact : Exact own used base) (held : own p ≠ 0) :
    Exact (fun q => if q = p then 0 else own q) (fun x => used x ∧ x ≠ own p) base := by
  refine ((exact.release held).discard (.inr rfl)).congr (fun _ => rfl) (fun _ => .rfl) fun x => ?_
  have ne : base x → x ≠ own p := by
    rintro old rfl
    exact exact.apart p held old
  tauto

end Exact
end Ownership
