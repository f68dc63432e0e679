import Mathlib.Tactic

-- Threads that wait for one another.
namespace Waits

def Deadlock (waits : θ → θ → Prop) : Prop :=
  ∃ stuck : Set θ,stuck.Nonempty ∧ ∀ t ∈ stuck,∃ u ∈ stuck,u ≠ t ∧ waits t u

lemma Deadlock.of_pair {waits : θ → θ → Prop} (ne : t ≠ u) (one : waits t u) (two : waits u t) : Deadlock waits := by
  refine ⟨{t,u},⟨t,by simp⟩,?_⟩
  intro v mem
  rcases mem with rfl | rfl
  · exact ⟨u,by simp,ne.symm,one⟩
  exact ⟨t,by simp,ne,two⟩

lemma no_deadlock_of_level {waits : θ → θ → Prop} {level : θ → Nat} {cap : Nat} (bound : ∀ t,level t ≤ cap)
    (rises : ∀ t u v,u ≠ t → v ≠ u → waits t u → waits u v → level t < level u) : ¬Deadlock waits := by
  rintro ⟨stuck,⟨t,mem⟩,blocked⟩
  -- every thread of the set is followed by one of a higher level
  have climb n : ∃ u ∈ stuck,n ≤ level u := by
    induction n with
    | zero => exact ⟨t,mem,Nat.zero_le _⟩
    | succ n ih =>
      obtain ⟨u,inside,high⟩ := ih
      obtain ⟨v,next,ne,wait⟩ := blocked u inside
      obtain ⟨x,_,beyond,after⟩ := blocked v next
      have up := rises u v x ne beyond wait after
      exact ⟨v,next,by omega⟩
  obtain ⟨u,_,_⟩ := climb (cap + 1)
  have low := bound u
  omega

end Waits
