import Mathlib.Data.Nat.Bitwise
import Mathlib.Tactic

namespace Dyadic
open Nat (pow_succ two_pow_pos)

def Aligned (i o : Nat) : Prop := 2^o ∣ i
def Within (x i o : Nat) : Prop := i ≤ x ∧ x < i + 2^o
def buddy (i o : Nat) : Nat := i ^^^ 2^o

instance (i o : Nat) : Decidable (Aligned i o) := inferInstanceAs (Decidable (2^o ∣ i))
instance (x i o : Nat) : Decidable (Within x i o) := inferInstanceAs (Decidable (_ ∧ _))

lemma Aligned.mono (even : Aligned i m) (le : o ≤ m) : Aligned i o := Nat.dvd_trans (Nat.pow_dvd_pow 2 le) even

lemma Aligned.add_pow (even : Aligned i o) : Aligned (i + 2^o) o := Nat.dvd_add even (Nat.dvd_refl _)

lemma aligned_zero (i : Nat) : Aligned i 0 := by simp [Aligned]

lemma within_head (i o : Nat) : Within i i o := ⟨le_refl _,Nat.lt_add_of_pos_right (two_pow_pos o)⟩

lemma Aligned.half (even : Aligned i o) : Aligned i (o+1) ∨ ∃ j,Aligned j (o+1) ∧ i = j + 2^o := by
  obtain ⟨k,rfl⟩ := even
  rcases Nat.even_or_odd' k with ⟨m,rfl | rfl⟩
  · exact .inl ⟨m,by rw [pow_succ]; ring⟩
  exact .inr ⟨2^(o+1) * m,Nat.dvd_mul_right _ _,by rw [pow_succ]; ring⟩

lemma buddy_left (even : Aligned i (o+1)) : buddy i o = i + 2^o := by
  obtain ⟨k,rfl⟩ := even
  have small : 2^o < 2^(o+1) := Nat.pow_lt_pow_succ (by decide)
  apply Nat.eq_of_testBit_eq
  intro j
  rw [buddy,Nat.testBit_xor,Nat.testBit_two_pow_mul_add _ small,Nat.testBit_two_pow_mul]
  by_cases low : j < o+1
  · have notLe : ¬ o+1 ≤ j := by omega
    simp [low,notLe]
  have le : o+1 ≤ j := by omega
  have ne : o ≠ j := by omega
  simp [low,le,ne]

lemma buddy_right (even : Aligned i (o+1)) : buddy (i + 2^o) o = i := by
  rw [← buddy_left even,buddy,buddy,Nat.xor_assoc,Nat.xor_self,Nat.xor_zero]

lemma and_left (even : Aligned i (o+1)) : i &&& (i + 2^o) = i := by
  obtain ⟨k,rfl⟩ := even
  have small : 2^o < 2^(o+1) := Nat.pow_lt_pow_succ (by decide)
  apply Nat.eq_of_testBit_eq
  intro j
  rw [Nat.testBit_and,Nat.testBit_two_pow_mul_add _ small,Nat.testBit_two_pow_mul]
  by_cases low : j < o+1
  · have notLe : ¬ o+1 ≤ j := by omega
    simp [notLe]
  simp [low]

lemma Aligned.and_buddy (even : Aligned i o) : (Aligned i (o+1) ∧ i &&& buddy i o = i ∧ buddy i o = i + 2^o) ∨
    ∃ j,Aligned j (o+1) ∧ i = j + 2^o ∧ i &&& buddy i o = j ∧ buddy i o = j := by
  rcases even.half with left | ⟨j,up,rfl⟩
  · exact .inl ⟨left,by rw [buddy_left left,and_left left],buddy_left left⟩
  refine .inr ⟨j,up,rfl,?_,buddy_right up⟩
  rw [buddy_right up,Nat.and_comm,and_left up]

lemma Aligned.merge_aligned (even : Aligned i o) : Aligned (i &&& buddy i o) (o+1) := by
  rcases even.and_buddy with ⟨up,eq,_⟩ | ⟨j,up,_,eq,_⟩
  · rw [eq]; exact up
  rw [eq]; exact up

lemma Aligned.merge_within (even : Aligned i o) : Within x (i &&& buddy i o) (o+1) ↔ Within x i o ∨ Within x (buddy i o) o := by
  have double : 2^(o+1) = 2^o + 2^o := by rw [pow_succ]; ring
  rcases even.and_buddy with ⟨_,merged,ne⟩ | ⟨j,_,rfl,merged,ne⟩
  · rw [merged,ne]; simp only [Within,double]; omega
  rw [merged,ne]; simp only [Within,double]; omega

lemma Aligned.buddy_disjoint (even : Aligned i o) (one : Within x i o) : ¬ Within x (buddy i o) o := by
  rcases even.and_buddy with ⟨_,_,ne⟩ | ⟨j,_,rfl,_,ne⟩
  · rw [ne]; simp only [Within] at *; omega
  rw [ne]; simp only [Within] at *; omega

lemma Aligned.buddy_buddy (_ : Aligned i o) : buddy (buddy i o) o = i := by rw [buddy,buddy,Nat.xor_assoc,Nat.xor_self,Nat.xor_zero]

lemma nested (left : Aligned i o) (right : Aligned j m) (le : o ≤ m)
    (inLeft : Within x i o) (inRight : Within x j m) : j ≤ i ∧ i + 2^o ≤ j + 2^m := by
  obtain ⟨k,rfl⟩ := left
  obtain ⟨l,rfl⟩ := right
  obtain ⟨d,rfl⟩ := Nat.exists_eq_add_of_le le
  have split : 2^(o+d) = 2^o * 2^d := Nat.pow_add 2 o d
  obtain ⟨_,_⟩ := inLeft
  obtain ⟨lowRight,highRight⟩ := inRight
  rw [split,Nat.mul_assoc] at lowRight highRight ⊢
  have pos : 0 < 2^o := two_pow_pos o
  have below : 2^d * l ≤ k := by
    have : 2^o * (2^d * l) < 2^o * (k+1) := by rw [Nat.mul_add,Nat.mul_one]; omega
    exact Nat.lt_succ_iff.mp (Nat.lt_of_mul_lt_mul_left this)
  have above : k + 1 ≤ 2^d * l + 2^d := by
    have : 2^o * k < 2^o * (2^d * l + 2^d) := by rw [Nat.mul_add]; omega
    exact Nat.lt_of_mul_lt_mul_left this
  refine ⟨Nat.mul_le_mul_left _ below,?_⟩
  have := Nat.mul_le_mul_left (2^o) above
  rw [Nat.mul_add,Nat.mul_one,Nat.mul_add] at this
  exact this

lemma Within.sub (inside : j ≤ i ∧ i + 2^o ≤ j + 2^m) (one : Within x i o) : Within x j m := by simp only [Within] at *; omega

structure Tiling (blocks : Nat → Nat → Prop) (free : Nat → Prop) (top : Nat) : Prop where
  bounded : ∀ i o,blocks i o → o ≤ top
  aligned : ∀ i o,blocks i o → Aligned i o
  disjoint : ∀ i o j m x,blocks i o → blocks j m → Within x i o → Within x j m → i = j ∧ o = m
  covers : ∀ x,free x ↔ ∃ i o,blocks i o ∧ Within x i o

def Coalesced (blocks : Nat → Nat → Prop) (top : Nat) : Prop :=
  ∀ i o,blocks i o → o < top → ¬ blocks (buddy i o) o

def FreeBlock (free : Nat → Prop) (top i o : Nat) : Prop :=
  o ≤ top ∧ Aligned i o ∧ ∀ x,Within x i o → free x
def Maximal (free : Nat → Prop) (top i o : Nat) : Prop :=
  FreeBlock free top i o ∧ ∀ j m,FreeBlock free top j m →
    (∀ x,Within x i o → Within x j m) → i = j ∧ o = m

lemma Tiling.freeBlock (tiling : Tiling blocks free top) (mem : blocks i o) : FreeBlock free top i o :=
  ⟨tiling.bounded i o mem,tiling.aligned i o mem,fun x inside => (tiling.covers x).mpr ⟨i,o,mem,inside⟩⟩

-- Induction on the order: two halves covered by blocks of the half order
-- would be buddies, so one of the covering blocks covers both halves.
lemma Tiling.covered (tiling : Tiling blocks free top) (coalesced : Coalesced blocks top)
    (block : FreeBlock free top i o) : ∃ j m,blocks j m ∧ o ≤ m ∧ j ≤ i ∧ i + 2^o ≤ j + 2^m := by
  induction o generalizing i with
  | zero =>
    obtain ⟨_,even,inside⟩ := block
    obtain ⟨j,m,mem,within⟩ := (tiling.covers i).mp (inside i (within_head i 0))
    have fits := nested even (tiling.aligned j m mem) (Nat.zero_le m) (within_head i 0) within
    exact ⟨j,m,mem,Nat.zero_le m,fits⟩
  | succ o ih =>
    obtain ⟨_,even,inside⟩ := block
    have double : 2^(o+1) = 2^o + 2^o := by rw [pow_succ]; ring
    have lower : Aligned i o := even.mono (Nat.le_succ _)
    have leftFree : FreeBlock free top i o := ⟨by omega,lower,fun x h => inside x (by simp only [Within,double] at *; omega)⟩
    have rightFree : FreeBlock free top (i + 2^o) o := ⟨by omega,lower.add_pow,fun x h => inside x (by simp only [Within,double] at *; omega)⟩
    obtain ⟨j,m,mem,_,fitsM⟩ := ih leftFree
    obtain ⟨k,n,member',_,fitsN⟩ := ih rightFree
    by_cases bigger : o+1 ≤ m
    · refine ⟨j,m,mem,bigger,?_⟩
      have common : Within i j m := Within.sub fitsM (within_head i o)
      exact nested even (tiling.aligned j m mem) bigger (within_head i (o+1)) common
    by_cases bigger' : o+1 ≤ n
    · refine ⟨k,n,member',bigger',?_⟩
      have common : Within (i + 2^o) k n := Within.sub fitsN (within_head (i + 2^o) o)
      have inWhole : Within (i + 2^o) i (o+1) := by
        have pos := two_pow_pos o
        simp only [Within,double]; omega
      exact nested even (tiling.aligned k n member') bigger' inWhole common
    have sameM : m = o := by omega
    have sameN : n = o := by omega
    subst m n
    have equalJ : j = i := by omega
    have equalK : k = i + 2^o := by omega
    subst j k
    rw [← buddy_left even] at member'
    exact absurd member' (coalesced i o mem (by omega))

lemma Tiling.maximal_iff (tiling : Tiling blocks free top) (coalesced : Coalesced blocks top) : blocks i o ↔ Maximal free top i o := by
  constructor
  · intro mem
    refine ⟨tiling.freeBlock mem,?_⟩
    intro j m larger contains
    obtain ⟨k,n,covering,_,fits⟩ := tiling.covered coalesced larger
    have inLarger : Within i j m := contains i (within_head i o)
    obtain ⟨rfl,rfl⟩ := tiling.disjoint i o k n i mem covering (within_head i o) (Within.sub fits inLarger)
    have last : Within (i + 2^o - 1) j m := by
      have pos := two_pow_pos o
      exact contains _ (by simp only [Within]; omega)
    have pos := two_pow_pos o
    have positive' := two_pow_pos m
    simp only [Within] at inLarger last
    have start : i = j := by omega
    have size : 2^o = 2^m := by omega
    exact ⟨start,Nat.pow_right_injective (le_refl 2) size⟩
  rintro ⟨block,greatest⟩
  obtain ⟨j,m,mem,_,fits⟩ := tiling.covered coalesced block
  obtain ⟨rfl,rfl⟩ := greatest j m (tiling.freeBlock mem) (fun x inside => Within.sub fits inside)
  exact mem

end Dyadic
