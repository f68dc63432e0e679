import Ucore.Memmap.Table

-- The search over the boundary table, and the test of a range built on it.
namespace Ucore.Memmap

lemma getD_entry (table : List Nat) (cap : p < table.length) : table.getD p 0 = table[p] := by simp [cap]

lemma getD_lt {table : List Nat} (order : table.Pairwise (· < ·)) (less : p < q) (cap : q < table.length) : table.getD p 0 < table.getD q 0 := by
  rw [getD_entry _ (by omega),getD_entry _ cap]
  exact List.pairwise_iff_getElem.mp order p q _ cap less

-- While the loop runs, entry r is above addr unless it is the last one, and those
-- before l are not.
lemma binSearch_spec {table : List Nat} (addr : Nat) (order : table.Pairwise (· < ·)) (fuel l r : Nat) (le : l ≤ r) (cap : r < table.length)
    (enough : r - l ≤ fuel) (above : r + 1 < table.length → addr < table.getD r 0) (below : ∀ p < l,table.getD p 0 ≤ addr) :
    binSearch table addr fuel l r < table.length ∧ (binSearch table addr fuel l r + 1 < table.length → addr < table.getD (binSearch table addr fuel l r) 0) ∧
      ∀ p,p < binSearch table addr fuel l r → table.getD p 0 ≤ addr := by
  induction fuel generalizing l r with
  | zero =>
    obtain rfl : l = r := by omega
    exact ⟨cap,above,below⟩
  | succ _ ih =>
    unfold binSearch
    split
    · split
      · next higher => exact ih l _ (by omega) (by omega) (by omega) (fun _ => higher) below
      next _ =>
      apply ih _ r (by omega) cap (by omega) above
      intro p _
      by_cases middle : p = (l + r) / 2
      · rw [middle]; omega
      have := getD_lt order (show p < (l + r) / 2 by omega) (by omega)
      omega
    next _ =>
    obtain rfl : l = r := by omega
    exact ⟨cap,above,below⟩

-- The first index above addr, or the last one.
lemma memmapBinSearch_spec (s : Map) (addr : Nat) (order : s.memmapAddr.Pairwise (· < ·)) (has : 0 < s.memmapAddr.length) : ∀ i,memmapBinSearch s addr = i ↔
      i < s.memmapAddr.length ∧ (i + 1 < s.memmapAddr.length → addr < s.memmapAddr.getD i 0) ∧ ∀ p < i,s.memmapAddr.getD p 0 ≤ addr := by
  have got := binSearch_spec addr order s.memmapAddr.length 0 (s.memmapAddr.length - 1) (Nat.zero_le _) (by omega) (by omega) (fun _ => by omega)
    (fun p less => by omega)
  intro i
  constructor
  · rintro rfl
    exact got
  rintro ⟨cap,above,least⟩
  change binSearch _ _ _ _ _ = i
  generalize binSearch s.memmapAddr addr s.memmapAddr.length 0 (s.memmapAddr.length - 1) = j at got
  rcases Nat.lt_trichotomy i j with less | eq | more
  · have := got.2.2 i less
    have := above (by omega)
    omega
  · exact eq.symm
  have := least j more
  have := got.2.1 (by omega)
  omega

section
variable {t : Map} {start stop : Nat} (order : t.memmapAddr.Pairwise (· < ·)) (has : 0 < t.memmapAddr.length) (range : start < stop)
include order has range

lemma test_within (within : stop ≤ t.memmapAddr.getD (t.memmapAddr.length - 1) 0) :
    memmapTest t start stop = true ↔ ∃ lo hi,Interval t.memmapAddr lo hi ∧ lo ≤ start ∧ stop ≤ hi := by
  have low := memmapBinSearch_spec t start order has
  have high := memmapBinSearch_spec t (stop - 1) order has
  simp only [memmapTest,Bool.and_eq_true,decide_eq_true_eq]
  constructor
  · rintro ⟨odd,same⟩
    obtain ⟨bound,_,least⟩ := (low _).mp rfl
    obtain ⟨_,above,_⟩ := (high _).mp rfl
    rw [← same] at above
    generalize memmapBinSearch t start = i at *
    obtain ⟨k,rfl⟩ : ∃ k,i = 2 * k + 1 := ⟨i / 2,by omega⟩
    have past : stop - 1 < t.memmapAddr.getD (2 * k + 1) 0 := by
      by_cases last : 2 * k + 1 + 1 < t.memmapAddr.length
      · exact above last
      rw [show 2 * k + 1 = t.memmapAddr.length - 1 by omega]
      omega
    have first := least (2 * k) (by omega)
    rw [getD_entry _ (by omega)] at first
    rw [getD_entry _ bound] at past
    exact ⟨_,_,⟨k,List.getElem?_eq_getElem (by omega),List.getElem?_eq_getElem bound⟩,first,by omega⟩
  rintro ⟨lo,hi,⟨k,one,two⟩,from_,upto⟩
  obtain ⟨bound,rfl⟩ := List.getElem?_eq_some_iff.mp two
  obtain ⟨_,rfl⟩ := List.getElem?_eq_some_iff.mp one
  rw [← getD_entry _] at from_ upto
  have before p : p < 2 * k + 1 → t.memmapAddr.getD p 0 ≤ start := by
    intro less
    by_cases lower : p = 2 * k
    · rwa [lower]
    have := getD_lt order (show p < 2 * k by omega) (by omega)
    omega
  have i := (low (2 * k + 1)).mpr ⟨bound,fun _ => by omega,before⟩
  have j := (high (2 * k + 1)).mpr ⟨bound,fun _ => by omega,fun p less => by have := before p less; omega⟩
  rw [i,j]
  exact ⟨by omega,rfl⟩

-- Past the last boundary the search for the end stops at the last index.
lemma test_past (past : t.memmapAddr.getD (t.memmapAddr.length - 1) 0 < stop) :
    memmapTest t start stop = true ↔ t.memmapAddr.length % 2 = 0 ∧ t.memmapAddr.getD (t.memmapAddr.length - 2) 0 ≤ start := by
  have j := (memmapBinSearch_spec t (stop - 1) order has (t.memmapAddr.length - 1)).mpr
    ⟨by omega,fun more => by omega,fun p less => by have := getD_lt order less (by omega); omega⟩
  simp only [memmapTest,Bool.and_eq_true,decide_eq_true_eq,j]
  constructor
  · rintro ⟨odd,i⟩
    obtain ⟨_,_,least⟩ := (memmapBinSearch_spec t start order has _).mp i
    exact ⟨by omega,least _ (by omega)⟩
  rintro ⟨even,least⟩
  have i := (memmapBinSearch_spec t start order has (t.memmapAddr.length - 1)).mpr ⟨by omega,fun more => by omega,fun p less => ?_⟩
  · rw [i]
    exact ⟨by omega,rfl⟩
  by_cases last : p = t.memmapAddr.length - 2
  · rwa [last]
  have := getD_lt order (show p < t.memmapAddr.length - 2 by omega) (by omega)
  omega

end

-- The test is right exactly for the ranges that end at or below the last boundary or
-- start below the last interval. (A table of odd length has no last interval.)
theorem memmap_test_exact (s : Map) (regions : List Region) (start stop : Nat) (range : start < stop) :
    (memmapTest (memmapProcess (memmapAppends s regions)) start stop = true ↔
      ∃ lo hi,Interval (memmapProcess (memmapAppends s regions)).memmapAddr lo hi ∧ lo ≤ start ∧ stop ≤ hi) ↔
    ∀ last,(memmapProcess (memmapAppends s regions)).memmapAddr.getLast? = some last → stop ≤ last ∨
      (memmapProcess (memmapAppends s regions)).memmapAddr.length % 2 = 1 ∨
      start < (memmapProcess (memmapAppends s regions)).memmapAddr.getD ((memmapProcess (memmapAppends s regions)).memmapAddr.length - 2) 0 := by
  have order := (process_spec (memmapAppends s regions)).1
  generalize memmapProcess (memmapAppends s regions) = t at order
  by_cases has : 0 < t.memmapAddr.length
  · have last : t.memmapAddr.getLast? = some (t.memmapAddr.getD (t.memmapAddr.length - 1) 0) := by
      rw [List.getLast?_eq_getElem?,getD_entry _ (by omega),List.getElem?_eq_getElem (by omega)]
    simp only [last,Option.some.injEq,forall_eq']
    by_cases within : stop ≤ t.memmapAddr.getD (t.memmapAddr.length - 1) 0
    · exact iff_of_true (test_within order has range within) (.inl within)
    have none : ¬ ∃ lo hi,Interval t.memmapAddr lo hi ∧ lo ≤ start ∧ stop ≤ hi := by
      rintro ⟨lo,hi,⟨k,_,two⟩,_,upto⟩
      obtain ⟨bound,rfl⟩ := List.getElem?_eq_some_iff.mp two
      rw [← getD_entry _] at upto
      by_cases end_ : 2 * k + 1 = t.memmapAddr.length - 1
      · exact within (end_ ▸ upto)
      have := getD_lt order (show 2 * k + 1 < t.memmapAddr.length - 1 by omega) (by omega)
      omega
    rw [iff_false_right none,test_past order has range (by omega)]
    omega
  have empty : t.memmapAddr = [] := List.eq_nil_of_length_eq_zero (by omega)
  simp [memmapTest,memmapBinSearch,binSearch,Interval,empty]

theorem memmap_test_exact_inside : memmapTest (memmapProcess (memmapAppends emptyMap [⟨0,9,1⟩,⟨4,6,2⟩])) 6 9 = true ∧
    ∃ lo hi,Interval (memmapProcess (memmapAppends emptyMap [⟨0,9,1⟩,⟨4,6,2⟩])).memmapAddr lo hi ∧ lo ≤ 6 ∧ 9 ≤ hi := by
  have table : (memmapProcess (memmapAppends emptyMap [⟨0,9,1⟩,⟨4,6,2⟩])).memmapAddr = [0,4,6,9] := by decide
  have yes : memmapTest (memmapProcess (memmapAppends emptyMap [⟨0,9,1⟩,⟨4,6,2⟩])) 6 9 = true := by decide
  refine ⟨yes,((memmap_test_exact emptyMap [⟨0,9,1⟩,⟨4,6,2⟩] 6 9 (by decide)).mpr fun last same => .inl ?_).mp yes⟩
  rw [table] at same
  cases same
  decide

-- Past the last boundary the search stops at the last index, which is odd.
theorem memmap_test_above : (memmapProcess (memmapAppends emptyMap [⟨0,9,1⟩])).memmapAddr = [0,9] ∧
    memmapTest (memmapProcess (memmapAppends emptyMap [⟨0,9,1⟩])) 20 30 = true ∧
    ¬ ∃ lo hi,Interval [0,9] lo hi ∧ lo ≤ 20 ∧ 30 ≤ hi := by
  refine ⟨by decide,by decide,?_⟩
  rintro ⟨lo,hi,⟨k,one,two⟩,_,high⟩
  have member := List.mem_of_getElem? two
  simp at member
  omega

end Ucore.Memmap
