import Ucore.Buddy.Free

namespace Ucore.Buddy
open Dyadic

variable {start : Nat → Page} {zones : List (Nat × Nat)} {s : Pmm} {busy : Set Nat} {z : Nat × Nat}

lemma insert_clear_comm (s : Pmm) (ne : q ≠ p) : (s.insertBlock o q).clearPageProperty p = (s.clearPageProperty p).insertBlock o q := by
  have pages : ((s.insertBlock o q).clearPageProperty p).page = ((s.clearPageProperty p).insertBlock o q).page := by
    funext r
    simp only [put_eq,Pmm.clearPageProperty,setPage_page,moved_page]
    by_cases one : r = p
    · subst r; simp [ne.symm]
    by_cases two : r = q
    · subst r; simp [one]
    simp [one,two]
  simp only [put_eq,Pmm.clearPageProperty,Pmm.moved,Pmm.setPage] at pages ⊢
  rw [Pmm.mk.injEq]
  exact ⟨rfl,pages,rfl,rfl,rfl,rfl⟩

lemma split_clear_comm (page order k : Nat) (s : Pmm) : (splitBlock page order k s).clearPageProperty page = splitBlock page order k (s.clearPageProperty page) := by
  induction k generalizing s with
  | zero => rfl
  | succ k ih =>
    have pos := Nat.two_pow_pos (order + k)
    rw [splitBlock,ih,insert_clear_comm s (by omega),splitBlock]

lemma splitBlock_spec (inv : Inv start zones s busy) (k : Nat) (sits : Sits zones l page (order + k))
    (cap : order + k ≤ maxOrder) (used : ∀ x,Within x page (order + k) → x ∈ busy) :
    Inv start zones (splitBlock page order k s) (busy \ range (page + 2^order) (2^(order + k) - 2^order)) := by
  induction k generalizing s busy with
  | zero =>
    refine inv.congr_busy ?_
    intro x
    simp only [Set.mem_sdiff,mem_range,Nat.add_zero]
    exact ⟨fun h => h.1,fun h => ⟨h,by omega⟩⟩
  | succ k ih =>
    obtain ⟨z,got,low,_,even⟩ := id sits
    have double : 2^(order + (k+1)) = 2^(order + k) + 2^(order + k) := by rw [← Nat.add_assoc,Nat.pow_succ]; ring
    have pos := Nat.two_pow_pos (order + k)
    have shift : page + 2^(order + k) - z.1 = (page - z.1) + 2^(order + k) := by omega
    have lower : Aligned (page - z.1) (order + k) := even.mono (by omega)
    have upperSits : Sits zones l (page + 2^(order + k)) (order + k) := ⟨z,got,by omega,by omega,by rw [shift]; exact lower.add_pow⟩
    have alone : z.1 + buddy (page + 2^(order + k) - z.1) (order + k) ∉ s.freeList (order + k) := by
      have back : z.1 + (page - z.1) = page := by omega
      have up : Aligned (page - z.1) (order + k + 1) := even
      rw [shift,buddy_right up,back]
      intro listed
      exact inv.head_free listed (within_head page _) (used page (within_head page _))
    have put := inv.put upperSits (by omega) (fun x inside => used x (by simp only [Within] at *; omega)) got
      (fun _ _ => alone)
    have smaller : 2^order ≤ 2^(order + k) := Nat.pow_le_pow_right (by decide) (by omega)
    have rest := ih put ⟨z,got,low,by omega,lower⟩ (by omega) (by
      intro x _
      refine ⟨used x (by simp only [Within] at *; omega),?_⟩
      simp only [mem_blockSet,Within] at *
      omega)
    refine rest.congr_busy ?_
    intro x
    simp only [Set.mem_sdiff,mem_range,mem_blockSet,Within]
    constructor
    · rintro ⟨held,_⟩; exact ⟨⟨held,by omega⟩,by omega⟩
    rintro ⟨⟨held,_⟩,_⟩; exact ⟨held,by omega⟩

-- The scan either finds nothing and changes nothing, or takes the 2^order
-- pages at an aligned page.
lemma allocScan_spec (inv : Inv start zones s busy) (order left k : Nat) (total : order + k + left = maxOrder + 1) :
    (allocScan s order left k = (none,s) ∧ ∀ m,order + k ≤ m → m ≤ maxOrder → s.freeList m = []) ∨
    ∃ page t l,allocScan s order left k = (some page,t) ∧ Sits zones l page order ∧
      (∀ x,Within x page order → x ∉ busy) ∧ Inv start zones t (busy ∪ blockSet page order) := by
  induction left generalizing k with
  | zero => exact .inl ⟨rfl,fun m low high => by omega⟩
  | succ _ ih =>
    cases list : s.freeList (order + k) with
    | nil =>
      rcases ih (k+1) (by omega) with ⟨ran,empty⟩ | got
      · refine .inl ⟨by simpa [allocScan,list] using ran,?_⟩
        intro m low high
        by_cases eq : m = order + k
        · rw [eq]; exact list
        exact empty m (by omega) high
      exact .inr (by simpa [allocScan,list] using got)
    | cons page _ =>
      have listed : page ∈ s.freeList (order + k) := by rw [list]; exact List.mem_cons_self
      obtain ⟨cap,l,sits⟩ := inv.block _ _ listed
      have taken := inv.take listed
      have split := splitBlock_spec taken k sits cap (fun x inside => .inr inside)
      obtain ⟨z,got,low,_,even⟩ := id sits
      have smaller : 2^order ≤ 2^(order + k) := Nat.pow_le_pow_right (by decide) (by omega)
      refine .inr ⟨page,_,l,by simp only [allocScan,list]; rfl,⟨z,got,low,by omega,even.mono (by omega)⟩,?_,?_⟩
      · intro x inside
        exact inv.head_free listed (by simp only [Within] at *; omega)
      rw [split_clear_comm]
      refine split.congr_busy ?_
      intro x
      have free : Within x page (order + k) → x ∉ busy := inv.head_free listed
      have pos := Nat.two_pow_pos order
      simp only [Set.mem_sdiff,Set.mem_union,mem_range,mem_blockSet,Within] at free ⊢
      constructor
      · rintro (held | inside)
        · exact ⟨.inl held,fun out => free (by omega) held⟩
        exact ⟨.inr (by omega),by omega⟩
      rintro ⟨held | _,_⟩
      · exact .inl held
      exact .inr (by omega)

lemma getorderFrom_spec (n left order : Nat) (total : left + order = maxOrder + 1) (small : n ≤ 2^maxOrder)
    (need : left = 0 → False) (below : ∀ m < order,2^m < n) :
    ∃ k,getorderFrom n left order = .ok k ∧ k ≤ maxOrder ∧ n ≤ 2^k ∧ ∀ m < k,2^m < n := by
  induction left generalizing order with
  | zero => exact (need rfl).elim
  | succ _ ih =>
    by_cases fits : n ≤ 2^order
    · exact ⟨order,by simp [getorderFrom,fits],by omega,fits,below⟩
    have next := ih (order+1) (by omega) (by
      intro _
      have top : order = maxOrder := by omega
      rw [top] at fits
      exact fits small) (by
      intro m lt
      rcases Nat.lt_succ_iff_lt_or_eq.mp lt with less | rfl
      · exact below m less
      omega)
    simpa [getorderFrom,fits] using next

lemma getorder_spec (small : n ≤ 2^maxOrder) : ∃ k,getorder n = .ok k ∧ k ≤ maxOrder ∧ n ≤ 2^k ∧ ∀ m < k,2^m < n :=
  getorderFrom_spec n (maxOrder+1) 0 rfl small (by simp) (by simp)

-- The call gives back nothing only when every list it looks at is empty.
lemma buddyAllocPages_spec (inv : Inv start zones s busy) (has : 0 < n) (small : n ≤ 2^maxOrder) : ∃ order,order ≤ maxOrder ∧ n ≤ 2^order ∧ (∀ m < order,2^m < n) ∧
      ((buddyAllocPages s n = .ok (none,s) ∧ ∀ m,order ≤ m → m ≤ maxOrder → s.freeList m = []) ∨
      ∃ page t k,buddyAllocPages s n = .ok (some page,t) ∧ Sits zones k page order ∧ (∀ x,Within x page order → x ∉ busy) ∧ Inv start zones t (busy ∪ range page n)) := by
  obtain ⟨order,chosen,cap,fits,least⟩ := getorder_spec small
  refine ⟨order,cap,fits,least,?_⟩
  rcases allocScan_spec inv order (maxOrder + 1 - order) 0 (by omega) with ⟨ran,empty⟩ | ⟨page,t,k,ran,sits,free,after⟩
  · exact .inl ⟨by simp [buddyAllocPages,has,chosen,buddyAllocPagesSub,cap,ran,bind,Except.bind],empty⟩
  by_cases exact_ : n = 2^order
  · refine .inr ⟨page,t,k,?_,sits,free,after.congr_busy ?_⟩
    · simp [buddyAllocPages,has,chosen,buddyAllocPagesSub,cap,ran,bind,Except.bind,← exact_]
    intro x; simp only [Set.mem_union,mem_range,mem_blockSet,Within,exact_]
  obtain ⟨z,got,low,high,_⟩ := id sits
  have span : Span zones k (busy ∪ blockSet page order) (page + n) (2^order - n) := ⟨fun x low high => .inr ⟨by omega,by omega⟩,z,got,by omega,by omega⟩
  have le : 2^order ≤ 2^maxOrder := Nat.pow_le_pow_right (by decide) cap
  obtain ⟨u,freed,final⟩ := buddyFreePages_spec after (by omega) (by omega) span
  refine .inr ⟨page,u,k,?_,sits,free,final.congr_busy ?_⟩
  · simp [buddyAllocPages,has,chosen,buddyAllocPagesSub,cap,ran,bind,Except.bind,exact_,freed]
  intro x
  have := free x
  simp only [Set.mem_sdiff,Set.mem_union,mem_range,mem_blockSet,Within] at this ⊢
  constructor
  · rintro (held | inside)
    · exact ⟨.inl held,fun out => this (by omega) held⟩
    exact ⟨.inr (by omega),by omega⟩
  rintro ⟨held | _,_⟩
  · exact .inl held
  exact .inr (by omega)

end Ucore.Buddy
