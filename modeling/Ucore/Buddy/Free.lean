import Ucore.Buddy.Blocks

namespace Ucore.Buddy
open Dyadic Nat
open Option (mem_unique)
open Set (mem_sdiff)

variable {start : Nat → Page} {zones : List (Nat × Nat)} {s : Pmm} {busy : Set Nat} {z : Nat × Nat}

section
variable (inv : Inv start zones s busy)
include inv

lemma Inv.congr_busy (eq : ∀ x,x ∈ ne ↔ x ∈ busy) : Inv start zones s ne := by
  obtain rfl : ne = busy := Set.ext eq
  exact inv

-- set_page_ref and the cleared flags of a page in use change nothing the
-- lists depend on.
lemma Inv.resetPage (used : p ∈ busy) : Inv start zones (s.setPage p {s.page p with pgReserved:=false,pgProperty:=false,ref:=0}) busy := by
  obtain ⟨k,home⟩ := inv.held p used
  have clear := inv.busy_not_property used
  refine ⟨inv.toLayout.setPage home ⟨rfl,(inv.inside k p home).2⟩,?_,inv.nodup,inv.counted,inv.block,inv.disjoint,inv.covers,inv.held,inv.coalesced⟩
  intro o q
  by_cases eq : q = p
  · subst q; simpa [clear] using inv.listed o p
  simpa [eq] using inv.listed o q

lemma resetPages_spec (n p : Nat) (used : ∀ x,p ≤ x → x < p + n → x ∈ busy) :
    ∃ t,resetPages s p n = .ok t ∧ Inv start zones t busy ∧ t.memBase = s.memBase ∧ ∀ q,(t.page q).zoneNum = (s.page q).zoneNum := by
  induction n generalizing s p with
  | zero => exact ⟨s,rfl,inv,rfl,fun _ => rfl⟩
  | succ n ih =>
    have here := used p (le_refl _) (by omega)
    obtain ⟨k,home⟩ := inv.held p here
    obtain ⟨t,ran,new,bases,nums⟩ := ih (inv.resetPage here) (p+1) (fun x low high => used x (by omega) (by omega))
    refine ⟨t,?_,new,bases,?_⟩
    · simpa [resetPages,(inv.inside k p home).1,inv.busy_not_property here] using ran
    intro q
    rw [nums q]
    by_cases eq : q = p <;> simp [eq]

lemma pageIsBuddy_exact : pageIsBuddy s page order k = true ↔ InZone zones k page ∧ page ∈ s.freeList order := by
  constructor
  · intro test
    simp only [pageIsBuddy] at test
    split at test
    next cap =>
      split at test
      next zone =>
        simp only [Bool.and_eq_true,Bool.not_eq_true',beq_iff_eq] at test
        obtain ⟨⟨open_,set⟩,eq⟩ := test
        have mem : ∃ l,InZone zones l page := by
          by_contra nowhere
          have kept := inv.outside page (not_exists.mp nowhere)
          rw [kept,inv.reserved page cap] at open_
          cases open_
        obtain ⟨l,mem⟩ := mem
        have equal := (inv.inside l page mem).2
        rw [zone] at equal
        subst l
        exact ⟨mem,(inv.listed order page).mpr ⟨⟨k,mem⟩,set,eq⟩⟩
      cases test
    cases test
  rintro ⟨mem,on⟩
  obtain ⟨_,set,eq⟩ := (inv.listed order page).mp on
  obtain ⟨open_,zone⟩ := inv.inside k page mem
  simp [pageIsBuddy,inv.npage_pos mem,open_,zone,set,eq]

end

lemma mergeBlock_spec (got : zones[k]? = some z) (left : Nat) (idx order : Nat) (total : left + order = maxOrder)
    (sits : Sits zones k (z.1 + idx) order) (ne : ∀ x,Within x (z.1 + idx) order → x ∉ rest)
    (inv : Inv start zones s (rest ∪ blockSet (z.1 + idx) order)) :
    ∃ t o i,mergeBlock k left s order idx = (t,o,i) ∧ t.memBase = s.memBase ∧ o ≤ maxOrder ∧
      Sits zones k (z.1 + i) o ∧ (∀ x,Within x (z.1 + i) o → x ∉ rest) ∧
      Inv start zones t (rest ∪ blockSet (z.1 + i) o) ∧
      (o < maxOrder → InZone zones k (z.1 + buddy i o) → z.1 + buddy i o ∉ t.freeList o) := by
  induction left generalizing s idx order with
  | zero =>
    refine ⟨s,order,idx,rfl,rfl,by omega,sits,ne,inv,?_⟩
    intro _
    omega
  | succ _ ih =>
    have even : Aligned idx order := by
      obtain ⟨w,found',_,_,even⟩ := sits
      obtain rfl : z = w := mem_unique got found'
      simpa using even
    have base : s.memBase k = z.1 := inv.base k z got
    by_cases test : pageIsBuddy s (z.1 + buddy idx order) order k = true
    · obtain ⟨near,mem⟩ := (pageIsBuddy_exact inv).mp test
      obtain ⟨_,l,spot⟩ := inv.block order _ mem
      have same := spot.zone_eq inv.toLayout near
      subst l
      have merged x : Within x (z.1 + (idx &&& buddy idx order)) (order+1) ↔
          Within x (z.1 + idx) order ∨ Within x (z.1 + buddy idx order) order := by
        have shift : ∀ i o,Within x (z.1 + i) o ↔ z.1 ≤ x ∧ Within (x - z.1) i o := by intro i o; simp only [Within]; omega
        rw [shift,shift,shift,even.merge_within]
        tauto
      have nextSits : Sits zones k (z.1 + (idx &&& buddy idx order)) (order+1) := by
        obtain ⟨w,found',_,_,_⟩ := sits
        obtain ⟨w',found'',_,high',_⟩ := spot
        obtain rfl : z = w := mem_unique got found'
        obtain rfl : z = w' := mem_unique got found''
        refine ⟨z,got,by omega,?_,by simpa using even.merge_aligned⟩
        have double : 2^(order+1) = 2^order + 2^order := by rw [pow_succ]; ring
        rcases even.and_buddy with ⟨_,eq,eq'⟩ | ⟨j,_,eq,eq',_⟩
        · rw [eq,double]; rw [eq'] at high'; omega
        rw [eq',double]; omega
      have free : ∀ x,Within x (z.1 + buddy idx order) order → x ∉ rest := fun x low used => inv.head_free mem low (.inl used)
      have taken : Inv start zones ((s.unlinkBlock order (z.1 + buddy idx order)).clearPageProperty (z.1 + buddy idx order))
          (rest ∪ blockSet (z.1 + (idx &&& buddy idx order)) (order+1)) := by
        refine (inv.take mem).congr_busy ?_
        intro x
        simp only [Set.mem_union,mem_blockSet,merged]
        tauto
      obtain ⟨t,o,i,ran,bases,cap,endSits,endApart,endInv,alone⟩ := ih _ (order+1) (by omega) nextSits
        (fun x low => ((merged x).mp low).elim (ne x) (free x)) taken
      refine ⟨t,o,i,?_,bases,cap,endSits,endApart,endInv,alone⟩
      simp only [mergeBlock,idx2page,base]
      change (if pageIsBuddy s (z.1 + buddy idx order) order k = true then _ else _) = _
      rw [if_pos test]
      exact ran
    refine ⟨s,order,idx,?_,rfl,by omega,sits,ne,inv,?_⟩
    · simp only [mergeBlock,idx2page,base]
      change (if pageIsBuddy s (z.1 + buddy idx order) order k = true then _ else _) = _
      rw [if_neg test]
    intro _ near mem
    exact test ((pageIsBuddy_exact inv).mpr ⟨near,mem⟩)

lemma buddyFreePagesSub_spec (inv : Inv start zones s busy) (sits : Sits zones k base order) (cap : order ≤ maxOrder)
    (used : ∀ x,Within x base order → x ∈ busy) :
    ∃ t,buddyFreePagesSub s base order = .ok t ∧ Inv start zones t (busy \ blockSet base order) := by
  obtain ⟨z,got,low,high,even⟩ := id sits
  have home : InZone zones k base := sits.inZone (within_head base order)
  have index := inv.idx got home
  obtain ⟨t,reset,new,bases,nums⟩ := resetPages_spec inv (2^order) base (fun x low high => used x ⟨low,high⟩)
  have restore : z.1 + (base - z.1) = base := by omega
  have hand : Inv start zones t ((busy \ blockSet base order) ∪ blockSet (z.1 + (base - z.1)) order) := by
    refine new.congr_busy ?_
    intro x
    rw [restore]
    simp only [Set.mem_union,mem_sdiff,mem_blockSet]
    have := used x
    tauto
  obtain ⟨u,o,i,merged,bases',le,endSits,endApart,endInv,alone⟩ :=
    mergeBlock_spec got (maxOrder - order) (base - z.1) order (by omega) (by rwa [restore])
      (fun x inside => by rw [restore] at inside; exact fun out => out.2 inside) hand
  have zone : (t.page base).zoneNum = k := by rw [nums,(inv.inside k base home).2]
  have memBase : u.memBase k = z.1 := by rw [bases',bases]; exact inv.base k z got
  have put := endInv.put endSits le (fun x inside => .inr inside) got (by simpa using alone)
  refine ⟨u.insertBlock o (z.1 + i),?_,put.congr_busy ?_⟩
  · have check : (base - z.1) &&& (2^order - 1) = 0 := by
      rw [and_two_pow_sub_one_eq_mod]
      exact mod_eq_zero_of_dvd even
    simp [buddyFreePagesSub,index,check,reset,bind,Except.bind,zone,merged,idx2page,memBase]
  intro x
  simp only [mem_sdiff,Set.mem_union,mem_blockSet]
  have := endApart x
  simp only [mem_sdiff,mem_blockSet] at this
  tauto

lemma mask_clear (even : Aligned i (o+1)) : i &&& 2^o = 0 := by
  obtain ⟨k,rfl⟩ := even
  apply eq_of_testBit_eq
  intro j
  rw [testBit_and,testBit_two_pow_mul,testBit_two_pow]
  by_cases eq : o = j
  · simp [← eq]
  simp [eq]

lemma mask_set (even : Aligned i (o+1)) : (i + 2^o) &&& 2^o ≠ 0 := by
  have within : (i + 2^o) &&& 2^o = 2^o := by rw [← buddy_left even,buddy,Nat.and_xor_distrib_right,mask_clear even,Nat.and_self,Nat.zero_xor]
  rw [within]
  exact (Nat.two_pow_pos o).ne'

def Span (zones : List (Nat × Nat)) (k : Nat) (busy : Set Nat) (base n : Nat) : Prop :=
  (∀ x,base ≤ x → x < base + n → x ∈ busy) ∧
  ∃ z,zones[k]? = some z ∧ z.1 ≤ base ∧ base + n ≤ z.1 + z.2

def range (base n : Nat) : Set Nat := {x | base ≤ x ∧ x < base + n}
lemma mem_range : x ∈ range base n ↔ base ≤ x ∧ x < base + n := .rfl

lemma free_front (inv : Inv start zones s busy) (span : Span zones k busy base n) (got : zones[k]? = some z)
    (fits : 2^order ≤ n) (even : Aligned (base - z.1) order) (cap : order ≤ maxOrder) :
    ∃ t,buddyFreePagesSub s base order = .ok t ∧ Inv start zones t (busy \ blockSet base order) ∧
      Span zones k (busy \ blockSet base order) (base + 2^order) (n - 2^order) := by
  obtain ⟨used,w,found',low,_⟩ := span
  obtain rfl : z = w := mem_unique got found'
  have pos := Nat.two_pow_pos order
  have sits : Sits zones k base order := ⟨z,got,low,by omega,even⟩
  obtain ⟨t,ran,new⟩ := buddyFreePagesSub_spec inv sits cap (fun x inside => used x inside.1 (by have := inside.2; omega))
  refine ⟨t,ran,new,?_,z,got,by omega,by omega⟩
  intro x _ _
  refine ⟨used x (by omega) (by omega),?_⟩
  rintro ⟨_,_⟩
  omega

structure Freed (start : Nat → Page) (zones : List (Nat × Nat)) (k : Nat) (busy : Set Nat) (base n : Nat)
    (t : Pmm) (b m : Nat) : Prop where
  forward : base ≤ b
  same : b + m = base + n
  inv : Inv start zones t (busy \ range base (b - base))
  span : Span zones k (busy \ range base (b - base)) b m

lemma Freed.none (inv : Inv start zones s busy) (span : Span zones k busy base n) : Freed start zones k busy base n s base n := by
  have nothing : busy \ range base (base - base) = busy := by
    ext x
    simp only [mem_sdiff,mem_range]
    exact ⟨fun h => h.1,fun used => ⟨used,by omega⟩⟩
  exact ⟨le_refl _,rfl,by rwa [nothing],by rwa [nothing]⟩

lemma Freed.step (later : Freed start zones k (busy \ blockSet base order) (base + 2^order) (n - 2^order) t b m)
    (fits : 2^order ≤ n) : Freed start zones k busy base n t b m := by
  obtain ⟨_,_,inv,span⟩ := later
  have pos := Nat.two_pow_pos order
  have union : (busy \ blockSet base order) \ range (base + 2^order) (b - (base + 2^order)) = busy \ range base (b - base) := by
    ext x
    simp only [mem_sdiff,mem_range,mem_blockSet,Within]
    constructor
    · rintro ⟨⟨used,_⟩,_⟩; exact ⟨used,by omega⟩
    rintro ⟨used,_⟩; exact ⟨⟨used,by omega⟩,by omega⟩
  rw [union] at inv span
  exact ⟨by omega,by omega,inv,span⟩

lemma Span.home (span : Span zones k busy base n) (got : zones[k]? = some z) (has : 0 < n) : InZone zones k base := by
  obtain ⟨w,found',low,_⟩ := span.2
  obtain rfl : z = w := mem_unique got found'
  exact ⟨z,got,low,by omega⟩

lemma freeUp_spec (got : zones[k]? = some z) (left order base n : Nat) (total : left + order = maxOrder + 1)
    (small : n ≤ 2^maxOrder) (aligned : Aligned (base - z.1) order)
    (span : Span zones k busy base n) (inv : Inv start zones s busy) :
    ∃ t o b m,freeUp left s order base n = .ok (t,o,b,m) ∧ m < 2^o ∧ Aligned (b - z.1) o ∧ Freed start zones k busy base n t b m := by
  induction left generalizing s order base n busy with
  | zero =>
    have done : n < 2^order := by
      have top : order = maxOrder + 1 := by omega
      rw [top]
      exact lt_of_le_of_lt small (Nat.pow_lt_pow_succ (by decide))
    exact ⟨s,order,base,n,by simp [freeUp,not_le.mpr done],done,aligned,.none inv span⟩
  | succ _ ih =>
    by_cases more : 2^order ≤ n
    · have pos := Nat.two_pow_pos order
      have index := inv.idx got (span.home got (by omega))
      have low : z.1 ≤ base := by
        obtain ⟨w,found',low,_⟩ := span.2
        obtain rfl : z = w := mem_unique got found'
        exact low
      rcases aligned.half with even | ⟨j,up,odd⟩
      · have clear : page2idx s base &&& 2^order = 0 := by rw [index]; exact mask_clear even
        simp only [freeUp,more,if_true,clear,ne_eq,not_true_eq_false,if_false]
        exact ih (order+1) base n (by omega) small even span inv
      have set : page2idx s base &&& 2^order ≠ 0 := by rw [index,odd]; exact mask_set up
      have cap : order ≤ maxOrder := by omega
      obtain ⟨u,freed,new,rest⟩ := free_front inv span got more aligned cap
      have next : Aligned (base + 2^order - z.1) (order+1) := by
        have shift : base + 2^order - z.1 = j + 2^(order+1) := by rw [pow_succ]; omega
        rw [shift]
        exact up.add_pow
      obtain ⟨t,o,b,m,ran,lt,endAligned,later⟩ := ih (order+1) (base + 2^order) (n - 2^order) (by omega) (by omega) next rest new
      refine ⟨t,o,b,m,?_,lt,endAligned,later.step more⟩
      simp only [freeUp,more,if_true,set,ne_eq,not_false_eq_true,freed,bind,Except.bind]
      exact ran
    exact ⟨s,order,base,n,by simp [freeUp,more],by omega,aligned,.none inv span⟩

lemma shrinkOrder_spec (n order : Nat) (has : 0 < n) : shrinkOrder n order ≤ order ∧ 2^shrinkOrder n order ≤ n := by
  induction order with
  | zero => exact ⟨le_refl _,by simp only [shrinkOrder,pow_zero]; omega⟩
  | succ order ih =>
    by_cases less : n < 2^(order+1)
    · simp only [shrinkOrder,less,if_true]
      exact ⟨le_succ_of_le ih.1,ih.2⟩
    simp only [shrinkOrder,less,if_false]
    exact ⟨le_refl _,not_lt.mp less⟩

lemma freeDown_spec (got : zones[k]? = some z) (fuel order base n : Nat) (enough : n ≤ fuel)
    (small : n ≤ 2^maxOrder) (even : Aligned (base - z.1) order)
    (span : Span zones k busy base n) (inv : Inv start zones s busy) :
    ∃ t,freeDown fuel s order base n = .ok t ∧ Freed start zones k busy base n t (base + n) 0 := by
  have finish : ∀ (u : Pmm) (held : Set Nat) (at_ : Nat),Inv start zones u held → Span zones k held at_ 0 →
      Freed start zones k held at_ 0 u (at_ + 0) 0 := fun u held at_ inv span => .none inv span
  induction fuel generalizing s order base n busy with
  | zero =>
    obtain rfl : n = 0 := by omega
    exact ⟨s,rfl,finish s busy base inv span⟩
  | succ _ ih =>
    by_cases zero : n = 0
    · subst n
      exact ⟨s,by simp [freeDown],finish s busy base inv span⟩
    obtain ⟨le,fits⟩ := shrinkOrder_spec n order (by omega)
    have cap : shrinkOrder n order ≤ maxOrder := (Nat.pow_le_pow_iff_right (by decide)).mp (le_trans fits small)
    obtain ⟨u,freed,new,rest⟩ := free_front inv span got fits (even.mono le) cap
    have pos := Nat.two_pow_pos (shrinkOrder n order)
    have low : z.1 ≤ base := by
      obtain ⟨w,found',low,_⟩ := span.2
      obtain rfl : z = w := mem_unique got found'
      exact low
    have next : Aligned (base + 2^shrinkOrder n order - z.1) (shrinkOrder n order) := by
      have shift : base + 2^shrinkOrder n order - z.1 = (base - z.1) + 2^shrinkOrder n order := by omega
      rw [shift]
      exact (even.mono le).add_pow
    obtain ⟨t,ran,later⟩ := ih (shrinkOrder n order) _ (n - 2^shrinkOrder n order) (by omega) (by omega) next rest new
    have join : base + 2^shrinkOrder n order + (n - 2^shrinkOrder n order) = base + n := by omega
    rw [join] at later
    refine ⟨t,?_,later.step fits⟩
    simp only [freeDown,zero,if_false,freed,bind,Except.bind]
    exact ran

lemma buddyFreePages_spec (inv : Inv start zones s busy) (has : 0 < n) (small : n ≤ 2^maxOrder) (span : Span zones k busy base n) :
    ∃ t,buddyFreePages s base n = .ok t ∧ Inv start zones t (busy \ range base n) := by
  obtain ⟨z,got,_,_⟩ := span.2
  by_cases one : n = 1
  · subst n
    obtain ⟨t,ran,new,_⟩ := free_front inv span got (by simp) (aligned_zero _) (zero_le _)
    refine ⟨t,by simpa [buddyFreePages] using ran,new.congr_busy ?_⟩
    intro x
    simp [mem_range,mem_blockSet,Within]
  obtain ⟨u,o,b,m,up,_,even,first⟩ := freeUp_spec got (maxOrder+1) 0 base n rfl small (aligned_zero _) span inv
  obtain ⟨t,down,two⟩ := freeDown_spec got m o b m (le_refl _) (by have := first.same; have := first.forward; omega) even first.span first.inv
  refine ⟨t,?_,two.inv.congr_busy ?_⟩
  · simp only [buddyFreePages,has,if_true,one,if_false,up,bind,Except.bind]
    exact down
  intro x
  have eq := first.same
  have forward := first.forward
  simp only [mem_sdiff,mem_range]
  constructor
  · rintro ⟨used,_⟩; exact ⟨⟨used,by omega⟩,by omega⟩
  rintro ⟨⟨used,_⟩,_⟩; exact ⟨used,by omega⟩

end Ucore.Buddy
