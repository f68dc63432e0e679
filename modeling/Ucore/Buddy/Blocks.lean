import Ucore.Buddy.Invariant

-- Taking a block off its free list and putting one on: every function of the
-- allocator is a sequence of these two moves.
namespace Ucore.Buddy
open Dyadic
open Option (mem_unique)

section
variable (s : Pmm) (p : Nat) (value : Page)
include s p value

@[simp] lemma setPage_page : (s.setPage p value).page q = if q = p then value else s.page q := rfl
@[simp] lemma setPage_freeList : (s.setPage p value).freeList = s.freeList := rfl
@[simp] lemma setPage_nrFree : (s.setPage p value).nrFree = s.nrFree := rfl
@[simp] lemma setPage_memBase : (s.setPage p value).memBase = s.memBase := rfl
@[simp] lemma setPage_npage : (s.setPage p value).npage = s.npage := rfl
@[simp] lemma setPage_zoneNum : (s.setPage p value).zoneNum = s.zoneNum := rfl

end

lemma Layout.setPage (layout : Layout start zones s) (mem : InZone zones k p)
    (kept : value.pgReserved = false ∧ value.zoneNum = k) : Layout start zones (s.setPage p value) := by
  refine {layout with inside:=?_,outside:=?_}
  · intro l q ne
    by_cases equal : q = p
    · subst q
      have eq := layout.apart k l p mem ne
      subst l
      simpa using kept
    simpa [equal] using layout.inside l q ne
  intro q nowhere
  have different : q ≠ p := by rintro rfl; exact nowhere k mem
  simpa [different] using layout.outside q nowhere

def Pmm.moved (s : Pmm) (p : Nat) (value : Page) (lists : Nat → List Nat) (counts : Nat → Nat) : Pmm :=
  {s.setPage p value with freeList:=lists,nrFree:=counts}

lemma take_eq (s : Pmm) (o p : Nat) : (s.unlinkBlock o p).clearPageProperty p = s.moved p {s.page p with pgProperty:=false} (fun m => (s.freeList m).erase p)
      (fun m => if m = o then (s.nrFree o + 2^32 - 1) % 2^32 else s.nrFree m) := rfl
lemma put_eq (s : Pmm) (o p : Nat) : s.insertBlock o p =
    s.moved p {s.page p with property:=o,pgProperty:=true} (fun m => if m = o then p :: s.freeList m else s.freeList m)
      (fun m => if m = o then (s.nrFree o + 1) % 2^32 else s.nrFree m) := rfl

@[simp] lemma moved_page (s : Pmm) : (s.moved p value lists counts).page q = if q = p then value else s.page q := rfl
@[simp] lemma moved_freeList (s : Pmm) : (s.moved p value lists counts).freeList = lists := rfl
@[simp] lemma moved_nrFree (s : Pmm) : (s.moved p value lists counts).nrFree = counts := rfl
@[simp] lemma moved_memBase (s : Pmm) : (s.moved p value lists counts).memBase = s.memBase := rfl

lemma Layout.moved (layout : Layout start zones s) (mem : InZone zones k p)
    (kept : value.pgReserved = false ∧ value.zoneNum = k) : Layout start zones (s.moved p value lists counts) :=
  have set := layout.setPage mem kept
  {set with}

lemma Inv.order_unique (inv : Inv start zones s busy) (one : p ∈ s.freeList o) (two : p ∈ s.freeList m) : o = m :=
  ((inv.listed o p).mp one).2.2.symm.trans ((inv.listed m p).mp two).2.2

lemma Inv.take (inv : Inv start zones s busy) (mem : p ∈ s.freeList o) : Inv start zones ((s.unlinkBlock o p).clearPageProperty p) (busy ∪ blockSet p o) := by
  obtain ⟨_,k,sits⟩ := inv.block o p mem
  have home : InZone zones k p := sits.inZone (within_head p o)
  have gone : ∀ m q,q ∈ (s.freeList m).erase p ↔ q ≠ p ∧ q ∈ s.freeList m := fun m q => (inv.nodup m).mem_erase_iff
  rw [take_eq]
  refine ⟨inv.toLayout.moved home (inv.inside k p home),?_,?_,?_,?_,?_,?_,?_,?_⟩
  · intro m q
    simp only [moved_freeList,moved_page,gone]
    by_cases eq : q = p
    · simp [eq]
    simp [eq,inv.listed m q]
  · intro m
    exact (inv.nodup m).erase p
  · intro m
    simp only [moved_nrFree,moved_freeList]
    by_cases eq : m = o
    · subst m
      have pos : 0 < (s.freeList o).length := List.length_pos_of_mem mem
      have cap := inv.length_lt o
      rw [if_pos rfl,List.length_erase_of_mem mem,inv.counted o]
      omega
    have out : p ∉ s.freeList m := fun ne => eq (inv.order_unique ne mem)
    rw [if_neg eq,List.erase_of_not_mem out,inv.counted m]
  · intro m q on
    exact inv.block m q ((gone m q).mp on).2
  · intro m q l r x one two
    exact inv.disjoint m q l r x ((gone m q).mp one).2 ((gone l r).mp two).2
  · intro l x low
    simp only [moved_freeList,gone]
    constructor
    · intro free
      obtain ⟨notBusy,notBlock⟩ := not_or.mp free
      obtain ⟨m,q,on,within⟩ := (inv.covers l x low).mp notBusy
      refine ⟨m,q,⟨?_,on⟩,within⟩
      rintro rfl
      exact notBlock (by rw [inv.order_unique mem on]; exact within)
    rintro ⟨m,q,⟨different,on⟩,within⟩ (used | inBlock)
    · exact inv.head_free on within used
    exact different (inv.disjoint m q o p x on mem within inBlock).1
  · rintro x (used | inBlock)
    · exact inv.held x used
    exact ⟨k,sits.inZone inBlock⟩
  intro l z m q got spot on below near ne
  simp only [moved_freeList,gone] at on ne
  exact inv.coalesced l z m q got spot on.2 below near ne.2

lemma Inv.put (inv : Inv start zones s busy) (sits : Sits zones k p o) (order : o ≤ maxOrder)
    (owned : ∀ x,Within x p o → x ∈ busy) (got : zones[k]? = some z)
    (alone : o < maxOrder → InZone zones k (z.1 + buddy (p - z.1) o) → z.1 + buddy (p - z.1) o ∉ s.freeList o) :
    Inv start zones (s.insertBlock o p) (busy \ blockSet p o) := by
  have home : InZone zones k p := sits.inZone (within_head p o)
  have unlisted : ∀ m,p ∉ s.freeList m := fun m on => inv.head_free on (within_head p m) (owned p (within_head p o))
  have now m q : q ∈ (if m = o then p :: s.freeList m else s.freeList m) ↔ (m = o ∧ q = p) ∨ q ∈ s.freeList m := by by_cases equal : m = o <;> simp [equal]
  have far : ∀ m q x,q ∈ s.freeList m → Within x q m → ¬ Within x p o := fun m q x on within inBlock => inv.head_free on within (owned x inBlock)
  obtain ⟨z',found',_,_,even⟩ := id sits
  obtain rfl : z = z' := mem_unique got found'
  rw [put_eq]
  refine ⟨inv.toLayout.moved home (inv.inside k p home),?_,?_,?_,?_,?_,?_,?_,?_⟩
  · intro m q
    simp only [moved_freeList,moved_page,now]
    by_cases equal : q = p
    · subst q
      simp only [unlisted,or_false,if_true,and_true,true_and]
      exact ⟨fun eq => ⟨⟨k,home⟩,eq.symm⟩,fun h => h.2.symm⟩
    simp [equal,inv.listed m q]
  · intro m
    simp only [moved_freeList]
    by_cases equal : m = o
    · rw [if_pos equal]; exact List.nodup_cons.mpr ⟨unlisted m,inv.nodup m⟩
    rw [if_neg equal]; exact inv.nodup m
  · intro m
    have cap := inv.length_lt o
    simp only [moved_nrFree,moved_freeList]
    by_cases equal : m = o
    · subst m
      have room : (s.freeList o).length + 1 < 2^32 := by
        have sub : (p :: s.freeList o).toFinset ⊆ Finset.range s.npage := by
          intro q mem
          rw [List.mem_toFinset] at mem
          rcases List.mem_cons.mp mem with rfl | on
          · exact Finset.mem_range.mpr (inv.npage_pos home)
          obtain ⟨_,l,spot⟩ := inv.block o q on
          exact Finset.mem_range.mpr (inv.npage_pos (spot.inZone (within_head q o)))
        have card := Finset.card_le_card sub
        rw [List.toFinset_card_of_nodup (List.nodup_cons.mpr ⟨unlisted o,inv.nodup o⟩),Finset.card_range] at card
        exact lt_of_le_of_lt card inv.small
      rw [if_pos rfl,if_pos rfl,List.length_cons,inv.counted o,Nat.mod_eq_of_lt room]
    rw [if_neg equal,if_neg equal,inv.counted m]
  · intro m q on
    rcases (now m q).mp on with ⟨rfl,rfl⟩ | on
    · exact ⟨order,k,sits⟩
    exact inv.block m q on
  · intro m q l r x one two inOne inTwo
    rcases (now m q).mp one with ⟨rfl,rfl⟩ | oldOne <;> rcases (now l r).mp two with ⟨rfl,rfl⟩ | oldTwo
    · exact ⟨rfl,rfl⟩
    · exact absurd inOne (far l r x oldTwo inTwo)
    · exact absurd inTwo (far m q x oldOne inOne)
    exact inv.disjoint m q l r x oldOne oldTwo inOne inTwo
  · intro l x low
    simp only [moved_freeList,now]
    constructor
    · intro free
      by_cases inBlock : Within x p o
      · exact ⟨o,p,.inl ⟨rfl,rfl⟩,inBlock⟩
      have notBusy : x ∉ busy := fun used => free ⟨used,inBlock⟩
      obtain ⟨m,q,on,within⟩ := (inv.covers l x low).mp notBusy
      exact ⟨m,q,.inr on,within⟩
    rintro ⟨m,q,⟨rfl,rfl⟩ | on,within⟩ ⟨used,outBlock⟩
    · exact outBlock within
    exact inv.head_free on within used
  · rintro x ⟨used,_⟩
    exact inv.held x used
  intro l w m q foundW spot on below near ne
  simp only [moved_freeList,now] at on ne
  rcases on with ⟨rfl,rfl⟩ | on
  · have eq := inv.apart k l q home (spot.inZone (within_head q m))
    subst l
    obtain rfl : z = w := mem_unique got foundW
    rcases ne with ⟨_,equal⟩ | ne
    · have within := even.buddy_disjoint (within_head (q - z.1) m)
      have self : buddy (q - z.1) m = q - z.1 := by omega
      rw [self] at within
      exact within (within_head _ _)
    exact alone below near ne
  rcases ne with ⟨rfl,equal⟩ | ne
  · -- the buddy of an old block is the new one, so the old block is the
    -- buddy that was got not to be free
    rw [equal] at near
    have eq := inv.apart k l p home near
    subst l
    obtain rfl : z = w := mem_unique got foundW
    obtain ⟨w,foundW',_,_,alignedQ⟩ := id spot
    obtain rfl : z = w := mem_unique got foundW'
    have idx : p - z.1 = buddy (q - z.1) m := by omega
    have back : z.1 + buddy (p - z.1) m = q := by rw [idx,alignedQ.buddy_buddy]; omega
    apply alone below
    · rw [back]; exact spot.inZone (within_head q m)
    rw [back]; exact on
  exact inv.coalesced l w m q foundW spot on below near ne

end Ucore.Buddy
