import Ucore.Buddy.Heap

-- What a call of alloc_pages takes away, counted in pages.
namespace Ucore.Buddy
open Dyadic Finset

def buddyNrFreePages (s : Pmm) : Nat :=
  (List.range (maxOrder+1)).foldl (fun ret order => (ret + s.nrFree order * 2^order % 2^32) % 2^64) 0

def Pmm.Free (s : Pmm) (x : Nat) : Prop := ∃ o p,p ∈ s.freeList o ∧ Within x p o

lemma fold_exact (f : Nat → Nat) (orders : List Nat) (ret : Nat) (small : ret + (orders.map f).sum < 2^32) :
    orders.foldl (fun ret order => (ret + f order % 2^32) % 2^64) ret = ret + (orders.map f).sum := by
  induction orders generalizing ret with
  | nil => rfl
  | cons order _ ih =>
    simp only [List.map_cons,List.sum_cons] at small
    have one : f order % 2^32 = f order := Nat.mod_eq_of_lt (by omega)
    have two : (ret + f order) % 2^64 = ret + f order := Nat.mod_eq_of_lt (by omega)
    rw [List.foldl_cons,one,two,ih _ (by omega),List.map_cons,List.sum_cons,Nat.add_assoc]

section Counting
open Classical

-- The blocks on the free lists, and the pages they cover.
noncomputable def Pmm.blocks (s : Pmm) : Finset (Σ _ : Nat,Nat) :=
  (Finset.range (maxOrder+1)).sigma fun o => (s.freeList o).toFinset
noncomputable def Pmm.freePages (s : Pmm) : Finset Nat :=
  s.blocks.biUnion fun block => Finset.Ico block.2 (block.2 + 2^block.1)

lemma mem_blocks (s : Pmm) (o p : Nat) : (⟨o,p⟩ : Σ _ : Nat,Nat) ∈ s.blocks ↔ o ≤ maxOrder ∧ p ∈ s.freeList o := by simp [Pmm.blocks]

section
variable (inv : Inv start zones s busy)
include inv

lemma Inv.mem_freePages : x ∈ s.freePages ↔ s.Free x := by
  simp only [Pmm.freePages,mem_biUnion,mem_Ico]
  constructor
  · rintro ⟨⟨o,p⟩,mem,within⟩
    exact ⟨o,p,((mem_blocks s o p).mp mem).2,within⟩
  rintro ⟨o,p,listed,within⟩
  exact ⟨⟨o,p⟩,(mem_blocks s o p).mpr ⟨(inv.block o p listed).1,listed⟩,within⟩

-- Free blocks are disjoint, so their sizes add up to the number of free pages.
lemma Inv.card_freePages : s.freePages.card = ((List.range (maxOrder+1)).map fun o => s.nrFree o * 2^o).sum := by
  have ne : ∀ a ∈ s.blocks,∀ b ∈ s.blocks,a ≠ b → Disjoint (Finset.Ico a.2 (a.2 + 2^a.1)) (Finset.Ico b.2 (b.2 + 2^b.1)) := by
    rintro ⟨o,p⟩ one ⟨m,q⟩ two different
    apply disjoint_left.mpr
    intro x inOne inTwo
    have eq := inv.disjoint o p m q x ((mem_blocks s o p).mp one).2 ((mem_blocks s m q).mp two).2
      (mem_Ico.mp inOne) (mem_Ico.mp inTwo)
    apply different
    rw [eq.1,eq.2]
  have each o : ∑ _p ∈ (s.freeList o).toFinset,2^o = s.nrFree o * 2^o := by
    rw [sum_const,List.toFinset_card_of_nodup (inv.nodup o),inv.counted o,smul_eq_mul]
  calc s.freePages.card = ∑ block ∈ s.blocks,2^block.1 := by
        rw [Pmm.freePages,card_biUnion ne]
        exact sum_congr rfl fun block _ => by rw [Nat.card_Ico,Nat.add_sub_cancel_left]
    _ = ∑ o ∈ Finset.range (maxOrder+1),s.nrFree o * 2^o := by
        rw [Pmm.blocks,sum_sigma]
        exact sum_congr rfl fun o _ => each o
    _ = _ := by rw [Finset.sum,Finset.range_val,Multiset.range,Multiset.map_coe,Multiset.sum_coe]

lemma Inv.freePages_small : s.freePages.card < 2^32 := by
  have inside : s.freePages ⊆ Finset.range s.npage := by
    intro x free
    obtain ⟨o,p,listed,within⟩ := inv.mem_freePages.mp free
    obtain ⟨_,k,sits⟩ := inv.block o p listed
    exact Finset.mem_range.mpr (inv.npage_pos (sits.inZone within))
  have card := card_le_card inside
  rw [card_range] at card
  exact lt_of_le_of_lt card inv.small

lemma Inv.nrFreePages_card : buddyNrFreePages s = s.freePages.card := by
  have small := inv.freePages_small
  rw [inv.card_freePages] at small ⊢
  rw [buddyNrFreePages,fold_exact (fun o => s.nrFree o * 2^o) _ 0 (by simpa using small),zero_add]

lemma Inv.nrFreePages_range (after : Inv start zones t (busy ∪ range page n))
    (zone : ∀ x,page ≤ x → x < page + n → ∃ k,InZone zones k x) (clear : ∀ x,page ≤ x → x < page + n → x ∉ busy) :
    (∀ x,t.Free x ↔ s.Free x ∧ ¬ (page ≤ x ∧ x < page + n)) ∧ (∀ x,page ≤ x → x < page + n → s.Free x) ∧
    buddyNrFreePages t + n = buddyNrFreePages s := by
  have old : ∀ k x,InZone zones k x → (s.Free x ↔ x ∉ busy) := fun k x mem => (inv.covers k x mem).symm
  have new : ∀ k x,InZone zones k x → (t.Free x ↔ x ∉ busy ∪ range page n) := fun k x mem => (after.covers k x mem).symm
  have taken x : page ≤ x → x < page + n → s.Free x := by
    intro low high
    obtain ⟨k,mem⟩ := zone x low high
    exact (old k x mem).mpr (clear x low high)
  have change x : t.Free x ↔ s.Free x ∧ ¬ (page ≤ x ∧ x < page + n) := by
    by_cases mem : ∃ k,InZone zones k x
    · obtain ⟨k,mem⟩ := mem
      rw [old k x mem,new k x mem,Set.mem_union,mem_range,not_or]
    have nowhere u b : Inv start zones u b → ¬ u.Free x := by
      rintro kept ⟨o,p,listed,within⟩
      obtain ⟨_,k,sits⟩ := kept.block o p listed
      exact mem ⟨k,sits.inZone within⟩
    exact ⟨fun free => (nowhere t _ after free).elim,fun free => (nowhere s _ inv free.1).elim⟩
  refine ⟨change,taken,?_⟩
  have pages : t.freePages = s.freePages \ Finset.Ico page (page + n) := by
    ext x
    rw [mem_sdiff,after.mem_freePages,inv.mem_freePages,mem_Ico]
    exact change x
  have within : Finset.Ico page (page + n) ⊆ s.freePages := by
    intro x mem
    obtain ⟨low,high⟩ := mem_Ico.mp mem
    exact inv.mem_freePages.mpr (taken x low high)
  have card := card_sdiff_add_card_eq_card within
  rw [Nat.card_Ico,Nat.add_sub_cancel_left] at card
  rw [after.nrFreePages_card,inv.nrFreePages_card,pages]
  exact card

end

end Counting

def Room (h : Heap) (k : Nat) : Prop :=
  ∃ z ∈ h.zones,∃ i,2^k ∣ i ∧ i + 2^k ≤ z.2 ∧ ∀ x,i ≤ x → x < i + 2^k → h.pmm.Free (z.1 + x)

-- The free lists hold the maximal blocks, so a free run of order k lies inside
-- one of order k or more.
lemma Good.room_listed (good : Good mem h) (cap : k ≤ maxOrder) (room : Room h k) : ∃ m,k ≤ m ∧ m ≤ maxOrder ∧ h.pmm.freeList m ≠ [] := by
  obtain ⟨z,member,i,even,_,free⟩ := room
  obtain ⟨l,got⟩ := List.mem_iff_getElem?.mp member
  obtain ⟨tiling,coalesced⟩ := good.tiling got
  have block : FreeBlock (zoneFree h z) maxOrder i k := by
    refine ⟨cap,even,?_⟩
    rintro x ⟨low,high⟩
    have inside : InZone h.zones l (z.1 + x) := ⟨z,got,by omega,by omega⟩
    have idle := (good.covers l _ inside).mpr (free x low high)
    exact ⟨by omega,by simpa [mem_busy] using idle⟩
  obtain ⟨j,m,listed,le,_⟩ := tiling.covered coalesced block
  refine ⟨m,le,tiling.bounded j m listed,?_⟩
  intro empty
  have := listed.2
  rw [empty] at this
  cases this

-- alloc_pages fails exactly when no zone has an aligned run of 2^k free pages,
-- and otherwise takes n pages at the start of one.
theorem buddy_alloc_exact (maxpa : Nat) (mem : Nat → Page) (h : Heap) (reached : Reached maxpa mem h)
    (n k : Nat) (some_ : 0 < n) (small : n ≤ 2^16) (fits : n ≤ 2^k) (least : ∀ m,m < k → ¬ n ≤ 2^m) :
    ∃ page t,buddyAllocPages h.pmm n = .ok (page,t) ∧ (page = none ↔ ¬ Room h k) ∧ (page = none → t = h.pmm) ∧
      ∀ p,page = some p → (∃ z ∈ h.zones,z.1 ≤ p ∧ p + 2^k ≤ z.1 + z.2 ∧ 2^k ∣ p - z.1) ∧
        (∀ x,p ≤ x → x < p + n → h.pmm.Free x) ∧ (∀ x,t.Free x ↔ h.pmm.Free x ∧ ¬ (p ≤ x ∧ x < p + n)) ∧
        buddyNrFreePages t + n = buddyNrFreePages h.pmm := by
  have good := reached_good reached
  obtain ⟨order,bound,holds,below,ran⟩ := buddyAllocPages_spec good some_ small
  obtain rfl : k = order := by
    rcases Nat.lt_trichotomy k order with less | same | more
    · exact absurd fits (by have := below k less; omega)
    · exact same
    · exact absurd holds (least order more)
  rcases ran with ⟨ran,empty⟩ | ⟨page,t,l,ran,sits,free,after⟩
  · refine ⟨none,h.pmm,ran,⟨fun _ room => ?_,fun _ => rfl⟩,fun _ => rfl,fun p taken => by cases taken⟩
    obtain ⟨m,le,top,listed⟩ := good.room_listed bound room
    exact listed (empty m le top)
  obtain ⟨z,found,low,high,aligned⟩ := id sits
  have member := List.mem_of_getElem? found
  have room : Room h k := by
    refine ⟨z,member,page - z.1,aligned,by omega,?_⟩
    intro x from_ below
    have inside : Within (z.1 + x) page k := ⟨by omega,by omega⟩
    exact (good.covers l _ (sits.inZone inside)).mp (free _ inside)
  have taken := Inv.nrFreePages_range good after (fun x from_ below => ⟨l,sits.inZone ⟨from_,by omega⟩⟩)
    (fun x from_ below => free x ⟨from_,by omega⟩)
  refine ⟨some page,t,ran,⟨nofun,fun no => (no room).elim⟩,nofun,?_⟩
  intro p same
  cases same
  exact ⟨⟨z,member,low,high,aligned⟩,taken.2.1,taken.1,taken.2.2⟩

theorem buddy_alloc_exact_small : ∃ t,buddyAllocPages smallFreed.pmm 3 = .ok (some 2,t) ∧ Room smallFreed 2 ∧
    buddyNrFreePages t + 3 = buddyNrFreePages smallFreed.pmm := by
  obtain ⟨page,t,ran,fails,_,takes⟩ := buddy_alloc_exact 0x10010000 (fun _ => blankPage) smallFreed
    (smallUsed_reached.step smallFreed_step) 3 2 (by decide) (by decide) (by decide)
    (by intro m less; interval_cases m <;> decide)
  have first : (buddyAllocPages smallFreed.pmm 3).toOption.map Prod.fst = some (some 2) := rfl
  rw [ran] at first
  obtain rfl : page = some 2 := Option.some.inj first
  refine ⟨t,ran,?_,(takes 2 rfl).2.2.2⟩
  by_contra full
  cases fails.mpr full

-- nr_free_pages is the number of pages of the zones that nobody holds.
theorem buddy_pages_conserved (reached : Reached maxpa mem h) : buddyNrFreePages h.pmm = {x | (∃ k,InZone h.zones k x) ∧ h.allocated x = false}.ncard := by
  have good : Inv _ h.zones h.pmm h.busy := reached_good reached
  rw [good.nrFreePages_card,← Set.ncard_coe_finset]
  congr 1
  ext x
  rw [Finset.mem_coe,good.mem_freePages]
  constructor
  · rintro ⟨o,p,listed,within⟩
    obtain ⟨_,k,sits⟩ := good.block o p listed
    exact ⟨⟨k,sits.inZone within⟩,Bool.eq_false_iff.mpr (good.head_free listed within)⟩
  rintro ⟨⟨k,inside⟩,idle⟩
  exact (good.covers k x inside).mp (Bool.eq_false_iff.mp idle)

theorem buddy_pages_conserved_small : {x | (∃ k,InZone smallUsed.zones k x) ∧ smallUsed.allocated x = false}.ncard = 10 :=
  (buddy_pages_conserved smallUsed_reached).symm.trans (by decide)

end Ucore.Buddy
