import Ucore.Lib.Dyadic
import Ucore.Buddy.Pmm

namespace Ucore.Buddy
open Dyadic

def InZone (zones : List (Nat × Nat)) (k p : Nat) : Prop :=
  ∃ z,zones[k]? = some z ∧ z.1 ≤ p ∧ p < z.1 + z.2

def Sits (zones : List (Nat × Nat)) (k p o : Nat) : Prop :=
  ∃ z,zones[k]? = some z ∧ z.1 ≤ p ∧ p + 2^o ≤ z.1 + z.2 ∧ Aligned (p - z.1) o

-- The zones as the page descriptors and the zones array record them. start
-- holds the descriptors before any zone was initialised.
structure Layout (start : Nat → Page) (zones : List (Nat × Nat)) (s : Pmm) : Prop where
  count : s.zoneNum = zones.length
  limit : zones.length ≤ maxZoneNum
  small : s.npage < 2^32
  fits : ∀ (k : Nat) (z : Nat × Nat),zones[k]? = some z → z.1 + z.2 ≤ s.npage
  base : ∀ (k : Nat) (z : Nat × Nat),zones[k]? = some z → s.memBase k = z.1
  apart : ∀ k l p,InZone zones k p → InZone zones l p → k = l
  inside : ∀ k p,InZone zones k p → (s.page p).pgReserved = false ∧ (s.page p).zoneNum = k
  outside : ∀ p,(∀ k,¬ InZone zones k p) → s.page p = start p
  reserved : ∀ p,p < s.npage → (start p).pgReserved = true

-- The free lists against the pages in use: busy are the zone pages that are
-- allocated, or in the hands of a running allocator function.
structure Lists (zones : List (Nat × Nat)) (s : Pmm) (busy : Set Nat) : Prop where
  listed : ∀ o p,p ∈ s.freeList o ↔
    (∃ k,InZone zones k p) ∧ (s.page p).pgProperty = true ∧ (s.page p).property = o
  nodup : ∀ o,(s.freeList o).Nodup
  counted : ∀ o,s.nrFree o = (s.freeList o).length
  block : ∀ o p,p ∈ s.freeList o → o ≤ maxOrder ∧ ∃ k,Sits zones k p o
  disjoint : ∀ o p m q x,p ∈ s.freeList o → q ∈ s.freeList m → Within x p o → Within x q m → p = q ∧ o = m
  covers : ∀ k x,InZone zones k x → (x ∉ busy ↔ ∃ o p,p ∈ s.freeList o ∧ Within x p o)
  held : ∀ x,x ∈ busy → ∃ k,InZone zones k x
  coalesced : ∀ (k : Nat) (z : Nat × Nat) (o p : Nat),zones[k]? = some z → Sits zones k p o → p ∈ s.freeList o → o < maxOrder →
    InZone zones k (z.1 + buddy (p - z.1) o) → z.1 + buddy (p - z.1) o ∉ s.freeList o

structure Inv (start : Nat → Page) (zones : List (Nat × Nat)) (s : Pmm) (busy : Set Nat) : Prop
    extends Layout start zones s,Lists zones s busy

def blockSet (p o : Nat) : Set Nat := {x | Within x p o}
lemma mem_blockSet : x ∈ blockSet p o ↔ Within x p o := .rfl

lemma Sits.inZone (sits : Sits zones k p o) (within : Within x p o) : InZone zones k x := by
  obtain ⟨z,got,_,_,_⟩ := sits
  exact ⟨z,got,by have := within.1; omega,by have := within.2; omega⟩

lemma Sits.zone_eq (sits : Sits zones k p o) (layout : Layout start zones s) (ne : InZone zones l p) : k = l :=
  layout.apart k l p (sits.inZone (within_head p o)) ne

lemma Layout.idx (layout : Layout start zones s) (got : zones[k]? = some z) (mem : InZone zones k p) : page2idx s p = p - z.1 := by
  rw [page2idx,(layout.inside k p mem).2,layout.base k z got]

lemma Layout.npage_pos (layout : Layout start zones s) (mem : InZone zones k p) : p < s.npage := by
  obtain ⟨z,got,_,_⟩ := mem
  have := layout.fits k z got
  omega

section
variable (inv : Inv start zones s busy)
include inv

lemma Inv.property_exact (mem : InZone zones k p) : (s.page p).pgProperty = true ↔ p ∈ s.freeList (s.page p).property := by
  rw [inv.listed]
  exact ⟨fun set => ⟨⟨k,mem⟩,set,rfl⟩,fun h => h.2.1⟩

lemma Inv.head_free (mem : p ∈ s.freeList o) (within : Within x p o) : x ∉ busy := by
  obtain ⟨_,k,sits⟩ := inv.block o p mem
  exact (inv.covers k x (sits.inZone within)).mpr ⟨o,p,mem,within⟩

lemma Inv.busy_not_property (used : x ∈ busy) : (s.page x).pgProperty = false := by
  obtain ⟨k,mem⟩ := inv.held x used
  by_contra set
  have listed := (inv.property_exact mem).mp (by simpa using set)
  exact inv.head_free listed (within_head x _) used

lemma Inv.length_lt (o : Nat) : (s.freeList o).length < 2^32 := by
  have cap : ∀ p ∈ s.freeList o,p < s.npage := by
    intro p mem
    obtain ⟨_,k,sits⟩ := inv.block o p mem
    exact inv.npage_pos (sits.inZone (within_head p o))
  have subset : (s.freeList o).toFinset ⊆ Finset.range s.npage := by
    intro p mem
    rw [List.mem_toFinset] at mem
    exact Finset.mem_range.mpr (cap p mem)
  have card := Finset.card_le_card subset
  rw [List.toFinset_card_of_nodup (inv.nodup o),Finset.card_range] at card
  exact lt_of_le_of_lt card inv.small

end

end Ucore.Buddy
