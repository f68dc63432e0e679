import Ucore.Sfs.Places
import Ucore.Sfs.Files

-- The invariant of the block layer and what allocation and release do to it.
-- flight holds the blocks taken from the freemap that no inode points to yet.
namespace Ucore.Sfs
open Bytes Outcomes Ownership SfsFs

structure Geometry (s : SfsFs) : Prop where
  small : s.super.blocks ≤ 2^20
  device : s.super.blocks ≤ s.dBlocks
  sound : s.freemap.Sound
  bits : s.freemap.nbits = sfsFreemapBits s.super
  inside : ∀ b,s.freemap.bit b = true → b < s.super.blocks
  unused : s.super.unusedBlocks = s.freemap.free.card

structure Blocks (s : SfsFs) (flight : Nat → Prop) : Prop extends Geometry s where
  exact : Exact s.own s.used (fun b => s.fixed b ∨ flight b)
  mapped : ∀ i ∈ s.inodes,∀ idx,leafBlock s.dev (s.din i) idx ≠ 0 ↔ idx < (s.din i).blocks
  cached : ∀ i ∈ s.inodeList,i ∈ s.inodes
  nonzero : ∀ i ∈ s.inodes,i ≠ 0
  root : sfsBlknRoot ∈ s.inodes

-- The freemap marks the fixed blocks and those that a place of an inode holds,
-- each by one place only.
structure Accounted (s : SfsFs) : Prop where
  marked : ∀ b,s.used b ↔ s.fixed b ∨ b ≠ 0 ∧ ∃ p,s.own p = b
  single : ∀ p q,s.own p ≠ 0 → s.own p = s.own q → p = q
  loose : ∀ p,s.own p ≠ 0 → ¬ s.fixed (s.own p)
  unused : s.super.unusedBlocks = s.freemap.free.card

lemma Blocks.accounted (blocks : Blocks s (fun _ => False)) : Accounted s := by
  have exact := blocks.exact
  simp only [or_false] at exact
  exact ⟨exact.accounted,exact.single,exact.apart,blocks.unused⟩

structure Reach (s : SfsFs) (b : Nat) : Prop where
  nonzero : b ≠ 0
  inside : b < s.super.blocks
  small : s.super.blocks ≤ 2^20
  device : s.super.blocks ≤ s.dBlocks

lemma devBlock_small (small : b < 2^20) : devBlock b = b := by
  simp only [devBlock,sfsBlksize]
  omega

section Transfers
variable {s : SfsFs} {b off len : Nat}

section
variable (reach : Reach s b)
include reach

lemma disk0Read_run : disk0Read b s = .ok (s.dev b) s := by
  have eq := devBlock_small (lt_of_lt_of_le reach.inside reach.small)
  have fits : ¬ b + 1 > s.dBlocks := by have := reach.inside; have := reach.device; omega
  simp [disk0Read,eq,fits]

lemma disk0Write_run : disk0Write b x s = .ok () (s.setBlock b x) := by
  have eq := devBlock_small (lt_of_lt_of_le reach.inside reach.small)
  have fits : ¬ b + 1 > s.dBlocks := by have := reach.inside; have := reach.device; omega
  simp [disk0Write,eq,fits]

lemma rblock_run : sfsRblockNolock b true s = .ok (s.dev b) s := by simp [sfsRblockNolock,reach.nonzero,reach.inside,disk0Read_run reach]

lemma wblock_run : sfsWblockNolock x b true s = .ok () (s.setBlock b x) := by simp [sfsWblockNolock,reach.nonzero,reach.inside,disk0Write_run reach]

lemma rbuf_run (low : off < sfsBlksize) (fits : off + len ≤ sfsBlksize) : sfsRbuf len b off s = .ok (fun i => s.dev b (off + i)) s := by
  simp [sfsRbuf,low,fits,rblock_run reach]

lemma wbuf_run (low : off < sfsBlksize) (fits : off + len ≤ sfsBlksize) :
    sfsWbuf x len b off s = .ok () (s.setBlock b (copy (s.dev b) off len x)) := by
  simp [sfsWbuf,low,fits,rblock_run reach,wblock_run reach]

lemma clearBlock_run : sfsClearBlock b s = .ok () (s.setBlock b zero) := wblock_run reach

end

section
variable (geo : Geometry s)
include geo

lemma Geometry.reach (used : s.used b) (pos : b ≠ 0) : Reach s b := ⟨pos,used.1,geo.small,geo.device⟩

lemma Geometry.covered (low : b < s.super.blocks) : b < s.freemap.nbits := by
  rw [geo.bits]
  simp only [sfsFreemapBits,sfsBlkbits]
  omega

lemma blockInuse_run (pos : b ≠ 0) (low : b < s.super.blocks) : sfsBlockInuse b s = .ok (!s.freemap.bit b) s := by
  simp [sfsBlockInuse,pos,low,bitmapTest,geo.covered low,ofBitmap]

lemma blockInuse_used (used : s.used b) (pos : b ≠ 0) : sfsBlockInuse b s = .ok true s := by
  rw [blockInuse_run geo pos used.1,used.2]
  rfl

lemma Geometry.few : s.super.unusedBlocks ≤ s.super.blocks := by
  rw [geo.unused]
  have subset : s.freemap.free ⊆ Finset.range s.super.blocks := by
    intro x mem
    exact Finset.mem_range.mpr (geo.inside x (geo.sound.mem_free.mp mem))
  simpa using Finset.card_le_card subset

end

end Transfers

def SfsFs.take (s : SfsFs) (b : Nat) (map : Bitmap) : SfsFs :=
  {s with freemap:=map,super:={s.super with unusedBlocks:=s.super.unusedBlocks - 1},superDirty:=true,dev:=setDev s.dev b zero}

def SfsFs.give (s : SfsFs) (map : Bitmap) : SfsFs :=
  {s with freemap:=map,super:={s.super with unusedBlocks:=(s.super.unusedBlocks + 1) % 2^32},superDirty:=true}

structure Taken (s : SfsFs) (b : Nat) (map : Bitmap) : Prop where
  free : s.freemap.bit b = true
  nbits : map.nbits = s.freemap.nbits
  sound : map.Sound
  bit : ∀ j,map.bit j = (s.freemap.bit j && decide (j ≠ b))

structure Given (s : SfsFs) (b : Nat) (map : Bitmap) : Prop where
  nbits : map.nbits = s.freemap.nbits
  sound : map.Sound
  bit : ∀ j,map.bit j = (s.freemap.bit j || decide (j = b))

lemma take_used (taken : Taken s b map) (low : b < s.super.blocks) (x : Nat) : (s.take b map).used x ↔ s.used x ∨ x = b := by
  simp only [SfsFs.used,take,taken.bit]
  by_cases eq : x = b
  · simp [eq,low]
  simp [eq]

lemma give_used (given : Given s b map) (x : Nat) : (s.give map).used x ↔ s.used x ∧ x ≠ b := by
  simp only [SfsFs.used,give,given.bit]
  by_cases eq : x = b
  · simp [eq]
  simp [eq]

lemma Taken.geometry (taken : Taken s b map) (geo : Geometry s) : Geometry (s.take b map) := by
  refine ⟨geo.small,geo.device,taken.sound,taken.nbits.trans geo.bits,fun x set => ?_,?_⟩
  · have old : s.freemap.bit x = true := by
      have : map.bit x = true := set
      rw [taken.bit] at this
      simp_all
    exact geo.inside x old
  have erased : map.free = s.freemap.free.erase b := by
    ext x
    rw [taken.sound.mem_free,Finset.mem_erase,geo.sound.mem_free,taken.bit]
    simp [and_comm]
  have mem := geo.sound.mem_free.mpr taken.free
  change s.super.unusedBlocks - 1 = map.free.card
  rw [erased,Finset.card_erase_of_mem mem,geo.unused]

lemma Taken.some (taken : Taken s b map) (geo : Geometry s) : 0 < s.super.unusedBlocks := by
  rw [geo.unused,Finset.card_pos]
  exact ⟨b,geo.sound.mem_free.mpr taken.free⟩

lemma Given.geometry (given : Given s b map) (geo : Geometry s) (used : s.used b) : Geometry (s.give map) := by
  refine ⟨geo.small,geo.device,given.sound,given.nbits.trans geo.bits,fun x set => ?_,?_⟩
  · have : map.bit x = true := set
    rw [given.bit,Bool.or_eq_true,decide_eq_true_eq] at this
    rcases this with old | rfl
    · exact geo.inside x old
    exact used.1
  have added : map.free = insert b s.freemap.free := by
    ext x
    rw [given.sound.mem_free,Finset.mem_insert,geo.sound.mem_free,given.bit]
    simp [or_comm]
  have out : b ∉ s.freemap.free := by
    rw [geo.sound.mem_free,used.2]
    simp
  change (s.super.unusedBlocks + 1) % 2^32 = map.free.card
  rw [added,Finset.card_insert_of_notMem out,← geo.unused]
  have few := geo.few
  have small := geo.small
  omega

lemma blockAlloc_run (geo : Geometry s) (super : s.used 0) : (s.super.unusedBlocks = 0 ∧ sfsBlockAlloc s = .err .eNoMem s) ∨
    ∃ b map,sfsBlockAlloc s = .ok b (s.take b map) ∧ Taken s b map := by
  rcases bitmapAlloc_spec geo.sound with ⟨none,all⟩ | ⟨b,map,got,free,_,nbits,sound,bit⟩
  · refine .inl ⟨?_,by simp [sfsBlockAlloc,none,ofBitmap]⟩
    rw [geo.unused,Finset.card_eq_zero,Finset.eq_empty_iff_forall_notMem]
    intro x mem
    have set := geo.sound.mem_free.mp mem
    simp [all x] at set
  have taken : Taken s b map := ⟨free,nbits,sound,bit⟩
  have low := geo.inside b free
  have pos : b ≠ 0 := by
    rintro rfl
    simp [super.2] at free
  have has := taken.some geo
  have new := taken.geometry geo
  let t : SfsFs := {s with freemap:=map,super:={s.super with unusedBlocks:=s.super.unusedBlocks - 1},superDirty:=true}
  have reach : Reach t b := ⟨pos,low,geo.small,geo.device⟩
  have geo' : Geometry t := {new with}
  have inuse : sfsBlockInuse b t = .ok true t := blockInuse_used geo' ⟨low,by simp [t,bit]⟩ pos
  have clear := clearBlock_run reach
  refine .inr ⟨b,map,?_,taken⟩
  simp only [sfsBlockAlloc,rules,got,ofBitmap,has]
  change ((sfsBlockInuse b t).next _) = _
  rw [inuse]
  simp only [rules]
  rw [clear]
  rfl

lemma blockFree_run (geo : Geometry s) (used : s.used b) (pos : b ≠ 0) : ∃ map,sfsBlockFree b s = .ok () (s.give map) ∧ Given s b map := by
  obtain ⟨map,freed,nbits,sound,bit⟩ := bitmapFree_spec geo.sound (geo.covered used.1) used.2
  refine ⟨map,?_,⟨nbits,sound,bit⟩⟩
  simp [sfsBlockFree,blockInuse_used geo used pos,freed,ofBitmap]
  rfl

def Plain (s : SfsFs) (b : Nat) : Prop := ∀ i ∈ s.inodes,¬ Points s.dev (s.din i) b ∧ (i ∉ s.inodeList → i ≠ b)

lemma own_inode {s : SfsFs} (mem : i ∈ s.inodes) (spot : Spot) : s.own (i,spot) = spotBlock s.dev (s.din i) i spot := by simp [own,mem]

lemma own_none {s : SfsFs} (out : i ∉ s.inodes) (spot : Spot) : s.own (i,spot) = 0 := by simp [own,out]

lemma Plain.of_owner (owner : ∀ i ∈ s.inodes,∀ spot,s.own (i,spot) = b →
    (∃ idx,spot = .leaf idx) ∨ (spot = .self ∧ i ∈ s.inodeList)) : Plain s b := by
  intro i mem
  refine ⟨fun points => ?_,fun away eq => ?_⟩
  · obtain ⟨spot,equal,notSelf,notLeaf⟩ := points_spot i points
    rcases owner i mem spot ((own_inode mem spot).trans equal) with ⟨idx,rfl⟩ | ⟨rfl,_⟩
    · exact notLeaf idx rfl
    exact notSelf rfl
  rcases owner i mem .self ((own_inode mem .self).trans eq) with ⟨_,h⟩ | ⟨_,on⟩
  · cases h
  exact away on

lemma din_setBlock (plain : Plain s b) (mem : i ∈ s.inodes) : (s.setBlock b x).din i = s.din i := by
  by_cases on : i ∈ s.inodeList
  · simp [SfsFs.din,SfsFs.setBlock,on]
  simp [SfsFs.din,SfsFs.setBlock,on,setDev_ne ((plain i mem).2 on)]

lemma own_setBlock (plain : Plain s b) : (s.setBlock b x).own = s.own := by
  funext ⟨i,spot⟩
  by_cases mem : i ∈ s.inodes
  · have eq := din_setBlock (x:=x) plain mem
    rw [own_inode (s:=s.setBlock b x) mem,own_inode mem,eq]
    exact spotBlock_frame (plain i mem).1 i spot
  rw [own_none (s:=s.setBlock b x) mem,own_none mem]

lemma leaf_setBlock (plain : Plain s b) (mem : i ∈ s.inodes) (idx : Nat) :
    leafBlock (s.setBlock b x).dev ((s.setBlock b x).din i) idx = leafBlock s.dev (s.din i) idx := by
  rw [din_setBlock plain mem]
  exact spotBlock_frame (plain i mem).1 i (.leaf idx)

section Owners
variable {s : SfsFs} {flight : Nat → Prop}

namespace Blocks
variable (blocks : Blocks s flight)
include blocks

lemma super_used : s.used 0 := blocks.exact.based (.inl (.inl rfl))

lemma own_used (held : s.own p ≠ 0) : s.used (s.own p) := blocks.exact.owned held

lemma own_reach (held : s.own p ≠ 0) : Reach s (s.own p) := blocks.toGeometry.reach (blocks.own_used held) held

lemma own_loose (held : s.own p ≠ 0) : ¬ s.fixed (s.own p) := fun fixed => blocks.exact.apart p held (.inl fixed)

end Blocks

lemma Plain.of_unowned (unowned : ∀ p,s.own p ≠ b) : Plain s b := .of_owner fun i _ spot eq => absurd eq (unowned (i,spot))

namespace Blocks
variable (blocks : Blocks s flight)
include blocks

lemma unowned_of_free (free : ¬ s.used b) (pos : b ≠ 0) : ∀ p,s.own p ≠ b := by
  rintro p rfl
  exact free (blocks.own_used pos)

lemma unowned_of_flight (held : flight b) (pos : b ≠ 0) : ∀ p,s.own p ≠ b := by
  rintro p rfl
  exact blocks.exact.apart p pos (.inr held)

lemma plain_of_leaf (held : s.own (i,.leaf idx) ≠ 0) : Plain s (s.own (i,.leaf idx)) := by
  refine .of_owner fun j _ spot equal => ?_
  have eq := blocks.exact.single _ _ held equal.symm
  exact .inl ⟨idx,(congrArg Prod.snd eq).symm⟩

lemma plain_of_self (on : i ∈ s.inodeList) : Plain s i := by
  have mem := blocks.cached i on
  have pos := blocks.nonzero i mem
  have held : s.own (i,.self) = i := own_inode mem .self
  refine .of_owner fun j _ spot equal => ?_
  have eq := blocks.exact.single _ _ (held.symm ▸ pos) (held.trans equal.symm)
  cases eq
  exact .inr ⟨rfl,on⟩

end Blocks

lemma Blocks.setBlock (blocks : Blocks s flight) (plain : Plain s b) : Blocks (s.setBlock b x) flight where
  toGeometry := {blocks with}
  exact := blocks.exact.congr (fun q => by rw [own_setBlock plain]) (fun _ => .rfl) (fun _ => .rfl)
  mapped i mem idx := by
    rw [leaf_setBlock plain mem,din_setBlock plain mem]
    exact blocks.mapped i mem idx
  cached := blocks.cached
  nonzero := blocks.nonzero
  root := blocks.root

lemma Blocks.take (blocks : Blocks s flight) (taken : Taken s b map) :
    Blocks (s.take b map) (fun x => flight x ∨ x = b) ∧ Plain s b ∧ b ≠ 0 ∧ ¬ s.fixed b ∧ (s.take b map).own = s.own := by
  have free : ¬ s.used b := by
    rintro ⟨_,clear⟩
    simp [taken.free] at clear
  have pos : b ≠ 0 := by
    rintro rfl
    exact free blocks.super_used
  have plain := Plain.of_unowned (blocks.unowned_of_free free pos)
  have owners : (s.take b map).own = s.own := own_setBlock (x:=zero) plain
  refine ⟨⟨taken.geometry blocks.toGeometry,?_,fun i mem idx => ?_,blocks.cached,blocks.nonzero,blocks.root⟩,
    plain,pos,fun fixed => free (blocks.exact.based (.inl fixed)),owners⟩
  · refine (blocks.exact.reserve free).congr (fun q => by rw [owners]) (take_used taken (blocks.inside b taken.free)) fun x => ?_
    simp only [or_assoc]
    rfl
  · have leaf := leaf_setBlock (x:=zero) plain mem idx
    have din := din_setBlock (x:=zero) plain mem
    change leafBlock (s.setBlock b zero).dev ((s.setBlock b zero).din i) idx ≠ 0 ↔ idx < ((s.setBlock b zero).din i).blocks
    rw [leaf,din]
    exact blocks.mapped i mem idx

lemma Blocks.give (blocks : Blocks s flight) (held : flight b) (loose : ¬ s.fixed b) (given : Given s b map) :
    Blocks (s.give map) (fun x => flight x ∧ x ≠ b) where
  toGeometry := given.geometry blocks.toGeometry (blocks.exact.based (.inr held))
  exact := by
    refine (blocks.exact.discard (.inr held)).congr (fun _ => rfl) (give_used given) fun x => ?_
    have ne : s.fixed x → x ≠ b := by
      rintro fixed rfl
      exact loose fixed
    have eq : (s.give map).fixed x ↔ s.fixed x := .rfl
    tauto
  mapped := blocks.mapped
  cached := blocks.cached
  nonzero := blocks.nonzero
  root := blocks.root

end Owners
end Ucore.Sfs
