import Ucore.Sfs.Contents

-- The block map over any appends and truncations, and what sfs_truncfile makes of
-- a file.
namespace Ucore.Sfs
open Bytes Outcomes Runs List
open Prod (snd)
variable {s t u : SfsFs} {flight : Nat → Prop} {i : Nat}

inductive MapCall where
  | append
  | truncate

def MapCall.step (i : Nat) (s : SfsFs) : MapCall → SfsFs → Prop
  | .append,t => (∃ b,sfsBmapLoadNolock i (s.node i).din.blocks s = .ok b t) ∨ ∃ e,sfsBmapLoadNolock i (s.node i).din.blocks s = .err e t
  | .truncate,t => (s.node i).din.blocks ≠ 0 ∧ sfsBmapTruncateNolock i s = .ok () t

lemma mapStep_blocks (blocks : Blocks s flight ∧ i ∈ s.inodeList) (stepped : MapCall.step i s c t) : Blocks t flight ∧ i ∈ t.inodeList := by
  obtain ⟨blocks,mem⟩ := blocks
  cases c with
  | append =>
    rcases bmapLoad_new blocks mem with ⟨-,u,bad,new,frame,-⟩ | ⟨b,u,got,grown,-⟩
    · obtain ⟨b,ran⟩ | ⟨e,ran⟩ := stepped
      all_goals cases bad.symm.trans ran
      exact ⟨new,frame.inodeList ▸ mem⟩
    obtain ⟨b,ran⟩ | ⟨e,ran⟩ := stepped
    all_goals cases got.symm.trans ran
    exact ⟨grown.blocks,grown.frame.inodeList ▸ mem⟩
  | truncate =>
    obtain ⟨u,ran,cut⟩ := bmapTruncate_run blocks mem stepped.1
    cases ran.symm.trans stepped.2
    exact ⟨cut.blocks,cut.frame.inodeList ▸ mem⟩

lemma Blocks.leaf_none (blocks : Blocks s flight) (on : i ∈ s.inodeList) (past : (s.node i).din.blocks ≤ idx) : s.own (i,.leaf idx) = 0 := by
  by_contra held
  have mem := blocks.cached i on
  rw [own_inode mem] at held
  have low := (blocks.mapped i mem idx).mp held
  rw [din_listed on] at low
  omega

lemma Grows.leaves (grows : Grows s t i) (frame : Frame s t i) (old : Blocks s flight) (new : Blocks t flight) (mem : i ∈ s.inodeList)
    (below : idx < (s.node i).din.blocks ∨ (t.node i).din.blocks ≤ idx) : t.own (i,.leaf idx) = s.own (i,.leaf idx) := by
  by_cases low : idx < (s.node i).din.blocks
  · exact grows.kept _ (old.leaf_held mem low)
  rw [old.leaf_none mem (by omega),new.leaf_none (frame.inodeList ▸ mem) (by omega)]

lemma Shrunk.used (cut : Shrunk s t flight i) (blocks : Blocks s flight) (held : s.own (i,.leaf ((s.node i).din.blocks - 1)) = b) (pos : b ≠ 0) (x : Nat) :
    t.used x ↔ s.used x ∧ x ≠ b := by
  have fixed : t.fixed x ↔ s.fixed x := by rw [SfsFs.fixed,SfsFs.fixed,cut.frame.super]; rfl
  rw [cut.blocks.exact.accounted,blocks.exact.accounted,fixed]
  subst held
  have ne := blocks.exact.apart _ pos
  have lone := fun p => blocks.exact.single _ p pos
  have own := cut.own
  grind

-- At every point of any sequence of appends and truncations the map is total and
-- injective and keeps off its own pointer blocks; an append changes nothing below
-- it, and nothing at all if it fails; a truncation takes the append back.
theorem block_map (blocks : Blocks s flight) (listed : i ∈ s.inodeList) (path : Path (MapCall.step i) s calls t) :
    (∀ idx < (t.node i).din.blocks,t.own (i,.leaf idx) ≠ 0 ∧ sfsBmapLoadNolock i idx t = .ok (t.own (i,.leaf idx)) t ∧
      (∀ other,t.own (i,.leaf other) = t.own (i,.leaf idx) → other = idx) ∧ ∀ spot,Pointer spot → t.own (i,spot) ≠ t.own (i,.leaf idx)) ∧
    (sfsBmapLoadNolock i (t.node i).din.blocks t).Meets
      (fun b u => (u.node i).din.blocks = (t.node i).din.blocks + 1 ∧ u.own (i,.leaf (t.node i).din.blocks) = b ∧
        (∀ idx < (t.node i).din.blocks,u.own (i,.leaf idx) = t.own (i,.leaf idx)) ∧
        ∃ v,sfsBmapTruncateNolock i u = .ok () v ∧ (v.node i).din.blocks = (t.node i).din.blocks ∧
          (∀ idx,v.own (i,.leaf idx) = t.own (i,.leaf idx)) ∧ ∀ x,v.used x ↔ u.used x ∧ x ≠ b)
      (fun _ u => (u.node i).din.blocks = (t.node i).din.blocks ∧ ∀ idx,u.own (i,.leaf idx) = t.own (i,.leaf idx)) fun _ => False := by
  obtain ⟨blocks,listed⟩ : Blocks t flight ∧ i ∈ t.inodeList := by
    induction path with
    | nil => exact ⟨blocks,listed⟩
    | step _ stepped ih => exact mapStep_blocks ih stepped
  refine ⟨fun idx low => ?_,?_⟩
  · have held := blocks.leaf_held listed low
    refine ⟨held,bmapLoad_old blocks listed low,fun other same => ?_,fun spot pointer same => ?_⟩
    · have place := blocks.exact.single _ _ held same.symm
      exact (Spot.leaf.inj (congrArg snd place)).symm
    · exact pointer.2 idx (congrArg snd (blocks.exact.single _ _ held same.symm)).symm
  rcases bmapLoad_new blocks listed with ⟨-,u,failed,after,frame,grows,count,-⟩ | ⟨b,u,got,extended,-⟩
  · rw [failed]
    exact ⟨count,fun idx => grows.leaves frame blocks after listed (by omega)⟩
  rw [got]
  have below : ∀ idx < (t.node i).din.blocks,u.own (i,.leaf idx) = t.own (i,.leaf idx) := fun idx low =>
    extended.grows.kept _ (blocks.leaf_held listed low)
  have inside : i ∈ u.inodeList := extended.frame.inodeList ▸ listed
  have count := extended.count
  obtain ⟨v,cut,shrunk⟩ := bmapTruncate_run extended.blocks inside (by omega)
  have last : (u.node i).din.blocks - 1 = (t.node i).din.blocks := by omega
  refine ⟨count,extended.here,below,v,cut,shrunk.count.trans last,fun idx => ?_,
    shrunk.used extended.blocks (last ▸ extended.here) extended.nonzero⟩
  rw [shrunk.own,last]
  split
  next same => rw [Spot.leaf.inj (congrArg snd same),blocks.leaf_none listed (Nat.le_refl _)]
  next other =>
    by_cases low : idx < (t.node i).din.blocks
    · exact below idx low
    rw [blocks.leaf_none listed (by omega),extended.blocks.leaf_none inside]
    have : idx ≠ (t.node i).din.blocks := fun same => other (by rw [same])
    omega

theorem block_map_file : ∃ t,Path (MapCall.step 3) fileDisk [.append] t ∧ t.own (3,.leaf 1) ≠ 0 ∧
    (sfsBmapLoadNolock 3 2 t).Meets (fun b u => u.own (3,.leaf 2) = b ∧ u.own (3,.leaf 1) = t.own (3,.leaf 1)) (fun _ _ => True) fun _ => False := by
  have listed : 3 ∈ fileDisk.inodeList := by decide
  rcases bmapLoad_new fileDisk_blocks listed with ⟨full,-⟩ | ⟨b,t,ran,extended,-⟩
  · exact absurd full (by decide)
  have path : Path (MapCall.step 3) fileDisk [.append] t := .step .nil (.inl ⟨b,ran⟩)
  obtain ⟨mapped,more⟩ := block_map fileDisk_blocks listed path
  rw [show (t.node 3).din.blocks = 2 from extended.count] at mapped more
  exact ⟨t,path,(mapped 1 one_lt_two).1,more.mono (fun _ _ met => ⟨met.2.1,met.2.2.1 1 one_lt_two⟩) (fun _ _ _ => trivial) fun _ => id⟩

-- A disk of more than 2^20 blocks on which the first free block is 2^20 + 42. File
-- 40 has 13 blocks, the last of them by its indirect block 42.
def mapDisk : SfsFs where
  super := ⟨sfsMagic,1081344,32726,fun _ => 0⟩
  dev := fun b => if b = 42 then leBytes 57 else zero
  dBlocks := 1081344
  freemap := ⟨1081344,replicate 32769 0 ++ 0xFFFFFC00 :: replicate 1022 0xFFFFFFFF⟩
  superDirty := true
  inodeList := [1,40]
  node := fun i => match i with
    | 40 => ⟨⟨0,0,sfsTypeFile,1,13,fun k => 45 + k,42,0⟩,true,false,1,1,0⟩
    | _ => ⟨⟨0,1,sfsTypeDir,2,0,fun _ => 0,0,0⟩,true,false,1,1,0⟩
  heap := fun _ => true
  tick := 0
  inodes := [1,40]

-- The append clears block 42 in place of the one it took: index 12 has no block.
set_option maxRecDepth 100000 in
theorem append_drops_block : leafBlock mapDisk.dev (mapDisk.node 40).din 12 = 57 ∧
    (match sfsBmapLoadNolock 40 13 mapDisk with
    | .ok _ t => decide (leafBlock t.dev (t.node 40).din 12 = 0)
    | _ => false) = true := by decide +kernel

lemma Mapped.trans (one : Mapped s t flight i) (two : Mapped t u flight i) : Mapped s u flight i :=
  ⟨two.blocks,one.frame.trans two.frame,one.grows.trans two.grows one.frame.inodes,one.count.trans two.count⟩

lemma Mapped.fresh (load : Mapped s t flight i) (blocks : Blocks s flight) (mem : i ∈ s.inodeList)
    (new : sfsBlksize * (s.node i).din.blocks ≤ p) (low : p < sfsBlksize * (t.node i).din.blocks) : t.byte i p = 0 := by
  have held := load.blocks.leaf_held (load.frame.inodeList ▸ mem) (Nat.div_lt_of_lt_mul low)
  have none := blocks.leaf_none mem ((Nat.le_div_iff_mul_le (by decide)).mpr (Nat.mul_comm _ _ ▸ new))
  rw [SfsFs.byte,load.grows.fresh i _ none held]
  rfl

lemma Shrunk.byte (cut : Shrunk s t flight i) (blocks : Blocks s flight) (mem : i ∈ s.inodeList)
    (inside : p < sfsBlksize * (t.node i).din.blocks) : t.byte i p = s.byte i p := by
  have low := Nat.div_lt_of_lt_mul inside
  rw [cut.count] at low
  have held := blocks.leaf_held mem (show p / sfsBlksize < (s.node i).din.blocks by omega)
  rw [SfsFs.byte,cut.own,if_neg fun eq => by have := Spot.leaf.inj (congrArg snd eq); omega]
  by_contra differs
  obtain ⟨_,equal,-,pointer⟩ := cut.dev _ fun eq => differs (congrFun eq _)
  exact pointer _ (congrArg snd (blocks.exact.single _ _ held equal.symm)).symm

-- The pointer blocks above an index, and those above the indexes from low to high
-- that the file does not have yet.
def pointers (idx : Nat) : Finset Spot :=
  if idx < sfsNdirect then ∅ else if idx - sfsNdirect < sfsBlkNentry then {.ind} else {.dbl,.mid ((idx - sfsNdirect - sfsBlkNentry) / sfsBlkNentry)}

def SfsFs.missing (s : SfsFs) (i low high : Nat) : Finset Spot := ((Finset.Ico low high).biUnion pointers).filter fun p => s.own (i,p) = 0

-- The blocks that an extension of the file takes, data and pointers.
def growCost (s : SfsFs) (i high : Nat) : Nat := high - (s.node i).din.blocks + (s.missing i (s.node i).din.blocks high).card

lemma appendCost_pointers (blocks : Blocks s flight) (on : i ∈ s.inodeList) (idx : Nat) : appendCost s i idx = 1 + ((pointers idx).filter fun p => s.own (i,p) = 0).card := by
  have mem := blocks.cached i on
  have ind : s.own (i,.ind) = (s.node i).din.indirect := by rw [own_inode mem,din_listed on]; rfl
  have dbl : s.own (i,.dbl) = (s.node i).din.dbIndirect := by rw [own_inode mem,din_listed on]; rfl
  have mid (j : Nat) : s.own (i,.mid j) = entBlock s.dev (s.node i).din.dbIndirect j := by rw [own_inode mem,din_listed on]; rfl
  simp only [appendCost,pointers]
  split
  · rfl
  split
  · by_cases none : (s.node i).din.indirect = 0 <;> simp [Finset.filter_singleton,ind,none]
  by_cases none : (s.node i).din.dbIndirect = 0
  · simp [Finset.filter_insert,Finset.filter_singleton,dbl,mid,none,entBlock_zero]
  by_cases empty : entBlock s.dev (s.node i).din.dbIndirect ((idx - sfsNdirect - sfsBlkNentry) / sfsBlkNentry) = 0 <;>
    simp [Finset.filter_insert,Finset.filter_singleton,dbl,mid,none,empty]

lemma pointers_held (blocks : Blocks s flight) (on : i ∈ s.inodeList) (held : s.own (i,.leaf idx) ≠ 0) (above : p ∈ pointers idx) : s.own (i,p) ≠ 0 := by
  intro none
  refine held ?_
  have mem := blocks.cached i on
  rw [own_inode mem] at none ⊢
  unfold pointers at above
  unfold spotBlock leafBlock
  split at above
  · cases above
  next far =>
    dsimp only
    rw [dif_neg far]
    split at above
    next near =>
      rw [Finset.mem_singleton] at above
      subst above
      rw [if_pos near,show (s.din i).indirect = 0 from none,entBlock_zero]
    next far =>
      rw [if_neg far]
      rcases Finset.mem_insert.mp above with rfl | last
      · rw [show (s.din i).dbIndirect = 0 from none,entBlock_zero,entBlock_zero]
      rw [Finset.mem_singleton.mp last] at none
      rw [show entBlock s.dev (s.din i).dbIndirect _ = 0 from none,entBlock_zero]

-- An append takes its data block and what is missing above it; what is missing
-- afterwards was missing before.
lemma Extended.cost (grown : Extended s t flight i b) (blocks : Blocks s flight) (on : i ∈ s.inodeList) (more : (s.node i).din.blocks < high) :
    appendCost s i (s.node i).din.blocks + growCost t i high ≤ growCost s i high := by
  have held (p : Spot) (above : p ∈ pointers (s.node i).din.blocks) : t.own (i,p) ≠ 0 :=
    pointers_held grown.blocks (grown.frame.inodeList ▸ on) (by rw [grown.here]; exact grown.nonzero) above
  have apart : Disjoint ((pointers (s.node i).din.blocks).filter fun p => s.own (i,p) = 0) (t.missing i (t.node i).din.blocks high) :=
    Finset.disjoint_left.mpr fun p mine later => held p (Finset.mem_filter.mp mine).1 (Finset.mem_filter.mp later).2
  have fewer := Finset.card_le_card (s:=((pointers (s.node i).din.blocks).filter fun p => s.own (i,p) = 0) ∪ t.missing i (t.node i).din.blocks high)
    (t:=s.missing i (s.node i).din.blocks high) fun p mem => by
    simp only [SfsFs.missing,Finset.mem_union,Finset.mem_filter,Finset.mem_biUnion,Finset.mem_Ico] at mem ⊢
    rcases mem with ⟨here,none⟩ | ⟨⟨idx,range,above⟩,none⟩
    · exact ⟨⟨_,⟨le_rfl,more⟩,here⟩,none⟩
    refine ⟨⟨idx,⟨?_,range.2⟩,above⟩,by_contra fun old => old ((grown.grows.kept _ old).symm.trans none)⟩
    have := grown.count
    omega
  rw [Finset.card_union_of_disjoint apart] at fewer
  rw [appendCost_pointers blocks on,growCost,growCost]
  have := grown.count
  omega

lemma truncGrow_run (n : Nat) : ∀ s : SfsFs,Blocks s flight → i ∈ s.inodeList → (sfsTruncGrow i n (s.node i).din.blocks s).Meets
      (fun _ t => Mapped s t flight i ∧ (t.node i).din.blocks = (s.node i).din.blocks + n)
      (fun _ t => s.super.unusedBlocks < growCost s i ((s.node i).din.blocks + n) ∧ Mapped s t flight i) fun _ => False := by
  induction n with
  | zero => exact fun s blocks _ => ⟨⟨blocks,.refl s i,.refl s i,le_refl _⟩,rfl⟩
  | succ n ih =>
    intro s blocks mem
    rw [sfsTruncGrow,bind_run]
    rcases bmapLoad_new blocks mem with ⟨full,u,bad,new,frame,grows,count,-⟩ | ⟨b,u,got,grown,paid⟩
    · rw [bad]
      refine ⟨full.trans_le ?_,new,frame,grows,count.ge⟩
      rw [appendCost_pointers blocks mem,growCost]
      have := Finset.card_le_card (Finset.filter_subset_filter (fun p => s.own (i,p) = 0)
        (Finset.subset_biUnion_of_mem pointers (Finset.mem_Ico.mpr ⟨le_rfl,show (s.node i).din.blocks < (s.node i).din.blocks + (n + 1) by omega⟩)))
      unfold SfsFs.missing
      omega
    rw [got,next_ok,← grown.count]
    have step : Mapped s u flight i := {grown with count:=by rw [grown.count]; omega}
    have cost : _ + growCost u i ((s.node i).din.blocks + (n + 1)) ≤ _ := grown.cost blocks mem (by omega)
    refine (ih u grown.blocks (grown.frame.inodeList ▸ mem)).mono (fun _ t done => ⟨step.trans done.1,?_⟩)
      (fun _ t done => ⟨?_,step.trans done.2⟩) fun _ => id
    · rw [done.2,grown.count]
      omega
    have short := done.1
    rw [grown.count,show (s.node i).din.blocks + 1 + n = (s.node i).din.blocks + (n + 1) by omega] at short
    omega

lemma truncShrink_run (n : Nat) : ∀ s : SfsFs,Blocks s flight → i ∈ s.inodeList → n ≤ (s.node i).din.blocks →
    ∃ t,sfsTruncShrink i n s = .ok () t ∧ Blocks t flight ∧ Frame s t i ∧ Apart s t i ∧ (t.node i).din.blocks = (s.node i).din.blocks - n ∧
      ∀ p < sfsBlksize * (t.node i).din.blocks,t.byte i p = s.byte i p := by
  induction n with
  | zero => exact fun s blocks _ _ => ⟨s,rfl,blocks,.refl s i,.refl s i,rfl,fun _ _ => rfl⟩
  | succ n ih =>
    intro s blocks mem _
    obtain ⟨u,cut,shrunk⟩ := bmapTruncate_run blocks mem (by omega)
    have count := shrunk.count
    obtain ⟨t,ran,new,frame,ne,_,byte⟩ := ih u shrunk.blocks (shrunk.frame.inodeList ▸ mem) (by omega)
    refine ⟨t,by rw [sfsTruncShrink,bind_run,cut,next_ok,ran],new,shrunk.frame.trans frame,(shrunk.apart blocks).trans ne,by omega,fun p low => ?_⟩
    have less : (t.node i).din.blocks ≤ (u.node i).din.blocks := by omega
    rw [byte p low,shrunk.byte blocks mem (lt_of_lt_of_le low (Nat.mul_le_mul_left _ less))]

-- What sfs_truncfile has made of the file: the blocks that stay keep all their bytes.
structure Resized (s t : SfsFs) (flight : Nat → Prop) (i len : Nat) : Prop where
  blocks : Blocks t flight
  apart : Apart s t i
  list : t.inodeList = s.inodeList
  type : (t.node i).din.type = (s.node i).din.type
  removed : (t.node i).removed = (s.node i).removed
  size : (t.node i).din.size = len
  count : (t.node i).din.blocks = blocksFor len
  byte : ∀ p < sfsBlksize * (t.node i).din.blocks,t.byte i p = if p < sfsBlksize * (s.node i).din.blocks then s.byte i p else 0

lemma truncSet_run (blocks : Blocks t flight) (mem : i ∈ s.inodeList) (frame : Frame s t i) (ne : Apart s t i)
    (count : (t.node i).din.blocks = blocksFor len) (small : len ≤ sfsMaxFileSize)
    (byte : ∀ p < sfsBlksize * (t.node i).din.blocks,t.byte i p = if p < sfsBlksize * (s.node i).din.blocks then s.byte i p else 0) :
    ∃ u,sfsTruncSet i len (blocksFor len) t = .ok () u ∧ Resized s u flight i len := by
  have inside : i ∈ t.inodeList := frame.inodeList ▸ mem
  let f : SfsInode → SfsInode := fun n => {n with din:={n.din with info:=len % 2^32},dirty:=true}
  have node := setNode_self t i f
  have kept : ∀ p,(t.setNode i f).byte i p = t.byte i p := fun p => by
    rw [SfsFs.byte,own_sameMap inside ⟨rfl,rfl,rfl⟩]
    rfl
  refine ⟨t.setNode i f,?_,blocks.setNode inside ⟨rfl,rfl,rfl⟩ rfl,ne.trans (apart_setNode t i f),frame.inodeList,?_,?_,?_,?_,fun p low => ?_⟩
  · simp only [sfsTruncSet,rules,count]
    rfl
  · rw [node]; exact frame.head.type
  · rw [node]; exact frame.head.removed
  · rw [node]
    have : sfsMaxFileSize < 2^32 := by decide
    exact Nat.mod_eq_of_lt (lt_of_le_of_lt small this)
  · rw [node]; exact count
  rw [node] at low
  rw [kept]
  exact byte p low

lemma truncfile_run (blocks : Blocks s flight) (file : File s i) (len : Int) :
    (sfsTruncfile i len s).Meets (fun _ t => 0 ≤ len ∧ len ≤ sfsMaxFileSize ∧ Resized s t flight i len.toNat)
      (fun _ t => t = s ∨ len ≤ sfsMaxFileSize ∧ s.super.unusedBlocks < growCost s i (blocksFor len.toNat) ∧ Mapped s t flight i)
      fun f => f = .truncSize ∧ (s.node i).din.blocks ≠ blocksFor (s.node i).din.size := by
  unfold sfsTruncfile
  rw [ite_run]
  refine .ite (fun _ => .inl rfl) fun range => ?_
  have small : len.toNat ≤ sfsMaxFileSize := by omega
  simp only [rules,decide_eq_true file.kind,ite_run]
  refine .ite (fun eq => ?_) fun _ => ?_
  · by_cases agree : blocksFor len.toNat = (s.node i).din.blocks
    · rw [show decide ((len.toNat + sfsBlksize - 1) / sfsBlksize = (s.node i).din.blocks) = true from decide_eq_true agree]
      exact ⟨by omega,by omega,blocks,.refl s i,rfl,rfl,rfl,eq,agree.symm,fun p low => by rw [if_pos low]⟩
    rw [show decide ((len.toNat + sfsBlksize - 1) / sfsBlksize = (s.node i).din.blocks) = false from decide_eq_false agree]
    exact ⟨rfl,fun ne => agree (eq ▸ ne.symm)⟩
  change ((trylockSin [] i s).next fun _ => sfsTruncGrow i (blocksFor len.toNat - (s.node i).din.blocks) (s.node i).din.blocks >>= fun _ =>
    sfsTruncShrink i ((s.node i).din.blocks - blocksFor len.toNat) >>= fun _ => sfsTruncSet i len.toNat (blocksFor len.toNat)).Meets _ _ _
  cases gone : (s.node i).removed with
  | true =>
    simp only [trylockSin,gone,rules]
    exact .inl rfl
  | false =>
    rw [show trylockSin [] i s = .ok () s by simp [trylockSin,gone],next_ok,bind_run]
    refine (truncGrow_run _ s blocks file.listed).next (fun _ u done => ?_) (fun e u done => .inr ⟨by omega,?_,done.2⟩) (by simp)
    rotate_left
    · rcases Nat.le_total (s.node i).din.blocks (blocksFor len.toNat) with more | less
      · rw [← Nat.add_sub_cancel' more]
        exact done.1
      have full := done.1
      simp [growCost,SfsFs.missing,Nat.sub_eq_zero_of_le less] at full
    obtain ⟨load,_⟩ := done
    obtain ⟨t,cut,new,frame,far,_,byte⟩ := truncShrink_run ((s.node i).din.blocks - blocksFor len.toNat) u load.blocks
      (load.frame.inodeList ▸ file.listed) (by omega)
    obtain ⟨v,ran,resized⟩ := truncSet_run new file.listed (load.frame.trans frame) ((load.grows.apart load.frame).trans far) (by omega)
      small fun p inside => by
      rw [byte p inside]
      split
      next old => exact load.byte blocks file.listed old
      next _ =>
        have less : (t.node i).din.blocks ≤ (u.node i).din.blocks := by omega
        exact load.fresh blocks file.listed (by omega) (lt_of_lt_of_le inside (Nat.mul_le_mul_left _ less))
    rw [bind_run,cut,next_ok,ran]
    exact ⟨by omega,by omega,resized⟩

lemma Resized.file (resized : Resized s t flight i len) (file : File s i) : File t i := ⟨resized.list ▸ file.listed,resized.type ▸ file.kind⟩

lemma truncfile_ok (blocks : Blocks s flight) (file : File s i) (ran : sfsTruncfile i len s = .ok () t) : Resized s t flight i len.toNat := by
  have met := truncfile_run blocks file len
  rw [ran] at met
  exact met.2.2

lemma blocksFor_spec (len : Nat) : len ≤ sfsBlksize * blocksFor len ∧ ∀ n,len ≤ sfsBlksize * n → blocksFor len ≤ n := by
  refine ⟨?_,fun n enough => ?_⟩
  all_goals unfold blocksFor sfsBlksize at *; omega

def textDisk : SfsFs := {fileDisk with dev:=fun b => if b = 5 then fun _ => 7 else fileDisk.dev b}

-- The calls on a file that change its size.
inductive SizeCall where
  | write (iob : Iobuf)
  | truncate (len : Int)
  | seek (pos : Int)

def SizeCall.act (i : Nat) : SizeCall → SfsM Unit
  | .write iob => sfsIoIobuf i iob true >>= fun _ => pure ()
  | .truncate len => sfsTruncfile i len
  | .seek pos => sfsTryseek i pos

-- The disk has fewer free blocks than the call needs before it sets the size.
def SizeCall.Starves (s : SfsFs) (i : Nat) : SizeCall → Prop
  | .write _ => False
  | .truncate len | .seek len => len ≤ sfsMaxFileSize ∧ s.super.unusedBlocks < growCost s i (blocksFor len.toNat)

-- A write starts in the file or at its end, and an extension finds its blocks.
def SizeCall.step (i : Nat) (s : SfsFs) (c : SizeCall) (t : SfsFs) : Prop :=
  (∀ iob,c = .write iob → InRange s i iob) ∧ ¬ c.Starves s i ∧ (c.act i s = .ok () t ∨ ∃ e,c.act i s = .err e t)

structure Agrees (s : SfsFs) (i : Nat) : Prop where
  filed : Filed s
  file : File s i
  agree : (s.node i).din.blocks = blocksFor (s.node i).din.size

lemma truncfile_filed (filed : Filed s) (file : File s i) (len : Int) : (sfsTruncfile i len s).Meets
      (fun _ t => Filed t ∧ File t i ∧ (t.node i).din.size = len.toNat ∧ (t.node i).din.blocks = blocksFor len.toNat)
      (fun _ t => t = s ∨ SizeCall.Starves s i (.truncate len) ∧ Filed t ∧ File t i ∧ (t.node i).din.size = (s.node i).din.size)
      fun f => f = .truncSize ∧ (s.node i).din.blocks ≠ blocksFor (s.node i).din.size := by
  refine (truncfile_run filed.blocks file len).mono (fun _ t done => ?_) (fun _ t bad => bad.imp_right fun grew => ?_) fun _ => id
  · obtain ⟨-,most,resized⟩ := done
    have size := resized.size
    refine ⟨filed.keep file resized.blocks resized.apart resized.list resized.type resized.removed ?_ (by omega),resized.file file,size,resized.count⟩
    rw [size,resized.count]
    exact (blocksFor_spec _).1
  obtain ⟨most,more,grew⟩ := grew
  have head := grew.frame.head
  have size : (t.node i).din.size = (s.node i).din.size := head.info
  refine ⟨⟨most,more⟩,?_,⟨grew.frame.inodeList ▸ file.listed,head.type ▸ file.kind⟩,size⟩
  exact filed.keep file grew.blocks (grew.grows.apart grew.frame) grew.frame.inodeList head.type head.removed
    (size ▸ (filed.sized i file).trans (Nat.mul_le_mul_left _ grew.count)) (size ▸ filed.capped i file)

lemma Agrees.truncate (agrees : Agrees s i) (len : Int) :
    (sfsTruncfile i len s).Meets (fun _ t => Agrees t i) (fun _ t => t = s ∨ SizeCall.Starves s i (.truncate len)) fun _ => False :=
  (truncfile_filed agrees.filed agrees.file len).mono (fun _ _ done => ⟨done.1,done.2.1,done.2.2.2.trans (congrArg _ done.2.2.1.symm)⟩)
    (fun _ _ bad => bad.imp_right And.left) fun _ differs => differs.2 agrees.agree

lemma Agrees.call (agrees : Agrees s i) (c : SizeCall) (range : ∀ iob,c = .write iob → InRange s i iob) :
    (c.act i s).Meets (fun _ t => Agrees t i) (fun _ t => t = s ∨ c.Starves s i) fun _ => False := by
  cases c with
  | write iob =>
    obtain ⟨n,_,_,t,call,moved,filed,file,_⟩ := io_write agrees.filed (range iob rfl)
    rw [SizeCall.act,bind_run,call]
    have size := (moved.put rfl).size
    have more : blocksFor (s.node i).din.size ≤ blocksFor (t.node i).din.size := Nat.div_le_div_right (by omega)
    have least := (blocksFor_spec (t.node i).din.size).2 _ (filed.sized i file)
    have agree := agrees.agree
    exact ⟨filed,file,by omega⟩
  | truncate len => exact agrees.truncate len
  | seek pos =>
    simp only [SizeCall.act,sfsTryseek,ite_run,rules]
    exact .ite (fun _ => .inl rfl) fun _ => .ite (fun _ => agrees.truncate pos) fun _ => agrees

lemma fileDisk_agrees : Agrees fileDisk 3 := ⟨fileDisk_filed,⟨by decide,by decide⟩,by decide⟩

end Ucore.Sfs
