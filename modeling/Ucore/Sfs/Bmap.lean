import Ucore.Sfs.Blocks

-- The block map: what sfs_bmap_load_nolock and sfs_bmap_truncate_nolock do to
-- the blocks of an inode, and that they keep the block invariant.
namespace Ucore.Sfs
open Bytes Outcomes Ownership SfsFs
open Finset (mem_range range)
open Prod (fst snd)
variable {s t : SfsFs} {flight : Nat → Prop} {i idx : Nat}

def SfsFs.point (s : SfsFs) (e k v : Nat) : SfsFs := s.setBlock e (putLE (s.dev e) (4 * k) 4 v)

section Sub
variable {ent k : Nat} {create : Bool}

lemma entry_word (b : Buf) (k : Nat) : getLE (fun x => b (4 * k + x)) 0 4 = readEnt b k := by
  apply getLE_congr
  intro j _
  rw [zero_add]

lemma entry_fits (inside : k < sfsBlkNentry) : 4 * k < sfsBlksize ∧ 4 * k + 4 ≤ sfsBlksize := by
  simp only [sfsBlkNentry,sfsBlksize] at *
  omega

section
variable (reach : Reach s ent) (inside : k < sfsBlkNentry)
include reach inside

lemma point_run : sfsWbuf (leBytes v) 4 ent (4 * k) s = .ok () (s.point ent k v) := by
  obtain ⟨low,fits⟩ := entry_fits inside
  exact wbuf_run reach low fits

lemma getSub_entry (done : readEnt (s.dev ent) k ≠ 0 ∨ create = false) : sfsBmapGetSubNolock ent k create s = .ok (ent,readEnt (s.dev ent) k) s := by
  obtain ⟨low,fits⟩ := entry_fits inside
  simp only [sfsBmapGetSubNolock,bind_run,check_run,inside,decide_true,if_true,next_ok,ite_run,reach.nonzero,ne_eq,not_false_eq_true,rbuf_run reach low fits,entry_word]
  simp only [ne_eq] at done
  rw [if_pos done,pure_run]

lemma getSub_fill (empty : readEnt (s.dev ent) k = 0) : sfsBmapGetSubNolock ent k true s = sfsBmapGetSubFill ent ent k s := by
  obtain ⟨low,fits⟩ := entry_fits inside
  simp [sfsBmapGetSubNolock,inside,reach.nonzero,rbuf_run reach low fits,entry_word,empty]

end

lemma getSub_grow (inside : k < sfsBlkNentry) : sfsBmapGetSubNolock 0 k true s = (sfsBlockAlloc s).next fun ent => sfsBmapGetSubFill 0 ent k := by
  simp [sfsBmapGetSubNolock,inside]

lemma getSub_extend (geo : Geometry s) (super : s.used 0) (reach : Reach s ent) (inside : k < sfsBlkNentry) (empty : readEnt (s.dev ent) k = 0) :
    (s.super.unusedBlocks = 0 ∧ sfsBmapGetSubNolock ent k true s = .err .eNoMem s) ∨
    ∃ b map,sfsBmapGetSubNolock ent k true s = .ok (ent,b) ((s.take b map).point ent k b) ∧ Taken s b map := by
  rw [getSub_fill reach inside empty]
  rcases blockAlloc_run geo super with ⟨full,bad⟩ | ⟨b,map,got,taken⟩
  · exact .inl ⟨full,by simp [sfsBmapGetSubFill,attempt_err bad]⟩
  have reach' : Reach (s.take b map) ent := {reach with}
  refine .inr ⟨b,map,?_,taken⟩
  simp [sfsBmapGetSubFill,attempt_ok got,attempt_ok (point_run reach' inside)]

-- The pointer block is made first and given back if nothing is left for its entry.
lemma getSub_create (geo : Geometry s) (super : s.used 0) (inside : k < sfsBlkNentry) : (s.super.unusedBlocks = 0 ∧ sfsBmapGetSubNolock 0 k true s = .err .eNoMem s) ∨
    (s.super.unusedBlocks = 1 ∧ ∃ e map map',sfsBmapGetSubNolock 0 k true s = .err .eNoMem ((s.take e map).give map') ∧ Taken s e map ∧ Given (s.take e map) e map') ∨
    ∃ e map b map',sfsBmapGetSubNolock 0 k true s = .ok (e,b) (((s.take e map).take b map').point e k b) ∧ Taken s e map ∧ Taken (s.take e map) b map' := by
  rw [getSub_grow inside]
  rcases blockAlloc_run geo super with ⟨full,bad⟩ | ⟨e,map,got,taken⟩
  · exact .inl ⟨full,by rw [bad,next_err]⟩
  have new := taken.geometry geo
  have inside_e := geo.inside e taken.free
  have pos : e ≠ 0 := by
    rintro rfl
    have := taken.free
    simp [super.2] at this
  have used' := take_used taken inside_e
  have super' := (used' 0).mpr (.inl super)
  have mine := (used' e).mpr (.inr rfl)
  right
  rw [got,next_ok]
  rcases blockAlloc_run new super' with ⟨full,bad⟩ | ⟨b,map',got',taken'⟩
  · left
    obtain ⟨map',freed,given⟩ := blockFree_run new mine pos
    refine ⟨?_,e,map,map',?_,taken,given⟩
    · have has := taken.some geo
      have : s.super.unusedBlocks - 1 = 0 := full
      omega
    simp [sfsBmapGetSubFill,attempt_err bad,pos,freed]
  right
  have reach : Reach ((s.take e map).take b map') e := ⟨pos,inside_e,geo.small,geo.device⟩
  refine ⟨e,map,b,map',?_,taken,taken'⟩
  simp [sfsBmapGetSubFill,attempt_ok got',attempt_ok (point_run reach inside)]

end Sub

structure SameHead (n m : SfsInode) : Prop where
  info : m.din.info = n.din.info
  parent : m.din.parent = n.din.parent
  type : m.din.type = n.din.type
  nlinks : m.din.nlinks = n.din.nlinks
  removed : m.removed = n.removed
  reclaimCount : m.reclaimCount = n.reclaimCount
  refCount : m.refCount = n.refCount
  openCount : m.openCount = n.openCount

lemma SameHead.refl (n : SfsInode) : SameHead n n := ⟨rfl,rfl,rfl,rfl,rfl,rfl,rfl,rfl⟩

lemma SameHead.trans (one : SameHead n m) (two : SameHead m l) : SameHead n l :=
  ⟨two.info.trans one.info,two.parent.trans one.parent,two.type.trans one.type,two.nlinks.trans one.nlinks,
    two.removed.trans one.removed,two.reclaimCount.trans one.reclaimCount,two.refCount.trans one.refCount,
    two.openCount.trans one.openCount⟩

structure Frame (s t : SfsFs) (i : Nat) : Prop where
  super : t.super = {s.super with unusedBlocks:=t.super.unusedBlocks}
  dBlocks : t.dBlocks = s.dBlocks
  inodeList : t.inodeList = s.inodeList
  inodes : t.inodes = s.inodes
  heap : t.heap = s.heap
  tick : t.tick = s.tick
  others : ∀ j,j ≠ i → t.node j = s.node j
  head : SameHead (s.node i) (t.node i)

lemma Frame.refl (s : SfsFs) (i : Nat) : Frame s s i := ⟨rfl,rfl,rfl,rfl,rfl,rfl,fun _ _ => rfl,.refl _⟩

lemma Frame.trans (one : Frame s t i) (two : Frame t u i) : Frame s u i where
  super := by rw [two.super,one.super]
  dBlocks := two.dBlocks.trans one.dBlocks
  inodeList := two.inodeList.trans one.inodeList
  inodes := two.inodes.trans one.inodes
  heap := two.heap.trans one.heap
  tick := two.tick.trans one.tick
  others j ne := (two.others j ne).trans (one.others j ne)
  head := one.head.trans two.head

lemma Frame.take (s : SfsFs) (b : Nat) (map : Bitmap) (i : Nat) : Frame s (s.take b map) i := ⟨rfl,rfl,rfl,rfl,rfl,rfl,fun _ _ => rfl,.refl _⟩

lemma Frame.give (s : SfsFs) (map : Bitmap) (i : Nat) : Frame s (s.give map) i := ⟨rfl,rfl,rfl,rfl,rfl,rfl,fun _ _ => rfl,.refl _⟩

lemma Frame.point (s : SfsFs) (e k v i : Nat) : Frame s (s.point e k v) i := ⟨rfl,rfl,rfl,rfl,rfl,rfl,fun _ _ => rfl,.refl _⟩

lemma Frame.setNode (s : SfsFs) (i : Nat) (f : SfsInode → SfsInode) (head : SameHead (s.node i) (f (s.node i))) : Frame s (s.setNode i f) i :=
  ⟨rfl,rfl,rfl,rfl,rfl,rfl,fun j ne => by simp [SfsFs.setNode,ne],by simpa [SfsFs.setNode] using head⟩

-- Blocks have only been added, to inode i; a new data block is blank, and
-- neither an inode nor a data block has been written.
structure Grows (s t : SfsFs) (i : Nat) : Prop where
  kept : ∀ p,s.own p ≠ 0 → t.own p = s.own p
  self : ∀ i ∈ s.inodes,t.dev i = s.dev i
  data : ∀ i idx,s.own (i,.leaf idx) ≠ 0 → t.dev (s.own (i,.leaf idx)) = s.dev (s.own (i,.leaf idx))
  fresh : ∀ i idx,s.own (i,.leaf idx) = 0 → t.own (i,.leaf idx) ≠ 0 → t.dev (t.own (i,.leaf idx)) = zero
  others : ∀ j,j ≠ i → ∀ spot,t.own (j,spot) = s.own (j,spot)

lemma Grows.refl (s : SfsFs) (i : Nat) : Grows s s i := ⟨fun _ _ => rfl,fun _ _ => rfl,fun _ _ _ => rfl,fun _ _ none has => absurd none has,fun _ _ _ => rfl⟩

lemma Grows.trans (one : Grows s t i) (two : Grows t u i) (inodes : t.inodes = s.inodes) : Grows s u i where
  kept p held := by
    have step := one.kept p held
    rw [two.kept p (step ▸ held),step]
  self i member := (two.self i (inodes ▸ member)).trans (one.self i member)
  data i idx held := by
    have step := one.kept _ held
    have later := two.data i idx (step ▸ held)
    rw [step] at later
    exact later.trans (one.data i idx held)
  fresh i idx none has := by
    by_cases between : t.own (i,.leaf idx) = 0
    · exact two.fresh i idx between has
    rw [two.kept _ between,two.data i idx between]
    exact one.fresh i idx none between
  others j ne spot := (two.others j ne spot).trans (one.others j ne spot)

lemma din_listed (listed : i ∈ s.inodeList) : s.din i = (s.node i).din := by simp [SfsFs.din,listed]

lemma din_setNode (listed : i ∈ s.inodeList) : (s.setNode i f).din i = (f (s.node i)).din := by simp [SfsFs.din,SfsFs.setNode,listed]

lemma din_setNode_ne (ne : j ≠ i) : (s.setNode i f).din j = s.din j := by simp [SfsFs.din,SfsFs.setNode,ne]

lemma own_setNode (listed : i ∈ s.inodeList) (member : i ∈ s.inodes) (spot : Spot) : (s.setNode i f).own (i,spot) = spotBlock s.dev (f (s.node i)).din i spot := by
  rw [own_inode (s:=s.setNode i f) member,din_setNode listed]
  rfl

lemma own_setNode_ne (ne : j ≠ i) (spot : Spot) : (s.setNode i f).own (j,spot) = s.own (j,spot) := by
  by_cases member : j ∈ s.inodes
  · rw [own_inode (s:=s.setNode i f) member,own_inode member,din_setNode_ne ne]
    rfl
  rw [own_none (s:=s.setNode i f) member,own_none member]

lemma Blocks.spot_ne (blocks : Blocks s flight) (held : s.own p ≠ 0) (ne : p ≠ q) : s.own p ≠ s.own q := fun eq => ne (blocks.exact.single p q held eq)

-- Pointer block e belongs to inode i, so writing it leaves the others alone.
lemma own_point_ne (blocks : Blocks s flight) (mine : s.own (i,spot') = e) (pos : e ≠ 0)
    (ne : j ≠ i) (spot : Spot) : (s.point e k v).own (j,spot) = s.own (j,spot) := by
  by_cases member : j ∈ s.inodes
  · have safe : ¬ Points s.dev (s.din j) e := by
      intro points
      obtain ⟨sp,equal,_,_⟩ := points_spot j points
      have eq := blocks.exact.single (i,spot') (j,sp) (mine ▸ pos) (by rw [mine,own_inode member,equal])
      exact ne (congrArg fst eq).symm
    have din : (s.point e k v).din j = s.din j := by
      by_cases listed : j ∈ s.inodeList
      · simp [SfsFs.din,point,setBlock,listed]
      have far : j ≠ e := by
        intro equal
        have eq := blocks.exact.single (i,spot') (j,.self) (mine ▸ pos) (by rw [mine,own_inode member]; exact equal.symm)
        exact ne (congrArg fst eq).symm
      simp [SfsFs.din,point,setBlock,listed,setDev_ne far]
    rw [own_inode (s:=s.point e k v) member,own_inode member,din]
    exact spotBlock_frame safe j spot
  rw [own_none (s:=s.point e k v) member,own_none member]

lemma own_point (listed : i ∈ s.inodeList) (member : i ∈ s.inodes) (spot : Spot) :
    (s.point e k v).own (i,spot) = spotBlock (setDev s.dev e (putLE (s.dev e) (4 * k) 4 v)) (s.node i).din i spot := by
  have din : (s.point e k v).din i = (s.node i).din := din_listed (s:=s.point e k v) listed
  rw [own_inode (s:=s.point e k v) member,din]
  rfl

def Pointer (spot : Spot) : Prop := spot ≠ .self ∧ ∀ idx,spot ≠ .leaf idx

lemma Blocks.grows (blocks : Blocks s flight) (kept : ∀ q,s.own q ≠ 0 → t.own q = s.own q)
    (changed : ∀ x,s.used x → t.dev x ≠ s.dev x → ∃ j sp,s.own (j,sp) = x ∧ Pointer sp)
    (fresh : ∀ j idx,s.own (j,.leaf idx) = 0 → t.own (j,.leaf idx) ≠ 0 → t.dev (t.own (j,.leaf idx)) = zero)
    (others : ∀ j ≠ i,∀ spot,t.own (j,spot) = s.own (j,spot)) : Grows s t i where
  kept := kept
  self j member := by
    by_contra differs
    have held : s.own (j,.self) = j := own_inode member .self
    have pos := blocks.nonzero j member
    obtain ⟨l,sp,equal,pointer,_⟩ := changed j (held ▸ blocks.own_used (held.symm ▸ pos)) differs
    have eq := blocks.exact.single (j,.self) (l,sp) (held.symm ▸ pos) (held.trans equal.symm)
    exact pointer (congrArg snd eq).symm
  data j idx held := by
    by_contra differs
    obtain ⟨l,sp,equal,_,notLeaf⟩ := changed _ (blocks.own_used held) differs
    have eq := blocks.exact.single (j,.leaf idx) (l,sp) held equal.symm
    exact notLeaf idx (congrArg snd eq).symm
  fresh := fresh
  others := others

lemma Blocks.assign (blocks : Blocks s flight) (taken : Taken s b map) (vacant : s.own p = 0)
    (own : ∀ q,t.own q = if q = p then b else s.own q) (used : ∀ x,t.used x ↔ (s.take b map).used x) :
    Exact t.own t.used (fun x => s.fixed x ∨ flight x) := by
  obtain ⟨_,_,pos,_,_⟩ := blocks.take taken
  have free : ¬ s.used b := by
    rintro ⟨_,clear⟩
    simp [taken.free] at clear
  exact (blocks.exact.assign free pos vacant).congr own
    (fun x => (used x).trans (take_used taken (blocks.inside b taken.free) x)) (fun _ => .rfl)

lemma take_free (taken : Taken s b map) : ¬ s.used b := by
  rintro ⟨_,clear⟩
  simp [taken.free] at clear

lemma take_dev_used (taken : Taken s b map) (used : s.used x) : (s.take b map).dev x = s.dev x := setDev_ne (by rintro rfl; exact take_free taken used)

lemma take_blank (s : SfsFs) (b : Nat) (map : Bitmap) : (s.take b map).dev b = zero := setDev_same _ _ _

lemma taken_small (blocks : Blocks s flight) (taken : Taken s b map) : b < 2^32 := by
  have inside := blocks.inside b taken.free
  have small := blocks.small
  omega

lemma own_listed (listed : i ∈ s.inodeList) (member : i ∈ s.inodes) (spot : Spot) : s.own (i,spot) = spotBlock s.dev (s.node i).din i spot := by
  rw [own_inode member,din_listed listed]

def putDirect (k : Fin 12) (b : Nat) (n : SfsInode) : SfsInode :=
  {n with din:={n.din with direct:=fun j => if j = k then b else n.din.direct j},dirty:=true}
def putIndirect (e : Nat) (n : SfsInode) : SfsInode := {n with din:={n.din with indirect:=e},dirty:=true}
def putDbIndirect (e : Nat) (n : SfsInode) : SfsInode := {n with din:={n.din with dbIndirect:=e},dirty:=true}

lemma own_putDirect (listed : i ∈ s.inodeList) (member : i ∈ s.inodes) (k : Fin 12) (q : Place) :
    (s.setNode i (putDirect k b)).own q = if q = (i,.leaf k) then b else s.own q := by
  obtain ⟨j,_⟩ := q
  by_cases here : j = i
  · subst here
    rw [own_setNode listed member]
    simp only [putDirect,spotBlock_direct,Prod.mk.injEq,true_and]
    rw [own_listed listed member]
  rw [own_setNode_ne here,if_neg (fun h => here (congrArg fst h))]

section
variable (blocks : Blocks s flight) (listed : i ∈ s.inodeList)
include blocks listed

lemma own_through (mine : s.own (i,via) = e) (pos : e ≠ 0) (entry : (∀ spot ≠ via,e ≠ spotBlock s.dev (s.node i).din i spot) → ∀ spot,
      spotBlock (setDev s.dev e (putLE (s.dev e) (4 * k) 4 v)) (s.node i).din i spot = if spot = goal then v else spotBlock s.dev (s.node i).din i spot) (q : Place) :
    (s.point e k v).own q = if q = (i,goal) then v else s.own q := by
  have member := blocks.cached i listed
  have spots := own_listed listed member
  have far spot : spot ≠ via → e ≠ spotBlock s.dev (s.node i).din i spot := by
    intro ne
    rw [← mine,← spots]
    exact blocks.spot_ne (mine.symm ▸ pos) (fun h => ne (congrArg snd h).symm)
  obtain ⟨j,_⟩ := q
  by_cases here : j = i
  · subst here
    rw [own_point listed member,entry far,← spots]
    simp
  rw [own_point_ne blocks mine pos here,if_neg (fun h => here (congrArg fst h))]

lemma own_indEntry (pos : (s.node i).din.indirect ≠ 0) (inside : k < sfsBlkNentry) (small : v < 2^32) (q : Place) :
    (s.point (s.node i).din.indirect k v).own q = if q = (i,.leaf (sfsNdirect + k)) then v else s.own q := by
  refine own_through blocks listed (own_listed listed (blocks.cached i listed) .ind) pos (fun ne spot => ?_) q
  exact spotBlock_indEntry (s.node i).din pos inside small (ne .dbl (by simp)) (fun l => ne (.mid l) (by simp)) ..

lemma own_midLeaf (pos : entBlock s.dev (s.node i).din.dbIndirect j ≠ 0) (inside : k < sfsBlkNentry) (small : v < 2^32) (q : Place) :
    (s.point (entBlock s.dev (s.node i).din.dbIndirect j) k v).own q = if q = (i,.leaf (sfsNdirect + sfsBlkNentry + sfsBlkNentry * j + k)) then v else s.own q := by
  refine own_through blocks listed (own_listed listed (blocks.cached i listed) (.mid j)) pos (fun far spot => ?_) q
  refine spotBlock_midLeaf pos inside small (far .ind (by simp)) (far .dbl (by simp)) (fun x eq => ?_) ..
  by_contra ne
  exact far (.mid x) (by simpa using ne) eq.symm

lemma own_midEntry (pos : (s.node i).din.dbIndirect ≠ 0)
    (inside : j < sfsBlkNentry) (small : e < 2^32) (free : entBlock s.dev (s.node i).din.dbIndirect j = 0)
    (blank : s.dev e = zero) (unowned : ∀ p,s.own p ≠ e) (q : Place) :
    (s.point (s.node i).din.dbIndirect j e).own q = if q = (i,.mid j) then e else s.own q := by
  have mine : s.own (i,.dbl) = (s.node i).din.dbIndirect := own_listed listed (blocks.cached i listed) .dbl
  refine own_through blocks listed mine pos (fun ne spot => ?_) q
  exact spotBlock_midEntry (s.node i).din pos inside small free blank (fun h => unowned _ (mine.trans h.symm)) (ne .ind (by simp)) (fun x => ne (.mid x) (by simp)) ..

end

lemma own_point_plain (plain : Plain s e) : (s.point e k v).own = s.own := own_setBlock plain

section
variable (listed : i ∈ s.inodeList) (member : i ∈ s.inodes)
include listed member

lemma own_hang (unowned : ∀ p,s.own p ≠ e) (spots : ∀ spot,spotBlock (setDev s.dev e (putLE (s.dev e) (4 * k) 4 v)) (f (s.node i)).din i spot =
      if spot = a then v else if spot = b then e else spotBlock s.dev (s.node i).din i spot) (q : Place) :
    ((s.point e k v).setNode i f).own q = if q = (i,a) then v else if q = (i,b) then e else s.own q := by
  obtain ⟨j,spot⟩ := q
  by_cases here : j = i
  · subst here
    rw [own_setNode (s:=s.point e k v) listed member]
    refine (spots spot).trans ?_
    simp [own_listed listed member]
  rw [own_setNode_ne here,own_point_plain (.of_unowned unowned),if_neg (fun h => here (congrArg fst h)),if_neg (fun h => here (congrArg fst h))]

lemma own_indNew (pos : e ≠ 0) (free : (s.node i).din.indirect = 0)
    (inside : k < sfsBlkNentry) (small : v < 2^32) (blank : s.dev e = zero) (unowned : ∀ p,s.own p ≠ e) (q : Place) :
    ((s.point e k v).setNode i (putIndirect e)).own q = if q = (i,.leaf (sfsNdirect + k)) then v else if q = (i,.ind) then e else s.own q := by
  have spots := own_listed listed member
  refine own_hang listed member unowned (fun spot => ?_) q
  exact spotBlock_indNew pos free inside small blank (fun h => unowned _ ((spots .dbl).trans h.symm))
    (fun l h => unowned _ ((spots (.mid l)).trans h.symm)) spot

lemma own_dblNew (pos : d ≠ 0) (empty : (s.node i).din.dbIndirect = 0)
    (inside : j < sfsBlkNentry) (small : e < 2^32) (blank : s.dev d = zero) (blankMid : s.dev e = zero) (new : e ≠ d)
    (unowned : ∀ p,s.own p ≠ d) (q : Place) :
    ((s.point d j e).setNode i (putDbIndirect d)).own q = if q = (i,.mid j) then e else if q = (i,.dbl) then d else s.own q :=
  own_hang listed member unowned (fun spot => spotBlock_dblNew pos empty inside small blank blankMid new
    (fun h => unowned _ ((own_listed listed member .ind).trans h.symm)) spot) q

end

lemma Blocks.congr_flight (blocks : Blocks s flight) (eq : ∀ x,flight' x ↔ flight x) : Blocks s flight' := by
  obtain rfl : flight' = flight := funext fun x => propext (eq x)
  exact blocks

lemma Blocks.flight_used (blocks : Blocks s flight) (held : flight b) : s.used b := blocks.exact.based (.inr held)

-- The map of an inode is injective, so an inode has fewer blocks than the disk.
lemma Blocks.count_lt (blocks : Blocks s flight) (member : i ∈ s.inodes) : (s.din i).blocks < s.super.blocks := by
  have held x : x < (s.din i).blocks → s.own (i,.leaf x) ≠ 0 := by
    intro cap
    rw [own_inode member]
    exact (blocks.mapped i member x).mpr cap
  have injective : Set.InjOn (fun x => s.own (i,.leaf x)) (range (s.din i).blocks) := by
    intro x inside y _ equal
    have eq := blocks.exact.single (i,.leaf x) (i,.leaf y) (held x (by simpa using inside)) equal
    simpa using eq
  have image : (range (s.din i).blocks).image (fun x => s.own (i,.leaf x)) ⊆ (range s.super.blocks).erase 0 := by
    intro b got
    obtain ⟨x,inside,rfl⟩ := Finset.mem_image.mp got
    have pos := held x (by simpa using inside)
    exact Finset.mem_erase.mpr ⟨pos,mem_range.mpr (blocks.own_used pos).1⟩
  have positive : 0 < s.super.blocks := Nat.zero_lt_of_lt blocks.super_used.1
  have count := Finset.card_le_card image
  rw [Finset.card_image_of_injOn injective,Finset.card_range,Finset.card_erase_of_mem (mem_range.mpr positive),Finset.card_range] at count
  omega

lemma bmapOut_run (geo : Geometry s) (used : s.used b) (pos : b ≠ 0) : sfsBmapOut b s = .ok b s := by simp [sfsBmapOut,pos,blockInuse_used geo used pos]

lemma Blocks.undo (blocks : Blocks s flight) (taken : Taken s e map) (given : Given (s.take e map) e map') :
    Blocks ((s.take e map).give map') flight ∧ Grows s ((s.take e map).give map') i := by
  obtain ⟨new,_,_,loose,eq⟩ := blocks.take taken
  refine ⟨(new.give (.inr rfl) loose given).congr_flight fun x => ?_,?_⟩
  · have ne : flight x → x ≠ e := by
      rintro held rfl
      exact take_free taken (blocks.flight_used held)
    tauto
  refine blocks.grows (fun q _ => congrFun eq q) (fun x used differs => absurd (take_dev_used taken used) differs) ?_
    fun j _ spot => congrFun eq (j,spot)
  intro j l none has
  exact absurd none (congrFun eq (j,.leaf l) ▸ has)

lemma Blocks.grows_one (blocks : Blocks s flight) (own : ∀ q,t.own q = if q = (i,sp) then b else s.own q)
    (free : s.own (i,sp) = 0) (blank : t.dev b = zero) (changed : ∀ x,s.used x → t.dev x ≠ s.dev x → ∃ j sp,s.own (j,sp) = x ∧ Pointer sp) :
    Grows s t i := by
  refine blocks.grows (fun q held => ?_) changed (fun j l none has => ?_) fun j ne spot => ?_
  · rw [own,if_neg]
    rintro rfl
    exact held free
  · rw [own] at has ⊢
    by_cases here : ((j,.leaf l) : Place) = (i,sp)
    · rw [if_pos here]; exact blank
    rw [if_neg here] at has; exact absurd none has
  rw [own,if_neg (fun h => ne (congrArg fst h))]

def Marked (n m : SfsInode) : Prop := m = n ∨ m.dirty = true

-- What sfs_bmap_get_nolock has done when it returns a new block for idx: all
-- but the block count of the inode is in place.
structure Appended (s t : SfsFs) (flight : Nat → Prop) (i idx b : Nat) : Prop where
  geo : Geometry t
  exact : Exact t.own t.used (fun x => s.fixed x ∨ flight x)
  here : t.own (i,.leaf idx) = b
  leaves : ∀ j x,(j,x) ≠ (i,idx) → t.own (j,.leaf x) = s.own (j,.leaf x)
  nonzero : b ≠ 0
  frame : Frame s t i
  grows : Grows s t i
  blocks : (t.node i).din.blocks = (s.node i).din.blocks

def appendCost (s : SfsFs) (i idx : Nat) : Nat :=
  let din := (s.node i).din
  if idx < sfsNdirect then 1
  else if idx - sfsNdirect < sfsBlkNentry then if din.indirect = 0 then 2 else 1
  else if din.dbIndirect = 0 then 3
  else if entBlock s.dev din.dbIndirect ((idx - sfsNdirect - sfsBlkNentry) / sfsBlkNentry) = 0 then 2
  else 1

-- Either the disk is too full for the blocks it takes, or idx is appended.
def Appends (s : SfsFs) (flight : Nat → Prop) (i idx : Nat) : Prop :=
  (s.super.unusedBlocks < appendCost s i idx ∧
    ∃ t,sfsBmapGetNolock i idx true s = .err .eNoMem t ∧ Blocks t flight ∧ Frame s t i ∧ Grows s t i ∧
      (t.node i).din.blocks = (s.node i).din.blocks ∧ Marked (s.node i) (t.node i)) ∨
  ∃ b t,sfsBmapGetNolock i idx true s = .ok b t ∧ Appended s t flight i idx b ∧
    t.super.unusedBlocks + appendCost s i idx = s.super.unusedBlocks

lemma point_changed (member : s.own (i,sp) = e) (pointer : Pointer sp) (taken : Taken s b map) (used : s.used x)
    (differs : ((s.take b map).point e k v).dev x ≠ s.dev x) : ∃ j sp,s.own (j,sp) = x ∧ Pointer sp := by
  by_cases here : x = e
  · exact ⟨i,sp,here ▸ member,pointer⟩
  refine absurd ?_ differs
  change setDev (s.take b map).dev e _ x = _
  rw [setDev_ne here,take_dev_used taken used]

lemma append_direct (blocks : Blocks s flight) (listed : i ∈ s.inodeList) (low : idx < sfsNdirect)
    (free : s.own (i,.leaf idx) = 0) : Appends s flight i idx := by
  have member := blocks.cached i listed
  have empty : (s.node i).din.direct ⟨idx,low⟩ = 0 := by
    rw [own_listed listed member] at free
    simpa only [spotBlock,leaf_direct low] using free
  have cost : appendCost s i idx = 1 := by simp [appendCost,low]
  rw [Appends,cost]
  rcases blockAlloc_run blocks.toGeometry blocks.super_used with ⟨_,bad⟩ | ⟨b,map,got,taken⟩
  · exact .inl ⟨by omega,s,by simp [sfsBmapGetNolock,low,empty,bad],blocks,.refl s i,.refl s i,rfl,.inl rfl⟩
  right
  obtain ⟨new,_,pos,_,eq⟩ := blocks.take taken
  have own q : ((s.take b map).setNode i (putDirect ⟨idx,low⟩ b)).own q = if q = (i,.leaf idx) then b else s.own q := by
    rw [own_putDirect (s:=s.take b map) listed member,eq]
  have geo : Geometry ((s.take b map).setNode i (putDirect ⟨idx,low⟩ b)) := {new with}
  have used : ((s.take b map).setNode i (putDirect ⟨idx,low⟩ b)).used b := (take_used taken (blocks.inside b taken.free) b).mpr (.inr rfl)
  have has := taken.some blocks.toGeometry
  refine ⟨b,(s.take b map).setNode i (putDirect ⟨idx,low⟩ b),?_,?_,?_⟩
  · simp only [sfsBmapGetNolock,rules,low,dif_pos,empty,and_self,got,setDirect]
    exact bmapOut_run geo used pos
  · refine ⟨geo,blocks.assign taken free own (fun _ => .rfl),by rw [own,if_pos rfl],fun j x ne => ?_,pos,?_,?_,?_⟩
    · rw [own,if_neg]
      intro h
      exact ne (by simpa using h)
    · exact (Frame.take s b map i).trans (.setNode _ i _ ⟨rfl,rfl,rfl,rfl,rfl,rfl,rfl,rfl⟩)
    · exact blocks.grows_one own free (take_blank s b map) fun x used differs => absurd (take_dev_used taken used) differs
    simp [SfsFs.setNode,putDirect,take]
  change s.super.unusedBlocks - 1 + 1 = _
  omega

lemma setIndirect_same : setIndirect i (s.node i).din.indirect s = .ok () s := by simp [setIndirect]

lemma setIndirect_new (free : (s.node i).din.indirect = 0) (pos : e ≠ 0) : setIndirect i e s = .ok () (s.setNode i (putIndirect e)) := by
  simp only [setIndirect,rules,free,ne_eq,pos,when_true]
  rfl

lemma setDbIndirect_same : setDbIndirect i (s.node i).din.dbIndirect s = .ok () s := by simp [setDbIndirect]

lemma setDbIndirect_new (free : (s.node i).din.dbIndirect = 0) (pos : e ≠ 0) : setDbIndirect i e s = .ok () (s.setNode i (putDbIndirect e)) := by
  simp only [setDbIndirect,rules,free,ne_eq,pos,when_true]
  rfl

-- The same for any spot.
structure Laid (s t : SfsFs) (flight : Nat → Prop) (i : Nat) (spot : Spot) (b : Nat) : Prop where
  geo : Geometry t
  exact : Exact t.own t.used (fun x => s.fixed x ∨ flight x)
  here : t.own (i,spot) = b
  leaves : ∀ j x,((j,.leaf x) : Place) ≠ (i,spot) → t.own (j,.leaf x) = s.own (j,.leaf x)
  nonzero : b ≠ 0
  frame : Frame s t i
  grows : Grows s t i
  blocks : (t.node i).din.blocks = (s.node i).din.blocks
  marked : Marked (s.node i) (t.node i)

lemma Laid.appended (placed : Laid s t flight i (.leaf idx) b) : Appended s t flight i idx b :=
  {placed with leaves:=fun j x ne => placed.leaves j x fun h => ne (by simpa using h)}

lemma Laid.used (placed : Laid s t flight i spot b) : t.used b := by
  have used := placed.exact.owned (placed.here.symm ▸ placed.nonzero)
  rwa [placed.here] at used

lemma Laid.of_entry (blocks : Blocks s flight) (taken : Taken s b map) (mine : s.own (i,sp) = e) (pointer : Pointer sp) (pos : e ≠ 0)
    (free : s.own (i,spot) = 0) (own : ∀ q,((s.take b map).point e k b).own q = if q = (i,spot) then b else s.own q) :
    Laid s ((s.take b map).point e k b) flight i spot b := by
  obtain ⟨new,_,positive,_,_⟩ := blocks.take taken
  have blank : ((s.take b map).point e k b).dev b = zero := by
    have far : b ≠ e := by
      rintro rfl
      exact take_free taken (mine ▸ blocks.own_used (mine.symm ▸ pos))
    change setDev (s.take b map).dev e _ b = _
    rw [setDev_ne far,take_blank]
  exact ⟨{new with},blocks.assign taken free own (fun _ => .rfl),by rw [own,if_pos rfl],fun j x ne => by rw [own,if_neg ne],positive,
    (Frame.take s b map i).trans (.point _ _ _ _ i),
    blocks.grows_one own free blank fun x used differs => point_changed mine pointer taken used differs,rfl,.inl rfl⟩

structure Pair (s u : SfsFs) (flight : Nat → Prop) (e b : Nat) : Prop where
  after : Blocks u (fun x => (flight x ∨ x = e) ∨ x = b)
  own : u.own = s.own
  free : ¬ s.used e
  free' : ¬ (s.used b ∨ b = e)
  used : ∀ x,u.used x ↔ (s.used x ∨ x = e) ∨ x = b
  dev : ∀ x,s.used x → u.dev x = s.dev x
  blank : u.dev e = zero
  blank' : u.dev b = zero
  nonzero : e ≠ 0
  nonzero' : b ≠ 0
  small : b < 2^32
  count : u.super.unusedBlocks + 2 = s.super.unusedBlocks

lemma Blocks.pair (blocks : Blocks s flight) (taken : Taken s e map) (taken' : Taken (s.take e map) b map') : Pair s ((s.take e map).take b map') flight e b := by
  obtain ⟨new,_,pos,_,eq⟩ := blocks.take taken
  obtain ⟨after',_,nonzero',_,same'⟩ := new.take taken'
  have one := take_used taken (blocks.inside e taken.free)
  have two := take_used taken' (new.inside b taken'.free)
  have free' : ¬ (s.used b ∨ b = e) := fun h => take_free taken' ((one b).mpr h)
  have has := taken.some blocks.toGeometry
  have some' : 0 < s.super.unusedBlocks - 1 := taken'.some new.toGeometry
  refine ⟨after',same'.trans eq,take_free taken,free',fun x => (two x).trans (or_congr_left (one x)),fun x inuse => ?_,?_,
    take_blank _ _ _,pos,nonzero',taken_small new taken',?_⟩
  · exact (take_dev_used taken' ((one x).mpr (.inl inuse))).trans (take_dev_used taken inuse)
  · change setDev (s.take e map).dev b zero e = zero
    rw [setDev_ne (fun h => free' (.inr h.symm)),take_blank]
  change s.super.unusedBlocks - 1 - 1 + 2 = _
  omega

section
variable (pair : Pair s u flight e b)
include pair

lemma Pair.exact (blocks : Blocks s flight) (free : s.own p = 0) (vacant' : s.own q = 0)
    (ne : p ≠ q) (own : ∀ r,t.own r = if r = p then b else if r = q then e else s.own r) (used : ∀ x,t.used x ↔ u.used x) :
    Exact t.own t.used (fun x => s.fixed x ∨ flight x) := by
  have one := blocks.exact.assign pair.free pair.nonzero vacant'
  have two := one.assign (p:=p) pair.free' pair.nonzero' (by rw [if_neg ne]; exact free)
  exact two.congr own (fun x => (used x).trans (pair.used x)) (fun _ => .rfl)

lemma Pair.unowned : ∀ p,u.own p ≠ e := pair.after.unowned_of_flight (.inl (.inr rfl)) pair.nonzero

lemma Pair.apart : b ≠ e := fun h => pair.free' (.inr h)

lemma Pair.grows (blocks : Blocks s flight) (free : s.own (i,sp) = 0) (vacant' : s.own (i,sp') = 0)
    (notLeaf : ∀ idx,sp' ≠ .leaf idx) (own : ∀ r,t.own r = if r = (i,sp) then b else if r = (i,sp') then e else s.own r)
    (dev : ∀ x ≠ e,t.dev x = u.dev x) : Grows s t i := by
  refine blocks.grows (fun r held => ?_) (fun x inuse differs => ?_) (fun l idx none has => ?_) fun j ne spot => ?_
  · rw [own,if_neg (by rintro rfl; exact held free),if_neg (by rintro rfl; exact held vacant')]
  · have ne : x ≠ e := by rintro rfl; exact pair.free inuse
    exact absurd ((dev x ne).trans (pair.dev x inuse)) differs
  · rw [own] at has ⊢
    by_cases here : ((l,.leaf idx) : Place) = (i,sp)
    · rw [if_pos here,dev b pair.apart]
      exact pair.blank'
    rw [if_neg here,if_neg (fun h => notLeaf idx (congrArg snd h).symm)] at has
    exact absurd none has
  rw [own,if_neg (fun h => ne (congrArg fst h)),if_neg (fun h => ne (congrArg fst h))]

end

-- The two fields of an inode that hold a pointer block, and what sets them.
structure Hangs (ptr : SfsInode → Nat) (hang : Nat → SfsInode → SfsInode) (store : Nat → Nat → SfsM Unit) (via : Spot) : Prop where
  spot : ∀ {s : SfsFs} {i},i ∈ s.inodeList → i ∈ s.inodes → s.own (i,via) = ptr (s.node i)
  pointer : Pointer via
  same : ∀ (s : SfsFs) i,store i (ptr (s.node i)) s = .ok () s
  new : ∀ {s : SfsFs} {i e},ptr (s.node i) = 0 → e ≠ 0 → store i e s = .ok () (s.setNode i (hang e))
  head : ∀ n e,SameHead n (hang e n) ∧ (hang e n).din.blocks = n.din.blocks ∧ (hang e n).dirty = true

lemma hangs_ind : Hangs (·.din.indirect) putIndirect setIndirect .ind :=
  ⟨fun listed member => own_listed listed member .ind,⟨by simp,by simp⟩,fun _ _ => setIndirect_same,setIndirect_new,fun _ _ => ⟨⟨rfl,rfl,rfl,rfl,rfl,rfl,rfl,rfl⟩,rfl,rfl⟩⟩

lemma hangs_dbl : Hangs (·.din.dbIndirect) putDbIndirect setDbIndirect .dbl :=
  ⟨fun listed member => own_listed listed member .dbl,⟨by simp,by simp⟩,fun _ _ => setDbIndirect_same,setDbIndirect_new,
    fun _ _ => ⟨⟨rfl,rfl,rfl,rfl,rfl,rfl,rfl,rfl⟩,rfl,rfl⟩⟩

-- Entry k of the pointer block, with the pointer block itself if there is none.
lemma sub_append {ptr : SfsInode → Nat} (hangs : Hangs ptr hang store via) (blocks : Blocks s flight) (listed : i ∈ s.inodeList)
    (inside : k < sfsBlkNentry) (free : s.own (i,spot) = 0) (far : spot ≠ via) (empty : entBlock s.dev (ptr (s.node i)) k = 0)
    (new : ptr (s.node i) = 0 → ∀ {e map b map'},Pair s ((s.take e map).take b map') flight e b → ∀ q,
      ((((s.take e map).take b map').point e k b).setNode i (hang e)).own q = if q = (i,spot) then b else if q = (i,via) then e else s.own q)
    (entry : ptr (s.node i) ≠ 0 → ∀ {b map},Taken s b map → ∀ q,((s.take b map).point (ptr (s.node i)) k b).own q = if q = (i,spot) then b else s.own q) :
    (s.super.unusedBlocks < (if ptr (s.node i) = 0 then 2 else 1) ∧ ∃ t,sfsBmapGetSubNolock (ptr (s.node i)) k true s = .err .eNoMem t ∧
      Blocks t flight ∧ Frame s t i ∧ Grows s t i ∧ t.node = s.node) ∨
    ∃ e b u t,sfsBmapGetSubNolock (ptr (s.node i)) k true s = .ok (e,b) u ∧ store i e u = .ok () t ∧ Laid s t flight i spot b ∧
      t.super.unusedBlocks + (if ptr (s.node i) = 0 then 2 else 1) = s.super.unusedBlocks := by
  have mine := hangs.spot listed (blocks.cached i listed)
  by_cases none : ptr (s.node i) = 0
  · rw [if_pos none,none]
    rcases getSub_create blocks.toGeometry blocks.super_used inside with
      ⟨full,bad⟩ | ⟨full,e,map,map',bad,taken,given⟩ | ⟨e,map,b,map',got,taken,taken'⟩
    · exact .inl ⟨by omega,s,bad,blocks,.refl s i,.refl s i,rfl⟩
    · obtain ⟨undone,grows⟩ := blocks.undo taken given
      exact .inl ⟨by omega,_,bad,undone,(Frame.take s e map i).trans (.give _ _ i),grows,rfl⟩
    have pair := blocks.pair taken taken'
    have own := new none pair
    obtain ⟨head,count,dirty⟩ := hangs.head (s.node i) e
    refine .inr ⟨e,b,_,_,got,hangs.new none pair.nonzero,⟨{pair.after with},
      pair.exact blocks free (mine.trans none) (by simpa using far) own (fun _ => .rfl),by rw [own,if_pos rfl],fun j x ne => ?_,pair.nonzero',
      ((Frame.take s e map i).trans (.take _ _ _ i)).trans ((Frame.point _ _ _ _ i).trans (.setNode _ i _ head)),
      pair.grows blocks free (mine.trans none) (fun idx h => hangs.pointer.2 idx h) own fun x ne => setDev_ne ne,?_,.inr ?_⟩,pair.count⟩
    · rw [own,if_neg ne,if_neg fun h => hangs.pointer.2 x (congrArg snd h).symm]
    · simpa [SfsFs.setNode,point,setBlock,take] using count
    simpa [SfsFs.setNode,point,setBlock,take] using dirty
  rw [if_neg none]
  have reach := mine ▸ blocks.own_reach (mine.symm ▸ none)
  rcases getSub_extend blocks.toGeometry blocks.super_used reach inside ((entBlock_read none inside).symm.trans empty) with ⟨_,bad⟩ | ⟨b,map,got,taken⟩
  · exact .inl ⟨by omega,s,bad,blocks,.refl s i,.refl s i,rfl⟩
  have has := taken.some blocks.toGeometry
  refine .inr ⟨_,b,_,_,got,hangs.same ((s.take b map).point (ptr (s.node i)) k b) i,.of_entry blocks taken mine hangs.pointer none free (entry none taken),?_⟩
  change s.super.unusedBlocks - 1 + 1 = _
  omega

lemma append_indirect (blocks : Blocks s flight) (listed : i ∈ s.inodeList) (above : ¬ idx < sfsNdirect)
    (low : idx - sfsNdirect < sfsBlkNentry) (free : s.own (i,.leaf idx) = 0) : Appends s flight i idx := by
  have member := blocks.cached i listed
  have index : sfsNdirect + (idx - sfsNdirect) = idx := by omega
  have empty : entBlock s.dev (s.node i).din.indirect (idx - sfsNdirect) = 0 := by
    rw [own_listed listed member] at free
    simpa only [spotBlock,leaf_indirect above low] using free
  have cost : appendCost s i idx = if (s.node i).din.indirect = 0 then 2 else 1 := by simp [appendCost,above,low]
  rw [Appends,cost]
  have subs := sub_append hangs_ind blocks listed low free (by simp) empty
    (fun none {e map b map'} pair q => by
      rw [own_indNew (s:=(s.take e map).take b map') listed member pair.nonzero none low pair.small pair.blank pair.unowned,index,pair.own])
    fun some {b map} taken q => by
      obtain ⟨new,_,_,_,eq⟩ := blocks.take taken
      have entered := own_indEntry new listed some low (taken_small blocks taken) q
      rwa [index,eq] at entered
  rcases subs with ⟨full,t,bad,new,frame,grows,nodes⟩ | ⟨e,b,u,t,got,set,placed,count⟩
  · refine .inl ⟨full,t,?_,new,frame,grows,by rw [nodes],.inl (by rw [nodes])⟩
    simp [sfsBmapGetNolock,above,low,bad]
  refine .inr ⟨b,t,?_,placed.appended,count⟩
  simp only [sfsBmapGetNolock,rules,above,dif_neg,low,got,set]
  exact bmapOut_run placed.geo placed.used placed.nonzero

lemma Frame.din_blocks (frame : Frame s t i) (self : ∀ j ∈ s.inodes,t.dev j = s.dev j)
    (count : (t.node i).din.blocks = (s.node i).din.blocks) (member : j ∈ s.inodes) : (t.din j).blocks = (s.din j).blocks := by
  by_cases listed : j ∈ s.inodeList
  · rw [din_listed listed,din_listed (s:=t) (frame.inodeList ▸ listed)]
    by_cases here : j = i
    · rw [here,count]
    rw [frame.others j here]
  have away : j ∉ t.inodeList := by rwa [frame.inodeList]
  simp [SfsFs.din,listed,away,self j member]

lemma Frame.fixed (frame : Frame s t i) (x : Nat) : t.fixed x ↔ s.fixed x := by
  simp only [SfsFs.fixed,sfsFreemapBlocks]
  rw [frame.super]

lemma Blocks.of_leaves (blocks : Blocks s flight) (geo : Geometry t) (exact : Exact t.own t.used (fun x => s.fixed x ∨ flight x))
    (frame : Frame s t i) (grows : Grows s t i) (leaves : ∀ j x,t.own (j,.leaf x) = s.own (j,.leaf x))
    (count : (t.node i).din.blocks = (s.node i).din.blocks) : Blocks t flight where
  toGeometry := geo
  exact := exact.congr (fun _ => rfl) (fun _ => .rfl) fun x => or_congr_left (frame.fixed x)
  mapped j member x := by
    have old : j ∈ s.inodes := frame.inodes ▸ member
    have leaf : leafBlock t.dev (t.din j) x = leafBlock s.dev (s.din j) x := by
      have := leaves j x
      rwa [own_inode member,own_inode old] at this
    rw [leaf,frame.din_blocks grows.self count old]
    exact blocks.mapped j old x
  cached j listed := frame.inodes ▸ blocks.cached j (frame.inodeList ▸ listed)
  nonzero j member := blocks.nonzero j (frame.inodes ▸ member)
  root := frame.inodes ▸ blocks.root

structure Ready (s t : SfsFs) (flight : Nat → Prop) (i j m : Nat) : Prop where
  blocks : Blocks t flight
  frame : Frame s t i
  grows : Grows s t i
  leaves : ∀ l x,t.own (l,.leaf x) = s.own (l,.leaf x)
  mid : entBlock t.dev (t.node i).din.dbIndirect j = m
  nonzero : m ≠ 0
  count : (t.node i).din.blocks = (s.node i).din.blocks
  marked : Marked (s.node i) (t.node i)

def midCost (s : SfsFs) (i j : Nat) : Nat :=
  if (s.node i).din.dbIndirect = 0 then 2 else if entBlock s.dev (s.node i).din.dbIndirect j = 0 then 1 else 0

lemma ready_mid (blocks : Blocks s flight) (listed : i ∈ s.inodeList) (inside : j < sfsBlkNentry) :
    (s.super.unusedBlocks < midCost s i j ∧ ∃ t,sfsBmapGetSubNolock (s.node i).din.dbIndirect j true s = .err .eNoMem t ∧
      Blocks t flight ∧ Frame s t i ∧ Grows s t i ∧ t.node = s.node) ∨
    ∃ e m u t,sfsBmapGetSubNolock (s.node i).din.dbIndirect j true s = .ok (e,m) u ∧ setDbIndirect i e u = .ok () t ∧
      Ready s t flight i j m ∧ t.super.unusedBlocks + midCost s i j = s.super.unusedBlocks := by
  have member := blocks.cached i listed
  have mine : s.own (i,.dbl) = (s.node i).din.dbIndirect := own_listed listed member .dbl
  by_cases empty : entBlock s.dev (s.node i).din.dbIndirect j = 0
  · have cost : midCost s i j = if (s.node i).din.dbIndirect = 0 then 2 else 1 := by simp [midCost,empty]
    have free : s.own (i,.mid j) = 0 := (own_listed listed member (.mid j)).trans empty
    rw [cost]
    have subs := sub_append hangs_dbl blocks listed inside free (by simp) empty
      (fun none {e map b map'} pair q => by
        rw [own_dblNew (s:=(s.take e map).take b map') listed member pair.nonzero none inside pair.small pair.blank pair.blank' pair.apart pair.unowned,pair.own])
      fun some {b map} taken q => by
        obtain ⟨new,_,pos,_,owners⟩ := blocks.take taken
        have unchanged : entBlock (s.take b map).dev (s.node i).din.dbIndirect j = 0 := by
          rw [entBlock_read some inside,take_dev_used taken (mine ▸ blocks.own_used (mine.symm ▸ some)),← entBlock_read some inside,empty]
        have entered := own_midEntry new listed some inside (taken_small blocks taken) unchanged (take_blank s b map)
          (new.unowned_of_flight (.inr rfl) pos) q
        rwa [owners] at entered
    rcases subs with bad | ⟨e,m,u,t,got,set,placed,count⟩
    · exact .inl bad
    have leaves (l x : Nat) := placed.leaves l x (by simp)
    have here := placed.here
    rw [own_listed (s:=t) (placed.frame.inodeList ▸ listed) (placed.frame.inodes ▸ member)] at here
    exact .inr ⟨e,m,u,t,got,set,⟨blocks.of_leaves placed.geo placed.exact placed.frame placed.grows leaves placed.blocks,
      placed.frame,placed.grows,leaves,here,placed.nonzero,placed.blocks,placed.marked⟩,count⟩
  have none : (s.node i).din.dbIndirect ≠ 0 := fun none => empty (by rw [none,entBlock_zero])
  have reach := mine ▸ blocks.own_reach (mine.symm ▸ none)
  have read : entBlock s.dev (s.node i).din.dbIndirect j = readEnt (s.dev (s.node i).din.dbIndirect) j := entBlock_read none inside
  have cost : midCost s i j = 0 := by simp [midCost,none,empty]
  rw [cost]
  exact .inr ⟨_,_,s,s,getSub_entry reach inside (.inl (read ▸ empty)),setDbIndirect_same,
    ⟨blocks,.refl s i,.refl s i,fun _ _ => rfl,read,read ▸ empty,rfl,.inl rfl⟩,by omega⟩

lemma Appended.of_ready (ready : Ready s t flight i j m) (ext : Appended t u flight i idx b) : Appended s u flight i idx b where
  geo := ext.geo
  exact := ext.exact.congr (fun _ => rfl) (fun _ => .rfl) fun x => or_congr_left (ready.frame.fixed x).symm
  here := ext.here
  leaves l x ne := (ext.leaves l x ne).trans (ready.leaves l x)
  nonzero := ext.nonzero
  frame := ready.frame.trans ext.frame
  grows := ready.grows.trans ext.grows ready.frame.inodes
  blocks := ext.blocks.trans ready.count

section
variable (blocks : Blocks s flight)
include blocks

lemma append_double (listed : i ∈ s.inodeList) (above : ¬ idx < sfsNdirect)
    (beyond : ¬ idx - sfsNdirect < sfsBlkNentry) (short : (idx - sfsNdirect - sfsBlkNentry) / sfsBlkNentry < sfsBlkNentry)
    (free : s.own (i,.leaf idx) = 0) : Appends s flight i idx := by
  let j := (idx - sfsNdirect - sfsBlkNentry) / sfsBlkNentry
  let k := (idx - sfsNdirect - sfsBlkNentry) % sfsBlkNentry
  have index : sfsNdirect + sfsBlkNentry + sfsBlkNentry * j + k = idx := by
    simp only [j,k,sfsNdirect,sfsBlkNentry] at *
    omega
  have cost : appendCost s i idx = midCost s i j + 1 := by
    simp only [appendCost,midCost,above,beyond,if_false]
    split
    · rfl
    split <;> rfl
  have low : k < sfsBlkNentry := Nat.mod_lt _ (by decide)
  have run : sfsBmapGetNolock i idx true s = (sfsBmapGetSubNolock (s.node i).din.dbIndirect j true s).next fun r =>
      setDbIndirect i r.1 >>= fun _ => if r.2 ≠ 0 then sfsBmapGetSubNolock r.2 k true >>= fun x => sfsBmapOut x.2 else sfsBmapOut r.2 := by
    simp only [sfsBmapGetNolock,rules,above,dif_neg,beyond]
    rfl
  rw [Appends,cost]
  rcases ready_mid (j:=j) blocks listed short with ⟨full,t,bad,new,frame,grows,nodes⟩ | ⟨e,m,u,t,got,set,ready,_⟩
  · refine .inl ⟨by omega,t,?_,new,frame,grows,by rw [nodes],.inl (by rw [nodes])⟩
    rw [run,bad,next_err]
  have listed' : i ∈ t.inodeList := ready.frame.inodeList ▸ listed
  have member' := ready.blocks.cached i listed'
  have mine : t.own (i,.mid j) = m := (own_listed listed' member' (.mid j)).trans ready.mid
  have vacant' : t.own (i,.leaf idx) = 0 := (ready.leaves i idx).trans free
  have empty : readEnt (t.dev m) k = 0 := by
    rw [own_listed listed' member'] at vacant'
    simp only [spotBlock,leaf_double above beyond] at vacant'
    rw [ready.mid] at vacant'
    rwa [entBlock_read ready.nonzero low] at vacant'
  have reach := mine ▸ ready.blocks.own_reach (mine.symm ▸ ready.nonzero)
  rcases getSub_extend ready.blocks.toGeometry ready.blocks.super_used reach low empty with ⟨_,bad⟩ | ⟨b,map,got',taken⟩
  · refine .inl ⟨by omega,t,?_,ready.blocks,ready.frame,ready.grows,ready.count,ready.marked⟩
    rw [run,got,next_ok,bind_run,set,next_ok,if_pos ready.nonzero,bind_run,bad,next_err]
  right
  obtain ⟨new,_,pos,_,eq⟩ := ready.blocks.take taken
  have steady : entBlock (t.take b map).dev (t.node i).din.dbIndirect j = m := by
    have := congrFun eq (i,.mid j)
    rw [mine,own_listed (s:=t.take b map) listed' member'] at this
    exact this
  have own q : ((t.take b map).point m k b).own q = if q = (i,.leaf idx) then b else t.own q := by
    have := own_midLeaf (s:=t.take b map) (j:=j) new listed' (by
      change entBlock (t.take b map).dev (t.node i).din.dbIndirect j ≠ 0
      rw [steady]
      exact ready.nonzero) low (taken_small ready.blocks taken) q
    change ((t.take b map).point (entBlock (t.take b map).dev (t.node i).din.dbIndirect j) k b).own q = _ at this
    rw [steady,index,eq] at this
    exact this
  have placed := Laid.of_entry ready.blocks taken mine ⟨by simp,by simp⟩ ready.nonzero vacant' own
  have has := taken.some ready.blocks.toGeometry
  refine ⟨b,_,?_,.of_ready ready placed.appended,?_⟩
  · rw [run,got,next_ok,bind_run,set,next_ok,if_pos ready.nonzero,bind_run,got',next_ok]
    exact bmapOut_run placed.geo placed.used pos
  change t.super.unusedBlocks - 1 + (midCost s i j + 1) = _
  omega

lemma Blocks.depth (member : i ∈ s.inodes) (cap : idx ≤ (s.din i).blocks) : (idx - sfsNdirect - sfsBlkNentry) / sfsBlkNentry < sfsBlkNentry := by
  have few := blocks.count_lt member
  have small := blocks.small
  simp only [sfsNdirect,sfsBlkNentry]
  omega

section
variable (listed : i ∈ s.inodeList)
include listed

lemma bmapGet_append : Appends s flight i (s.node i).din.blocks := by
  have member := blocks.cached i listed
  have din := din_listed listed
  have free : s.own (i,.leaf (s.node i).din.blocks) = 0 := by
    have := blocks.mapped i member (s.node i).din.blocks
    rw [din] at this
    rw [own_listed listed member]
    simpa [spotBlock] using this
  by_cases low : (s.node i).din.blocks < sfsNdirect
  · exact append_direct blocks listed low free
  by_cases mid : (s.node i).din.blocks - sfsNdirect < sfsBlkNentry
  · exact append_indirect blocks listed low mid free
  exact append_double blocks listed low mid (blocks.depth member (by rw [din])) free

lemma bmapGet_read (held : s.own (i,.leaf idx) ≠ 0) (short : (idx - sfsNdirect - sfsBlkNentry) / sfsBlkNentry < sfsBlkNentry) :
    sfsBmapGetNolock i idx false s = .ok (s.own (i,.leaf idx)) s := by
  have member := blocks.cached i listed
  have spots := own_listed listed member
  have out := bmapOut_run blocks.toGeometry (blocks.own_used held) held
  have leaf : s.own (i,.leaf idx) = leafBlock s.dev (s.node i).din idx := spots (.leaf idx)
  by_cases low : idx < sfsNdirect
  · rw [leaf,leaf_direct low] at out ⊢
    simp only [sfsBmapGetNolock,rules,low,dif_pos,and_false]
    exact out
  by_cases mid : idx - sfsNdirect < sfsBlkNentry
  · have mine : s.own (i,.ind) = (s.node i).din.indirect := spots .ind
    rw [leaf,leaf_indirect low mid] at out held ⊢
    have has : (s.node i).din.indirect ≠ 0 := by
      intro none
      rw [none,entBlock_zero] at held
      exact held rfl
    have reach := mine ▸ blocks.own_reach (mine.symm ▸ has)
    have got : sfsBmapGetSubNolock (s.node i).din.indirect (idx - sfsNdirect) false s = _ := getSub_entry reach mid (.inr rfl)
    rw [entBlock_read has mid] at out ⊢
    simp only [sfsBmapGetNolock,rules,low,dif_neg,mid,got,setIndirect_same]
    exact out
  have mine : s.own (i,.dbl) = (s.node i).din.dbIndirect := spots .dbl
  rw [leaf,leaf_double low mid] at out held ⊢
  have slot := Nat.mod_lt (idx - sfsNdirect - sfsBlkNentry) (show 0 < sfsBlkNentry by decide)
  have some' : entBlock s.dev (s.node i).din.dbIndirect ((idx - sfsNdirect - sfsBlkNentry) / sfsBlkNentry) ≠ 0 := by
    intro none
    rw [none,entBlock_zero] at held
    exact held rfl
  have has : (s.node i).din.dbIndirect ≠ 0 := by
    intro none
    rw [none,entBlock_zero] at some'
    exact some' rfl
  have own : s.own (i,.mid ((idx - sfsNdirect - sfsBlkNentry) / sfsBlkNentry)) =
      entBlock s.dev (s.node i).din.dbIndirect ((idx - sfsNdirect - sfsBlkNentry) / sfsBlkNentry) := spots (.mid _)
  have reach := mine ▸ blocks.own_reach (mine.symm ▸ has)
  have reach' := own ▸ blocks.own_reach (own.symm ▸ some')
  have got : sfsBmapGetSubNolock (s.node i).din.dbIndirect ((idx - sfsNdirect - sfsBlkNentry) / sfsBlkNentry) false s = _ := getSub_entry reach short (.inr rfl)
  have got' : sfsBmapGetSubNolock _ ((idx - sfsNdirect - sfsBlkNentry) % sfsBlkNentry) false s = _ := getSub_entry reach' slot (.inr rfl)
  rw [entBlock_read some' slot] at out ⊢
  rw [← entBlock_read has short] at got
  simp only [sfsBmapGetNolock,rules,low,dif_neg,mid,got,setDbIndirect_same,some',ne_eq,got']
  exact out

lemma Blocks.leaf_held (cap : idx < (s.node i).din.blocks) : s.own (i,.leaf idx) ≠ 0 := by
  have member := blocks.cached i listed
  rw [own_inode member]
  exact (blocks.mapped i member idx).mpr (by rwa [din_listed listed])

lemma bmapLoad_old (cap : idx < (s.node i).din.blocks) : sfsBmapLoadNolock i idx s = .ok (s.own (i,.leaf idx)) s := by
  have held := blocks.leaf_held listed cap
  have below : idx ≤ (s.din i).blocks := by rw [din_listed listed]; omega
  have short := blocks.depth (blocks.cached i listed) below
  have ne : ¬ idx = (s.node i).din.blocks := by omega
  have le : idx ≤ (s.node i).din.blocks := by omega
  simp [sfsBmapLoadNolock,le,ne,bmapGet_read blocks listed held short,blockInuse_used blocks.toGeometry (blocks.own_used held) held]

end

end

structure Extended (s t : SfsFs) (flight : Nat → Prop) (i b : Nat) : Prop where
  blocks : Blocks t flight
  here : t.own (i,.leaf (s.node i).din.blocks) = b
  nonzero : b ≠ 0
  frame : Frame s t i
  grows : Grows s t i
  count : (t.node i).din.blocks = (s.node i).din.blocks + 1

def addBlock (n : SfsInode) : SfsInode := {n with din:={n.din with blocks:=(n.din.blocks + 1) % 2^32}}

def SameMap (d e : DiskInode) : Prop := e.direct = d.direct ∧ e.indirect = d.indirect ∧ e.dbIndirect = d.dbIndirect

lemma SameMap.spot (eq : SameMap d e) (dev : Nat → Buf) (ino : Nat) (spot : Spot) : spotBlock dev e ino spot = spotBlock dev d ino spot := by
  obtain ⟨direct,indirect,double⟩ := eq
  cases spot <;> simp [spotBlock,leafBlock,direct,indirect,double]

lemma own_sameMap (listed : i ∈ s.inodeList) (eq : SameMap (s.node i).din (f (s.node i)).din) : (s.setNode i f).own = s.own := by
  funext ⟨j,spot⟩
  by_cases here : j = i
  · subst here
    by_cases member : j ∈ s.inodes
    · rw [own_setNode listed member,own_listed listed member,eq.spot]
    rw [own_none (s:=s.setNode j f) member,own_none member]
  exact own_setNode_ne here spot

lemma Appended.extend (ext : Appended s t flight i (s.node i).din.blocks b) (blocks : Blocks s flight)
    (listed : i ∈ s.inodeList) : Extended s (t.setNode i addBlock) flight i b := by
  have member := blocks.cached i listed
  have listed' : i ∈ t.inodeList := ext.frame.inodeList ▸ listed
  have member' : i ∈ t.inodes := ext.frame.inodes ▸ member
  have owners : (t.setNode i addBlock).own = t.own := own_sameMap listed' ⟨rfl,rfl,rfl⟩
  have count : (addBlock (t.node i)).din.blocks = (s.node i).din.blocks + 1 := by
    have few := blocks.count_lt member
    have small := blocks.small
    rw [din_listed listed] at few
    simp only [addBlock,ext.blocks]
    omega
  have frame : Frame s (t.setNode i addBlock) i := ext.frame.trans (.setNode _ i _ ⟨rfl,rfl,rfl,rfl,rfl,rfl,rfl,rfl⟩)
  have grows : Grows s (t.setNode i addBlock) i :=
    ⟨fun p held => by rw [owners]; exact ext.grows.kept p held,ext.grows.self,ext.grows.data,
      fun j idx none has => by rw [owners] at has ⊢; exact ext.grows.fresh j idx none has,
      fun j ne spot => by rw [owners]; exact ext.grows.others j ne spot⟩
  refine ⟨⟨{ext.geo with},?_,fun j inode idx => ?_,?_,?_,?_⟩,by rw [owners]; exact ext.here,ext.nonzero,frame,grows,
    by simpa [SfsFs.setNode] using count⟩
  · exact ext.exact.congr (fun q => by rw [owners]) (fun _ => .rfl) fun x => or_congr_left (frame.fixed x)
  · have old : j ∈ s.inodes := frame.inodes ▸ inode
    have leaf := congrFun owners (j,.leaf idx)
    rw [own_inode (s:=t.setNode i addBlock) inode] at leaf
    change leafBlock _ _ idx = _ at leaf
    rw [leaf]
    by_cases here : j = i
    · subst here
      rw [din_setNode listed',count]
      by_cases last : idx = (s.node j).din.blocks
      · rw [last,ext.here]
        exact ⟨fun _ => by omega,fun _ => ext.nonzero⟩
      have old' := blocks.mapped j old idx
      rw [ext.leaves j idx (by simpa using last),own_inode old]
      change leafBlock _ _ idx ≠ 0 ↔ _
      rw [old',din_listed listed]
      omega
    rw [ext.leaves j idx (by simp [here]),own_inode old,din_setNode_ne here]
    change leafBlock _ _ idx ≠ 0 ↔ _
    rw [blocks.mapped j old idx]
    have eq : (t.din j).blocks = (s.din j).blocks := ext.frame.din_blocks ext.grows.self ext.blocks old
    rw [eq]
  · intro j inList
    exact frame.inodes ▸ blocks.cached j (frame.inodeList ▸ inList)
  · intro j inode
    exact blocks.nonzero j (frame.inodes ▸ inode)
  · exact frame.inodes ▸ blocks.root

lemma bmapLoad_new (blocks : Blocks s flight) (listed : i ∈ s.inodeList) : (s.super.unusedBlocks < appendCost s i (s.node i).din.blocks ∧
      ∃ t,sfsBmapLoadNolock i (s.node i).din.blocks s = .err .eNoMem t ∧ Blocks t flight ∧ Frame s t i ∧ Grows s t i ∧
        (t.node i).din.blocks = (s.node i).din.blocks ∧ Marked (s.node i) (t.node i)) ∨
    ∃ b t,sfsBmapLoadNolock i (s.node i).din.blocks s = .ok b t ∧ Extended s t flight i b ∧
      t.super.unusedBlocks + appendCost s i (s.node i).din.blocks = s.super.unusedBlocks := by
  rcases bmapGet_append blocks listed with ⟨full,t,bad,rest⟩ | ⟨b,t,got,ext,cost⟩
  · refine .inl ⟨full,t,?_,rest⟩
    simp [sfsBmapLoadNolock,bad]
  have used := ext.exact.owned (ext.here.symm ▸ ext.nonzero)
  rw [ext.here] at used
  refine .inr ⟨b,t.setNode i addBlock,?_,ext.extend blocks listed,cost⟩
  simp only [sfsBmapLoadNolock,rules,le_refl,got,blockInuse_used ext.geo used ext.nonzero,when_true]
  rfl

lemma freeSub_run (geo : Geometry s) (used : s.used ent) (pos : ent ≠ 0) (inside : k < sfsBlkNentry)
    (has : readEnt (s.dev ent) k ≠ 0) (inuse : s.used (readEnt (s.dev ent) k)) :
    ∃ map,sfsBmapFreeSubNolock ent k s = .ok () ((s.point ent k 0).give map) ∧ Given (s.point ent k 0) (readEnt (s.dev ent) k) map := by
  obtain ⟨low,fits⟩ := entry_fits inside
  have reach := geo.reach used pos
  have geo' : Geometry (s.point ent k 0) := {geo with}
  obtain ⟨map,freed,given⟩ := blockFree_run (s:=s.point ent k 0) geo' inuse has
  refine ⟨map,?_,given⟩
  simp [sfsBmapFreeSubNolock,blockInuse_used geo used pos,inside,rbuf_run reach low fits,entry_word,has,point_run reach inside,freed]

lemma freeSub_none (geo : Geometry s) (used : s.used ent) (pos : ent ≠ 0) (inside : k < sfsBlkNentry)
    (none : readEnt (s.dev ent) k = 0) : sfsBmapFreeSubNolock ent k s = .ok () s := by
  obtain ⟨low,fits⟩ := entry_fits inside
  simp [sfsBmapFreeSubNolock,blockInuse_used geo used pos,inside,rbuf_run (geo.reach used pos) low fits,entry_word,none]

structure Detached (s t : SfsFs) (i idx : Nat) : Prop where
  geo : Geometry t
  own : ∀ q,t.own q = if q = (i,.leaf idx) then 0 else s.own q
  used : ∀ x,t.used x ↔ s.used x ∧ x ≠ s.own (i,.leaf idx)
  frame : Frame s t i
  dev : ∀ x,t.dev x ≠ s.dev x → ∃ sp,s.own (i,sp) = x ∧ Pointer sp
  count : (t.node i).din.blocks = (s.node i).din.blocks

lemma Detached.of_entry (geo : Geometry s) (mine : s.own (i,sp) = e) (pointer : Pointer sp)
    (own : ∀ q,(s.point e k 0).own q = if q = (i,.leaf idx) then 0 else s.own q)
    (inuse : s.used (s.own (i,.leaf idx))) (given : Given (s.point e k 0) (s.own (i,.leaf idx)) map) :
    Detached s ((s.point e k 0).give map) i idx where
  geo := given.geometry {geo with} inuse
  own := own
  used := give_used given
  frame := (Frame.point s _ _ _ i).trans (.give _ _ i)
  dev x differs := by
    by_cases here : x = e
    · exact ⟨sp,here ▸ mine,pointer⟩
    exact absurd (setDev_ne here) differs
  count := rfl

lemma bmapFree_run (blocks : Blocks s flight) (listed : i ∈ s.inodeList) (held : s.own (i,.leaf idx) ≠ 0)
    (short : (idx - sfsNdirect - sfsBlkNentry) / sfsBlkNentry < sfsBlkNentry) :
    ∃ t,sfsBmapFreeNolock i idx s = .ok () t ∧ Detached s t i idx := by
  have member := blocks.cached i listed
  have spots := own_listed listed member
  have inuse := blocks.own_used held
  have leaf : s.own (i,.leaf idx) = leafBlock s.dev (s.node i).din idx := spots (.leaf idx)
  by_cases low : idx < sfsNdirect
  · have direct : s.own (i,.leaf idx) = (s.node i).din.direct ⟨idx,low⟩ := leaf.trans (leaf_direct low)
    obtain ⟨map,freed,given⟩ := blockFree_run blocks.toGeometry inuse held
    refine ⟨(s.give map).setNode i (putDirect ⟨idx,low⟩ 0),?_,⟨?_,?_,give_used given,?_,?_,?_⟩⟩
    · rw [direct] at freed held
      simp only [sfsBmapFreeNolock,rules,low,dif_pos,ne_eq,held,when_true,freed,setDirect]
      rfl
    · have geo := given.geometry blocks.toGeometry inuse
      exact {geo with}
    · exact own_putDirect (s:=s.give map) listed member ⟨idx,low⟩
    · exact (Frame.give s map i).trans (.setNode _ i _ ⟨rfl,rfl,rfl,rfl,rfl,rfl,rfl,rfl⟩)
    · exact fun x differs => absurd rfl differs
    simp [SfsFs.setNode,putDirect,give]
  by_cases mid : idx - sfsNdirect < sfsBlkNentry
  · have mine : s.own (i,.ind) = (s.node i).din.indirect := spots .ind
    rw [leaf_indirect low mid] at leaf
    have has : (s.node i).din.indirect ≠ 0 := by
      intro none
      rw [leaf,none,entBlock_zero] at held
      exact held rfl
    rw [entBlock_read has mid] at leaf
    have used := mine ▸ blocks.own_used (mine.symm ▸ has)
    obtain ⟨map,freed,given⟩ := freeSub_run blocks.toGeometry used has mid (leaf ▸ held) (leaf ▸ inuse)
    rw [← leaf] at given
    refine ⟨_,?_,.of_entry blocks.toGeometry mine ⟨by simp,by simp⟩ ?_ inuse given⟩
    · simp [sfsBmapFreeNolock,low,mid,has,freed]
    intro q
    rw [own_indEntry blocks listed has mid (by decide),show sfsNdirect + (idx - sfsNdirect) = idx by omega]
  have mine : s.own (i,.dbl) = (s.node i).din.dbIndirect := spots .dbl
  let j := (idx - sfsNdirect - sfsBlkNentry) / sfsBlkNentry
  let k := (idx - sfsNdirect - sfsBlkNentry) % sfsBlkNentry
  have index : sfsNdirect + sfsBlkNentry + sfsBlkNentry * j + k = idx := by
    simp only [j,k,sfsNdirect,sfsBlkNentry] at *
    omega
  have slot : k < sfsBlkNentry := Nat.mod_lt _ (by decide)
  have run : sfsBmapFreeNolock i idx s = when ((s.node i).din.dbIndirect ≠ 0) (sfsBmapGetSubNolock (s.node i).din.dbIndirect j false >>=
      fun r => when (r.2 ≠ 0) (sfsBmapFreeSubNolock r.2 k)) s := by
    simp only [sfsBmapFreeNolock,rules,low,dif_neg,mid]
    rfl
  rw [leaf_double low mid] at leaf
  change s.own (i,.leaf idx) = entBlock s.dev (entBlock s.dev (s.node i).din.dbIndirect j) k at leaf
  have some' : entBlock s.dev (s.node i).din.dbIndirect j ≠ 0 := by
    intro none
    rw [leaf,none,entBlock_zero] at held
    exact held rfl
  have has : (s.node i).din.dbIndirect ≠ 0 := by
    intro none
    rw [none,entBlock_zero] at some'
    exact some' rfl
  have own : s.own (i,.mid j) = entBlock s.dev (s.node i).din.dbIndirect j := spots (.mid j)
  have reach := mine ▸ blocks.own_reach (mine.symm ▸ has)
  have used := own ▸ blocks.own_used (own.symm ▸ some')
  have got : sfsBmapGetSubNolock (s.node i).din.dbIndirect j false s = _ := getSub_entry reach short (.inr rfl)
  rw [← entBlock_read has short] at got
  rw [entBlock_read some' slot] at leaf
  obtain ⟨_,freed,given⟩ := freeSub_run blocks.toGeometry used some' slot (leaf ▸ held) (leaf ▸ inuse)
  rw [← leaf] at given
  refine ⟨_,?_,.of_entry blocks.toGeometry own ⟨by simp,by simp⟩ ?_ inuse given⟩
  · simp only [run,ne_eq,has,rules,when_true,got]
    change when (entBlock s.dev (s.node i).din.dbIndirect j ≠ 0) (sfsBmapFreeSubNolock (entBlock s.dev (s.node i).din.dbIndirect j) k) s = _
    simp [some',freed]
  intro q
  rw [own_midLeaf blocks listed some' slot (by decide),index]

def dropBlock (n : SfsInode) : SfsInode := {n with din:={n.din with blocks:=n.din.blocks - 1},dirty:=true}

structure Shrunk (s t : SfsFs) (flight : Nat → Prop) (i : Nat) : Prop where
  blocks : Blocks t flight
  frame : Frame s t i
  own : ∀ q,t.own q = if q = (i,.leaf ((s.node i).din.blocks - 1)) then 0 else s.own q
  dev : ∀ x,t.dev x ≠ s.dev x → ∃ sp,s.own (i,sp) = x ∧ Pointer sp
  count : (t.node i).din.blocks = (s.node i).din.blocks - 1

lemma pointer_not_self (blocks : Blocks s flight) (dev : ∀ x,t.dev x ≠ s.dev x → ∃ sp,s.own (i,sp) = x ∧ Pointer sp)
    (member : j ∈ s.inodes) : t.dev j = s.dev j := by
  by_contra differs
  obtain ⟨sp,equal,notSelf,_⟩ := dev j differs
  have held : s.own (j,.self) = j := own_inode member .self
  have eq := blocks.exact.single (j,.self) (i,sp) (held.symm ▸ blocks.nonzero j member) (held.trans equal.symm)
  exact notSelf (congrArg snd eq).symm

lemma Detached.shrink (detached : Detached s t i ((s.node i).din.blocks - 1)) (blocks : Blocks s flight) (listed : i ∈ s.inodeList)
    (has : (s.node i).din.blocks ≠ 0) : Shrunk s (t.setNode i dropBlock) flight i := by
  have listed' : i ∈ t.inodeList := detached.frame.inodeList ▸ listed
  have owners : (t.setNode i dropBlock).own = t.own := own_sameMap listed' ⟨rfl,rfl,rfl⟩
  have frame : Frame s (t.setNode i dropBlock) i := detached.frame.trans (.setNode _ i _ ⟨rfl,rfl,rfl,rfl,rfl,rfl,rfl,rfl⟩)
  have count : (dropBlock (t.node i)).din.blocks = (s.node i).din.blocks - 1 := by simp [dropBlock,detached.count]
  have self : ∀ j ∈ s.inodes,t.dev j = s.dev j := fun j member => pointer_not_self blocks detached.dev member
  have held : s.own (i,.leaf ((s.node i).din.blocks - 1)) ≠ 0 := blocks.leaf_held listed (by omega)
  refine ⟨⟨{detached.geo with},?_,fun j inode idx => ?_,fun j inList => ?_,fun j inode => ?_,?_⟩,frame,fun q => by rw [owners,detached.own],
    detached.dev,by simpa [SfsFs.setNode] using count⟩
  · exact (blocks.exact.clear held).congr (fun q => by rw [owners,detached.own]) detached.used fun x => or_congr_left (frame.fixed x)
  · have old : j ∈ s.inodes := frame.inodes ▸ inode
    have leaf := congrFun owners (j,.leaf idx)
    rw [own_inode (s:=t.setNode i dropBlock) inode,detached.own] at leaf
    change leafBlock _ _ idx = _ at leaf
    rw [leaf]
    have pre := blocks.mapped j old idx
    change spotBlock s.dev (s.din j) j (.leaf idx) ≠ 0 ↔ _ at pre
    rw [← own_inode old] at pre
    by_cases here : j = i
    · subst here
      rw [din_setNode listed',count]
      rw [din_listed listed] at pre
      by_cases last : idx = (s.node j).din.blocks - 1
      · simp [last]
      rw [if_neg (by simpa using last),pre]
      omega
    rw [if_neg (by simp [here]),pre,din_setNode_ne here,detached.frame.din_blocks self detached.count old]
  · exact frame.inodes ▸ blocks.cached j (frame.inodeList ▸ inList)
  · exact blocks.nonzero j (frame.inodes ▸ inode)
  · exact frame.inodes ▸ blocks.root

lemma bmapTruncate_run (blocks : Blocks s flight) (listed : i ∈ s.inodeList) (has : (s.node i).din.blocks ≠ 0) :
    ∃ t,sfsBmapTruncateNolock i s = .ok () t ∧ Shrunk s t flight i := by
  have held : s.own (i,.leaf ((s.node i).din.blocks - 1)) ≠ 0 := blocks.leaf_held listed (by omega)
  have below : (s.node i).din.blocks - 1 ≤ (s.din i).blocks := by rw [din_listed listed]; omega
  obtain ⟨t,freed,detached⟩ := bmapFree_run blocks listed held (blocks.depth (blocks.cached i listed) below)
  refine ⟨t.setNode i dropBlock,?_,detached.shrink blocks listed has⟩
  simp only [sfsBmapTruncateNolock,rules,ne_eq,has,freed]
  rfl

end Ucore.Sfs
