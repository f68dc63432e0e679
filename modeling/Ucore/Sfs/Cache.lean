import Ucore.Sfs.View

-- The inode cache: loading, creating, writing back and letting go of an inode.
namespace Ucore.Sfs
open Bytes Outcomes Ownership
open Bool (true_eq_false)
open List (mem_cons mem_cons_of_mem mem_cons_self)
open SfsFs (asked setNode take)
variable {s : SfsFs} {stale : Nat → Prop} {i : Nat}

lemma held_setNode (tidy : Tidy s) (listed : i ∈ s.inodeList) (held : Held (f (s.node i))) (din : (f (s.node i)).din = (s.node i).din)
    (dirty : (f (s.node i)).dirty = (s.node i).dirty) (item : ∀ slot,(f (s.node i)).item slot = g ((s.node i).item slot)) :
    Went s (s.setNode i f) (s.ns.alter i g) ∧ Still s (s.setNode i f) := by
  have fine := tidy.fine i (tidy.blocks.cached i listed)
  have map : SameMap (s.node i).din (f (s.node i)).din := by
    rw [din]
    exact ⟨rfl,rfl,rfl⟩
  have sized := fine.sized
  rw [din_listed listed] at sized
  refine ⟨⟨?_,ns_setNode listed map (by rw [din]) item,kept_setNode listed map (by rw [din]) fun _ => by rw [din]⟩,⟨own_sameMap listed map,rfl,rfl⟩⟩
  refine Sound.setNode tidy listed map (by rw [din]) held (by rw [din]; exact tidy.fits listed) (by rw [din]; exact sized)
    (fun _ _ h => h) fun new clean has => ?_
  rw [dirty] at clean
  rw [din] at has ⊢
  exact fine.clean listed new clean has

def refUp (n : SfsInode) : SfsInode := {n with refCount:=n.refCount + 1}

lemma refInc_went (tidy : Tidy s) (listed : i ∈ s.inodeList) : Went s (s.setNode i refUp) (s.ns.alter i Item.incRefs) ∧ Still s (s.setNode i refUp) := by
  have held := tidy.held listed
  exact held_setNode tidy listed ⟨Nat.succ_pos _,held.reclaim,Nat.le_succ_of_le held.opens,held.kind⟩ rfl rfl fun _ => rfl

lemma load_cached (tidy : Tidy s) (listed : i ∈ s.inodeList) : sfsLoadInode i s = .ok i (s.setNode i refUp) := by
  have has : ¬ (s.node i).refCount = 0 := Nat.pos_iff_ne_zero.mp (tidy.held listed).refs
  simp only [sfsLoadInode,lookupSfsNolock,rules,ite_run,listed,vopRefInc,has,decide_false,when_false]
  rfl

def fresh (din : DiskInode) : SfsInode := ⟨din,false,false,1,1,0⟩

def SfsFs.enlist (s : SfsFs) (i : Nat) (din : DiskInode) : SfsFs := {s.setNode i (fun _ => fresh din) with inodeList:=i :: s.inodeList}

def Known (type : Nat) : Prop := type = sfsTypeDir ∨ type = sfsTypeFile

lemma createInode_run (mem : s.heap s.tick = true) (seen : Known din.type) : sfsCreateInode din i s = .ok () (s.asked.setNode i fun _ => fresh din) := by
  have ok : (decide (din.type = sfsTypeDir) || decide (din.type = sfsTypeFile)) = true := by rcases seen with h | h <;> simp [h]
  simp only [sfsCreateInode,kmalloc,rules,mem,true_eq_false,sfsGetOps,ok]
  rfl

lemma createInode_nomem (full : s.heap s.tick = false) : sfsCreateInode din i s = .err .eNoMem s.asked := by simp [sfsCreateInode,kmalloc,full,asked]

lemma createInode_unknown (mem : s.heap s.tick = true) (unknown : ¬ Known din.type) : sfsCreateInode din i s = .fault .invalidType := by
  have bad : (decide (din.type = sfsTypeDir) || decide (din.type = sfsTypeFile)) = false := by simpa [Known] using unknown
  simp only [sfsCreateInode,kmalloc,bind_run,next_ok,mem,true_eq_false,if_false,sfsGetOps,check_run,bad]
  rfl

lemma load_read (sound : Sound s stale) (member : i ∈ s.inodes) (away : i ∉ s.inodeList) (mem : s.heap s.tick = true) :
    sfsLoadInode i s = (sfsCreateInode (readInode (s.dev i)) i s.asked).next fun _ => sfsSetLinks i >>= fun _ => pure i := by
  have pos := sound.blocks.nonzero i member
  have mine : s.own (i,.self) = i := own_inode member .self
  have held : s.own (i,.self) ≠ 0 := mine.symm ▸ pos
  have used := mine ▸ sound.blocks.own_used held
  have reach := mine ▸ sound.blocks.own_reach held
  have links := (sound.fine i member).linked away
  simp only [SfsFs.din,away,if_false] at links
  have inuse : sfsBlockInuse i s.asked = .ok true s.asked := blockInuse_used (s:=s.asked) sound.blocks.asked.toGeometry used pos
  have read : sfsRbuf diskInodeSize i 0 s.asked = .ok (fun k => s.dev i (0 + k)) s.asked := rbuf_run (s:=s.asked) {reach with} (by decide) (by decide)
  simp only [sfsLoadInode,lookupSfsNolock,rules,ite_run,away,kmalloc,mem,true_eq_false]
  change ((sfsBlockInuse i s.asked).next _) = _
  rw [inuse]
  simp only [rules]
  rw [read]
  simp [links]

lemma load_nomem (away : i ∉ s.inodeList) (full : s.heap s.tick = false) : sfsLoadInode i s = .err .eNoMem s.asked := by
  simp [sfsLoadInode,lookupSfsNolock,away,kmalloc,full,asked]

lemma din_enlist (away : i ∉ s.inodeList) (j : Nat) : (s.enlist i (readInode (s.dev i))).din j = s.din j := by
  by_cases here : j = i
  · subst here
    simp [SfsFs.din,SfsFs.enlist,setNode,away,fresh]
  simp [SfsFs.din,SfsFs.enlist,setNode,here]

lemma own_enlist (away : i ∉ s.inodeList) : (s.enlist i (readInode (s.dev i))).own = s.own := by
  funext ⟨j,spot⟩
  simp only [SfsFs.own,din_enlist away]
  rfl

lemma enlist_went (tidy : Tidy s) (mem : i ∈ s.inodes) (away : i ∉ s.inodeList) (seen : Known (readInode (s.dev i)).type) :
    Went s (s.enlist i (readInode (s.dev i))) (s.ns.alter i Item.incRefs) ∧ Still s (s.enlist i (readInode (s.dev i))) := by
  have own := own_enlist away
  have din := din_enlist away
  have node : (s.enlist i (readInode (s.dev i))).node i = fresh (readInode (s.dev i)) := by simp [SfsFs.enlist,setNode]
  have far : Apart s (s.enlist i (readInode (s.dev i))) i :=
    ⟨fun _ _ => .rfl,fun j ne => by simp [SfsFs.enlist,ne],fun j ne => by simp [SfsFs.enlist,setNode,ne],
      fun j _ spot => congrFun own (j,spot),fun _ _ _ => rfl,fun _ _ _ _ => rfl⟩
  have blocks : Blocks (s.enlist i (readInode (s.dev i))) (fun _ => False) := by
    refine ⟨{tidy.blocks with},tidy.blocks.exact.congr (congrFun own) (fun _ => .rfl) (fun _ => .rfl),fun j inode idx => ?_,fun j listed => ?_,
      tidy.blocks.nonzero,tidy.blocks.root⟩
    · rw [din]
      exact tidy.blocks.mapped j inode idx
    rcases mem_cons.mp listed with rfl | old
    · exact mem
    exact tidy.blocks.cached j old
  have fine := tidy.fine i mem
  refine ⟨⟨Sound.next tidy far blocks (fun _ _ h => h) fun _ => ?_,?_,?_⟩,⟨own,rfl,rfl⟩⟩
  · refine ⟨by rw [din]; exact fine.fits,by rw [din]; exact fine.sized,fun out => absurd (mem_cons_self) out,fun _ => ?_,fun _ _ _ _ => ?_⟩
    · rw [node]
      exact ⟨Nat.one_pos,rfl,Nat.zero_le _,seen⟩
    rw [node]
    rfl
  · refine far.alter .rfl fun _ => ?_
    have slot : (s.enlist i (readInode (s.dev i))).slot i = s.slot i := by
      funext k
      simp only [SfsFs.slot,own,din]
      rfl
    simp only [SfsFs.item,Item.incRefs,din,slot,node]
    simp [SfsFs.enlist,away,fresh]
  exact far.kept rfl (fun _ _ => by rw [din]) (fun _ _ _ => by rw [own]) (fun _ _ _ => by rw [din]) fun _ _ _ _ => rfl

def LoadFails (s : SfsFs) (i : Nat) : Prop := i ∉ s.inodeList ∧ (s.heap s.tick = false ∨ s.heap (s.tick + 1) = false)
def loadTicks (s : SfsFs) (i : Nat) : Nat := if i ∈ s.inodeList then 0 else 2

structure Loaded (s t : SfsFs) (i : Nat) : Prop where
  went : Went s t (s.ns.alter i Item.incRefs)
  own : t.own = s.own
  super : t.super = s.super
  tick : t.tick = s.tick + loadTicks s i

def Loads (s : SfsFs) (i type : Nat) : Prop :=
  (LoadFails s i ∧ ∃ t,sfsLoadInode i s = .err .eNoMem t ∧ Went s t s.ns) ∨
  (¬ LoadFails s i ∧ ¬ Known type ∧ sfsLoadInode i s = .fault .invalidType) ∨
  (¬ LoadFails s i ∧ Known type ∧ ∃ t,sfsLoadInode i s = .ok i t ∧ Loaded s t i)

lemma load_run (tidy : Tidy s) (mem : i ∈ s.inodes) : Loads s i (s.din i).type := by
  by_cases listed : i ∈ s.inodeList
  · obtain ⟨went,still⟩ := refInc_went tidy listed
    refine .inr (.inr ⟨fun fails => fails.1 listed,?_,_,load_cached tidy listed,went,still.own,still.super,?_⟩)
    · rw [din_listed listed]
      exact (tidy.held listed).kind
    rw [still.tick,loadTicks,if_pos listed]
    rfl
  have din : s.din i = readInode (s.dev i) := by simp [SfsFs.din,listed]
  cases first : s.heap s.tick with
  | false => exact .inl ⟨⟨listed,.inl first⟩,_,load_nomem listed first,.asked tidy⟩
  | true =>
    have read := load_read tidy mem listed first
    cases two : s.heap (s.tick + 1) with
    | false =>
      refine .inl ⟨⟨listed,.inr two⟩,s.asked.asked,?_,(Went.asked tidy).trans (.asked (Sound.asked tidy)) fun _ h => h⟩
      rw [read,createInode_nomem (s:=s.asked) two,next_err]
    | true =>
      have works : ¬ LoadFails s i := by
        rintro ⟨_,none | none⟩
        · rw [first] at none
          cases none
        rw [two] at none
        cases none
      by_cases seen : Known (s.din i).type
      · rw [din] at seen
        have tidy' : Tidy s.asked.asked := Sound.asked (Sound.asked tidy)
        obtain ⟨went,still⟩ := enlist_went (s:=s.asked.asked) tidy' mem listed seen
        refine .inr (.inr ⟨works,din ▸ seen,s.asked.asked.enlist i (readInode (s.dev i)),?_,?_,still.own,still.super,?_⟩)
        · rw [read,createInode_run (s:=s.asked) two seen]
          rfl
        · exact ((Went.asked tidy).trans (.asked (Sound.asked tidy)) fun _ h => h).trans went fun _ h => h
        rw [loadTicks,if_neg listed]
        rfl
      refine .inr (.inl ⟨works,seen,?_⟩)
      rw [din] at seen
      rw [read,createInode_unknown (s:=s.asked) two seen,next_fault]

section Flush
variable {flight : Nat → Prop}

section
variable (blocks : Blocks s flight) (listed : i ∈ s.inodeList)
include blocks listed

lemma apart_setSelf (x : Buf) : Apart s (s.setBlock i x) i where
  inodes _ _ := .rfl
  inodeList _ _ := .rfl
  node _ _ := rfl
  own j _ spot := congrFun (own_setBlock (blocks.plain_of_self listed)) (j,spot)
  self _ _ ne := setDev_ne ne
  leaf j ne k held := by
    refine setDev_ne fun equal => ?_
    have mine : s.own (i,.self) = i := own_inode (blocks.cached i listed) .self
    have eq := blocks.exact.single _ _ held (equal.trans mine.symm)
    exact ne (congrArg Prod.fst eq)

lemma self_ne_leaf (held : s.own (j,.leaf k) ≠ 0) : s.own (j,.leaf k) ≠ i := by
  intro equal
  have mine : s.own (i,.self) = i := own_inode (blocks.cached i listed) .self
  have eq := blocks.exact.single _ _ held (equal.trans mine.symm)
  cases eq

lemma ns_setSelf (x : Buf) : (s.setBlock i x).ns = s.ns := by
  have plain := blocks.plain_of_self listed
  refine (apart_setSelf blocks listed x).unchanged .rfl fun mem => ?_
  have din := din_setBlock (x:=x) plain mem
  have slot : (s.setBlock i x).slot i = s.slot i := by
    funext k
    simp only [SfsFs.slot,own_setBlock plain,din]
    by_cases empty : s.own (i,.leaf k) = 0
    · simp [empty]
    simp [SfsFs.setBlock,setDev_ne (self_ne_leaf blocks listed empty)]
  simp only [SfsFs.item,din,slot]
  rfl

lemma kept_setSelf (x : Buf) : Kept s (s.setBlock i x) := by
  have plain := blocks.plain_of_self listed
  have din := din_setBlock (x:=x) plain (blocks.cached i listed)
  exact (apart_setSelf blocks listed x).kept rfl (fun _ _ => by rw [din]) (fun _ _ _ => by rw [own_setBlock plain])
    (fun _ _ _ => by rw [din]) fun _ _ idx held => setDev_ne (self_ne_leaf blocks listed held)

end

def washed (n : SfsInode) : SfsInode := {n with dirty:=false}

-- sfs_fsync has written inode i.
def SfsFs.flush (s : SfsFs) (i : Nat) : SfsFs :=
  (s.setNode i washed).setBlock i (copy (s.dev i) 0 diskInodeSize (inodeBytes (s.node i).din))

lemma flush_went (tidy : Tidy s) (listed : i ∈ s.inodeList) : Went s (s.flush i) s.ns ∧ Still s (s.flush i) := by
  have mem := tidy.blocks.cached i listed
  have fits := tidy.fits listed
  have fine := tidy.fine i mem
  have held := tidy.held listed
  have sized := fine.sized
  rw [din_listed listed] at sized
  have map : SameMap (s.node i).din (washed (s.node i)).din := ⟨rfl,rfl,rfl⟩
  have mid : Sound (s.setNode i washed) (· = i) := Sound.setNode tidy listed map rfl {held with} fits sized (fun _ _ => False.elim) fun new => absurd rfl new
  have plain : Plain (s.setNode i washed) i := mid.blocks.plain_of_self listed
  have mine : (s.setNode i washed).own (i,.self) = i := own_inode (s:=s.setNode i washed) mem .self
  have fine' := mid.fine i mem
  have node : (s.flush i).node i = washed (s.node i) := setNode_self s i washed
  have din : (s.flush i).din i = (s.setNode i washed).din i := din_setBlock plain mem
  refine ⟨⟨?_,?_,?_⟩,⟨?_,rfl,rfl⟩⟩
  · refine mid.next (apart_setSelf mid.blocks listed _) (mid.blocks.setBlock plain) (fun j ne stale => ne stale) fun _ => ?_
    refine ⟨by rw [din]; exact fine'.fits,by rw [din]; exact fine'.sized,fun away => absurd listed away,fine'.held,fun _ _ _ _ => ?_⟩
    rw [node]
    change readInode (setDev s.dev i _ i) = _
    rw [setDev_same]
    exact readInode_write fits
  · rw [SfsFs.flush,ns_setSelf mid.blocks listed]
    exact (ns_setNode (g:=id) listed map rfl fun _ => rfl).trans (Ns.alter_id fun _ _ => rfl)
  · exact (kept_setNode listed map rfl fun _ => rfl).trans (kept_setSelf mid.blocks listed _) fun _ old _ => old
  rw [SfsFs.flush,own_setBlock plain,own_sameMap listed map]

lemma fsync_idle (idle : (s.node i).din.nlinks = 0 ∨ (s.node i).dirty = false) : sfsFsync held i s = .ok () s := by simp [sfsFsync,idle]

lemma fsync_removed (links : (s.node i).din.nlinks ≠ 0) (dirty : (s.node i).dirty = true) (removed : (s.node i).removed = true) : sfsFsync held i s = .err .eNoent s := by
  simp [sfsFsync,links,dirty,trylockSin,removed]

lemma fsync_write (blocks : Blocks s flight) (listed : i ∈ s.inodeList) (links : (s.node i).din.nlinks ≠ 0) (dirty : (s.node i).dirty = true)
    (has : (s.node i).removed = false) (free : i ∉ held) : sfsFsync held i s = .ok () (s.flush i) := by
  have mem := blocks.cached i listed
  have mine : s.own (i,.self) = i := own_inode mem .self
  have reach := mine ▸ blocks.own_reach (p:=(i,.self)) (mine.symm ▸ blocks.nonzero i mem)
  have busy : ¬ ((s.node i).din.nlinks = 0 ∨ (s.node i).dirty = false) := by simp [links,dirty]
  have wrote : sfsWbuf (inodeBytes (s.node i).din) diskInodeSize i 0 (s.setNode i washed) = .ok () (s.flush i) :=
    wbuf_run (s:=s.setNode i washed) {reach with} (by decide) (by decide)
  simp only [sfsFsync,rules,ite_run,busy,trylockSin,has,free]
  change ((attempt _ (s.setNode i washed)).next _) = _
  rw [attempt_ok wrote]
  rfl

end Flush

section Create
variable {d : Nat}

lemma spotBlock_zeroed (dev : Nat → Buf) (type ino : Nat) (spot : Spot) : spotBlock dev (DiskInode.zeroed type) ino spot = if spot = .self then ino else 0 := by
  cases spot <;> simp [spotBlock,leafBlock,DiskInode.zeroed,entBlock_zero]

def SfsFs.make (s : SfsFs) (i type : Nat) (map : Bitmap) : SfsFs :=
  let t := (s.asked.take i map).asked
  {t.setNode i (fun _ => fresh (.zeroed type)) with inodeList:=i :: s.inodeList,inodes:=i :: s.inodes}

structure Made (s t : SfsFs) (i type : Nat) : Prop where
  went : Went s t (s.ns.add i (.made type))
  absent : i ∉ s.inodes

lemma make_made (tidy : Tidy s) (taken : Taken s.asked i map) (seen : Known type) : Made s (s.make i type map) i type := by
  obtain ⟨new,plain,pos,_,eq⟩ := tidy.blocks.asked.take taken
  have free : ¬ s.asked.used i := take_free taken
  have gone : i ∉ s.inodes := by
    intro mem
    have mine : s.own (i,.self) = i := own_inode mem .self
    exact free (mine ▸ tidy.blocks.own_used (mine.symm ▸ pos))
  have away : i ∉ s.inodeList := fun listed => gone (tidy.blocks.cached i listed)
  have node : (s.make i type map).node i = fresh (.zeroed type) := by simp [SfsFs.make,setNode]
  have din : (s.make i type map).din i = .zeroed type := by
    rw [din_listed (s:=s.make i type map) mem_cons_self,node]
    rfl
  have dins j : j ≠ i → (s.make i type map).din j = (s.asked.take i map).din j := by
    intro ne
    by_cases listed : j ∈ s.inodeList
    · rw [din_listed (s:=s.make i type map) (mem_cons_of_mem _ listed),din_listed (s:=s.asked.take i map) listed]
      simp [SfsFs.make,setNode,ne,take,asked]
    simp only [SfsFs.din,SfsFs.make,mem_cons,ne,false_or,take,asked,listed,if_false]
    rfl
  have rest j : j ≠ i → ∀ spot,(s.make i type map).own (j,spot) = s.own (j,spot) := by
    intro ne spot
    rw [show s.own (j,spot) = (s.asked.take i map).own (j,spot) from (congrFun eq (j,spot)).symm]
    by_cases mem : j ∈ s.inodes
    · rw [own_inode (s:=s.make i type map) (mem_cons_of_mem _ mem),own_inode (s:=s.asked.take i map) mem,dins j ne]
      rfl
    have out : j ∉ (s.make i type map).inodes := by simp [SfsFs.make,ne,mem]
    rw [own_none out,own_none (s:=s.asked.take i map) mem]
  have own : ∀ q,(s.make i type map).own q = if q = (i,.self) then i else s.own q := by
    rintro ⟨j,spot⟩
    by_cases here : j = i
    · subst here
      rw [own_inode (s:=s.make j type map) mem_cons_self,din,spotBlock_zeroed,own_none gone]
      simp
    rw [rest j here,if_neg (fun h => here (congrArg Prod.fst h))]
  have far : Apart s (s.make i type map) i :=
    ⟨fun j ne => by simp [SfsFs.make,ne],fun j ne => by simp [SfsFs.make,ne],fun j ne => by simp [SfsFs.make,setNode,ne,take,asked],rest,
      fun j _ ne => setDev_ne ne,
      fun j _ idx held => setDev_ne fun equal => free (equal ▸ tidy.blocks.own_used held)⟩
  have blocks : Blocks (s.make i type map) (fun _ => False) := by
    refine ⟨{new with},?_,fun j mem idx => ?_,fun j listed => ?_,fun j mem => ?_,mem_cons_of_mem _ tidy.blocks.root⟩
    · exact (tidy.blocks.exact.assign free pos (own_none gone .self)).congr own
        (take_used taken (tidy.blocks.inside i taken.free)) (fun _ => .rfl)
    · by_cases here : j = i
      · subst here
        rw [din]
        have : leafBlock (s.make j type map).dev (.zeroed type) idx = 0 := spotBlock_zeroed _ _ j (.leaf idx)
        rw [this]
        simp [DiskInode.zeroed]
      have old : j ∈ s.inodes := (far.inodes j here).mp mem
      have leaf := rest j here (.leaf idx)
      rw [own_inode (s:=s.make i type map) mem,own_inode old] at leaf
      change leafBlock _ _ idx = leafBlock _ _ idx at leaf
      rw [leaf,tidy.blocks.mapped j old idx,far.din old here]
    · rcases mem_cons.mp listed with rfl | old
      · exact mem_cons_self
      exact mem_cons_of_mem _ (tidy.blocks.cached j old)
    rcases mem_cons.mp mem with rfl | old
    · exact pos
    exact tidy.blocks.nonzero j old
  refine ⟨⟨Sound.next tidy far blocks (fun _ _ h => h) fun mem => ?_,far.add mem_cons_self ?_,?_⟩,gone⟩
  · refine ⟨?_,fun _ => by rw [din]; exact Nat.zero_le _,fun out => absurd mem_cons_self out,fun _ => ?_,fun _ _ _ has => ?_⟩
    · apply blocks.fits mem
      all_goals rw [din]
      · exact (by decide : (0 : Nat) < 2^32)
      · exact (by decide : (0 : Nat) < 2^32)
      · rcases seen with h | h <;> (change type < _; rw [h]; decide)
      exact (by decide : (0 : Nat) < 2^16)
    · rw [node]
      exact ⟨Nat.one_pos,rfl,Nat.zero_le _,seen⟩
    rw [node] at has
    exact absurd rfl has
  · rw [item_listed (s:=s.make i type map) mem_cons_self,node]
    have slot : (s.make i type map).slot i = fun _ => none := by
      funext k
      apply slot_vacant
      rw [own,if_neg (by simp),own_none gone]
    rw [slot]
    rfl
  exact far.kept rfl (fun old _ => absurd old gone) (fun _ spot held => absurd (own_none gone spot) held)
    (fun old _ _ => absurd old gone) fun _ _ idx held => absurd (own_none gone _) held

-- A block taken and given back leaves nothing behind.
lemma undo_went (tidy : Tidy s) (listed : d ∈ s.inodeList) (taken : Taken s e map) (given : Given (s.take e map) e map') : Went s ((s.take e map).give map') s.ns := by
  obtain ⟨blocks,grows⟩ := tidy.blocks.undo (i:=d) taken given
  have frame : Frame s ((s.take e map).give map') d := (Frame.take s e map d).trans (.give _ _ d)
  refine ⟨Sound.grow tidy blocks frame grows listed (le_refl _) (fun _ _ h => h) fun _ _ => ⟨rfl,id⟩,?_,grows.keeps frame listed⟩
  rw [grows.ns frame listed]
  refine Ns.alter_id fun r got => ?_
  rw [ns_listed tidy.blocks listed] at got
  rw [← Option.some.inj got]
  rfl

lemma create_run (tidy : Tidy s) (listed : d ∈ s.inodeList) (seen : Known type) : (∃ t,sfsDirentCreateInode type s = .err .eNoMem t ∧ Went s t s.ns) ∨
    ∃ i t,sfsDirentCreateInode type s = .ok i t ∧ Made s t i type := by
  cases mem : s.heap s.tick with
  | false => exact .inl ⟨s.asked,by simp [sfsDirentCreateInode,kmalloc,mem,asked],.asked tidy⟩
  | true =>
    have tidy' : Tidy s.asked := Sound.asked tidy
    rcases blockAlloc_run tidy'.blocks.toGeometry tidy'.blocks.super_used with ⟨_,bad⟩ | ⟨b,map,got,taken⟩
    · refine .inl ⟨s.asked,?_,.asked tidy⟩
      simp only [sfsDirentCreateInode,kmalloc,rules,mem,true_eq_false]
      change ((sfsBlockAlloc s.asked).next _) = _
      rw [bad,next_err]
    obtain ⟨new,_,pos,_,_⟩ := tidy'.blocks.take taken
    cases two : s.heap (s.tick + 1) with
    | true =>
      refine .inr ⟨b,s.make b type map,?_,make_made tidy taken seen⟩
      simp only [sfsDirentCreateInode,kmalloc,rules,mem,true_eq_false]
      change ((sfsBlockAlloc s.asked).next _) = _
      rw [got,next_ok,bind_run,attempt_ok (createInode_run (s:=s.asked.take b map) two seen)]
      rfl
    | false =>
      have used : (s.asked.take b map).asked.used b := (take_used taken (tidy'.blocks.inside b taken.free) b).mpr (.inr rfl)
      obtain ⟨map',freed,given⟩ := blockFree_run (s:=(s.asked.take b map).asked) new.asked.toGeometry used pos
      have undone := undo_went tidy' listed taken {given with}
      refine .inl ⟨((s.asked.take b map).give map').asked,?_,((Went.asked tidy).trans undone fun _ h => h).trans ?_ fun _ h => h⟩
      · simp only [sfsDirentCreateInode,kmalloc,rules,mem,true_eq_false]
        change ((sfsBlockAlloc s.asked).next _) = _
        rw [got,next_ok,bind_run,attempt_err (createInode_nomem (s:=s.asked.take b map) two),next_ok]
        simp only [rules,freed]
        rfl
      have again := Went.asked undone.tidy
      rwa [undone.ns] at again

end Create
end Ucore.Sfs
