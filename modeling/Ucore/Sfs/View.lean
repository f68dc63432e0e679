import Ucore.Sfs.Bmap
import Ucore.Sfs.Namespace

-- The namespace a state of the file system stands for, and the invariant the
-- single steps of every operation keep.
namespace Ucore.Sfs
open Bytes Outcomes Ownership Item
open Prod (fst)
variable {s t u : SfsFs} {i j : Nat} {stale : Nat → Prop}

def SfsFs.slot (s : SfsFs) (d k : Nat) : Option (Nat × CStr) :=
  if s.own (d,.leaf k) = 0 ∨ (s.din d).type ≠ sfsTypeDir then none
  else
    let entry := readEntry (s.dev (s.own (d,.leaf k)))
    if entry.ino = 0 then none else some (entry.ino,entry.name)

def SfsFs.item (s : SfsFs) (i : Nat) : Item where
  type := (s.din i).type
  nlinks := (s.din i).nlinks
  parent := (s.din i).parent
  info := (s.din i).info
  blocks := (s.din i).blocks
  slot := s.slot i
  removed := decide (i ∈ s.inodeList) && (s.node i).removed
  refs := if i ∈ s.inodeList then (s.node i).refCount else 0
  opens := if i ∈ s.inodeList then (s.node i).openCount else 0

def SfsFs.ns (s : SfsFs) : Ns := fun i => if i ∈ s.inodes then some (s.item i) else none

lemma ns_member (mem : i ∈ s.inodes) : s.ns i = some (s.item i) := by simp [SfsFs.ns,mem]

lemma ns_absent (out : i ∉ s.inodes) : s.ns i = none := by simp [SfsFs.ns,out]

lemma ns_some (got : s.ns i = some r) : i ∈ s.inodes ∧ s.item i = r := by
  by_cases mem : i ∈ s.inodes
  · rw [ns_member mem] at got
    exact ⟨mem,Option.some.inj got⟩
  rw [ns_absent mem] at got
  cases got

structure Apart (s t : SfsFs) (i : Nat) : Prop where
  inodes : ∀ j,j ≠ i → (j ∈ t.inodes ↔ j ∈ s.inodes)
  inodeList : ∀ j,j ≠ i → (j ∈ t.inodeList ↔ j ∈ s.inodeList)
  node : ∀ j,j ≠ i → t.node j = s.node j
  own : ∀ j,j ≠ i → ∀ spot,t.own (j,spot) = s.own (j,spot)
  self : ∀ j ∈ s.inodes,j ≠ i → t.dev j = s.dev j
  leaf : ∀ j,j ≠ i → ∀ idx,s.own (j,.leaf idx) ≠ 0 → t.dev (s.own (j,.leaf idx)) = s.dev (s.own (j,.leaf idx))

namespace Apart

lemma refl (s : SfsFs) (i : Nat) : Apart s s i := ⟨fun _ _ => .rfl,fun _ _ => .rfl,fun _ _ => rfl,fun _ _ _ => rfl,fun _ _ _ => rfl,fun _ _ _ _ => rfl⟩

lemma trans (one : Apart s t i) (two : Apart t u i) : Apart s u i where
  inodes j ne := (two.inodes j ne).trans (one.inodes j ne)
  inodeList j ne := (two.inodeList j ne).trans (one.inodeList j ne)
  node j ne := (two.node j ne).trans (one.node j ne)
  own j ne spot := (two.own j ne spot).trans (one.own j ne spot)
  self j mem ne := (two.self j ((one.inodes j ne).mpr mem) ne).trans (one.self j mem ne)
  leaf j ne idx held := by
    have eq := one.own j ne (.leaf idx)
    have later := two.leaf j ne idx (eq ▸ held)
    rw [eq] at later
    exact later.trans (one.leaf j ne idx held)

section
variable (apart : Apart s t i)
include apart

lemma din (mem : j ∈ s.inodes) (ne : j ≠ i) : t.din j = s.din j := by simp only [SfsFs.din,apart.inodeList j ne,apart.node j ne,apart.self j mem ne]

lemma item (mem : j ∈ s.inodes) (ne : j ≠ i) : t.item j = s.item j := by
  have din := apart.din mem ne
  have slot : t.slot j = s.slot j := by
    funext k
    simp only [SfsFs.slot,apart.own j ne,din]
    by_cases held : s.own (j,.leaf k) = 0
    · simp [held]
    rw [apart.leaf j ne k held]
  simp only [SfsFs.item,din,slot,apart.inodeList j ne,apart.node j ne]

lemma ns (ne : j ≠ i) : t.ns j = s.ns j := by
  by_cases mem : j ∈ s.inodes
  · rw [ns_member mem,ns_member ((apart.inodes j ne).mpr mem),apart.item mem ne]
  rw [ns_absent mem,ns_absent (fun h => mem ((apart.inodes j ne).mp h))]

lemma alter (eq : i ∈ t.inodes ↔ i ∈ s.inodes) (item : i ∈ s.inodes → t.item i = f (s.item i)) : t.ns = s.ns.alter i f := by
  funext j
  by_cases here : j = i
  · subst here
    simp only [Ns.alter,if_true,SfsFs.ns,eq]
    split
    next mem => rw [item mem,Option.map_some]
    rfl
  rw [Ns.alter,if_neg here,apart.ns here]

lemma unchanged (eq : i ∈ t.inodes ↔ i ∈ s.inodes) (item : i ∈ s.inodes → t.item i = s.item i) : t.ns = s.ns := by
  funext j
  by_cases here : j = i
  · subst here
    simp only [SfsFs.ns,eq]
    split
    next mem => rw [item mem]
    rfl
  exact apart.ns here

lemma add (mem : i ∈ t.inodes) (item : t.item i = r) : t.ns = s.ns.add i r := by
  funext j
  by_cases here : j = i
  · subst here
    rw [Ns.add,if_pos rfl,ns_member mem,item]
  rw [Ns.add,if_neg here,apart.ns here]

lemma drop (out : i ∉ t.inodes) : t.ns = s.ns.drop i := by
  funext j
  by_cases here : j = i
  · subst here
    rw [Ns.drop,if_pos rfl,ns_absent out]
  rw [Ns.drop,if_neg here,apart.ns here]

end

end Apart

structure Held (n : SfsInode) : Prop where
  refs : 0 < n.refCount
  reclaim : n.reclaimCount = 1
  opens : n.openCount ≤ n.refCount
  kind : n.din.type = sfsTypeDir ∨ n.din.type = sfsTypeFile

structure Fine (s : SfsFs) (stale : Prop) (i : Nat) : Prop where
  fits : (s.din i).Fits
  sized : (s.din i).type = sfsTypeFile → (s.din i).size ≤ sfsBlksize * (s.din i).blocks
  linked : i ∉ s.inodeList → (s.din i).nlinks ≠ 0
  held : i ∈ s.inodeList → Held (s.node i)
  clean : i ∈ s.inodeList → ¬ stale → (s.node i).dirty = false → (s.node i).din.nlinks ≠ 0 → readInode (s.dev i) = (s.node i).din

-- stale names the inodes that an operation has changed and not marked yet.
structure Sound (s : SfsFs) (stale : Nat → Prop) : Prop where
  blocks : Blocks s (fun _ => False)
  fine : ∀ i ∈ s.inodes,Fine s (stale i) i

abbrev Tidy (s : SfsFs) : Prop := Sound s (fun _ => False)

section Sound
variable {stale' : Nat → Prop}

lemma Fine.move (fine : Fine s old j) (apart : Apart s t i) (mem : j ∈ s.inodes) (ne : j ≠ i) (weaker : old → new) : Fine t new j := by
  have din := apart.din mem ne
  have node := apart.node j ne
  refine ⟨din ▸ fine.fits,?_,fun away => ?_,fun listed => ?_,fun listed fresh clean has => ?_⟩
  · rw [din]
    exact fine.sized
  · rw [din]
    exact fine.linked (fun h => away ((apart.inodeList j ne).mpr h))
  · rw [node]
    exact fine.held ((apart.inodeList j ne).mp listed)
  rw [node] at clean has ⊢
  rw [apart.self j mem ne]
  exact fine.clean ((apart.inodeList j ne).mp listed) (fun h => fresh (weaker h)) clean has

lemma Sound.next (sound : Sound s stale) (apart : Apart s t i) (blocks : Blocks t (fun _ => False))
    (rest : ∀ j ≠ i,stale j → stale' j) (mine : i ∈ t.inodes → Fine t (stale' i) i) : Sound t stale' where
  blocks := blocks
  fine j mem := by
    by_cases here : j = i
    · subst here
      exact mine mem
    have old := (apart.inodes j here).mp mem
    exact (sound.fine j old).move apart old here (rest j here)

lemma Sound.held (sound : Sound s stale) (listed : i ∈ s.inodeList) : Held (s.node i) := (sound.fine i (sound.blocks.cached i listed)).held listed

lemma Sound.fits (sound : Sound s stale) (listed : i ∈ s.inodeList) : (s.node i).din.Fits := by
  have := (sound.fine i (sound.blocks.cached i listed)).fits
  rwa [din_listed listed] at this

lemma Sound.weaken (sound : Sound s stale) (weaker : ∀ j,stale j → stale' j) : Sound s stale' :=
  ⟨sound.blocks,fun j mem => by
    have fine := sound.fine j mem
    exact {fine with clean:=fun listed new => fine.clean listed (fun h => new (weaker j h))}⟩

lemma Blocks.fits {flight : Nat → Prop} (blocks : Blocks s flight) (mem : i ∈ s.inodes) (info : (s.din i).info < 2^32)
    (parent : (s.din i).parent < 2^32) (type : (s.din i).type < 2^16) (nlinks : (s.din i).nlinks < 2^16) : (s.din i).Fits := by
  have small spot : s.own (i,spot) < 2^32 := by
    by_cases held : s.own (i,spot) = 0
    · rw [held]
      decide
    have low := (blocks.own_used held).1
    have := blocks.small
    omega
  have count := blocks.count_lt mem
  have disk := blocks.small
  refine ⟨info,parent,type,nlinks,by omega,fun k => ?_,?_,?_⟩
  · have := small (.leaf k)
    rw [own_inode mem] at this
    simpa only [spotBlock,leaf_direct k.isLt] using this
  · have := small .ind
    rwa [own_inode mem] at this
  have := small .dbl
  rwa [own_inode mem] at this

def SfsInode.item (n : SfsInode) (slot : Nat → Option (Nat × CStr)) : Item :=
  ⟨n.din.type,n.din.nlinks,n.din.parent,n.din.info,n.din.blocks,slot,n.removed,n.refCount,n.openCount⟩

lemma item_listed (listed : i ∈ s.inodeList) : s.item i = (s.node i).item (s.slot i) := by
  simp only [SfsFs.item,SfsInode.item,din_listed listed,listed,decide_true,Bool.true_and,if_true]

@[simp] lemma setNode_self (s : SfsFs) (i : Nat) (f : SfsInode → SfsInode) : (s.setNode i f).node i = f (s.node i) := by simp [SfsFs.setNode]

lemma apart_setNode (s : SfsFs) (i : Nat) (f : SfsInode → SfsInode) : Apart s (s.setNode i f) i where
  inodes _ _ := .rfl
  inodeList _ _ := .rfl
  node j ne := by simp [SfsFs.setNode,ne]
  own j ne spot := own_setNode_ne ne spot
  self _ _ _ := rfl
  leaf _ _ _ _ := rfl

lemma Blocks.setNode {flight : Nat → Prop} (blocks : Blocks s flight) (listed : i ∈ s.inodeList)
    (map : SameMap (s.node i).din (f (s.node i)).din) (count : (f (s.node i)).din.blocks = (s.node i).din.blocks) :
    Blocks (s.setNode i f) flight where
  toGeometry := {blocks with}
  exact := blocks.exact.congr (fun q => by rw [own_sameMap listed map]) (fun _ => .rfl) (fun _ => .rfl)
  mapped j mem idx := by
    have leaf := congrFun (own_sameMap listed map) (j,.leaf idx)
    rw [own_inode (s:=s.setNode i f) mem,own_inode (s:=s) mem] at leaf
    change leafBlock _ _ idx = leafBlock _ _ idx at leaf
    rw [leaf,blocks.mapped j mem idx]
    by_cases here : j = i
    · subst here
      rw [din_setNode listed,count,din_listed listed]
    rw [din_setNode_ne here]
  cached := blocks.cached
  nonzero := blocks.nonzero
  root := blocks.root

lemma ns_setNode (listed : i ∈ s.inodeList) (map : SameMap (s.node i).din (f (s.node i)).din) (type : (f (s.node i)).din.type = (s.node i).din.type)
    (item : ∀ slot,(f (s.node i)).item slot = g ((s.node i).item slot)) : (s.setNode i f).ns = s.ns.alter i g := by
  refine (apart_setNode s i f).alter .rfl fun _ => ?_
  have slot : (s.setNode i f).slot i = s.slot i := by
    funext k
    simp only [SfsFs.slot,own_sameMap listed map,din_setNode listed,din_listed listed,type]
    rfl
  rw [item_listed (s:=s.setNode i f) listed,slot,item_listed listed,← item,setNode_self]

lemma Sound.setNode (sound : Sound s stale) (listed : i ∈ s.inodeList) (map : SameMap (s.node i).din (f (s.node i)).din)
    (count : (f (s.node i)).din.blocks = (s.node i).din.blocks) (held : Held (f (s.node i))) (fits : (f (s.node i)).din.Fits)
    (sized : (f (s.node i)).din.type = sfsTypeFile → (f (s.node i)).din.size ≤ sfsBlksize * (s.node i).din.blocks)
    (rest : ∀ j ≠ i,stale j → stale' j)
    (clean : ¬ stale' i → (f (s.node i)).dirty = false → (f (s.node i)).din.nlinks ≠ 0 → readInode (s.dev i) = (f (s.node i)).din) :
    Sound (s.setNode i f) stale' := by
  have node := setNode_self s i f
  have din := din_setNode (f:=f) listed
  refine sound.next (apart_setNode s i f) (sound.blocks.setNode listed map count) rest fun _ => ?_
  refine ⟨din ▸ fits,?_,fun away => absurd listed away,fun _ => node ▸ held,fun _ new => ?_⟩
  · rw [din,count]
    exact sized
  rw [node]
  exact clean new

end Sound

section Changes
variable {flight : Nat → Prop} {idx : Nat}

lemma Grows.apart (grows : Grows s t i) (frame : Frame s t i) : Apart s t i where
  inodes j _ := by rw [frame.inodes]
  inodeList j _ := by rw [frame.inodeList]
  node := frame.others
  own := grows.others
  self j mem _ := grows.self j mem
  leaf j _ idx held := grows.data j idx held

lemma SameHead.item (head : SameHead n m) (slot : Nat → Option (Nat × CStr)) : m.item slot = (n.item slot).setBlocks m.din.blocks := by
  simp only [SfsInode.item,setBlocks,head.type,head.nlinks,head.parent,head.info,head.removed,head.refCount,head.openCount]

lemma slot_vacant (free : s.own (i,.leaf k) = 0) : s.slot i k = none := by simp [SfsFs.slot,free]

lemma slot_blank (blank : s.dev (s.own (i,.leaf k)) = zero) : s.slot i k = none := by
  simp only [SfsFs.slot,blank,readEntry_zero]
  split <;> rfl

lemma Grows.ns (grows : Grows s t i) (frame : Frame s t i) (listed : i ∈ s.inodeList) : t.ns = s.ns.alter i (setBlocks (t.node i).din.blocks) := by
  have listed' : i ∈ t.inodeList := frame.inodeList ▸ listed
  refine (grows.apart frame).alter (by rw [frame.inodes]) fun _ => ?_
  have slot : t.slot i = s.slot i := by
    funext k
    by_cases held : s.own (i,.leaf k) = 0
    · rw [slot_vacant held]
      by_cases new : t.own (i,.leaf k) = 0
      · exact slot_vacant new
      exact slot_blank (grows.fresh i k held new)
    simp only [SfsFs.slot,grows.kept _ held,grows.data i k held,din_listed listed,din_listed listed',frame.head.type]
  rw [item_listed listed,item_listed listed',slot,frame.head.item]

lemma Sound.grow {stale' : Nat → Prop} (sound : Sound s stale) (blocks : Blocks t (fun _ => False)) (frame : Frame s t i)
    (grows : Grows s t i) (listed : i ∈ s.inodeList) (more : (s.node i).din.blocks ≤ (t.node i).din.blocks)
    (rest : ∀ j ≠ i,stale j → stale' j)
    (clean : ¬ stale' i → (t.node i).dirty = false → t.node i = s.node i ∧ ¬ stale i) : Sound t stale' := by
  have listed' : i ∈ t.inodeList := frame.inodeList ▸ listed
  have mem := sound.blocks.cached i listed
  have held := sound.held listed
  have fine := sound.fine i mem
  have fits := sound.fits listed
  have din := din_listed listed'
  refine sound.next (grows.apart frame) blocks rest fun member' => ⟨?_,fun file => ?_,fun away => absurd listed' away,fun _ => ?_,?_⟩
  · apply blocks.fits member'
    all_goals rw [din]
    · exact frame.head.info ▸ fits.info
    · exact frame.head.parent ▸ fits.parent
    · exact frame.head.type ▸ fits.type
    exact frame.head.nlinks ▸ fits.nlinks
  · have sized := fine.sized
    rw [din_listed listed] at sized
    rw [din] at file ⊢
    have old := sized (frame.head.type ▸ file)
    have size : (t.node i).din.size = (s.node i).din.size := frame.head.info
    have scaled := Nat.mul_le_mul_left sfsBlksize more
    omega
  · refine ⟨?_,frame.head.reclaimCount.trans held.reclaim,?_,?_⟩
    · rw [frame.head.refCount]
      exact held.refs
    · rw [frame.head.openCount,frame.head.refCount]
      exact held.opens
    rw [frame.head.type]
    exact held.kind
  intro _ new bare has
  obtain ⟨eq,old⟩ := clean new bare
  rw [grows.self i mem,eq]
  rw [eq] at bare has
  exact fine.clean listed old bare has

lemma Shrunk.apart (cut : Shrunk s t flight i) (blocks : Blocks s flight) : Apart s t i where
  inodes j _ := by rw [cut.frame.inodes]
  inodeList j _ := by rw [cut.frame.inodeList]
  node := cut.frame.others
  own j ne spot := by rw [cut.own,if_neg (fun h => ne (congrArg fst h))]
  self j mem _ := pointer_not_self blocks cut.dev mem
  leaf j ne idx held := by
    by_contra differs
    obtain ⟨_,eq,_⟩ := cut.dev _ differs
    exact ne (congrArg fst (blocks.exact.single _ _ held eq.symm))

lemma apart_setLeaf (blocks : Blocks s flight) (held : s.own (i,.leaf idx) ≠ 0) (x : Buf) : Apart s (s.setBlock (s.own (i,.leaf idx)) x) i where
  inodes _ _ := .rfl
  inodeList _ _ := .rfl
  node _ _ := rfl
  own j _ spot := congrFun (own_setBlock (blocks.plain_of_leaf held)) (j,spot)
  self j mem ne := by
    refine setDev_ne fun eq => ne ?_
    have mine : s.own (j,.self) = j := own_inode mem .self
    exact congrArg fst (blocks.exact.single (j,.self) _ (mine.symm ▸ blocks.nonzero j mem) (mine.trans eq))
  leaf j ne k other_held := by
    refine setDev_ne fun eq => ne ?_
    exact congrArg fst (blocks.exact.single _ _ other_held eq)

lemma leaf_member (held : s.own (i,spot) ≠ 0) : i ∈ s.inodes := by
  by_contra out
  exact held (own_none out spot)

lemma Sound.setLeaf (sound : Sound s stale) (held : s.own (i,.leaf idx) ≠ 0) (x : Buf) : Sound (s.setBlock (s.own (i,.leaf idx)) x) stale := by
  have mem := leaf_member held
  have plain := sound.blocks.plain_of_leaf held
  have din := din_setBlock (x:=x) plain mem
  have self : (s.setBlock (s.own (i,.leaf idx)) x).dev i = s.dev i := by
    refine setDev_ne fun equal => ?_
    have mine : s.own (i,.self) = i := own_inode mem .self
    have eq := sound.blocks.exact.single (i,.self) _ (mine.symm ▸ sound.blocks.nonzero i mem) (mine.trans equal)
    cases eq
  have fine := sound.fine i mem
  refine sound.next (apart_setLeaf sound.blocks held x) (sound.blocks.setBlock plain) (fun _ _ h => h) fun _ => ?_
  refine ⟨din ▸ fine.fits,?_,?_,fine.held,?_⟩
  · rw [din]
    exact fine.sized
  · rw [din]
    exact fine.linked
  rw [self]
  exact fine.clean

def entryOf (b : Buf) : Option (Nat × CStr) := if (readEntry b).ino = 0 then none else some ((readEntry b).ino,(readEntry b).name)

lemma slot_held (held : s.own (i,.leaf k) ≠ 0) (dir : (s.din i).type = sfsTypeDir) : s.slot i k = entryOf (s.dev (s.own (i,.leaf k))) := by
  simp [SfsFs.slot,entryOf,held,dir]

lemma ns_setLeaf (blocks : Blocks s flight) (held : s.own (i,.leaf idx) ≠ 0) (dir : (s.din i).type = sfsTypeDir) (x : Buf) :
    (s.setBlock (s.own (i,.leaf idx)) x).ns = s.ns.alter i (setSlot idx (entryOf x)) := by
  refine (apart_setLeaf blocks held x).alter .rfl fun mem => ?_
  have plain := blocks.plain_of_leaf held
  have din := din_setBlock (x:=x) plain mem
  have own := own_setBlock (x:=x) plain
  have slot : (s.setBlock (s.own (i,.leaf idx)) x).slot i = fun l => if l = idx then entryOf x else s.slot i l := by
    funext l
    by_cases empty : s.own (i,.leaf l) = 0
    · rw [slot_vacant (by rw [own]; exact empty),slot_vacant empty,if_neg]
      rintro rfl
      exact held empty
    rw [slot_held (by rw [own]; exact empty) (by rw [din]; exact dir),slot_held empty dir,own]
    by_cases here : l = idx
    · rw [here,if_pos rfl]
      exact congrArg entryOf (setDev_same _ _ _)
    rw [if_neg here]
    refine congrArg entryOf (setDev_ne fun equal => here ?_)
    have eq := blocks.exact.single _ _ empty equal
    simpa using eq
  simp only [SfsFs.item,setSlot,din,slot]
  rfl

end Changes

structure Kept (s t : SfsFs) : Prop where
  heap : t.heap = s.heap
  kind : ∀ j ∈ s.inodes,j ∈ t.inodes → (t.din j).type = (s.din j).type
  own : ∀ j ∈ t.inodes,∀ spot,s.own (j,spot) ≠ 0 → t.own (j,spot) = s.own (j,spot)
  size : ∀ j ∈ s.inodes,j ∈ t.inodes → (s.din j).type ≠ sfsTypeDir → (t.din j).size = (s.din j).size
  data : ∀ j ∈ t.inodes,(s.din j).type ≠ sfsTypeDir → ∀ idx,s.own (j,.leaf idx) ≠ 0 →
    t.dev (s.own (j,.leaf idx)) = s.dev (s.own (j,.leaf idx))

lemma Kept.refl (s : SfsFs) : Kept s s := ⟨rfl,fun _ _ _ => rfl,fun _ _ _ _ => rfl,fun _ _ _ _ => rfl,fun _ _ _ _ _ => rfl⟩

lemma Kept.trans (one : Kept s t) (two : Kept t u) (between : ∀ j ∈ s.inodes,j ∈ u.inodes → j ∈ t.inodes) : Kept s u where
  heap := two.heap.trans one.heap
  kind j old new := by
    have mid := between j old new
    rw [two.kind j mid new,one.kind j old mid]
  own j new spot held := by
    have mid := between j (leaf_member held) new
    have eq := one.own j mid spot held
    rw [two.own j new spot (eq ▸ held),eq]
  size j old new file := by
    have mid := between j old new
    rw [two.size j mid new (by rwa [one.kind j old mid]),one.size j old mid file]
  data j new file idx held := by
    have old := leaf_member held
    have mid := between j old new
    have eq := one.own j mid _ held
    have later := two.data j new (by rwa [one.kind j old mid]) idx (eq ▸ held)
    rw [eq] at later
    exact later.trans (one.data j mid file idx held)

lemma Apart.kept (apart : Apart s t i) (heap : t.heap = s.heap) (kind : i ∈ s.inodes → i ∈ t.inodes → (t.din i).type = (s.din i).type)
    (own : i ∈ t.inodes → ∀ spot,s.own (i,spot) ≠ 0 → t.own (i,spot) = s.own (i,spot))
    (size : i ∈ s.inodes → i ∈ t.inodes → (s.din i).type ≠ sfsTypeDir → (t.din i).size = (s.din i).size)
    (data : i ∈ t.inodes → (s.din i).type ≠ sfsTypeDir → ∀ idx,s.own (i,.leaf idx) ≠ 0 → t.dev (s.own (i,.leaf idx)) = s.dev (s.own (i,.leaf idx))) : Kept s t where
  heap := heap
  kind j old new := by
    by_cases here : j = i
    · subst here
      exact kind old new
    rw [apart.din old here]
  own j new spot held := by
    by_cases here : j = i
    · subst here
      exact own new spot held
    exact apart.own j here spot
  size j old new file := by
    by_cases here : j = i
    · subst here
      exact size old new file
    rw [apart.din old here]
  data j new file idx held := by
    by_cases here : j = i
    · subst here
      exact data new file idx held
    exact apart.leaf j here idx held

lemma Grows.keeps (grows : Grows s t i) (frame : Frame s t i) (listed : i ∈ s.inodeList) : Kept s t := by
  have listed' : i ∈ t.inodeList := frame.inodeList ▸ listed
  refine (grows.apart frame).kept frame.heap (fun _ _ => ?_) (fun _ spot held => grows.kept _ held) (fun _ _ _ => ?_)
    fun _ _ idx held => grows.data i idx held
  · rw [din_listed listed,din_listed listed',frame.head.type]
  rw [din_listed listed,din_listed listed']
  exact frame.head.info

lemma kept_setLeaf {flight : Nat → Prop} (blocks : Blocks s flight) (held : s.own (i,.leaf idx) ≠ 0) (dir : (s.din i).type = sfsTypeDir) (x : Buf) :
    Kept s (s.setBlock (s.own (i,.leaf idx)) x) := by
  have plain := blocks.plain_of_leaf held
  have din := din_setBlock (x:=x) plain (leaf_member held)
  refine (apart_setLeaf blocks held x).kept rfl (fun _ _ => by rw [din]) (fun _ spot _ => by rw [own_setBlock plain])
    (fun _ _ _ => by rw [din]) fun _ file => absurd dir file

lemma kept_setNode (listed : i ∈ s.inodeList) (map : SameMap (s.node i).din (f (s.node i)).din) (type : (f (s.node i)).din.type = (s.node i).din.type)
    (size : (s.node i).din.type ≠ sfsTypeDir → (f (s.node i)).din.size = (s.node i).din.size) : Kept s (s.setNode i f) := by
  refine (apart_setNode s i f).kept rfl (fun _ _ => ?_) (fun _ spot _ => by rw [own_sameMap listed map]) (fun _ _ file => ?_) fun _ _ _ _ => rfl
  · rw [din_setNode listed,din_listed listed,type]
  rw [din_listed listed] at file ⊢
  rw [din_setNode listed,size file]

def SfsFs.asked (s : SfsFs) : SfsFs := {s with tick:=s.tick + 1}

lemma Blocks.asked {flight : Nat → Prop} (blocks : Blocks s flight) : Blocks s.asked flight :=
  ⟨{blocks with},blocks.exact,blocks.mapped,blocks.cached,blocks.nonzero,blocks.root⟩

lemma Sound.asked (sound : Sound s stale) : Sound s.asked stale :=
  ⟨sound.blocks.asked,fun i mem => by
    have fine := sound.fine i mem
    exact {fine with}⟩

lemma Kept.asked (s : SfsFs) : Kept s s.asked := ⟨rfl,fun _ _ _ => rfl,fun _ _ _ _ => rfl,fun _ _ _ _ => rfl,fun _ _ _ _ _ => rfl⟩

def mark (g : DiskInode → DiskInode) (n : SfsInode) : SfsInode := {n with din:=g n.din,dirty:=true}

structure HeadOnly (d e : DiskInode) : Prop where
  map : SameMap d e
  blocks : e.blocks = d.blocks
  type : e.type = d.type

section Mark
variable {g : DiskInode → DiskInode}

lemma setDirty_run : setDirty i g s = .ok () (s.setNode i (mark g)) := rfl

lemma Sound.mark (sound : Sound s stale) (listed : i ∈ s.inodeList) (head : HeadOnly (s.node i).din (g (s.node i).din))
    (fits : (g (s.node i).din).Fits)
    (sized : (s.node i).din.type = sfsTypeFile → (g (s.node i).din).size ≤ sfsBlksize * (s.node i).din.blocks) :
    Sound (s.setNode i (mark g)) (fun j => stale j ∧ j ≠ i) := by
  have held := sound.held listed
  refine sound.setNode listed head.map head.blocks {held with kind:=?_} fits ?_ (fun j ne old => ⟨old,ne⟩) ?_
  · change (g (s.node i).din).type = _ ∨ (g (s.node i).din).type = _
    rw [head.type]
    exact held.kind
  · change (g (s.node i).din).type = _ → _
    rw [head.type]
    exact sized
  intro _ clean
  cases clean

lemma Tidy.of_marked (sound : Sound s (fun j => stale j ∧ j ≠ i)) (only : ∀ j,stale j → j = i) : Tidy s := sound.weaken fun j ⟨old,ne⟩ => ne (only j old)

end Mark

structure Went (s t : SfsFs) (ns : Ns) : Prop where
  tidy : Tidy t
  ns : t.ns = ns
  kept : Kept s t

structure Still (s t : SfsFs) : Prop where
  own : t.own = s.own
  super : t.super = s.super
  tick : t.tick = s.tick

lemma Still.trans (one : Still s t) (two : Still t u) : Still s u := ⟨two.own.trans one.own,two.super.trans one.super,two.tick.trans one.tick⟩

lemma Went.refl (tidy : Tidy s) : Went s s s.ns := ⟨tidy,rfl,.refl s⟩

lemma Went.asked (tidy : Tidy s) : Went s s.asked s.ns := ⟨Sound.asked tidy,rfl,.asked s⟩

lemma ns_inode : i ∈ s.inodes ↔ (s.ns i).isSome := by
  by_cases mem : i ∈ s.inodes
  · simp [ns_member mem,mem]
  simp [ns_absent mem,mem]

lemma Went.trans (one : Went s t m) (two : Went t u n) (stays : ∀ j,(s.ns j).isSome → (m j).isSome) : Went s u n :=
  ⟨two.tidy,two.ns,one.kept.trans two.kept fun j old _ => by
    rw [ns_inode] at old ⊢
    rw [one.ns]
    exact stays j old⟩

lemma Went.after (one : Went s t s.ns) (two : Went t u n) : Went s u n := one.trans two fun _ live => live

lemma listed_of (got : s.ns i = some r) (held : 0 < r.refs) : i ∈ s.inodeList ∧ (s.node i).item (s.slot i) = r := by
  obtain ⟨_,rfl⟩ := ns_some got
  by_cases listed : i ∈ s.inodeList
  · exact ⟨listed,(item_listed listed).symm⟩
  simp [SfsFs.item,listed] at held

lemma ns_listed (blocks : Blocks s flight) (listed : i ∈ s.inodeList) : s.ns i = some ((s.node i).item (s.slot i)) := by
  rw [ns_member (blocks.cached i listed),item_listed listed]

lemma Went.mark {g : DiskInode → DiskInode} (sound : Sound s stale) (only : ∀ j,stale j → j = i)
    (listed : i ∈ s.inodeList) (head : HeadOnly (s.node i).din (g (s.node i).din)) (fits : (g (s.node i).din).Fits)
    (size : (s.node i).din.type ≠ sfsTypeDir → (g (s.node i).din).info = (s.node i).din.info)
    (item : ∀ slot,(mark g (s.node i)).item slot = f ((s.node i).item slot)) : Went s (s.setNode i (mark g)) (s.ns.alter i f) := by
  refine ⟨Tidy.of_marked (sound.mark listed head fits fun file => ?_) only,ns_setNode listed head.map head.type item,kept_setNode listed head.map head.type size⟩
  have sized := (sound.fine i (sound.blocks.cached i listed)).sized
  rw [din_listed listed] at sized
  have eq := size (by rw [file]; decide)
  change (g (s.node i).din).info ≤ _
  rw [eq]
  exact sized file

section
variable (tidy : Tidy s) (listed : i ∈ s.inodeList)
include tidy listed

lemma Went.incLinks : ∃ t,sfsNlinksIncNolock i s = .ok () t ∧ Went s t (s.ns.alter i incLinks) ∧ t.inodeList = s.inodeList ∧ Still s t := by
  have fits := tidy.fits listed
  refine ⟨s.setNode i (Sfs.mark fun d => {d with nlinks:=(d.nlinks + 1) % 2^16}),rfl,.mark tidy (fun _ => False.elim) listed ⟨⟨rfl,rfl,rfl⟩,rfl,rfl⟩
    {fits with nlinks:=Nat.mod_lt _ (by decide)} (fun _ => rfl) (fun _ => rfl),rfl,⟨own_sameMap listed ⟨rfl,rfl,rfl⟩,rfl,rfl⟩⟩

lemma Went.decLinks (has : (s.node i).din.nlinks ≠ 0) :
    ∃ t,sfsNlinksDecNolock i s = .ok () t ∧ Went s t (s.ns.alter i decLinks) ∧ t.inodeList = s.inodeList ∧ Still s t := by
  have fits := tidy.fits listed
  refine ⟨s.setNode i (Sfs.mark fun d => {d with nlinks:=d.nlinks - 1}),?_,.mark tidy (fun _ => False.elim) listed ⟨⟨rfl,rfl,rfl⟩,rfl,rfl⟩
    {fits with nlinks:=by have := fits.nlinks; change (s.node i).din.nlinks - 1 < _; omega} (fun _ => rfl) (fun _ => rfl),rfl,
    ⟨own_sameMap listed ⟨rfl,rfl,rfl⟩,rfl,rfl⟩⟩
  simp only [sfsNlinksDecNolock,rules,ne_eq,has]
  rfl

lemma Went.setParent (small : p < 2^32) : ∃ t,sfsDirinfoSetParent i p s = .ok () t ∧ Went s t (s.ns.alter i (setParent p)) ∧ t.inodeList = s.inodeList ∧ Still s t := by
  have fits := tidy.fits listed
  exact ⟨s.setNode i (Sfs.mark fun d => {d with parent:=p}),rfl,
    .mark tidy (fun _ => False.elim) listed ⟨⟨rfl,rfl,rfl⟩,rfl,rfl⟩ {fits with parent:=small} (fun _ => rfl) (fun _ => rfl),rfl,
    ⟨own_sameMap listed ⟨rfl,rfl,rfl⟩,rfl,rfl⟩⟩

end

end Ucore.Sfs
