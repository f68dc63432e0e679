import Ucore.Sfs.Cache

-- sfs_reclaim: an inode nobody holds leaves memory, and leaves the disk too when
-- no entry names it.
namespace Ucore.Sfs
open Bytes Outcomes Ownership Item SfsFs

structure Quiet (s t : SfsFs) : Prop where
  own : t.own = s.own
  inodes : t.inodes = s.inodes
  inodeList : t.inodeList = s.inodeList
  node : t.node = s.node
  heap : t.heap = s.heap
  tick : t.tick = s.tick
  blocks : t.super.blocks = s.super.blocks
  dev : ∀ p,s.own p ≠ 0 → t.dev (s.own p) = s.dev (s.own p)

section Quiet
variable {s t u : SfsFs} {flight : Nat → Prop} {b i : Nat}

lemma Quiet.refl (s : SfsFs) : Quiet s s := ⟨rfl,rfl,rfl,rfl,rfl,rfl,rfl,fun _ _ => rfl⟩

lemma Quiet.trans (one : Quiet s t) (two : Quiet t u) : Quiet s u where
  own := two.own.trans one.own
  inodes := two.inodes.trans one.inodes
  inodeList := two.inodeList.trans one.inodeList
  node := two.node.trans one.node
  heap := two.heap.trans one.heap
  tick := two.tick.trans one.tick
  blocks := two.blocks.trans one.blocks
  dev p held := by
    have later := two.dev p (one.own ▸ held)
    rw [one.own] at later
    exact later.trans (one.dev p held)

lemma Quiet.apart (quiet : Quiet s t) (blocks : Blocks s flight) (i : Nat) : Apart s t i where
  inodes j _ := by rw [quiet.inodes]
  inodeList j _ := by rw [quiet.inodeList]
  node j _ := by rw [quiet.node]
  own j _ spot := by rw [quiet.own]
  self j mem _ := by
    have mine : s.own (j,.self) = j := own_inode mem .self
    have eq := quiet.dev (j,.self) (mine.symm ▸ blocks.nonzero j mem)
    rwa [mine] at eq
  leaf j _ idx held := quiet.dev _ held

structure Loose (s : SfsFs) (flight : Nat → Prop) : Prop where
  blocks : Blocks s flight
  loose : ∀ b,flight b → b ≠ 0 ∧ ¬ s.fixed b

lemma Loose.congr {flight' : Nat → Prop} (loose : Loose s flight) (eq : ∀ x,flight' x ↔ flight x) : Loose s flight' :=
  ⟨loose.blocks.congr_flight eq,fun b held => loose.loose b ((eq b).mp held)⟩

lemma own_give (s : SfsFs) (map : Bitmap) : (s.give map).own = s.own := rfl

lemma Loose.free (loose : Loose s flight) (held : flight b) : ∃ t,sfsBlockFree b s = .ok () t ∧ Loose t (fun x => flight x ∧ x ≠ b) ∧ Quiet s t ∧ t.dev = s.dev := by
  obtain ⟨pos,ne⟩ := loose.loose b held
  obtain ⟨map,freed,given⟩ := blockFree_run loose.blocks.toGeometry (loose.blocks.flight_used held) pos
  exact ⟨s.give map,freed,⟨loose.blocks.give held ne given,fun x more => loose.loose x more.1⟩,⟨rfl,rfl,rfl,rfl,rfl,rfl,rfl,fun _ _ => rfl⟩,rfl⟩

lemma Loose.freeSub (loose : Loose s flight) (held : flight b) (low : k < sfsBlkNentry)
    (entry : readEnt (s.dev b) k ≠ 0) (flown : flight (readEnt (s.dev b) k)) :
    ∃ t,sfsBmapFreeSubNolock b k s = .ok () t ∧ Loose t (fun x => flight x ∧ x ≠ readEnt (s.dev b) k) ∧ Quiet s t ∧
      ∀ j,entBlock t.dev b j = if j = k then 0 else entBlock s.dev b j := by
  obtain ⟨pos,ne⟩ := loose.loose b held
  have unowned := loose.blocks.unowned_of_flight held pos
  have plain : Plain s b := .of_unowned unowned
  obtain ⟨map,freed,given⟩ := freeSub_run loose.blocks.toGeometry (loose.blocks.flight_used held) pos low entry (loose.blocks.flight_used flown)
  have pointed : Blocks (s.point b k 0) flight := loose.blocks.setBlock plain
  have entries : ∀ j,entBlock (s.point b k 0).dev b j = if j = k then 0 else entBlock s.dev b j := entBlock_put pos low (by decide)
  have own : ((s.point b k 0).give map).own = s.own := by rw [own_give,own_point_plain plain]
  have loose' : Loose ((s.point b k 0).give map) (fun x => flight x ∧ x ≠ readEnt (s.dev b) k) :=
    ⟨pointed.give flown (loose.loose _ flown).2 given,fun x more => loose.loose x more.1⟩
  exact ⟨_,freed,loose',⟨own,rfl,rfl,rfl,rfl,rfl,rfl,fun p _ => setDev_ne (unowned p)⟩,entries⟩

end Quiet

section Pointers
variable {s : SfsFs} {d i : Nat}

def Remains (s : SfsFs) (d k x : Nat) : Prop := x = d ∨ (x ≠ 0 ∧ ∃ j,k ≤ j ∧ entBlock s.dev d j = x)

structure Distinct (s : SfsFs) (d : Nat) : Prop where
  single : ∀ j l,entBlock s.dev d j ≠ 0 → entBlock s.dev d j = entBlock s.dev d l → j = l
  apart : ∀ j,entBlock s.dev d j ≠ d

lemma reclaimEntries_run (pos : d ≠ 0) (n : Nat) : ∀ k (s : SfsFs),k + n = sfsBlkNentry → Loose s (Remains s d k) → Distinct s d →
    ∃ t,reclaimEntries d k n s = .ok () t ∧ Loose t (· = d) ∧ Quiet s t := by
  induction n with
  | zero =>
    intro k s total loose _
    refine ⟨s,rfl,loose.congr fun x => ⟨.inl,?_⟩,.refl s⟩
    rintro (rfl | ⟨has,j,above,rfl⟩)
    · rfl
    exact absurd (entBlock_far (by omega)) has
  | succ n ih =>
    intro k s _ loose once
    have inside : k < sfsBlkNentry := by omega
    have read : entBlock s.dev d k = readEnt (s.dev d) k := entBlock_read pos inside
    by_cases empty : entBlock s.dev d k = 0
    · have skipped := freeSub_none loose.blocks.toGeometry (loose.blocks.flight_used (.inl rfl)) pos inside (read ▸ empty)
      have loose' : Loose s (Remains s d (k + 1)) := by
        refine loose.congr fun x => or_congr_right (and_congr_right fun has => ⟨?_,?_⟩)
        · rintro ⟨j,above,eq⟩
          exact ⟨j,by omega,eq⟩
        rintro ⟨j,above,rfl⟩
        refine ⟨j,?_,rfl⟩
        by_contra low
        exact has ((show j = k by omega) ▸ empty)
      obtain ⟨t,ran,done,quiet⟩ := ih (k + 1) s (by omega) loose' once
      refine ⟨t,?_,done,quiet⟩
      simp only [reclaimEntries,rules,attempt_ok skipped,ran]
    have flown : Remains s d k (readEnt (s.dev d) k) := .inr ⟨read ▸ empty,k,le_refl _,read⟩
    obtain ⟨u,freed,loose',quiet,entries⟩ := loose.freeSub (.inl rfl) inside (read ▸ empty) flown
    rw [← read] at loose'
    have distinct' : Distinct u d := by
      refine ⟨fun j l has eq => ?_,fun j => ?_⟩
      · rw [entries] at has eq
        split at has
        · exact absurd rfl has
        rename_i ne
        rw [if_neg ne,entries] at eq
        split at eq
        · exact absurd eq has
        exact once.single j l has eq
      rw [entries]
      split
      · exact Ne.symm pos
      exact once.apart j
    have remains : Loose u (Remains u d (k + 1)) := by
      refine loose'.congr fun x => ⟨?_,?_⟩
      · rintro (rfl | ⟨has,j,above,eq⟩)
        · exact ⟨.inl rfl,Ne.symm (once.apart k)⟩
        rw [entries,if_neg (by omega)] at eq
        refine ⟨.inr ⟨has,j,by omega,eq⟩,fun equal => ?_⟩
        have := once.single j k (by rw [eq]; exact has) (eq.trans equal)
        omega
      rintro ⟨rfl | ⟨has,j,_,eq⟩,ne⟩
      · exact .inl rfl
      have far : j ≠ k := by
        rintro rfl
        exact ne eq.symm
      exact .inr ⟨has,j,by omega,by rw [entries,if_neg far]; exact eq⟩
    obtain ⟨t,ran,done,quiet'⟩ := ih (k + 1) u (by omega) remains distinct'
    refine ⟨t,?_,done,quiet.trans quiet'⟩
    simp only [reclaimEntries,rules,attempt_ok freed,ran]

structure Bare (s : SfsFs) (i : Nat) (flight : Nat → Prop) : Prop where
  flown : ∀ x,flight x ↔ x ≠ 0 ∧ ∃ spot,spotBlock s.dev (s.node i).din i spot = x
  single : ∀ p q,spotBlock s.dev (s.node i).din i p ≠ 0 →
    spotBlock s.dev (s.node i).din i p = spotBlock s.dev (s.node i).din i q → p = q
  empty : ∀ idx,leafBlock s.dev (s.node i).din idx = 0

lemma Loose.drop {flight : Nat → Prop} (loose : Loose s flight) (b : Nat) (sure : b ≠ 0 → flight b) :
    ∃ t,when (b ≠ 0) (sfsBlockFree b) s = .ok () t ∧ Loose t (fun x => flight x ∧ x ≠ b) ∧ Quiet s t ∧ t.dev = s.dev := by
  by_cases none : b = 0
  · refine ⟨s,by simp [none],loose.congr fun x => ⟨fun h => h.1,fun h => ⟨h,?_⟩⟩,.refl s,rfl⟩
    rw [none]
    exact (loose.loose x h).1
  obtain ⟨t,freed,new⟩ := loose.free (sure none)
  exact ⟨t,by simp [none,freed],new⟩

lemma Bare.rest {flight : Nat → Prop} (bare : Bare s i flight) (x : Nat) : ((flight x ∧ x ≠ i) ∧ x ≠ (s.node i).din.indirect) ↔
      x ≠ 0 ∧ (x = (s.node i).din.dbIndirect ∨ ∃ j,entBlock s.dev (s.node i).din.dbIndirect j = x) := by
  rw [bare.flown]
  constructor
  · rintro ⟨⟨⟨has,spot,rfl⟩,notSelf⟩,notInd⟩
    cases spot with
    | self => exact absurd rfl notSelf
    | leaf idx => exact absurd (bare.empty idx) has
    | ind => exact absurd rfl notInd
    | dbl => exact ⟨has,.inl rfl⟩
    | mid j => exact ⟨has,.inr ⟨j,rfl⟩⟩
  have ne : ∀ spot ≠ .self,spot ≠ .ind → spotBlock s.dev (s.node i).din i spot ≠ 0 →
      spotBlock s.dev (s.node i).din i spot ≠ i ∧ spotBlock s.dev (s.node i).din i spot ≠ (s.node i).din.indirect :=
    fun spot notSelf notInd has => ⟨fun eq => notSelf (bare.single spot .self has eq),fun eq => notInd (bare.single spot .ind has eq)⟩
  rintro ⟨has,rfl | ⟨j,rfl⟩⟩
  · obtain ⟨notSelf,notInd⟩ := ne .dbl (by simp) (by simp) has
    exact ⟨⟨⟨has,.dbl,rfl⟩,notSelf⟩,notInd⟩
  obtain ⟨notSelf,notInd⟩ := ne (.mid j) (by simp) (by simp) has
  exact ⟨⟨⟨has,.mid j,rfl⟩,notSelf⟩,notInd⟩

lemma reclaimPointers_run {flight : Nat → Prop} (loose : Loose s flight) (bare : Bare s i flight) (pos : i ≠ 0) :
    ∃ t,reclaimPointers i s = .ok () t ∧ Blocks t (fun _ => False) ∧ Quiet s t := by
  obtain ⟨u,freed,loose1,quiet1,dev1⟩ := loose.free ((bare.flown i).mpr ⟨pos,.self,rfl⟩)
  obtain ⟨v,cut,loose2,quiet2,dev2⟩ := loose1.drop (s.node i).din.indirect fun has => ⟨(bare.flown _).mpr ⟨has,.ind,rfl⟩,fun eq => by cases bare.single .ind .self has eq⟩
  have dev : v.dev = s.dev := dev2.trans dev1
  have left := loose2.congr fun x => (bare.rest x).symm
  have run : reclaimPointers i s = when ((s.node i).din.dbIndirect ≠ 0) (reclaimEntries (s.node i).din.dbIndirect 0 sfsBlkNentry >>=
      fun _ => sfsBlockFree (s.node i).din.dbIndirect) v := by
    simp only [reclaimPointers,rules,freed,quiet1.node,cut]
  by_cases none : (s.node i).din.dbIndirect = 0
  · refine ⟨v,by rw [run]; simp [none],left.blocks.congr_flight fun x => ⟨False.elim,?_⟩,quiet1.trans quiet2⟩
    rintro ⟨has,rfl | ⟨j,rfl⟩⟩
    · exact has none
    exact has (by rw [none,entBlock_zero])
  have once : Distinct v (s.node i).din.dbIndirect := by
    refine ⟨fun j l has eq => ?_,fun j eq => ?_⟩
    · rw [dev] at has eq
      exact Spot.mid.inj (bare.single (.mid j) (.mid l) has eq)
    rw [dev] at eq
    cases bare.single .dbl (.mid j) none eq.symm
  have remains : Loose v (Remains v (s.node i).din.dbIndirect 0) := by
    refine left.congr fun x => ?_
    rw [Remains,dev]
    constructor
    · rintro (rfl | ⟨has,j,_,eq⟩)
      · exact ⟨none,.inl rfl⟩
      exact ⟨has,.inr ⟨j,eq⟩⟩
    rintro ⟨has,eq | ⟨j,eq⟩⟩
    · exact .inl eq
    exact .inr ⟨has,j,Nat.zero_le _,eq⟩
  obtain ⟨w,looped,loose3,quiet3⟩ := reclaimEntries_run none sfsBlkNentry 0 v (zero_add _) remains once
  obtain ⟨t,last,loose4,quiet4,_⟩ := loose3.free rfl
  refine ⟨t,?_,loose4.blocks.congr_flight fun x => ⟨False.elim,fun h => h.2 h.1⟩,((quiet1.trans quiet2).trans quiet3).trans quiet4⟩
  rw [run]
  simp only [ne_eq,none,rules,when_true,looped,last]

end Pointers

section Gone
variable {s : SfsFs} {i : Nat}

lemma reclaimBlocks_run (n : Nat) : ∀ s : SfsFs,Blocks s (fun _ => False) → i ∈ s.inodeList → (s.node i).din.blocks = n →
    ∃ t,reclaimBlocks i n s = .ok () t ∧ Blocks t (fun _ => False) ∧ Frame s t i ∧ Apart s t i ∧ (t.node i).din.blocks = 0 := by
  induction n with
  | zero => exact fun s blocks _ none => ⟨s,rfl,blocks,.refl s i,.refl s i,none⟩
  | succ n ih =>
    intro s blocks listed _
    obtain ⟨u,cut,shrunk⟩ := bmapTruncate_run blocks listed (by omega)
    obtain ⟨t,ran,blocks',frame,ne,none⟩ := ih u shrunk.blocks (shrunk.frame.inodeList ▸ listed) (by rw [shrunk.count]; omega)
    refine ⟨t,?_,blocks',shrunk.frame.trans frame,(shrunk.apart blocks).trans ne,none⟩
    simp only [reclaimBlocks,rules,attempt_ok cut,ran]

def SfsFs.forget (s : SfsFs) (i : Nat) : SfsFs :=
  {s with inodes:=s.inodes.filter (· ≠ i),inodeList:=s.inodeList.filter (· ≠ i)}

lemma forget_apart (s : SfsFs) (i : Nat) : Apart s (s.forget i) i := by
  have din j : j ≠ i → (s.forget i).din j = s.din j := by
    intro ne
    simp [SfsFs.din,forget,ne]
  refine ⟨fun j ne => by simp [forget,ne],fun j ne => by simp [forget,ne],fun _ _ => rfl,fun j ne spot => ?_,fun _ _ _ => rfl,fun _ _ _ _ => rfl⟩
  by_cases mem : j ∈ s.inodes
  · rw [own_inode mem,own_inode (s:=s.forget i) (by simp [forget,mem,ne]),din j ne]
    rfl
  rw [own_none mem,own_none (s:=s.forget i) (by simp [forget,mem])]

lemma forget_absent (s : SfsFs) (i : Nat) : i ∉ (s.forget i).inodes := by simp [forget]

lemma forget_loose (blocks : Blocks s (fun _ => False)) (ne : i ≠ sfsBlknRoot) : Loose (s.forget i) (fun x => x ≠ 0 ∧ ∃ spot,s.own (i,spot) = x) := by
  have far := forget_apart s i
  have own : ∀ q,(s.forget i).own q = if q.1 = i then 0 else s.own q := by
    rintro ⟨j,spot⟩
    by_cases here : j = i
    · subst here
      rw [if_pos rfl,own_none (forget_absent s j)]
    rw [if_neg here,far.own j here]
  have old : ∀ j ∈ (s.forget i).inodes,j ∈ s.inodes ∧ j ≠ i := by
    intro j mem
    simpa [forget] using mem
  refine ⟨⟨{blocks with},?_,fun j mem idx => ?_,fun j listed => ?_,
    fun j mem => blocks.nonzero j (old j mem).1,?_⟩,?_⟩
  · refine (blocks.exact.abandon (fun q => q.1 = i)).congr own (fun _ => .rfl) fun x => ?_
    constructor
    · rintro (fixed | ⟨has,spot,eq⟩)
      · exact .inl (.inl fixed)
      exact .inr ⟨has,(i,spot),rfl,eq⟩
    rintro ((fixed | no) | ⟨has,⟨j,spot⟩,rfl,eq⟩)
    · exact .inl fixed
    · exact no.elim
    exact .inr ⟨has,spot,eq⟩
  · obtain ⟨member',apart'⟩ := old j mem
    rw [far.din member' apart']
    exact blocks.mapped j member' idx
  · have : j ∈ s.inodeList ∧ j ≠ i := by simpa [forget] using listed
    exact (far.inodes j this.2).mpr (blocks.cached j this.1)
  · exact (far.inodes _ (Ne.symm ne)).mpr blocks.root
  rintro b ⟨has,_,rfl⟩
  exact ⟨has,blocks.own_loose has⟩

lemma forget_bare (blocks : Blocks s (fun _ => False)) (listed : i ∈ s.inodeList) (none : (s.node i).din.blocks = 0) :
    Bare (s.forget i) i (fun x => x ≠ 0 ∧ ∃ spot,s.own (i,spot) = x) := by
  have mem := blocks.cached i listed
  have spots : ∀ spot,spotBlock (s.forget i).dev ((s.forget i).node i).din i spot = s.own (i,spot) := fun spot => (own_listed listed mem spot).symm
  refine ⟨fun x => by simp only [spots],fun p q has eq => ?_,fun idx => ?_⟩
  · rw [spots] at has eq
    rw [spots] at eq
    exact congrArg Prod.snd (blocks.exact.single (i,p) (i,q) has eq)
  by_contra has
  have cap := (blocks.mapped i mem idx).mp (by rw [din_listed listed]; exact has)
  rw [din_listed listed,none] at cap
  omega

end Gone

section Release
variable {s : SfsFs} {i : Nat} {held : List Nat}

def refDown (n : SfsInode) : SfsInode := {n with refCount:=n.refCount - 1}
def spent (n : SfsInode) : SfsInode := {n with refCount:=n.refCount - 1,reclaimCount:=n.reclaimCount - 1}

lemma setNode_setNode (s : SfsFs) (i : Nat) (f g : SfsInode → SfsInode) : (s.setNode i f).setNode i g = s.setNode i (g ∘ f) := by
  simp only [setNode]
  congr
  funext x
  split <;> rfl

lemma refDec_more (more : 1 < (s.node i).refCount) : vopRefDec held i s = .ok () (s.setNode i refDown) := by
  have has : 0 < (s.node i).refCount := by omega
  have left : ¬ (s.node i).refCount - 1 = 0 := by omega
  simp only [vopRefDec,rules,has,left,decide_false,when_false]
  rfl

section
variable (tidy : Tidy s) (listed : i ∈ s.inodeList) (last : (s.node i).refCount = 1) (closed : (s.node i).openCount = 0)
include tidy listed last closed

-- The last reference: sfs_reclaim goes on with the counts at zero.
lemma refDec_last (flushed : reclaimFlush held i (refDown (s.node i)) (s.setNode i spent) = .ok () t)
    (ended : reclaimEnd i ((s.node i).din.nlinks = 0) t = .ok () u) : vopRefDec held i s = .ok () u := by
  have unopened : (refDown (s.node i)).openCount = 0 := closed
  have counts : (refDown (s.node i)).refCount = 0 := by simp [refDown,last]
  have reclaim : (refDown (s.node i)).reclaimCount = 1 := (tidy.held listed).reclaim
  have node : (s.setNode i refDown).node i = refDown (s.node i) := setNode_self s i refDown
  have both : (s.setNode i refDown).setNode i (fun n => {n with reclaimCount:=n.reclaimCount - 1}) = s.setNode i spent := setNode_setNode s i _ _
  have done : sfsReclaim held i (s.setNode i refDown) = .ok () u := by
    simp only [sfsReclaim,rules,node,reclaim,counts,unopened,Nat.sub_self,Nat.one_pos,ne_eq,Bool.and_self,both,flushed]
    exact ended
  simp only [vopRefDec,rules,last,Nat.one_pos,Nat.sub_self,when_true]
  change ((attempt _ (s.setNode i refDown)).next _) = _
  rw [attempt_ok done]
  rfl

-- Nobody holds the inode and no entry names it: its blocks are free again.
lemma refDec_gone (unlinked : (s.node i).din.nlinks = 0) (ne : i ≠ sfsBlknRoot) : ∃ t,vopRefDec held i s = .ok () t ∧ Went s t (s.ns.drop i) ∧ t.tick = s.tick := by
  have map : SameMap (s.node i).din (spent (s.node i)).din := ⟨rfl,rfl,rfl⟩
  obtain ⟨v,cut,blocks,frame,far,none⟩ := reclaimBlocks_run (i:=i) (s.node i).din.blocks (s.setNode i spent)
    (tidy.blocks.setNode listed map rfl) listed (by rw [setNode_self]; rfl)
  have listed' : i ∈ v.inodeList := frame.inodeList ▸ listed
  have member' := blocks.cached i listed'
  obtain ⟨t,freed,new,quiet⟩ := reclaimPointers_run (forget_loose blocks ne) (forget_bare blocks listed' none) (blocks.nonzero i member')
  have all : Apart s t i := ((apart_setNode s i spent).trans far).trans
    ((forget_apart v i).trans (quiet.apart (forget_loose blocks ne).blocks i))
  have out : i ∉ t.inodes := by
    rw [quiet.inodes]
    exact forget_absent v i
  refine ⟨t,refDec_last tidy listed last closed (t:=v) ?_ ?_,⟨Sound.next tidy all new (fun _ _ h => h) fun mem => absurd mem out,all.drop out,?_⟩,?_⟩
  · have zero : (refDown (s.node i)).din.nlinks = 0 := unlinked
    simp only [reclaimFlush,zero,if_true]
    exact cut
  · simp only [reclaimEnd,unlinked,rules,when_true,sfsRemoveLinks]
    exact freed
  · exact all.kept (quiet.heap.trans frame.heap) (fun _ mem => absurd mem out) (fun mem => absurd mem out)
      (fun _ mem => absurd mem out) fun mem => absurd mem out
  exact quiet.tick.trans frame.tick

end

def SfsFs.evict (s : SfsFs) (i : Nat) : SfsFs := {s with inodeList:=s.inodeList.filter (· ≠ i)}

lemma din_evict (s : SfsFs) (stored : readInode (s.dev i) = s.din i) (j : Nat) : (s.evict i).din j = s.din j := by
  by_cases here : j = i
  · subst here
    simp [SfsFs.evict,SfsFs.din] at stored ⊢
    exact stored
  simp [SfsFs.evict,SfsFs.din,here]

lemma own_evict (s : SfsFs) (stored : readInode (s.dev i) = s.din i) : (s.evict i).own = s.own := by
  funext ⟨j,spot⟩
  simp only [SfsFs.own,din_evict s stored]
  rfl

lemma evict_apart (s : SfsFs) (stored : readInode (s.dev i) = s.din i) : Apart s (s.evict i) i :=
  ⟨fun _ _ => .rfl,fun j ne => by simp [SfsFs.evict,ne],fun _ _ => rfl,fun j _ spot => congrFun (own_evict s stored) (j,spot),fun _ _ _ => rfl,fun _ _ _ _ => rfl⟩

lemma Blocks.evict {flight : Nat → Prop} (blocks : Blocks s flight) (stored : readInode (s.dev i) = s.din i) : Blocks (s.evict i) flight :=
  ⟨{blocks with},blocks.exact.congr (congrFun (own_evict s stored)) (fun _ => .rfl) (fun _ => .rfl),
    fun j mem idx => by rw [din_evict s stored]; exact blocks.mapped j mem idx,
    fun j listed => blocks.cached j (by simpa [SfsFs.evict] using (List.mem_filter.mp listed).1),
    blocks.nonzero,blocks.root⟩

structure Parked (s e : SfsFs) (i : Nat) : Prop where
  blocks : Blocks e (fun _ => False)
  apart : Apart s e i
  own : e.own = s.own
  din : e.din i = (s.node i).din
  stored : readInode (e.dev i) = (s.node i).din
  leaf : ∀ idx,s.own (i,.leaf idx) ≠ 0 → e.dev (s.own (i,.leaf idx)) = s.dev (s.own (i,.leaf idx))
  inodes : e.inodes = s.inodes
  heap : e.heap = s.heap

lemma Parked.evict (parked : Parked s e i) (tidy : Tidy s) (listed : i ∈ s.inodeList) (last : (s.node i).refCount = 1)
    (closed : (s.node i).openCount = 0) (has : (s.node i).removed = false) (links : (s.node i).din.nlinks ≠ 0) :
    Went s (e.evict i) (s.ns.alter i decRefs) := by
  have stored : readInode (e.dev i) = e.din i := parked.stored.trans parked.din.symm
  have din : (e.evict i).din i = (s.node i).din := (din_evict e stored i).trans parked.din
  have own : (e.evict i).own = s.own := (own_evict e stored).trans parked.own
  have ne : Apart s (e.evict i) i := parked.apart.trans (evict_apart e stored)
  have away : i ∉ (e.evict i).inodeList := by simp [SfsFs.evict]
  have fine := tidy.fine i (tidy.blocks.cached i listed)
  have sized := fine.sized
  rw [din_listed listed] at sized
  refine ⟨Sound.next tidy ne (parked.blocks.evict stored) (fun _ _ h => h) fun _ => ?_,ne.alter (by rw [← parked.inodes]; rfl) fun _ => ?_,?_⟩
  · refine ⟨by rw [din]; exact tidy.fits listed,by rw [din]; exact sized,fun _ => by rw [din]; exact links,fun h => absurd h away,fun h => absurd h away⟩
  · have slot : (e.evict i).slot i = s.slot i := by
      funext k
      simp only [SfsFs.slot,own,din,din_listed listed]
      by_cases empty : s.own (i,.leaf k) = 0
      · simp [empty]
      rw [show (e.evict i).dev = e.dev from rfl,parked.leaf k empty]
    rw [item_listed listed]
    simp only [item,SfsInode.item,decRefs,din,slot,away,last,closed,has]
    simp
  exact ne.kept parked.heap (fun _ _ => by rw [din,din_listed listed]) (fun _ _ _ => by rw [own])
    (fun _ _ _ => by rw [din,din_listed listed]) fun _ _ idx held => parked.leaf idx held

lemma parked_clean (tidy : Tidy s) (listed : i ∈ s.inodeList) (clean : (s.node i).dirty = false) (links : (s.node i).din.nlinks ≠ 0) : Parked s (s.setNode i spent) i where
  blocks := tidy.blocks.setNode listed ⟨rfl,rfl,rfl⟩ rfl
  apart := apart_setNode s i spent
  own := own_sameMap listed ⟨rfl,rfl,rfl⟩
  din := din_setNode listed
  stored := (tidy.fine i (tidy.blocks.cached i listed)).clean listed id clean links
  leaf _ _ := rfl
  inodes := rfl
  heap := rfl

lemma parked_flush (tidy : Tidy s) (listed : i ∈ s.inodeList) : Parked s ((s.setNode i spent).flush i) i := by
  have mem := tidy.blocks.cached i listed
  have state : (s.setNode i spent).flush i = (s.setNode i (washed ∘ spent)).setBlock i
      (copy (s.dev i) 0 diskInodeSize (inodeBytes (s.node i).din)) := by
    simp only [flush,setNode_setNode,setNode_self]
    rfl
  rw [state]
  have blocks : Blocks (s.setNode i (washed ∘ spent)) (fun _ => False) := tidy.blocks.setNode listed ⟨rfl,rfl,rfl⟩ rfl
  have plain : Plain (s.setNode i (washed ∘ spent)) i := blocks.plain_of_self listed
  have eq : (s.setNode i (washed ∘ spent)).own = s.own := own_sameMap listed ⟨rfl,rfl,rfl⟩
  have mine : s.own (i,.self) = i := own_inode mem .self
  refine ⟨blocks.setBlock plain,(apart_setNode s i _).trans (apart_setSelf blocks listed _),?_,?_,?_,fun idx held => ?_,rfl,rfl⟩
  · rw [own_setBlock plain,eq]
  · rw [din_setBlock plain mem,din_setNode listed]
    rfl
  · change readInode (setDev s.dev i _ i) = _
    rw [setDev_same]
    exact readInode_write (tidy.fits listed)
  exact setDev_ne (self_ne_leaf tidy.blocks listed held)

lemma refDec_evict (tidy : Tidy s) (listed : i ∈ s.inodeList) (last : (s.node i).refCount = 1) (closed : (s.node i).openCount = 0)
    (has : (s.node i).removed = false) (links : (s.node i).din.nlinks ≠ 0) (free : i ∉ held) :
    ∃ t,vopRefDec held i s = .ok () t ∧ Went s t (s.ns.alter i decRefs) ∧ t.tick = s.tick := by
  have some_ : ¬ (refDown (s.node i)).din.nlinks = 0 := links
  have ended : ∀ e : SfsFs,reclaimEnd i ((s.node i).din.nlinks = 0) e = .ok () (e.evict i) := by
    intro e
    simp only [reclaimEnd,links,decide_false,rules,when_false,sfsRemoveLinks]
    rfl
  cases dirty : (s.node i).dirty with
  | false =>
    have parked := parked_clean tidy listed dirty links
    refine ⟨_,refDec_last tidy listed last closed ?_ (ended _),parked.evict tidy listed last closed has links,rfl⟩
    have clean : (refDown (s.node i)).dirty = false := dirty
    simp only [reclaimFlush,some_,if_false,clean,when_false]
  | true =>
    have parked := parked_flush tidy listed
    have node := setNode_self s i spent
    refine ⟨_,refDec_last tidy listed last closed ?_ (ended _),parked.evict tidy listed last closed has links,rfl⟩
    have marked : (refDown (s.node i)).dirty = true := dirty
    simp only [reclaimFlush,some_,if_false,marked,when_true]
    exact fsync_write (tidy.blocks.setNode listed ⟨rfl,rfl,rfl⟩ rfl) listed (by rw [node]; exact links) (by rw [node]; exact dirty)
      (by rw [node]; exact has) free

structure Droppable (r : Item) (i : Nat) (held : List Nat) : Prop where
  spare : r.opens < r.refs
  gone : r.removed = true → r.nlinks = 0
  root : r.refs = 1 → r.nlinks = 0 → i ≠ sfsBlknRoot
  free : r.refs = 1 → i ∉ held

lemma refDec_run (tidy : Tidy s) (got : s.ns i = some r) (held : List Nat) (droppable : Droppable r i held) :
    ∃ t,vopRefDec held i s = .ok () t ∧ Went s t (s.ns.release i) ∧ t.tick = s.tick := by
  have spare := droppable.spare
  obtain ⟨listed,rfl⟩ := listed_of got (by omega)
  have opens : (s.node i).openCount < (s.node i).refCount := spare
  by_cases last : (s.node i).refCount = 1
  · have closed : (s.node i).openCount = 0 := by omega
    by_cases links : (s.node i).din.nlinks = 0
    · obtain ⟨t,ran,went,tick⟩ := refDec_gone tidy listed last closed links (droppable.root last links)
      refine ⟨t,ran,?_,tick⟩
      have eq : s.ns.release i = s.ns.drop i := by
        simp only [Ns.release,got]
        exact if_pos ⟨last,links⟩
      rwa [eq]
    have has : (s.node i).removed = false := by
      by_contra has
      have removed : (s.node i).removed = true := by simpa using has
      exact links (droppable.gone removed)
    obtain ⟨t,ran,went,tick⟩ := refDec_evict tidy listed last closed has links (droppable.free last)
    refine ⟨t,ran,?_,tick⟩
    have eq : s.ns.release i = s.ns.alter i decRefs := by
      simp only [Ns.release,got]
      exact if_neg fun h => links h.2
    rwa [eq]
  have held := tidy.held listed
  have more : 1 < (s.node i).refCount := by
    have := held.refs
    omega
  have eq : s.ns.release i = s.ns.alter i decRefs := by
    simp only [Ns.release,got]
    exact if_neg fun h => last h.1
  rw [eq]
  obtain ⟨went,_⟩ := held_setNode (f:=refDown) (g:=decRefs) tidy listed
    ⟨by simp only [refDown]; omega,held.reclaim,by simp only [refDown]; omega,held.kind⟩ rfl rfl fun _ => rfl
  exact ⟨_,refDec_more more,went,rfl⟩

end Release
end Ucore.Sfs
