import Ucore.Sfs.Calls
import Ucore.Sfs.Namefile

-- What any sequence of calls keeps.
namespace Ucore.Sfs
open Bytes Outcomes Runs Forest Call Change Ns
variable {s t u : SfsFs} {ns : Ns}

def Call.Roomy (ns : Ns) : Call → Prop
  | .mkdir d _ => ∀ r,ns d = some r → r.nlinks < 65535
  | .link _ _ x => ∀ q,ns x = some q → q.nlinks < 65535
  | .rename d name d' _ => ∀ k x r,ns.entry d k = some (x,name) → ns.isDir x → ns d' = some r → r.nlinks < 65535
  | _ => True

def Call.Outward (ns : Ns) : Call → Prop
  | .rename d name d' _ => ∀ k x,ns.entry d k = some (x,name) → ns.isDir x → ¬ Below ns.above x d'
  | _ => True

def Call.Clear (ns : Ns) : Call → Prop
  | .unlink d name => ∀ k x,ns.entry d k = some (x,name) → ∀ j e,j ≠ x → ns.dir j = some e → e.parent ≠ x
  | _ => True

def Call.step (s : SfsFs) (c : Call) (t : SfsFs) : Prop := c.Ready s.ns ∧ (c.act s = .ok () t ∨ ∃ e,c.act s = .err e t)

def Call.success (s : SfsFs) (c : Call) (t : SfsFs) : Prop := c.Ready s.ns ∧ c.act s = .ok () t

def Calls (step : SfsFs → Call → SfsFs → Prop) (meets : SfsFs → Call → Prop) (s : SfsFs) (c : Call) (t : SfsFs) : Prop :=
  step s c t ∧ meets s c

section Step
variable {c : Call} {ch : Change}

def Call.Causes (s : SfsFs) (c : Call) (ch : Change) : Prop := c.Makes ch ∨ c.Leaves s ch

lemma Call.step_via (cons : Consistent s) (way : s.ns.Upheld ∨ c.Straight) (stepped : c.step s t) : ∃ ch,c.Causes s ch ∧ Via s t ch := by
  have ended := c.run cons stepped.1 way
  obtain ran | ⟨e,ran⟩ := stepped.2
  · rw [ran] at ended
    obtain ⟨-,ch,makes,via⟩ := ended
    exact ⟨ch,.inl makes,via⟩
  rw [ran] at ended
  obtain ⟨ch,leaves,via⟩ := ended
  exact ⟨ch,.inr leaves,via⟩

lemma Call.success_via (cons : Consistent s) (way : s.ns.Upheld ∨ c.Straight) (stepped : c.success s t) : ∃ ch,c.Makes ch ∧ Via s t ch := by
  have ended := c.run cons stepped.1 way
  rw [stepped.2] at ended
  obtain ⟨-,ch,makes,via⟩ := ended
  exact ⟨ch,makes,via⟩

lemma Call.leaves_cases (leaves : c.Leaves s ch) :
    ch = .same ∨ ∃ d name d' newName k x isdir,c = .rename d name d' newName ∧ Lost s d name d' newName x ∧ ch = .lose d k x name isdir := by
  cases c with
  | rename d name d' newName =>
    obtain ⟨-,rfl⟩ | ⟨k,x,isdir,lost,rfl⟩ := leaves
    · exact .inl rfl
    exact .inr ⟨d,name,d',newName,k,x,isdir,rfl,lost,rfl⟩
  | _ => exact .inl leaves

lemma Ns.Entry.entry (entry : ns.Entry d k x name r q) : ns.entry d k = some (x,name) := (entry_found entry.found k).trans entry.slot

namespace Call

lemma makes_mkdir (makes : c.Makes (.mkdir d k i name)) : c = .mkdir d name := by cases c <;> simp_all [Call.Makes]

lemma makes_link (makes : c.Makes (.link d k x name)) : c = .link d name x := by cases c <;> simp_all [Call.Makes]

lemma makes_rmdir (makes : c.Makes (.rmdir d k x name)) : c = .unlink d name := by cases c <;> simp_all [Call.Makes]

lemma makes_move (makes : c.Makes (.move d k x name d' k' newName isdir)) : c = .rename d name d' newName := by cases c <;> simp_all [Call.Makes]

section
variable (makes : c.Makes ch) (based : ch.Based ns)
include makes based

lemma makes_counted (roomy : c.Roomy ns) : ch.Counted ns := by
  cases ch with
  | mkdir d k i name =>
    cases makes_mkdir makes
    exact roomy
  | link d k x name =>
    cases makes_link makes
    exact roomy
  | move d k x _ _ _ _ _ =>
    cases makes_move makes
    intro dir r got
    obtain ⟨p,_,q,entry,-,-,kind,-⟩ := based
    rw [kind] at dir
    exact roomy k x r entry.entry ⟨q,entry.target,of_decide_eq_true dir⟩ got
  | _ => trivial

lemma makes_outward (outward : c.Outward ns) : ch.Outward ns := by
  cases ch with
  | move d k x _ _ _ _ _ =>
    cases makes_move makes
    intro dir
    obtain ⟨p,_,q,entry,-,-,kind,-⟩ := based
    rw [kind] at dir
    exact outward k x entry.entry ⟨q,entry.target,of_decide_eq_true dir⟩
  | _ => trivial

lemma makes_clear (clear : c.Clear ns) : ch.Clear ns := by
  cases ch with
  | rmdir d k x _ =>
    cases makes_rmdir makes
    obtain ⟨r,q,entry,-⟩ := based
    exact clear k x entry.entry
  | _ => trivial

end

lemma makes_kept (makes : c.Makes ch) : ¬ ch.Sheds := by
  cases ch with
  | lose d k x _ _ => cases c <;> simp_all [Call.Makes]
  | _ => exact id

lemma causes_valid (causes : c.Causes s ch) (based : ch.Based s.ns) (roomy : c.Roomy s.ns) : ch.Valid s.ns := by
  obtain makes | leaves := causes
  · exact based.valid ch (c.makes_counted makes based roomy)
  obtain rfl | ⟨d,_,_,_,k,x,_,-,-,rfl⟩ := c.leaves_cases leaves
  · trivial
  exact based

lemma causes_clear (causes : c.Causes s ch) (based : ch.Based s.ns) (clear : c.Clear s.ns) : ch.Clear s.ns := by
  obtain makes | leaves := causes
  · exact c.makes_clear makes based clear
  obtain rfl | ⟨d,_,_,_,k,x,_,-,-,rfl⟩ := c.leaves_cases leaves <;> trivial

lemma causes_kept (causes : c.Causes s ch) (safe : ¬ c.Loses s) : ¬ ch.Sheds := by
  obtain makes | leaves := causes
  · exact c.makes_kept makes
  obtain rfl | ⟨d,_,_,_,k,x,_,rfl,lost,rfl⟩ := c.leaves_cases leaves
  · exact id
  exact fun _ => safe ⟨x,lost⟩

end Call

lemma Consistent.after (cons : Consistent s) (valid : ch.Valid s.ns) (went : Went s t (ch.apply s.ns)) : Consistent t :=
  ⟨went.tidy,went.ns ▸ Change.sane cons.sane cons.tidy.bounded ch valid⟩

end Step

def SfsFs.roomy (s : SfsFs) (d : Nat) : Bool := (s.ns d).any fun r => r.type = sfsTypeDir && 0 < r.refs && r.nlinks < 65535

lemma roomy_open (room : s.roomy d = true) : s.ns.Opened d ∧ ∀ r,s.ns d = some r → r.nlinks < 65535 := by
  simp only [SfsFs.roomy,Option.any_eq_true,Bool.and_eq_true,decide_eq_true_eq] at room
  obtain ⟨r,got,⟨dir,held⟩,few⟩ := room
  refine ⟨⟨r,got,held,dir⟩,fun q found => ?_⟩
  cases got.symm.trans found
  exact few

-- What a run is asked at each call, as far as it can be computed.
def Call.sure (cut : Bool) (s : SfsFs) : Call → Bool
  | .create d _ _ | .mkdir d _ => s.roomy d
  | .link d _ x => s.roomy d && (s.ns x).any fun q => 0 < q.refs && q.nlinks < 65535
  | .unlink d _ => cut && s.roomy d
  | .rename d _ d' _ => s.roomy d && s.roomy d' && d' = sfsBlknRoot
  | .lookup d path => s.roomy d && path = nameA
  | _ => false

structure Careful (cut : Bool) (s : SfsFs) (c : Call) (t : SfsFs) : Prop where
  success : c.success s t
  roomy : c.Roomy s.ns
  outward : c.Outward s.ns
  kept : ¬ c.Loses s
  straight : c.Straight
  clear : cut = false → c.Clear s.ns

lemma straight_a : Straight nameA := by
  unfold Straight
  split
  all_goals
    rename_i split
    cases split
  decide

lemma Call.sure_careful (cons : Consistent s) (c : Call) (sure : c.sure cut s = true) (ran : c.act s = .ok () t) : Careful cut s c t := by
  have main : c.Ready s.ns ∧ c.Roomy s.ns ∧ c.Outward s.ns ∧ c.Straight ∧ (cut = false → c.Clear s.ns) := by
    cases c with
    | create d _ _ => exact ⟨(roomy_open sure).1,trivial,trivial,trivial,fun _ => trivial⟩
    | mkdir d _ => exact ⟨(roomy_open sure).1,(roomy_open sure).2,trivial,trivial,fun _ => trivial⟩
    | link d _ x =>
      simp only [Call.sure,Option.any_eq_true,Bool.and_eq_true,decide_eq_true_eq] at sure
      obtain ⟨room,q,got,held,few⟩ := sure
      refine ⟨⟨(roomy_open room).1,q,got,held⟩,fun p found => ?_,trivial,trivial,fun _ => trivial⟩
      cases got.symm.trans found
      exact few
    | unlink d _ =>
      obtain ⟨rfl,room⟩ := Bool.and_eq_true_iff.mp sure
      exact ⟨(roomy_open room).1,trivial,trivial,trivial,nofun⟩
    | rename d name d' _ =>
      simp only [Call.sure,Bool.and_eq_true,decide_eq_true_eq] at sure
      obtain ⟨⟨room,room'⟩,rfl⟩ := sure
      refine ⟨⟨(roomy_open room).1,(roomy_open room').1⟩,fun _ _ r _ _ => (roomy_open room').2 r,fun k x held _ below => ?_,trivial,fun _ => trivial⟩
      obtain ⟨p,found,slot⟩ := entry_some held
      have apart := (cons.sane.named d p k x name found slot).2.2.1
      cases below with
      | self => exact apart rfl
      | step up _ => exact absurd up (by simp [Ns.above])
    | lookup d path =>
      obtain ⟨room,plain⟩ := Bool.and_eq_true_iff.mp sure
      obtain ⟨⟨r,got,held,_⟩,-⟩ := roomy_open room
      exact ⟨⟨r,got,held⟩,trivial,trivial,of_decide_eq_true plain ▸ straight_a,fun _ => trivial⟩
    | _ => cases sure
  obtain ⟨ready,roomy,outward,straight,clear⟩ := main
  have ended := c.run cons ready (.inr straight)
  rw [ran] at ended
  exact ⟨⟨ready,ran⟩,roomy,outward,ended.1,straight,clear⟩

-- The directory a and in it a directory b and a file, which gets the name c in
-- the root; b moves to the root and c is unlinked.
def early : List Call := [.mkdir 1 nameA,.lookup 1 nameA,.mkdir 3 nameB,.create 3 nameC true,.link 1 nameC 7,.rename 3 nameB 1 nameB]

def tour : List Call := early ++ [.unlink 1 nameC]

def reply (o : Outcome Err Fault SfsFs α) : Option (α × SfsFs) :=
  match o with
  | .ok a t => some (a,t)
  | _ => none

lemma reply_ok {o : Outcome Err Fault SfsFs α} (ran : reply o = some (a,t)) : o = .ok a t := by
  cases o with
  | ok b u => cases ran; rfl
  | err e u => cases ran
  | fault f => cases ran

lemma careful_path (cons : Consistent s) (path : Path (fun s c t => c.sure cut s = true ∧ (reply (c.act s)).map Prod.snd = some t) s calls t) :
    Consistent t ∧ Path (Careful cut) s calls t := by
  induction path with
  | nil => exact ⟨cons,.nil⟩
  | step _ next ih =>
    obtain ⟨⟨_,_⟩,ran,rfl⟩ := Option.map_eq_some_iff.mp next.2
    have one := sure_careful ih.1 _ next.1 (reply_ok ran)
    obtain ⟨_,makes,based,went⟩ := success_via ih.1 (.inr one.straight) one.success
    exact ⟨ih.1.after (based.valid _ (makes_counted makes based one.roomy)) went,.step ih.2 one⟩

def pathAC : CStr := ⟨[97,47,99],by decide⟩

set_option maxRecDepth 100000 in
lemma fresh_early : ∃ t u r,Path (Careful false) (freshDisk fun _ => true) early t ∧ Careful true t (.unlink 1 nameC) u ∧ Open t 3 r ∧
    (∃ x v,sfsLookupParent 1 pathAC t = .ok x v ∧ x.1 = 3) ∧ u.ns.entry 1 2 = some (5,nameB) ∧ ∃ q,u.ns 5 = some q ∧ q.type = sfsTypeDir := by
  have ran : (Runs.runs (fun s c => sure false s c = true) (fun s c => (reply (c.act s)).map Prod.snd) (freshDisk fun _ => true) early).any (fun t =>
      t.roomy 3 && (reply (sfsLookupParent 1 pathAC t)).any (fun x => x.1.1 = 3) && (Call.unlink 1 nameC).sure true t &&
      (reply ((Call.unlink 1 nameC).act t)).any fun u => u.2.ns.entry 1 2 = some (5,nameB) && (u.2.ns 5).any fun q => q.type = sfsTypeDir) = true := by
    decide +kernel
  simp only [Option.any_eq_true,Bool.and_eq_true,decide_eq_true_eq] at ran
  obtain ⟨t,ran,⟨⟨room,⟨x,v⟩,found,three⟩,sure⟩,⟨_,u⟩,took,rest⟩ := ran
  obtain ⟨cons,path⟩ := careful_path fresh_consistent (Runs.runs_path ran)
  obtain ⟨r,opened⟩ := (roomy_open room).1.open
  exact ⟨t,u,r,path,sure_careful cons _ sure (reply_ok took),opened,⟨x,v,reply_ok found,three⟩,rest⟩

lemma fresh_tour : ∃ u q,Path (Careful true) (freshDisk fun _ => true) tour u ∧ u.ns 5 = some q ∧ q.type = sfsTypeDir ∧ u.ns.entry 1 2 = some (5,nameB) := by
  obtain ⟨t,u,_,path,last,-,-,entry,q,found,dir⟩ := fresh_early
  exact ⟨u,q,.step (path.mono fun _ _ _ c => {c with clear:=nofun}) last,found,dir,entry⟩

lemma fresh_dir {heap : Nat → Bool} {e : Dir} (seen : (freshDisk heap).ns.dir i = some e) : i = 1 ∧ e.parent = 1 ∧ e.removed = false := by
  obtain ⟨r,got,-,rfl⟩ := dir_some seen
  rw [fresh_ns] at got
  dsimp only at got
  split at got
  next root =>
    cases got
    exact ⟨root,rfl,rfl⟩
  next => cases got

lemma fresh_attached {heap : Nat → Bool} : (freshDisk heap).ns.Attached := fun _ _ seen _ ne => absurd (fresh_dir seen).1 ne

def Faithful (s : SfsFs) (c : Call) : Prop := c.Roomy s.ns ∧ c.Straight

lemma faithful_consistent (path : Path (Calls step Faithful) s calls t) (cons : Consistent s) : Consistent t := by
  refine path.invariant (fun u c v good next => ?_) cons
  obtain ⟨_,causes,based,went⟩ := c.step_via good (.inr next.2.2) next.1
  exact good.after (c.causes_valid causes based next.2.1) went

def Ns.Named (ns : Ns) (x : Nat) : Prop := ∃ d k n,ns.entry d k = some (x,n)

structure Alive (s : SfsFs) (x : Nat) : Prop where
  member : x ∈ s.inodes
  inuse : s.used x
  blocks : ∀ spot,s.own (x,spot) ≠ 0 → s.used (s.own (x,spot))

structure Survives (s t : SfsFs) (x : Nat) : Prop where
  own : ∀ spot,s.own (x,spot) ≠ 0 → t.own (x,spot) = s.own (x,spot)
  size : (s.din x).type ≠ sfsTypeDir → (t.din x).size = (s.din x).size
  data : (s.din x).type ≠ sfsTypeDir → ∀ idx,s.own (x,.leaf idx) ≠ 0 → t.dev (s.own (x,.leaf idx)) = s.dev (s.own (x,.leaf idx))

lemma Consistent.alive (cons : Consistent s) (named : s.ns.Named x) : Alive s x := by
  obtain ⟨d,k,n,held⟩ := named
  obtain ⟨r,got,slot⟩ := entry_some held
  obtain ⟨-,-,-,live⟩ := cons.sane.named d r k x n got slot
  have mem := ns_inode.mpr live
  have mine : s.own (x,.self) = x := own_inode mem .self
  have inuse := cons.tidy.blocks.own_used (p:=(x,.self)) (by rw [mine]; exact cons.tidy.blocks.nonzero x mem)
  exact ⟨mem,mine ▸ inuse,fun spot held => cons.tidy.blocks.own_used held⟩

theorem named_inode_survives (cons : Consistent s) (path : Path (Calls Call.step Faithful) s calls t) :
    (∀ x,t.ns.Named x → Alive t x) ∧
    ∀ c u,Calls Call.step Faithful t c u → ∀ x,t.ns.Named x → u.ns.Named x → Survives t u x := by
  have cons := faithful_consistent path cons
  refine ⟨fun x named => cons.alive named,fun c u next x before after => ?_⟩
  obtain ⟨ch,causes,based,went⟩ := c.step_via cons (.inr next.2.2) next.1
  have old := (cons.alive before).member
  have new := ((cons.after (c.causes_valid causes based next.2.1) went).alive after).member
  exact ⟨fun spot held => went.kept.own x new spot held,fun file => went.kept.size x old new file,
    fun file idx held => went.kept.data x new file idx held⟩

lemma Careful.faithful {c : Call} (careful : Careful cut s c t) : Calls step Faithful s c t :=
  ⟨⟨careful.success.1,.inl careful.success.2⟩,careful.roomy,careful.straight⟩

theorem named_inode_survives_fresh : ∃ t,Path (Calls Call.step Faithful) (freshDisk fun _ => true) tour t ∧
    ((∀ x,t.ns.Named x → Alive t x) ∧
    ∀ c u,Calls Call.step Faithful t c u → ∀ x,t.ns.Named x → u.ns.Named x → Survives t u x) := by
  obtain ⟨t,_,path,-⟩ := fresh_tour
  have path := path.mono fun _ _ _ => Careful.faithful
  exact ⟨t,path,named_inode_survives fresh_consistent path⟩

theorem blocks_accounted (cons : Consistent s) (path : Path (Calls Call.step Faithful) s calls t) : Accounted t := (faithful_consistent path cons).tidy.blocks.accounted

theorem blocks_accounted_fresh : ∃ t,Path (Calls Call.step Faithful) (freshDisk fun _ => true) tour t ∧ Accounted t := by
  obtain ⟨t,_,path,-⟩ := fresh_tour
  have path := path.mono fun _ _ _ => Careful.faithful
  exact ⟨t,path,blocks_accounted fresh_consistent path⟩

-- A disk of more than 2^20 blocks with two files: a is inode 2^20 + 42, b is
-- inode 42. Loading a reads the block of b.
def twinDisk : SfsFs where
  super := ⟨sfsMagic,1081344,1081303,fun _ => 0⟩
  dev := fun b =>
    if b = 42 then inodeBytes ⟨1,0,sfsTypeFile,1,1,fun k => if k.1 = 0 then 45 else 0,0,0⟩
    else if b = 43 then entryBytes (2^20 + 42) nameA
    else if b = 44 then entryBytes 42 nameB
    else if b = 2^20 + 42 then inodeBytes ⟨1,0,sfsTypeFile,1,1,fun k => if k.1 = 0 then 46 else 0,0,0⟩
    else zero
  dBlocks := 1081344
  freemap := ⟨1081344,0 :: 0xFFFF83F8 :: (List.replicate 32767 0xFFFFFFFF ++ 0xFFFFFBFF :: List.replicate 1022 0xFFFFFFFF)⟩
  superDirty := true
  inodeList := [1]
  node := fun _ => ⟨⟨2,1,sfsTypeDir,2,2,fun k => if k.1 = 0 then 43 else if k.1 = 1 then 44 else 0,0,0⟩,true,false,1,1,0⟩
  heap := fun _ => true
  tick := 0
  inodes := [1,42,2^20 + 42]

set_option maxRecDepth 100000 in
theorem named_data_freed : !twinDisk.freemap.bit 45 && runs (sfsUnlink 1 nameA twinDisk) (fun t =>
    t.slot 1 1 = some (42,nameB) && (readInode (t.dev 42)).direct 0 = 45 && t.freemap.bit 45) = true := by
  decide +kernel

def Orderly (s : SfsFs) (c : Call) : Prop := c.Roomy s.ns ∧ c.Clear s.ns

structure Upright (s : SfsFs) : Prop where
  cons : Consistent s
  upheld : s.ns.Upheld

lemma orderly_upright (path : Path (Calls step Orderly) s calls t) (upright : Upright s) : Upright t := by
  refine path.invariant (fun u c v good next => ?_) upright
  obtain ⟨ch,causes,based,went⟩ := c.step_via good.cons (.inl good.upheld) next.1
  have valid := c.causes_valid causes based next.2.1
  refine ⟨good.cons.after valid went,?_⟩
  rw [went.ns]
  exact ch.upheld good.cons.sane good.cons.tidy.bounded good.upheld valid (c.causes_clear causes based next.2.2)

-- .. of a referenced directory leads to a directory, removed or not itself.
theorem parent_resolvable (upright : Upright s) (path : Path (Calls Call.step Orderly) s calls t) (opened : Open t d r) :
    (∃ q,t.ns r.parent = some q ∧ q.type = sfsTypeDir ∧ q.nlinks ≠ 0 ∧ t.used r.parent) ∧
    (sfsLoadParent d t).Meets (fun x u => x = r.parent ∧ Went t u (t.ns.alter x Item.incRefs)) (fun e u => e = .eNoMem ∧ Went t u t.ns)
      (fun _ => False) := by
  obtain ⟨cons,upheld⟩ := orderly_upright path upright
  obtain ⟨p,known,present⟩ := upheld d _ (dir_found opened.found opened.dir)
  obtain ⟨q,found,dir,rfl⟩ := dir_some known
  have member := (ns_some found).1
  have mine : t.own (r.parent,.self) = r.parent := own_inode member .self
  have inuse := cons.tidy.blocks.own_used (p:=(r.parent,.self)) (by rw [mine]; exact cons.tidy.blocks.nonzero _ member)
  refine ⟨⟨q,found,dir,cons.sane.links_dir found dir present,mine ▸ inuse⟩,?_⟩
  refine (loadParent_run cons opened upheld).mono (fun x u done => ?_) (fun _ _ h => h) (fun _ h => h)
  obtain ⟨here,_,_,_,_,went⟩ := done
  exact ⟨here,went⟩

lemma fresh_upright {heap : Nat → Bool} : Upright (freshDisk heap) := by
  refine ⟨fresh_consistent,fun i e known => ?_⟩
  obtain ⟨rfl,parent,present⟩ := fresh_dir known
  exact ⟨e,by rw [parent]; exact known,present⟩

lemma Careful.orderly {c : Call} (careful : Careful false s c t) : Calls step Orderly s c t :=
  ⟨⟨careful.success.1,.inl careful.success.2⟩,careful.roomy,careful.clear rfl⟩

theorem parent_resolvable_fresh : ∃ t,Path (Calls Call.step Orderly) (freshDisk fun _ => true) early t ∧
    ∃ r,t.ns 3 = some r ∧ (∃ q,t.ns r.parent = some q ∧ q.type = sfsTypeDir ∧ q.nlinks ≠ 0 ∧ t.used r.parent) := by
  obtain ⟨t,_,r,path,-,opened,-⟩ := fresh_early
  have path := path.mono fun _ _ _ => Careful.orderly
  exact ⟨t,path,r,opened.found,(parent_resolvable fresh_upright path opened).1⟩

-- A reference to the directory found is all that sfs_lookup_parent adds.
theorem lookup_parent_held (cons : Consistent s) (found : s.ns d = some r) (held : 0 < r.refs) (way : s.ns.Upheld ∨ Straight path) :
    (sfsLookupParent d path s).Meets (fun x t => ∃ q,s.ns x.1 = some q ∧ Went s t (s.ns.alter x.1 Item.incRefs)) (fun _ t => Went s t s.ns)
      (fun f => f = .invalidType ∨ f = .lookupPath) := by
  obtain ⟨t,inc,went⟩ := refInc_run cons.tidy found held
  simp only [sfsLookupParent,rules]
  split
  · have done := lookupParentLoop_walks.run (fun x u => ∃ q,Stands s u x.1 q) (fun stands _ _ => ⟨_,stands⟩)
      (path.1.length + 1) path t d r (Nat.lt_succ_self _) ⟨cons,found,went⟩ way
    revert done
    simp only [rules,inc]
    cases sfsLookupParentLoop d path t with
    | ok x u =>
      rintro ⟨q,stands⟩
      exact ⟨q,stands.found,stands.went⟩
    | err e u => exact id
    | fault f => exact .inl
  exact .inr rfl

-- c in a
theorem lookup_parent_held_below : ∃ t x u,Path (Calls Call.step Orderly) (freshDisk fun _ => true) early t ∧
    sfsLookupParent 1 pathAC t = .ok x u ∧ x.1 = 3 ∧ Went t u (t.ns.alter 3 Item.incRefs) := by
  obtain ⟨t,_,_,path,⟨⟨root,_⟩,-⟩,-,⟨x,u,ran,three⟩,-⟩ := fresh_early
  obtain ⟨r,opened⟩ := root.open
  have path := path.mono fun _ _ _ => Careful.orderly
  obtain ⟨cons,upheld⟩ := orderly_upright path fresh_upright
  have held := lookup_parent_held cons opened.found opened.held (.inl upheld : t.ns.Upheld ∨ Straight pathAC)
  rw [ran] at held
  obtain ⟨_,_,went⟩ := held
  exact ⟨t,x,u,path,ran,three,three ▸ went⟩

-- q in p is removed and kept, then p is removed and let go.
set_option maxRecDepth 100000 in
theorem parent_freed : runs ((do
      sfsMkdir 1 nameA
      let p ← sfsLookupOnce 1 nameA
      sfsMkdir p nameB
      let q ← sfsLookupOnce p nameB
      sfsUnlink p nameB
      sfsUnlink 1 nameA
      vopRefDec [] p
      pure q : SfsM Nat) (freshDisk fun _ => true)) (fun s =>
    (s.node 5).refCount = 1 && (s.node 5).din.type = sfsTypeDir &&
    match sfsLoadParent 5 s with
    | .fault f => f = .loadInuse
    | _ => false) = true := by
  decide +kernel

def Treelike (s : SfsFs) (c : Call) : Prop := c.Roomy s.ns ∧ c.Outward s.ns ∧ c.Straight

structure Tree (s : SfsFs) : Prop where
  cons : Consistent s
  attached : s.ns.Attached
  rooted : s.ns.Rooted

lemma treelike_tree (path : Path (Calls success Treelike) s calls t) (tree : Tree s) : Tree t := by
  refine path.invariant (fun u c v good next => ?_) tree
  obtain ⟨ch,makes,based,went⟩ := c.success_via good.cons (.inr next.2.2.2) next.1
  have valid := based.valid ch (c.makes_counted makes based next.2.1)
  have bound := good.cons.tidy.bounded
  refine ⟨good.cons.after valid went,?_,?_⟩
  · rw [went.ns]
    exact ch.attached good.cons.sane bound good.attached valid (c.makes_kept makes)
  rw [went.ns]
  exact ch.rooted good.cons.sane bound good.attached good.rooted valid (c.makes_kept makes) (c.makes_outward makes based next.2.2.1)

structure Placed (s : SfsFs) (i d k : Nat) (r : Item) : Prop where
  parent : r.parent = d
  only : ∀ d' k' n,s.ns.entry d' k' = some (i,n) → d' = d ∧ k' = k
  reaches : Below s.ns.above sfsBlknRoot i

theorem directory_tree (tree : Tree s) (path : Path (Calls success Treelike) s calls t) (found : t.ns i = some r) (dir : r.type = sfsTypeDir)
    (held : t.ns.entry d k = some (i,n)) :
    Placed t i d k r ∧ (0 < r.refs → ∀ resid,(sfsNamefile i resid t).Meets (fun _ u => Went t u t.ns)
      (fun e u => e = .eNoMem ∧ Went t u t.ns) (fun _ => False)) := by
  have tree := treelike_tree path tree
  have sane := tree.cons.sane
  have named : ∀ {d k n},t.ns.entry d k = some (i,n) → (d,k) ∈ t.ns.names i := fun held => by
    obtain ⟨p,above,slot⟩ := entry_some held
    exact ⟨p,_,above,slot⟩
  have present := sane.present found (named held)
  have reaches := tree.rooted i _ (dir_found found dir) present
  refine ⟨⟨sane.placed i r found dir id _ (named held),fun d' k' n other => ?_,reaches⟩,fun some_ resid => ?_⟩
  · have same := sane.once i _ _ ⟨r,found,dir⟩ (named other) (named held)
    exact Prod.mk.inj same
  · exact sfsNamefile_run tree.cons tree.attached ⟨found,dir,present⟩ some_ reaches resid

lemma fresh_tree {heap : Nat → Bool} : Tree (freshDisk heap) := ⟨fresh_consistent,fresh_attached,fun _ _ seen _ => (fresh_dir seen).1 ▸ .self⟩

theorem directory_tree_fresh : ∃ t r,Path (Calls success Treelike) (freshDisk fun _ => true) tour t ∧ t.ns 5 = some r ∧
    t.ns.entry 1 2 = some (5,nameB) ∧ Placed t 5 1 2 r := by
  obtain ⟨t,r,path,found,dir,held⟩ := fresh_tour
  have path : Path (Calls success Treelike) _ tour t := path.mono fun _ _ _ c => ⟨c.success,c.roomy,c.outward,c.straight⟩
  exact ⟨t,r,path,found,held,(directory_tree fresh_tree path found dir held).1⟩

-- A directory is renamed into itself: it is its own parent, and no entry of
-- another directory leads to it.
set_option maxRecDepth 100000 in
theorem directory_swallowed : runs ((do
      sfsMkdir 1 nameA
      let a ← sfsLookupOnce 1 nameA
      sfsRename 1 nameA a nameB : SfsM Unit) (freshDisk fun _ => true)) (fun t =>
    t.slot 3 0 = some (3,nameB) && (t.din 3).type = sfsTypeDir && (t.din 3).parent = 3 && t.slot 1 0 = none) = true := by
  decide +kernel

section Counts
variable {i : Nat} {r : Item}

def Ns.children (ns : Ns) (i : Nat) : Set Nat := {c | ∃ q,ns c = some q ∧ q.type = sfsTypeDir ∧ q.removed = false ∧ q.parent = i}

def Ns.RootUp (ns : Ns) : Prop := ∀ e,ns.dir sfsBlknRoot = some e → e.parent = sfsBlknRoot

lemma Change.root_up (sane : ns.Sane) (bound : ns.Bounded) (up : ns.RootUp) (c : Change) (valid : c.Valid ns) : (c.apply ns).RootUp := by
  obtain ⟨_,got,dir,_⟩ := sane.root
  have seen := dir_found got dir
  have there : ns sfsBlknRoot ≠ none := by rw [got]; exact nofun
  have apart : ∀ {d k x name r q},ns.Entry d k x name r q → sfsBlknRoot ≠ x := fun entry =>
    Ne.symm (sane.named _ _ _ _ _ entry.found entry.slot).2.2.1
  revert valid
  refine cases_tree (motive:=fun c => c.Valid ns → (c.apply ns).RootUp) ?_ ?_ ?_ ?_ ?_ c
  · intro c plain valid e after
    exact up e (plain_back sane bound c valid plain after)
  · intro d k i name valid e after
    obtain ⟨gone,r,into,room⟩ := valid
    have ne : sfsBlknRoot ≠ i := fun eq => there (eq ▸ gone)
    have eq := sane.dir_mkdir bound into gone room sfsBlknRoot
    rw [if_neg ne] at eq
    exact up e (eq.symm.trans after)
  · intro d k x name valid e after
    obtain ⟨r,q,entry,isdir,empty,ne⟩ := valid
    obtain ⟨-,eq⟩ | ⟨eq,-⟩ := sane.dir_rmdir bound entry isdir empty ne sfsBlknRoot
    · exact up e (eq.symm.trans after)
    exact absurd eq (apart entry)
  · intro d k x name _ _ _ valid e after
    obtain ⟨r,_,q,entry,into,ne,kind,width,above⟩ := valid
    have isdir := of_decide_eq_true kind.symm
    have eq := sane.dir_move bound entry into ne isdir width (above isdir) sfsBlknRoot
    rw [if_neg (apart entry)] at eq
    exact up e (eq.symm.trans after)
  intro d k x _ valid e after
  obtain ⟨r,q,entry,kind⟩ := valid
  have eq := sane.dir_lose bound entry (of_decide_eq_true kind.symm) sfsBlknRoot
  rw [if_neg (apart entry)] at eq
  exact up e (eq.symm.trans after)

lemma Ns.Mid.subdirs_children (sane : ns.Sane) (attached : ns.Attached) (got : ns i = some r) :
    (ns.subdirs r).ncard = (ns.children i \ {sfsBlknRoot}).ncard := by
  have goal : ∀ {k x n},r.slot k = some (x,n) → ((r.slot k).map Prod.fst).getD 0 = x := fun held => by rw [held]; rfl
  refine Set.ncard_congr (fun k _ => ((r.slot k).map Prod.fst).getD 0) ?_ ?_ ?_
  · rintro k ⟨x,n,held,q,there,isdir⟩
    obtain ⟨-,-,ne,-⟩ := sane.named i r k x n got held
    have entry : (i,k) ∈ ns.names x := ⟨r,n,got,held⟩
    rw [goal held]
    exact ⟨⟨q,there,isdir,sane.present there entry,sane.placed x q there isdir id _ entry⟩,ne⟩
  · rintro k l ⟨x,n,held,isdir⟩ ⟨y,m,held',-⟩ eq
    rw [goal held,goal held'] at eq
    subst eq
    have one := sane.once x (i,k) (i,l) isdir ⟨r,n,got,held⟩ ⟨r,m,got,held'⟩
    exact (Prod.mk.inj one).2
  rintro c ⟨⟨q,there,isdir,present,parent⟩,ne⟩
  obtain ⟨p,mem⟩ := attached c _ (dir_found there isdir) present ne
  have up : q.parent = p.1 := sane.placed c q there isdir id p mem
  obtain ⟨_,n,found',held⟩ := mem
  rw [← up,parent] at found'
  obtain rfl := Option.mem_unique got found'
  exact ⟨p.2,⟨c,n,held,q,there,isdir⟩,goal held⟩

lemma Ns.Mid.children_count (sane : ns.Sane) (bound : ns.Bounded) (attached : ns.Attached) (up : ns.RootUp) (got : ns i = some r) :
    (ns.subdirs r).ncard + (if i = sfsBlknRoot then 1 else 0) = (ns.children i).ncard := by
  rw [sane.subdirs_children attached got]
  have finite : (ns.children i).Finite := bound.finite.subset fun c ⟨q,there,_⟩ => by
    rw [Set.mem_ofPred_eq,there]
    rfl
  obtain ⟨root,there,isdir,present⟩ := sane.root
  have self : root.parent = sfsBlknRoot := up _ (dir_found there isdir)
  by_cases here : i = sfsBlknRoot
  · have mem : sfsBlknRoot ∈ ns.children i := ⟨root,there,isdir,present,self.trans here.symm⟩
    rw [if_pos here,Set.ncard_sdiff_singleton_add_one mem finite]
  have gone : sfsBlknRoot ∉ ns.children i := by
    rintro ⟨q,there',-,-,parent⟩
    obtain rfl := Option.mem_unique there there'
    exact here (parent.symm.trans self)
  rw [if_neg here,Set.sdiff_singleton_eq_self gone,add_zero]

def Counting (s : SfsFs) (c : Call) : Prop := c.Roomy s.ns ∧ ¬ c.Loses s ∧ c.Straight

structure Counted (s : SfsFs) : Prop where
  cons : Consistent s
  attached : s.ns.Attached
  up : s.ns.RootUp

lemma counting_counted (path : Path (Calls step Counting) s calls t) (counted : Counted s) : Counted t := by
  refine path.invariant (fun u c v good next => ?_) counted
  obtain ⟨ch,causes,based,went⟩ := c.step_via good.cons (.inr next.2.2.2) next.1
  have valid := c.causes_valid causes based next.2.1
  have bound := good.cons.tidy.bounded
  refine ⟨good.cons.after valid went,?_,?_⟩
  · rw [went.ns]
    exact ch.attached good.cons.sane bound good.attached valid (c.causes_kept causes next.2.2.1)
  rw [went.ns]
  exact root_up good.cons.sane bound good.up ch valid

-- What the link count of an inode should be.
noncomputable def Ns.links (ns : Ns) (i : Nat) (r : Item) : Nat :=
  (ns.names i).ncard + if r.type = sfsTypeDir ∧ r.removed = false then 1 + (ns.children i).ncard else 0

theorem link_count_law (counted : Counted s) (path : Path (Calls Call.step Counting) s calls t) (found : t.ns i = some r) :
    r.nlinks % 2^16 = t.ns.links i r % 2^16 := by
  have counted := counting_counted path counted
  have law := counted.cons.sane.law i r found
  have exact_ : r.nlinks = t.ns.links i r := by
    unfold due at law
    unfold links
    split at law
    next live =>
      rw [if_pos live,← counted.cons.sane.children_count counted.cons.tidy.bounded counted.attached counted.up found]
      split at law
      next root => rw [if_pos root]; omega
      next other => rw [if_neg other]; omega
    next gone =>
      rw [if_neg gone]
      omega
  rw [exact_]

theorem link_count_law_fresh : ∃ t r,Path (Calls Call.step Counting) (freshDisk fun _ => true) tour t ∧ t.ns 5 = some r ∧
    r.nlinks % 2^16 = t.ns.links 5 r % 2^16 := by
  obtain ⟨t,r,path,found,-⟩ := fresh_tour
  have path : Path (Calls step Counting) _ tour t :=
    path.mono fun _ _ _ c => ⟨⟨c.success.1,.inl c.success.2⟩,c.roomy,c.kept,c.straight⟩
  have counted : Counted (freshDisk fun _ => true) := ⟨fresh_consistent,fresh_attached,fun _ known => (fresh_dir known).2.1⟩
  exact ⟨t,r,path,found,link_count_law counted path found⟩

-- The rename of b into a fails and b is lost: the root has given up the link for
-- b, and b still counts the root as its parent.
set_option maxRecDepth 100000 in
theorem lost_directory_uncounted : runs ((do sfsMkdir 1 nameA; sfsMkdir 1 nameB; sfsLookupOnce 1 nameA : SfsM Nat) (freshDisk badHeap)) (fun s =>
    fails ((Call.rename 1 nameB 3 nameC).act s) (fun t => (t.din 1).nlinks = 3 && t.inodes.all (fun i =>
      (t.din i).type = sfsTypeDir && (t.din i).parent = 1 && !(i ∈ t.inodeList && (t.node i).removed)) && t.inodes.length = 3)) = true := by
  decide +kernel

end Counts
end Ucore.Sfs
