import Ucore.Lib.Runs
import Ucore.Sfs.Entries
import Ucore.Sfs.Lookup

-- The calls on names and references, one after the other.
namespace Ucore.Sfs
open Bytes Outcomes Runs Forest

inductive Call where
  | create (d : Nat) (name : CStr) (excl : Bool)
  | mkdir (d : Nat) (name : CStr)
  | link (d : Nat) (name : CStr) (x : Nat)
  | unlink (d : Nat) (name : CStr)
  | rename (d : Nat) (name : CStr) (d' : Nat) (newName : CStr)
  | lookup (d : Nat) (path : CStr)
  | refInc (x : Nat)
  | refDec (x : Nat)
  | openInc (x : Nat)
  | openDec (x : Nat)

def Call.act : Call → SfsM Unit
  | .create d name excl => do let _ ← sfsCreate d name excl; pure ()
  | .mkdir d name => sfsMkdir d name
  | .link d name x => sfsLink d name x
  | .unlink d name => sfsUnlink d name
  | .rename d name d' newName => sfsRename d name d' newName
  | .lookup d path => do let _ ← sfsLookup d path; pure ()
  | .refInc x => vopRefInc x
  | .refDec x => vopRefDec [] x
  | .openInc x => vopOpenInc x
  | .openDec x => vopOpenDec x

def Ns.Opened (ns : Ns) (d : Nat) : Prop := ∃ r,ns d = some r ∧ 0 < r.refs ∧ r.type = sfsTypeDir

def Call.Ready (ns : Ns) : Call → Prop
  | .create d _ _ | .mkdir d _ | .unlink d _ => ns.Opened d
  | .link d _ x => ns.Opened d ∧ ∃ q,ns x = some q ∧ 0 < q.refs
  | .rename d _ d' _ => ns.Opened d ∧ ns.Opened d'
  | .lookup x _ | .refInc x => ∃ q,ns x = some q ∧ 0 < q.refs
  | .refDec x | .openInc x => ∃ q,ns x = some q ∧ q.opens < q.refs
  | .openDec x => ∃ q,ns x = some q ∧ 0 < q.opens

def Call.Straight : Call → Prop
  | .lookup _ path => Sfs.Straight path
  | _ => True

def Change.Based (ns : Ns) : Change → Prop
  | .mkdir d k i name => ns i = none ∧ ∃ r,ns.Into d k name r
  | .link d k x name => ∃ r q,ns.Into d k name r ∧ ns x = some q ∧ q.type ≠ sfsTypeDir
  | .move d k x name d' k' newName isdir => ∃ r r' q,ns.Entry d k x name r q ∧ ns.Into d' k' newName r' ∧ d' ≠ d ∧
      isdir = decide (q.type = sfsTypeDir) ∧ q.nlinks < 2^16
  | c => c.Valid ns

def Change.Counted (ns : Ns) : Change → Prop
  | .mkdir d _ _ _ => ∀ r,ns d = some r → r.nlinks < 65535
  | .link _ _ x _ => ∀ q,ns x = some q → q.nlinks < 65535
  | .move _ _ _ _ d' _ _ isdir => isdir = true → ∀ r,ns d' = some r → r.nlinks < 65535
  | _ => True

lemma Change.Based.valid {ns : Ns} (c : Change) (based : c.Based ns) (counted : c.Counted ns) : c.Valid ns := by
  cases c with
  | mkdir d k i name =>
    obtain ⟨out,r,into⟩ := based
    exact ⟨out,r,into,counted r into.found⟩
  | link d k x name =>
    obtain ⟨r,q,into,goal,file⟩ := based
    exact ⟨r,q,into,goal,file,counted q goal⟩
  | move d k x name _ _ newName isdir =>
    obtain ⟨r,r',q,entry,into,ne,kind,width⟩ := based
    exact ⟨r,r',q,entry,into,ne,kind,width,fun dir => counted (by rw [kind]; exact decide_eq_true dir) r' into.found⟩
  | _ => exact based

def Call.Makes : Call → Change → Prop
  | .create d name excl,ch => (∃ k i,ch = .create d k i name) ∨ (excl = false ∧ ∃ i,ch = .hold i)
  | .mkdir d name,ch => ∃ k i,ch = .mkdir d k i name
  | .link d name x,ch => ∃ k,ch = .link d k x name
  | .unlink d name,ch => ∃ k x,ch = .unlinkFile d k x name ∨ ch = .rmdir d k x name
  | .rename d name d' newName,ch => (d = d' ∧ name = newName ∧ ch = .same) ∨ (d = d' ∧ ∃ k x,ch = .retitle d k x name newName) ∨
      (d ≠ d' ∧ ∃ k x k' isdir,ch = .move d k x name d' k' newName isdir)
  | .lookup _ _,ch => ∃ x,ch = .hold x
  | .refInc x,ch => ch = .hold x
  | .refDec x,ch => ch = .release x
  | .openInc x,ch => ch = .reopen x
  | .openDec x,ch => ch = .close x

def Call.Loses (s : SfsFs) : Call → Prop
  | .rename d name d' newName => ∃ x,Lost s d name d' newName x
  | _ => False

def Call.Leaves (s : SfsFs) : Call → Change → Prop
  | .rename d name d' newName,ch => ((∀ x,¬ Lost s d name d' newName x) ∧ ch = .same) ∨
      ∃ k x isdir,Lost s d name d' newName x ∧ ch = .lose d k x name isdir
  | _,ch => ch = .same

def Via (s t : SfsFs) (ch : Change) : Prop := ch.Based s.ns ∧ Went s t (ch.apply s.ns)

section Steps
variable {s t : SfsFs} {d x k : Nat} {r q : Item} {name : CStr}

lemma Ns.Opened.open (opened : s.ns.Opened d) : ∃ r,Open s d r := by
  obtain ⟨r,got,held,dir⟩ := opened
  exact ⟨r,got,held,dir⟩

lemma Open.into (opened : Open s d r) (tidy : Tidy s) (has : r.removed = false) (free : Vacant r k name) : s.ns.Into d k name r :=
  ⟨opened.found,opened.dir,has,free,tidy.few opened.found⟩

lemma via_same (went : Went s t s.ns) : Via s t .same := ⟨trivial,went⟩

lemma openInc_run (tidy : Tidy s) (got : s.ns x = some q) (spare : q.opens < q.refs) : ∃ t,vopOpenInc x s = .ok () t ∧ Went s t (s.ns.alter x Item.incOpens) := by
  obtain ⟨mem,rfl⟩ := listed_of got (lt_of_le_of_lt (Nat.zero_le _) spare)
  have held := tidy.held mem
  have more := held_setNode (f:=fun n => {n with openCount:=n.openCount + 1}) (g:=Item.incOpens) tidy mem
    {held with opens:=spare} rfl rfl fun _ => rfl
  exact ⟨_,rfl,more.1⟩

lemma fsync_run (tidy : Tidy s) (mem : x ∈ s.inodeList) : (sfsFsync [] x s).Meets (fun _ t => Went s t s.ns) (fun _ t => Went s t s.ns) (fun _ => False) := by
  by_cases idle : (s.node x).din.nlinks = 0 ∨ (s.node x).dirty = false
  · rw [fsync_idle idle]
    exact .refl tidy
  obtain ⟨links,dirty⟩ := not_or.mp idle
  cases removed : (s.node x).removed with
  | true =>
    rw [fsync_removed links (by simpa using dirty) removed]
    exact .refl tidy
  | false =>
    rw [fsync_write tidy.blocks mem links (by simpa using dirty) removed List.not_mem_nil]
    exact (flush_went tidy mem).1

lemma openDec_run (tidy : Tidy s) (got : s.ns x = some q) (has : 0 < q.opens) : ∃ t,vopOpenDec x s = .ok () t ∧ Went s t (s.ns.alter x Item.decOpens) := by
  have opens := tidy.opens got
  obtain ⟨mem,rfl⟩ := listed_of got (by omega)
  have held := tidy.held mem
  have less := (held_setNode (f:=fun n => {n with openCount:=n.openCount - 1}) (g:=Item.decOpens) tidy mem
    {held with opens:=le_trans (Nat.sub_le _ _) held.opens} rfl rfl fun _ => rfl).1
  have pos : decide (0 < (s.node x).openCount) = true := decide_eq_true has
  simp only [vopOpenDec,rules,pos]
  by_cases last : (s.node x).openCount - 1 = 0
  · rw [decide_eq_true last,when_true]
    have synced := fsync_run less.tidy (x:=x) mem
    simp only [rules]
    cases ran : sfsFsync [] x (s.setNode x fun n => {n with openCount:=n.openCount - 1}) with
    | ok a t =>
      rw [ran] at synced
      rw [attempt_ok ran]
      exact ⟨t,rfl,less.trans (less.ns ▸ synced) fun j live => by rw [Ns.alter_isSome]; exact live⟩
    | err e t =>
      rw [ran] at synced
      rw [attempt_err ran]
      exact ⟨t,rfl,less.trans (less.ns ▸ synced) fun j live => by rw [Ns.alter_isSome]; exact live⟩
    | fault f => rw [ran] at synced; exact synced.elim
  rw [decide_eq_false last,when_false]
  exact ⟨_,rfl,less⟩

end Steps

section Calls
variable {s t : SfsFs}

lemma Call.run (cons : Consistent s) (c : Call) (ready : c.Ready s.ns) (way : s.ns.Upheld ∨ c.Straight) :
    (c.act s).Meets (fun _ t => ¬ c.Loses s ∧ ∃ ch,c.Makes ch ∧ Via s t ch) (fun _ t => ∃ ch,c.Leaves s ch ∧ Via s t ch)
      (fun f => f = .invalidType ∨ f = .deadlock ∨ f = .lookupPath) := by
  have tidy := cons.tidy
  cases c with
  | create d name _ =>
    obtain ⟨r,opened⟩ := ready.open
    refine (sfsCreate_run cons opened).next (fun i t done => ⟨id,?_⟩) (fun _ t went => ⟨_,rfl,via_same went⟩) (fun _ seen => .inl seen)
    obtain ⟨-,has,⟨k,free,out,went⟩ | ⟨shared,k,q,entry,goal,file,went⟩⟩ := done
    · exact ⟨_,.inl ⟨k,i,rfl⟩,⟨out,r,opened.into tidy has free⟩,went⟩
    exact ⟨_,.inr ⟨shared,i,rfl⟩,trivial,went⟩
  | mkdir d name =>
    obtain ⟨r,opened⟩ := ready.open
    refine (sfsMkdir_run tidy opened).mono (fun _ t done => ⟨id,?_⟩) (fun _ t went => ⟨_,rfl,via_same went⟩) (fun _ none_ => none_.elim)
    obtain ⟨-,has,k,i,free,out,went⟩ := done
    exact ⟨_,⟨k,i,rfl⟩,⟨out,r,opened.into tidy has free⟩,went⟩
  | link d name x =>
    obtain ⟨opened,q,goal,held⟩ := ready
    obtain ⟨r,opened⟩ := opened.open
    refine (sfsLink_run tidy opened goal held).mono (fun _ t done => ⟨id,?_⟩) (fun _ t went => ⟨_,rfl,via_same went⟩) (fun _ none_ => none_.elim)
    obtain ⟨-,file,has,k,free,went⟩ := done
    exact ⟨_,⟨k,rfl⟩,⟨r,q,opened.into tidy has free,goal,file⟩,went⟩
  | unlink d name =>
    obtain ⟨r,opened⟩ := ready.open
    refine (sfsUnlink_run cons opened).mono (fun _ t done => ⟨id,?_⟩) (fun _ t went => ⟨_,rfl,via_same went⟩)
      (fun f seen => seen.imp_right fun locked => .inl locked.1)
    obtain ⟨-,has,k,x,q,entry,goal,far,⟨file,went⟩ | ⟨dir,empty,went⟩⟩ := done
    · exact ⟨_,⟨k,x,.inl rfl⟩,⟨r,q,⟨opened.found,entry,goal⟩,file⟩,went⟩
    exact ⟨_,⟨k,x,.inr rfl⟩,⟨r,q,⟨opened.found,entry,goal⟩,dir,empty,far⟩,went⟩
  | rename d name _ _ =>
    obtain ⟨r,opened⟩ := ready.1.open
    obtain ⟨r',opened'⟩ := ready.2.open
    refine (sfsRename_run cons opened opened').mono (fun _ t done => ?_) (fun _ t done => ?_) (fun f seen => .inl seen.1)
    · obtain ⟨safe,-,-,_,present',⟨eq,equal,went⟩ | ⟨eq,k,x,entry,unbound,went⟩ | ⟨ne,k,x,q,k',entry,goal,free,went⟩⟩ := done
      · exact ⟨fun ⟨y,lost⟩ => safe y lost,_,.inl ⟨eq,equal,rfl⟩,via_same went⟩
      · obtain ⟨-,-,-,live⟩ := cons.sane.named d r k x name opened.found entry
        obtain ⟨q,goal⟩ := Option.isSome_iff_exists.mp live
        exact ⟨fun ⟨y,lost⟩ => safe y lost,_,.inr (.inl ⟨eq,k,x,rfl⟩),⟨r,q,⟨opened.found,entry,goal⟩,unbound⟩,went⟩
      exact ⟨fun ⟨y,lost⟩ => safe y lost,_,.inr (.inr ⟨ne,k,x,k',_,rfl⟩),
        ⟨r,r',q,⟨opened.found,entry,goal⟩,opened'.into tidy present' free,Ne.symm ne,rfl,(tidy.widths goal).2⟩,went⟩
    obtain ⟨safe,went⟩ | ⟨k,x,q,lost,entry,goal,went⟩ := done
    · exact ⟨_,.inl ⟨safe,rfl⟩,via_same went⟩
    exact ⟨_,.inr ⟨k,x,_,lost,rfl⟩,⟨r,q,⟨opened.found,entry,goal⟩,rfl⟩,went⟩
  | lookup d _ =>
    obtain ⟨r,got,held⟩ := ready
    refine (sfsLookup_run cons got held way).next (fun x t done => ⟨id,?_⟩) (fun _ t went => ⟨_,rfl,via_same went⟩)
      (fun f seen => seen.imp_right .inr)
    obtain ⟨q,_,went⟩ := done
    exact ⟨_,⟨x,rfl⟩,trivial,went⟩
  | refInc x =>
    obtain ⟨q,got,held⟩ := ready
    obtain ⟨t,ran,went⟩ := refInc_run tidy got held
    change (vopRefInc x s).Meets _ _ _
    rw [ran]
    exact ⟨id,_,rfl,trivial,went⟩
  | refDec x =>
    obtain ⟨q,got,spare⟩ := ready
    have drop : Droppable q x [] := ⟨spare,fun gone => cons.sane.links_removed got gone,
      fun _ none_ => (cons.sane.unlinked tidy.bounded got none_).2.2,fun _ => List.not_mem_nil⟩
    obtain ⟨t,ran,went,-⟩ := refDec_run tidy got [] drop
    change (vopRefDec [] x s).Meets _ _ _
    rw [ran]
    exact ⟨id,_,rfl,trivial,went⟩
  | openInc x =>
    obtain ⟨q,got,spare⟩ := ready
    obtain ⟨t,ran,went⟩ := openInc_run tidy got spare
    change (vopOpenInc x s).Meets _ _ _
    rw [ran]
    exact ⟨id,_,rfl,trivial,went⟩
  | openDec x =>
    obtain ⟨q,got,some_⟩ := ready
    obtain ⟨t,ran,went⟩ := openDec_run tidy got some_
    change (vopOpenDec x s).Meets _ _ _
    rw [ran]
    exact ⟨id,_,rfl,trivial,went⟩

end Calls

def rootDin : DiskInode := ⟨0,1,sfsTypeDir,2,0,fun _ => 0,0,0⟩

def freshDisk (heap : Nat → Bool) : SfsFs where
  super := ⟨sfsMagic,32,29,fun _ => 0⟩
  dev := fun b => if b = 1 then inodeBytes rootDin else zero
  dBlocks := 32
  freemap := smallMap 0xFFFFFFF8
  superDirty := true
  inodeList := [1]
  node := fun _ => ⟨rootDin,true,false,1,1,0⟩
  heap := heap
  tick := 0
  inodes := [1]

section Fresh
variable {heap : Nat → Bool}

lemma fresh_member (mem : i ∈ (freshDisk heap).inodes) : i = 1 := List.mem_singleton.mp mem

lemma fresh_own (p : Place) : (freshDisk heap).own p = if p = (1,.self) then 1 else 0 := by
  obtain ⟨i,spot⟩ := p
  by_cases mem : i ∈ (freshDisk heap).inodes
  · obtain rfl := fresh_member mem
    rw [own_inode mem]
    cases spot with
    | leaf _ => simp [spotBlock,leafBlock,entBlock_zero,show (freshDisk heap).din 1 = rootDin from rfl,rootDin]
    | mid j => exact (entBlock_zero (freshDisk heap).dev j).trans (by simp)
    | self | ind | dbl => rfl
  have ne : i ≠ 1 := fun eq => mem (eq ▸ List.mem_singleton_self 1)
  rw [own_none mem]
  simp [ne]

lemma fresh_bit (b : Nat) : (freshDisk heap).freemap.bit b = decide (3 ≤ b ∧ b < 32) := by
  refine (smallMap_bit _ b).trans ?_
  by_cases low : b < 32
  · exact (by decide : ∀ b : Fin 32,(decide (b.1 < 32) && Nat.testBit 0xFFFFFFF8 b.1) = decide (3 ≤ b.1 ∧ b.1 < 32)) ⟨b,low⟩
  simp [low]

lemma fresh_fixed (b : Nat) : (freshDisk heap).fixed b ↔ b = 0 ∨ b = 2 := by
  have one : sfsFreemapBlocks (freshDisk heap).super = 1 := (by decide : (32 + sfsBlkbits - 1) / sfsBlkbits = 1)
  rw [SfsFs.fixed,one]
  change b = 0 ∨ (2 ≤ b ∧ b < 2 + 1) ↔ _
  omega

lemma fresh_used (b : Nat) : (freshDisk heap).used b ↔ b < 3 := by
  rw [SfsFs.used,fresh_bit,decide_eq_false_iff_not]
  change b < 32 ∧ _ ↔ _
  omega

lemma fresh_geometry : Geometry (freshDisk heap) where
  small := (by decide : 32 ≤ 2^20)
  device := (by decide : 32 ≤ 32)
  sound := smallMap_sound (by decide)
  bits := (by decide : 32768 = (32 + sfsBlkbits - 1) / sfsBlkbits * sfsBlkbits)
  inside b set := by
    rw [fresh_bit] at set
    exact (of_decide_eq_true set).2
  unused := by
    have free : (freshDisk heap).freemap.free = Finset.Ico 3 32 := by
      ext b
      simp only [Bitmap.free,Finset.mem_filter,Finset.mem_range,fresh_bit,Finset.mem_Ico,decide_eq_true_eq]
      exact ⟨fun h => h.2,fun h => ⟨by change b < 32768; omega,h⟩⟩
    rw [free]
    rfl

lemma fresh_blocks : Blocks (freshDisk heap) (fun _ => False) where
  toGeometry := fresh_geometry
  exact := by
    refine ⟨fun b => ?_,fun p q held eq => ?_,fun p held base => ?_⟩
    · rw [fresh_used,fresh_fixed]
      constructor
      · intro _
        interval_cases b
        · exact .inl (.inl (.inl rfl))
        · exact .inr ⟨by decide,(1,.self),fresh_own _⟩
        exact .inl (.inl (.inr rfl))
      rintro ((base | none_) | ⟨-,p,rfl⟩)
      · omega
      · exact none_.elim
      rw [fresh_own]
      split_ifs <;> decide
    · rw [fresh_own] at held
      rw [fresh_own,fresh_own] at eq
      split_ifs at held eq <;> simp_all
    rw [fresh_own] at held base
    rw [fresh_fixed] at base
    split_ifs at held base <;> simp_all
  mapped i mem idx := by
    have spot : (freshDisk heap).own (i,.leaf idx) = _ := fresh_own (i,.leaf idx)
    rw [own_inode mem] at spot
    change leafBlock _ _ idx = _ at spot
    obtain rfl := fresh_member mem
    rw [spot]
    change _ ↔ idx < 0
    simp
  cached i on := on
  nonzero i mem := by rw [fresh_member mem]; decide
  root := List.mem_singleton_self 1

lemma fresh_tidy : Tidy (freshDisk heap) where
  blocks := fresh_blocks
  fine i mem := by
    obtain rfl := fresh_member mem
    have fits : rootDin.Fits := ⟨by decide,by decide,by decide,by decide,by decide,fun _ => (by decide : 0 < 2^32),by decide,by decide⟩
    exact ⟨fits,fun file => absurd file (by decide : rootDin.type ≠ sfsTypeFile),fun away => absurd (List.mem_singleton_self 1) away,
      fun _ => ⟨Nat.one_pos,rfl,Nat.zero_le 1,.inl rfl⟩,fun _ _ clean => nomatch clean⟩

def rootItem : Item := ⟨sfsTypeDir,2,1,0,0,fun _ => none,false,1,0⟩

lemma fresh_ns : (freshDisk heap).ns = fun i => if i = 1 then some rootItem else none := by
  funext i
  by_cases root : i = 1
  · subst root
    rw [ns_member (List.mem_singleton_self 1),if_pos rfl,item_listed (List.mem_singleton_self 1)]
    have slot : (freshDisk heap).slot 1 = fun _ => none := by
      funext k
      exact slot_vacant (fresh_own _)
    rw [slot]
    rfl
  rw [ns_absent fun mem => root (fresh_member mem),if_neg root]

lemma fresh_consistent : Consistent (freshDisk heap) := by
  refine ⟨fresh_tidy,?_⟩
  rw [fresh_ns]
  have only i r : (if i = 1 then some rootItem else none) = some r → i = 1 ∧ r = rootItem := by
    intro got
    split at got
    next root => exact ⟨root,(Option.some.inj got).symm⟩
    next => cases got
  have names i : Ns.names (fun i => if i = 1 then some rootItem else none) i = ∅ := by
    refine Set.eq_empty_of_forall_notMem fun p entry => ?_
    obtain ⟨r,n,got,held⟩ := entry
    obtain ⟨-,rfl⟩ := only _ _ got
    cases held
  constructor
  · intro i r got
    obtain ⟨rfl,rfl⟩ := only _ _ got
    have none_ : Ns.subdirs (fun i => if i = 1 then some rootItem else none) rootItem = ∅ := Set.eq_empty_of_forall_notMem fun k ⟨x,n,held,_⟩ => nomatch held
    rw [Ns.due,names,none_,if_pos ⟨rfl,rfl⟩,if_pos (show 1 = sfsBlknRoot from rfl),Set.ncard_empty,Set.ncard_empty]
    rfl
  · exact ⟨rootItem,rfl,rfl,rfl⟩
  · intro d r k x n got held
    obtain ⟨-,rfl⟩ := only _ _ got
    cases held
  · intro d r k l x y n got held
    obtain ⟨-,rfl⟩ := only _ _ got
    cases held
  · intro d r got _
    obtain ⟨-,rfl⟩ := only _ _ got
    have none_ : rootItem.taken = ∅ := Set.eq_empty_of_forall_notMem fun k held => held rfl
    rw [none_]
    simp [rootItem]
  · intro x p q _ entry
    rw [names] at entry
    exact entry.elim
  · intro x r got _ _ p entry
    rw [names] at entry
    exact entry.elim
  intro x r got gone
  obtain ⟨-,rfl⟩ := only _ _ got
  cases gone

end Fresh

structure Item.Alike (r q : Item) : Prop where
  names : ∀ n x,(∃ k,r.slot k = some (x,n)) ↔ ∃ k,q.slot k = some (x,n)
  slots : q.info = r.info
  nlinks : q.nlinks = r.nlinks
  parent : q.parent = r.parent

def Ns.Alike (m n : Ns) : Prop := ∀ i r,m i = some r → ∃ q,n i = some q ∧ r.Alike q

def Call.Naming : Call → Prop
  | .create _ _ _ | .mkdir _ _ | .link _ _ _ | .unlink _ _ | .rename _ _ _ _ => True
  | _ => False

lemma Ns.Alike.refl (ns : Ns) : ns.Alike ns := fun _ r got => ⟨r,got,fun _ _ => .rfl,rfl,rfl,rfl⟩

lemma Change.lose_differs {ns : Ns} {isdir : Bool} (sane : ns.Sane) (bound : ns.Bounded) (valid : (Change.lose d k x name isdir).Valid ns) :
    ¬ ns.Alike (ns.lose d k x isdir) := by
  intro alike
  obtain ⟨r,q,entry,-⟩ := id valid
  obtain ⟨p,got,eq⟩ := alike d r entry.found
  obtain ⟨l,held⟩ := (eq.names name x).mp ⟨k,entry.slot⟩
  have edited := congrFun (congrFun (Change.entry sane bound _ valid) d) l
  change (ns.lose d k x isdir).entry d l = ns.entry.put d k none d l at edited
  rw [Ns.entry_found got,held] at edited
  by_cases here : l = k
  · simp [Slots.put,here] at edited
  rw [Slots.put,if_neg (fun both => here both.2),Ns.entry_found entry.found] at edited
  exact here (sane.distinct d r l k x x name entry.found edited.symm entry.slot)

theorem name_call_atomic (cons : Consistent s) (c : Call) (naming : c.Naming) (ready : c.Ready s.ns) (failed : c.act s = .err e t) :
    s.ns.Alike t.ns ↔ ¬ c.Loses s := by
  have way : s.ns.Upheld ∨ c.Straight := .inr (by
    cases c with
    | lookup d path => exact naming.elim
    | _ => trivial)
  have ended := c.run cons ready way
  rw [failed] at ended
  obtain ⟨ch,leaves,based,went⟩ := ended
  rw [went.ns]
  cases c with
  | rename d name d' newName =>
    obtain ⟨safe,rfl⟩ | ⟨k,x,isdir,lost,rfl⟩ := leaves
    · exact ⟨fun _ ⟨y,lost⟩ => safe y lost,fun _ => .refl _⟩
    · exact ⟨fun alike => (Change.lose_differs cons.sane cons.tidy.bounded based alike).elim,fun safe => (safe ⟨x,lost⟩).elim⟩
  | create _ _ _ | mkdir _ _ | link _ _ _ | unlink _ _ => cases leaves; exact ⟨fun _ => id,fun _ => .refl _⟩
  | _ => exact naming.elim

def runs (o : Outcome Err Fault SfsFs α) (rest : SfsFs → Bool) : Bool :=
  match o with
  | .ok _ t => rest t
  | _ => false

def fails (o : Outcome Err Fault SfsFs α) (rest : SfsFs → Bool) : Bool :=
  match o with
  | .err _ t => rest t
  | _ => false

-- The buffer for the search is refused.
theorem name_call_atomic_refused : ∃ e t,(Call.create 1 nameA true).act (freshDisk fun _ => false) = .err e t ∧
    ((freshDisk fun _ => false).ns.Alike t.ns ↔ ¬ (Call.create 1 nameA true).Loses (freshDisk fun _ => false)) := by
  have failed : fails ((Call.create 1 nameA true).act (freshDisk fun _ => false)) (fun _ => true) = true := by decide +kernel
  cases ran : (Call.create 1 nameA true).act (freshDisk fun _ => false) with
  | ok a t => rw [ran] at failed; cases failed
  | fault f => rw [ran] at failed; cases failed
  | err e t =>
    have ready : (Call.create 1 nameA true).Ready (freshDisk fun _ => false).ns := by
      rw [fresh_ns]
      exact ⟨rootItem,rfl,Nat.one_pos,rfl⟩
    exact ⟨e,t,rfl,name_call_atomic fresh_consistent _ trivial ready ran⟩

-- Directories a and b, then b is renamed to c in a; kmalloc fails for the new
-- entry and again for the entry put back.
def badHeap (n : Nat) : Bool := n ≠ 16 && n ≠ 17

set_option maxRecDepth 100000 in
theorem renamed_away : runs ((do sfsMkdir 1 nameA; sfsMkdir 1 nameB; sfsLookupOnce 1 nameA : SfsM Nat) (freshDisk badHeap)) (fun s =>
    (s.slot 1 0 = some (3,nameA) && s.slot 1 1 = some (5,nameB)) &&
    fails ((Call.rename 1 nameB 3 nameC).act s) (fun t => t.slot 1 0 = some (3,nameA) && t.slot 1 1 = none && t.slot 3 0 = none)) = true := by
  decide +kernel

end Ucore.Sfs
