import Ucore.Sfs.Changes
import Ucore.Sfs.Dirent
import Ucore.Sfs.Reclaim

-- What the operations on names do to the namespace.
namespace Ucore.Sfs
open Bytes Outcomes Ownership Nat Ns

lemma Tidy.bounded {s : SfsFs} (tidy : Tidy s) : s.ns.Bounded := by
  refine ⟨s.inodes.toFinset.finite_toSet.subset fun j live => ?_,fun d r found k held => ?_⟩
  · simpa using ns_inode.mpr live
  obtain ⟨mem,rfl⟩ := ns_some found
  have own : s.own (d,.leaf k) ≠ 0 := fun none => held (slot_vacant none)
  rw [own_inode mem] at own
  exact (tidy.blocks.mapped d mem k).mp own

lemma Tidy.few {s : SfsFs} (tidy : Tidy s) (found : s.ns d = some r) : r.blocks < 2^20 := by
  obtain ⟨mem,rfl⟩ := ns_some found
  have few := tidy.blocks.count_lt mem
  have small := tidy.blocks.small
  change (s.din d).blocks < _
  omega

structure Consistent (s : SfsFs) : Prop where
  tidy : Tidy s
  sane : s.ns.Sane

structure Open (s : SfsFs) (d : Nat) (r : Item) : Prop where
  found : s.ns d = some r
  held : 0 < r.refs
  dir : r.type = sfsTypeDir

section Steps
variable {s : SfsFs} {d x k : Nat} {r q : Item} {name : CStr}

section
variable (opened : Open s d r)
include opened

lemma Open.listed : d ∈ s.inodeList := (listed_of opened.found opened.held).1

lemma Open.type : (s.node d).din.type = sfsTypeDir := by
  obtain ⟨_,eq⟩ := listed_of opened.found opened.held
  rw [← opened.dir,← eq]
  rfl

lemma Open.blocks : (s.node d).din.blocks = r.blocks := by
  obtain ⟨_,eq⟩ := listed_of opened.found opened.held
  rw [← eq]
  rfl

lemma Open.slot : s.slot d = r.slot := by
  obtain ⟨_,eq⟩ := listed_of opened.found opened.held
  rw [← eq]
  rfl

lemma Open.removed : (s.node d).removed = r.removed := by
  obtain ⟨_,eq⟩ := listed_of opened.found opened.held
  rw [← eq]
  rfl

end

lemma trylock_gone (gone : (s.node d).removed = true) : trylockSin held d s = .err .eNoent s := by simp [trylockSin,gone]

lemma trylock_free (has : (s.node d).removed = false) (free : d ∉ held) : trylockSin held d s = .ok () s := by simp [trylockSin,has,free]

lemma trylock_held {held : List Nat} (has : (s.node d).removed = false) (inside : d ∈ held) : trylockSin held d s = .fault .deadlock := by
  simp [trylockSin,has,inside]

lemma search_open (tidy : Tidy s) (opened : Open s d r) (short : name.strlen ≤ sfsMaxFnameLen) :
    (s.heap s.tick = false ∧ sfsDirentSearchNolock d name s = .err .eNoMem s.asked) ∨
    (s.heap s.tick = true ∧ ∃ a,sfsDirentSearchNolock d name s = .ok a s.asked ∧ Searched r.slot r.blocks name a) := by
  cases mem : s.heap s.tick with
  | false => exact .inl ⟨rfl,search_nomem short mem⟩
  | true =>
    obtain ⟨a,ran,seek⟩ := search_run tidy opened.listed opened.type short mem
    rw [opened.slot,opened.blocks] at seek
    exact .inr ⟨rfl,a,ran,seek⟩

lemma Open.asked (opened : Open s d r) : Open s.asked d r := {opened with}

lemma Open.of_ns {t : SfsFs} (opened : Open s d r) (eq : t.ns d = s.ns d) : Open t d r := ⟨eq.trans opened.found,opened.held,opened.dir⟩

lemma Searched.vacant (seek : Searched r.slot r.blocks name (.noent k)) : Vacant r k name := ⟨seek.1,seek.2.1,seek.2.2.1⟩

lemma link_open (tidy : Tidy s) (opened : Open s d r) (target : s.ns x = some q) (held : 0 < q.refs) (low : k ≤ r.blocks)
    (short : name.strlen ≤ sfsMaxFnameLen) :
    (WriteFails s d k ∧ ∃ t,sfsDirentLinkNolock d k x name s = .err .eNoMem t ∧ Went s t s.ns ∧ t.tick = s.tick + 1) ∨
    (¬ WriteFails s d k ∧ ∃ t,sfsDirentLinkNolock d k x name s = .ok () t ∧ Went s t (s.ns.link d k x name) ∧ t.tick = s.tick + 1) :=
  direntLink_run tidy opened.listed opened.type (listed_of target held).1 (by rw [opened.blocks]; exact low) short

def Proper (name : CStr) : Prop := name.strlen ≤ sfsMaxFnameLen ∧ name ≠ dot ∧ name ≠ dotDot

lemma Proper.checked {α : Type} {ok : α → SfsFs → Prop} {bad : Fault → Prop} {body : SfsM α} (tidy : Tidy s)
    (run : Proper name → (body s).Meets ok (fun _ t => Went s t s.ns) bad) :
    ((if name.strlen > sfsMaxFnameLen then fail e else if name = dot ∨ name = dotDot then fail e' else body : SfsM α) s).Meets
      ok (fun _ t => Went s t s.ns) bad := by
  split
  · exact .refl tidy
  rename_i long
  split
  · exact .refl tidy
  rename_i plain
  exact run ⟨Nat.le_of_not_lt long,fun h => plain (.inl h),fun h => plain (.inr h)⟩

lemma Open.search {α : Type} {ok : α → SfsFs → Prop} {bad : Fault → Prop} {next : Search → SfsM α} (opened : Open s d r) (tidy : Tidy s)
    (short : name.strlen ≤ sfsMaxFnameLen)
    (run : ∀ a,r.removed = false → Searched r.slot r.blocks name a → (next a s.asked).Meets ok (fun _ t => Went s t s.ns) bad) :
    ((trylockSin [] d >>= fun _ => sfsDirentSearchNolock d name >>= next) s).Meets ok (fun _ t => Went s t s.ns) bad := by
  rw [bind_run]
  cases gone : r.removed with
  | true =>
    rw [trylock_gone (opened.removed.trans gone)]
    exact .refl tidy
  | false =>
    rw [trylock_free (opened.removed.trans gone) (by simp),next_ok,bind_run]
    rcases search_open tidy opened short with ⟨_,failed⟩ | ⟨_,a,ran,seek⟩
    · rw [failed]
      exact .asked tidy
    rw [ran,next_ok]
    exact run a gone seek

lemma sfsLink_run (tidy : Tidy s) (opened : Open s d r) (target : s.ns x = some q) (held : 0 < q.refs) : (sfsLink d name x s).Meets
      (fun _ t => Proper name ∧ q.type ≠ sfsTypeDir ∧ r.removed = false ∧ ∃ k,Vacant r k name ∧ Went s t (s.ns.link d k x name))
      (fun _ t => Went s t s.ns) (fun _ => False) := by
  refine Proper.checked tidy fun proper => ?_
  have kind : (s.node x).din.type = q.type := by
    obtain ⟨_,eq⟩ := listed_of target held
    rw [← eq]
    rfl
  simp only [rules,ite_run,kind]
  split
  · exact .refl tidy
  rename_i file
  refine opened.search tidy proper.1 fun a gone seek => ?_
  cases a with
  | found _ slot => exact .asked tidy
  | noent slot =>
    have free := seek.vacant
    rcases link_open (s:=s.asked) (Sound.asked tidy) opened.asked target held free.low proper.1 with
      ⟨_,t,bad,went,_⟩ | ⟨_,t,done,went,_⟩
    · simp only [bad]
      exact (Went.asked tidy).after went
    simp only [done]
    exact ⟨proper,file,gone,slot,free,(Went.asked tidy).after went⟩

structure Making (s t : SfsFs) (d i type : Nat) (r : Item) : Prop where
  went : Went s t (s.ns.add i (.made type))
  absent : s.ns i = none
  apart : i ≠ d
  opened : Open t d r
  made : t.ns i = some (.made type)
  drop : Droppable (.made type) i [d]

lemma Made.making (made : Made s t i type) (tidy : Tidy s) (opened : Open s d r) : Making s t d i type r := by
  have out : s.ns i = none := ns_absent made.absent
  have apart : i ≠ d := by
    rintro rfl
    rw [opened.found] at out
    cases out
  refine ⟨made.went,out,apart,opened.of_ns ?_,?_,⟨one_pos,fun gone => (by cases gone),fun _ _ => ?_,fun _ => (by simpa using apart)⟩⟩
  · rw [made.went.ns]
    exact add_ne (Ne.symm apart)
  · rw [made.went.ns]
    simp [add]
  rintro rfl
  exact made.absent tidy.blocks.root

lemma Making.undo (making : Making s t d i type r) (went : Went t u t.ns) : ∃ v,vopRefDec [d] i u = .ok () v ∧ Went s v s.ns := by
  have found : u.ns i = some (.made type) := by
    rw [went.ns]
    exact making.made
  obtain ⟨v,ran,new,_⟩ := refDec_run went.tidy found _ making.drop
  have eq : u.ns.release i = s.ns := by rw [went.ns,making.went.ns,release_add making.absent]
  rw [eq] at new
  exact ⟨v,ran,making.went.trans (went.after new) fun j live => add_isSome i j _ live⟩

lemma Consistent.asked (cons : Consistent s) : Consistent s.asked := ⟨Sound.asked cons.tidy,cons.sane⟩

lemma Tidy.opens (tidy : Tidy s) (found : s.ns x = some q) : q.opens ≤ q.refs := by
  obtain ⟨_,rfl⟩ := ns_some found
  by_cases mem : x ∈ s.inodeList
  · rw [item_listed mem]
    exact (tidy.held mem).opens
  simp [SfsFs.item,mem]

lemma Consistent.drop (cons : Consistent s) (found : s.ns x = some q) (locked : List Nat)
    (held : ∀ h ∈ locked,∃ p,s.ns h = some p ∧ 0 < p.refs) : Droppable q.incRefs x locked := by
  refine ⟨lt_succ_of_le (cons.tidy.opens found),fun gone => Ns.Mid.links_removed (r:=q) cons.sane found gone,
    fun _ none => (cons.sane.unlinked cons.tidy.bounded found none).2.2,fun last inside => ?_⟩
  obtain ⟨p,eq,_⟩ := held x inside
  obtain rfl := Option.mem_unique found eq
  have : q.refs + 1 = 1 := last
  omega

lemma Open.locked (opened : Open s d r) : ∀ h ∈ [d],∃ p,s.ns h = some p ∧ 0 < p.refs := by
  intro h inside
  rw [List.mem_singleton.mp inside]
  exact ⟨r,opened.found,opened.held⟩

lemma load_entry (cons : Consistent s) (found : s.ns d = some r) (entry : r.slot k = some (x,name)) :
    ∃ q,s.ns x = some q ∧ q.nlinks ≠ 0 ∧ x ≠ sfsBlknRoot ∧ Loads s x q.type := by
  obtain ⟨_,_,apart,live⟩ := cons.sane.named d r k x name found entry
  have mem := ns_inode.mpr live
  exact ⟨s.item x,ns_member mem,cons.sane.links_named (p:=(d,k)) cons.tidy.bounded ⟨r,name,found,entry⟩ (ns_member mem),apart,load_run cons.tidy mem⟩

lemma Loaded.undo {locked : List Nat} (loaded : Loaded s t x) (cons : Consistent s) (found : s.ns x = some q) (links : q.nlinks ≠ 0)
    (held : ∀ h ∈ locked,∃ p,s.ns h = some p ∧ 0 < p.refs) (went : Went t u t.ns) :
    ∃ v,vopRefDec locked x u = .ok () v ∧ Went s v s.ns := by
  have here : u.ns x = some q.incRefs := by
    rw [went.ns,loaded.went.ns]
    exact alter_self found _
  obtain ⟨v,ran,new,_⟩ := refDec_run went.tidy here _ (cons.drop found _ held)
  have eq : u.ns.release x = s.ns := by rw [went.ns,loaded.went.ns,release_hold found (.inr links)]
  rw [eq] at new
  exact ⟨v,ran,loaded.went.trans (went.after new) fun j live => by rwa [alter_isSome]⟩

lemma Loaded.type (loaded : Loaded s t x) (found : s.ns x = some q) : (t.node x).din.type = q.type := by
  have here : t.ns x = some q.incRefs := by
    rw [loaded.went.ns]
    exact alter_self found _
  obtain ⟨_,eq⟩ := listed_of here (succ_pos _)
  have := congrArg Item.type eq
  exact this

lemma sfsCreate_run (cons : Consistent s) (opened : Open s d r) : (sfsCreate d name excl s).Meets
      (fun i t => Proper name ∧ r.removed = false ∧ ((∃ k,Vacant r k name ∧ s.ns i = none ∧ Went s t ((s.ns.add i (.made sfsTypeFile)).link d k i name)) ∨
          (excl = false ∧ ∃ k q,r.slot k = some (i,name) ∧ s.ns i = some q ∧ q.type = sfsTypeFile ∧ Went s t (s.ns.alter i Item.incRefs))))
      (fun _ t => Went s t s.ns) (fun f => f = .invalidType) := by
  have tidy := cons.tidy
  refine Proper.checked tidy fun proper => opened.search tidy proper.1 fun a gone seek => ?_
  cases a with
  | noent slot =>
    have free := seek.vacant
    simp only [rules]
    rcases create_run (s:=s.asked) (Sound.asked tidy) opened.listed (.inr rfl) with ⟨t,bad,went⟩ | ⟨i,t,got,made⟩
    · rw [bad]
      exact (Went.asked tidy).after went
    rw [got,next_ok,bind_run]
    have making := made.making (Sound.asked tidy) opened.asked
    rcases link_open making.went.tidy making.opened making.made one_pos free.low proper.1 with
      ⟨_,u,bad,went,_⟩ | ⟨_,u,done,went,_⟩
    · rw [attempt_err bad,next_ok]
      obtain ⟨v,cut,new⟩ := making.undo went
      simp only [rules,cut]
      exact (Went.asked tidy).after new
    rw [attempt_ok done,next_ok]
    rw [making.went.ns] at went
    exact ⟨proper,gone,.inl ⟨slot,free,making.absent,((Went.asked tidy).after making.went).trans went
      fun j live => add_isSome i j _ live⟩⟩
  | found _ slot =>
    obtain ⟨_,entry⟩ := seek
    simp only [ite_run]
    cases excl with
    | true => exact .asked tidy
    | false =>
      simp only [rules]
      obtain ⟨q,target,links,_,cases_⟩ := load_entry cons.asked opened.asked.found entry
      rcases cases_ with ⟨_,t,bad,went⟩ | ⟨_,_,bad⟩ | ⟨_,_,t,got,loaded⟩
      · rw [bad]
        exact (Went.asked tidy).after went
      · rw [bad]
        rfl
      simp only [got,rules,loaded.type target,ite_run]
      split
      next file => exact ⟨proper,gone,.inr ⟨trivial,slot,q,entry,target,file,(Went.asked tidy).after loaded.went⟩⟩
      obtain ⟨v,cut,new⟩ := loaded.undo cons.asked target links opened.asked.locked (.refl loaded.went.tidy)
      simp only [cut,rules]
      exact (Went.asked tidy).after new

section
variable (tidy : Tidy s)
include tidy

lemma mkdirFinish_run (opened : Open s d r) (found : s.ns i = some q) (held : 0 < q.refs) : ∃ t,sfsMkdirFinish d i s = .ok () t ∧
      Went s t (((s.ns.alter i (Item.setParent d)).alter i Item.incLinks).alter d Item.incLinks) := by
  have small := (inode_small tidy.blocks (tidy.blocks.cached d opened.listed)).2
  obtain ⟨t,ran,went,list,_⟩ := Went.setParent tidy (listed_of found held).1 small
  have mem : ∀ j ∈ s.inodeList,j ∈ t.inodeList := fun j old => list ▸ old
  obtain ⟨u,ran',went',list',_⟩ := Went.incLinks went.tidy (mem i (listed_of found held).1)
  obtain ⟨v,ran'',went'',_⟩ := Went.incLinks went'.tidy (i:=d) (list' ▸ mem d opened.listed)
  rw [went.ns] at went'
  rw [went'.ns] at went''
  refine ⟨v,?_,(went.trans went' fun j live => ?_).trans went'' fun j live => ?_⟩
  · simp [sfsMkdirFinish,ran,ran',ran'']
  · rwa [alter_isSome]
  rwa [alter_isSome,alter_isSome]

lemma sfsMkdir_run (opened : Open s d r) : (sfsMkdir d name s).Meets
      (fun _ t => Proper name ∧ r.removed = false ∧ ∃ k i,Vacant r k name ∧ s.ns i = none ∧ Went s t (s.ns.mkdir d k i name))
      (fun _ t => Went s t s.ns) (fun _ => False) := by
  refine Proper.checked tidy fun proper => opened.search tidy proper.1 fun a gone seek => ?_
  cases a with
  | found _ slot => exact .asked tidy
  | noent slot =>
    have free := seek.vacant
    simp only [rules]
    rcases create_run (s:=s.asked) (Sound.asked tidy) opened.listed (.inl rfl) with ⟨t,bad,went⟩ | ⟨i,t,got,made⟩
    · rw [bad]
      exact (Went.asked tidy).after went
    rw [got,next_ok,bind_run]
    have making := made.making (Sound.asked tidy) opened.asked
    rcases link_open making.went.tidy making.opened making.made one_pos free.low proper.1 with
      ⟨_,u,bad,went,_⟩ | ⟨_,u,done,went,_⟩
    · rw [attempt_err bad,next_ok]
      obtain ⟨v,cut,new⟩ := making.undo went
      have item : (u.node i).item (u.slot i) = .made sfsTypeDir := (listed_of (by rw [went.ns]; exact making.made) one_pos).2
      have links : (u.node i).din.nlinks = 0 := congrArg Item.nlinks item
      have refs : (u.node i).refCount = 1 := congrArg Item.refs item
      have opens : (u.node i).openCount = 0 := congrArg Item.opens item
      simp only [rules,links,refs,opens,Bool.and_self,cut]
      exact (Went.asked tidy).after new
    rw [attempt_ok done,next_ok]
    have one : (t.ns.link d slot i name) i = some ((Item.made sfsTypeDir).incLinks) := by
      rw [link,alter_self (r:=.made sfsTypeDir)]
      rw [alter_ne making.apart]
      exact making.made
    have opened' : Open u d (r.enter slot i name) := by
      refine ⟨?_,making.opened.held,making.opened.dir⟩
      rw [went.ns,link,alter_ne (Ne.symm making.apart)]
      exact alter_self making.opened.found _
    obtain ⟨v,finished,went'⟩ := mkdirFinish_run went.tidy opened' (went.ns ▸ one) one_pos
    have last : v.ns i = some (((Item.made sfsTypeDir).incLinks.setParent d).incLinks) := by
      rw [went'.ns,alter_ne making.apart]
      exact alter_self (alter_self (went.ns ▸ one) _) _
    obtain ⟨w,cut,new,_⟩ := refDec_run went'.tidy last [d]
      ⟨one_pos,fun gone => (by cases gone),fun _ none => absurd none (show (2 : Nat) ≠ 0 by decide),fun _ => (by simpa using making.apart)⟩
    simp only [rules,finished,cut]
    refine ⟨proper,gone,slot,i,free,making.absent,?_⟩
    rw [making.went.ns] at went
    rw [went.ns] at went'
    rw [went'.ns] at new
    have all := ((Went.asked tidy).after making.went).trans went fun j live => add_isSome i j _ live
    have live : ∀ j,(s.ns j).isSome → ((s.asked.ns.add i (.made sfsTypeDir)).link d slot i name j).isSome := fun j live => by
      rw [link_isSome]
      exact add_isSome i j _ live
    exact (all.trans went' live).trans new fun j old => by
      rw [alter_isSome,alter_isSome,alter_isSome]
      exact live j old

section
variable (found : s.ns x = some q) (held : 0 < q.refs)
include found held

lemma removed_went : ∃ t,setRemoved x s = .ok () t ∧ Went s t (s.ns.alter x Item.remove) := by
  have mem := (listed_of found held).1
  have old := tidy.held mem
  exact ⟨_,rfl,(held_setNode tidy mem (f:=fun n => {n with removed:=true}) {old with} rfl rfl
    fun _ => rfl).1⟩

lemma incLinks_went : ∃ t,sfsNlinksIncNolock x s = .ok () t ∧ Went s t (s.ns.alter x Item.incLinks) ∧ Still s t := by
  obtain ⟨t,ran,went,_,still⟩ := Went.incLinks tidy (listed_of found held).1
  exact ⟨t,ran,went,still⟩

lemma decLinks_went (links : q.nlinks ≠ 0) : ∃ t,sfsNlinksDecNolock x s = .ok () t ∧ Went s t (s.ns.alter x Item.decLinks) ∧ Still s t := by
  obtain ⟨mem,eq⟩ := listed_of found held
  obtain ⟨t,ran,went,_,still⟩ := Went.decLinks tidy mem (by rw [← eq] at links; exact links)
  exact ⟨t,ran,went,still⟩

lemma setParent_went (parent : (s.ns d).isSome) : ∃ t,sfsDirinfoSetParent x d s = .ok () t ∧ Went s t (s.ns.alter x (Item.setParent d)) ∧ Still s t := by
  obtain ⟨t,ran,went,_,still⟩ := Went.setParent tidy (listed_of found held).1 (inode_small tidy.blocks (ns_inode.mpr parent)).2
  exact ⟨t,ran,went,still⟩

end

section
variable (opened : Open s d r) (target : s.ns x = some q) (held : 0 < q.refs) (low : k < r.blocks) (slots : r.info ≠ 0)
include opened target held low slots

lemma unlink_open (links : q.nlinks ≠ 0) : (s.heap s.tick = false ∧ sfsDirentUnlinkNolock d k x s = .err .eNoMem s.asked) ∨
    (s.heap s.tick = true ∧ ∃ t,sfsDirentUnlinkNolock d k x s = .ok () t ∧ Went s t (s.ns.unlink d k x) ∧ t.inodeList = s.inodeList ∧ Still s.asked t) := by
  obtain ⟨mem,eq⟩ := listed_of opened.found opened.held
  obtain ⟨linked,same'⟩ := listed_of target held
  exact direntUnlink_run tidy mem opened.type linked (by rw [opened.blocks]; exact low)
    (by rw [← eq] at slots; exact slots) (by rw [← same'] at links; exact links)

lemma unlinkDir_run (links : 2 ≤ q.nlinks) (parent : 2 ≤ r.nlinks) (has : q.removed = false) (apart : x ≠ d) : (sfsUnlinkDir d k x s).Meets
      (fun _ t => q.info = 0 ∧ Went s t ((((s.ns.unlink d k x).alter x Item.remove).alter x Item.decLinks).alter d Item.decLinks))
      (fun _ t => Went s t s.ns) (fun _ => False) := by
  obtain ⟨_,eq⟩ := listed_of target held
  have kept : (s.node x).removed = false := by rw [← has,← eq]; rfl
  have count : (s.node x).din.slots = q.info := by rw [← eq]; rfl
  simp only [sfsUnlinkDir,rules,trylock_free kept (by simpa using apart : x ∉ [d]),count,ite_run]
  split
  · exact .refl tidy
  rename_i empty
  rcases unlink_open tidy opened target held low slots (by omega) with ⟨_,bad⟩ | ⟨_,t,ran,went,_,_⟩
  · rw [bad]
    exact .asked tidy
  have here : t.ns x = some q.decLinks := by
    rw [went.ns]
    exact alter_self (by rw [alter_ne apart,target]) _
  have above : t.ns d = some (r.leave k) := by
    rw [went.ns,unlink,alter_ne (Ne.symm apart)]
    exact alter_self opened.found _
  obtain ⟨u,gone,went'⟩ := removed_went went.tidy here held
  obtain ⟨v,less,went'',_⟩ := decLinks_went (q:=q.decLinks.remove) went'.tidy (went'.ns ▸ alter_self here _) held
    (show q.nlinks - 1 ≠ 0 by omega)
  rw [went'.ns] at went''
  obtain ⟨w,fewer,last,_⟩ := decLinks_went went''.tidy (q:=r.leave k)
    (by rw [went''.ns,alter_ne (Ne.symm apart),alter_ne (Ne.symm apart),above]) opened.held (show r.nlinks ≠ 0 by omega)
  simp only [ran,rules,gone,less,fewer]
  rw [went''.ns] at last
  rw [went.ns] at went' went'' last
  refine ⟨not_not.mp empty,((went.trans went' fun j live => ?_).trans went'' fun j live => ?_).trans last fun j live => ?_⟩
  all_goals simpa only [unlink,alter_isSome] using live

end

end

structure Picked (s : SfsFs) (d k x : Nat) (r q : Item) (name : CStr) : Prop where
  opened : Open s d r
  low : k < r.blocks
  entry : r.slot k = some (x,name)
  target : s.ns x = some q
  links : q.nlinks ≠ 0
  root : x ≠ sfsBlknRoot
  present : q.removed = false
  slots : r.info ≠ 0

lemma Open.loaded (opened : Open s d r) (loaded : Loaded s t x) (apart : x ≠ d) : Open t d r := by
  refine opened.of_ns ?_
  rw [loaded.went.ns]
  exact alter_ne (Ne.symm apart) _

lemma Loaded.found (loaded : Loaded s t x) (target : s.ns x = some q) : t.ns x = some q.incRefs := by
  rw [loaded.went.ns]
  exact alter_self target _

lemma unlinkEntry_run (cons : Consistent s) (picked : Picked s d k x r q name) (loaded : Loaded s t x) : (sfsUnlinkEntry d k x t).Meets
      (fun _ u => x ≠ d ∧ ((q.type ≠ sfsTypeDir ∧ Went t u (t.ns.unlink d k x)) ∨ (q.type = sfsTypeDir ∧ q.info = 0 ∧
          Went t u ((((t.ns.unlink d k x).alter x Item.remove).alter x Item.decLinks).alter d Item.decLinks))))
      (fun _ u => Went t u t.ns) (fun f => f = .deadlock ∧ x = d) := by
  have bound := cons.tidy.bounded
  have found := loaded.found picked.target
  have tidy := loaded.went.tidy
  simp only [sfsUnlinkEntry,rules,loaded.type picked.target,ite_run]
  by_cases eq : x = d
  · obtain rfl : q = r := Option.some.inj (picked.target.symm.trans (eq ▸ picked.opened.found))
    obtain ⟨_,item⟩ := listed_of found (succ_pos _)
    have has : (t.node x).removed = false := (congrArg Item.removed item).trans picked.present
    rw [if_neg (not_not.mpr picked.opened.dir),sfsUnlinkDir,bind_run,trylock_held has (by simpa using eq)]
    exact ⟨rfl,eq⟩
  have opened := picked.opened.loaded loaded eq
  have links : q.incRefs.nlinks ≠ 0 := picked.links
  split
  next file =>
    rcases unlink_open tidy opened found (succ_pos _) picked.low picked.slots links with ⟨_,bad⟩ | ⟨_,u,ran,went,_⟩
    · rw [bad]
      exact .asked tidy
    rw [ran]
    exact ⟨eq,.inl ⟨file,went⟩⟩
  rename_i dir
  have dir := not_not.mp dir
  have below : s.ns.isDir x := ⟨q,picked.target,dir⟩
  have parent : 2 ≤ r.nlinks := cons.sane.links_parent bound picked.opened.found picked.entry below
  have own : 2 ≤ q.nlinks := cons.sane.links_named_dir bound (p:=(d,k)) ⟨r,name,picked.opened.found,picked.entry⟩ picked.target dir
  have done := unlinkDir_run tidy opened found (succ_pos _) picked.low picked.slots own parent picked.present eq
  revert done
  cases sfsUnlinkDir d k x t with
  | ok a u => exact fun done => ⟨eq,.inr ⟨dir,done⟩⟩
  | err e u => exact id
  | fault f => exact fun done => absurd done id

lemma Consistent.picked (cons : Consistent s) (opened : Open s d r) (low : k < r.blocks) (entry : r.slot k = some (x,name))
    (target : s.ns x = some q) : Picked s d k x r q name := by
  have bound := cons.tidy.bounded
  have named : (d,k) ∈ s.ns.names x := ⟨r,name,opened.found,entry⟩
  exact ⟨opened,low,entry,target,cons.sane.links_named bound named target,(cons.sane.named d r k x name opened.found entry).2.2.1,
    cons.sane.present target named,cons.sane.slots_entry bound opened.found entry⟩

section
variable (loaded : Loaded s t x) (cons : Consistent s) (picked : Picked s d k x r q name) (apart : x ≠ d)
include loaded cons picked apart

lemma Loaded.unlinked (went : Went t u (t.ns.unlink d k x)) : ∃ v,vopRefDec [d] x u = .ok () v ∧ Went s v (s.ns.unlinkFile d k x) := by
  have here : u.ns x = some q.incRefs.decLinks := by
    rw [went.ns]
    refine alter_self (r:=q.incRefs) ?_ _
    rw [alter_ne apart,loaded.found picked.target]
  obtain ⟨v,ran,new,_⟩ := refDec_run went.tidy here [d]
    ⟨lt_succ_of_le (cons.tidy.opens picked.target),fun gone => absurd gone (by rw [show q.incRefs.decLinks.removed = q.removed from rfl,picked.present]; decide),
      fun _ _ => picked.root,fun _ => by simpa using apart⟩
  rw [went.ns] at new
  rw [loaded.went.ns] at went new
  exact ⟨v,ran,(loaded.went.trans went (hold_stays s.ns x)).trans new fun j live => by
    rw [unlink_isSome,alter_isSome]
    exact live⟩

lemma Loaded.rmdired (dir : q.type = sfsTypeDir) (empty : q.info = 0)
    (went : Went t u ((((t.ns.unlink d k x).alter x Item.remove).alter x Item.decLinks).alter d Item.decLinks)) :
    ∃ v,vopRefDec [d] x u = .ok () v ∧ Went s v (s.ns.rmdir d k x) := by
  have two := cons.sane.links_empty cons.tidy.bounded (p:=(d,k)) picked.target dir ⟨r,name,picked.opened.found,picked.entry⟩ picked.root empty
  have here : u.ns x = some q.incRefs.decLinks.remove.decLinks := by
    rw [went.ns,alter_ne apart]
    refine alter_self (alter_self (alter_self (r:=q.incRefs) ?_ _) _) _
    rw [alter_ne apart,loaded.found picked.target]
  obtain ⟨v,ran,new,_⟩ := refDec_run went.tidy here [d]
    ⟨lt_succ_of_le (cons.tidy.opens picked.target),fun _ => (show q.nlinks - 1 - 1 = 0 by omega),fun _ _ => picked.root,fun _ => by simpa using apart⟩
  rw [went.ns] at new
  rw [loaded.went.ns] at went new
  exact ⟨v,ran,(loaded.went.trans went (hold_stays s.ns x)).trans new fun j live => by
    simp only [unlink_isSome,alter_isSome]
    exact live⟩

end

lemma sfsUnlink_run (cons : Consistent s) (opened : Open s d r) : (sfsUnlink d name s).Meets
      (fun _ t => Proper name ∧ r.removed = false ∧ ∃ k x q,r.slot k = some (x,name) ∧ s.ns x = some q ∧ x ≠ d ∧
        ((q.type ≠ sfsTypeDir ∧ Went s t (s.ns.unlinkFile d k x)) ∨ (q.type = sfsTypeDir ∧ q.info = 0 ∧ Went s t (s.ns.rmdir d k x))))
      (fun _ t => Went s t s.ns)
      (fun f => f = .invalidType ∨ f = .deadlock ∧ ∃ k,r.slot k = some (d,name)) := by
  have tidy := cons.tidy
  refine Proper.checked tidy fun proper => opened.search tidy proper.1 fun a gone seek => ?_
  cases a with
  | noent slot => exact .asked tidy
  | found x slot =>
    obtain ⟨low,entry⟩ := seek
    simp only [rules]
    obtain ⟨q,target,links,_,cases_⟩ := load_entry cons.asked opened.asked.found entry
    have picked := cons.asked.picked opened.asked low entry target
    rcases cases_ with ⟨_,t,bad,went⟩ | ⟨_,_,bad⟩ | ⟨_,_,t,got,loaded⟩
    · rw [bad]
      exact (Went.asked tidy).after went
    · rw [bad]
      exact .inl rfl
    rw [got,next_ok,bind_run]
    have done := unlinkEntry_run cons.asked picked loaded
    revert done
    cases outcome : sfsUnlinkEntry d slot x t with
    | fault f =>
      rintro ⟨rfl,rfl⟩
      rw [attempt_fault outcome]
      exact .inr ⟨rfl,slot,entry⟩
    | err e u =>
      intro went
      obtain ⟨v,cut,new⟩ := loaded.undo cons.asked target links opened.asked.locked went
      rw [attempt_err outcome,next_ok,bind_run,cut]
      exact (Went.asked tidy).after new
    | ok _ u =>
      rintro ⟨apart,⟨file,went⟩ | ⟨dir,empty,went⟩⟩
      · obtain ⟨v,cut,new⟩ := loaded.unlinked cons.asked picked apart went
        rw [attempt_ok outcome,next_ok,bind_run,cut]
        exact ⟨proper,gone,slot,x,q,entry,target,apart,.inl ⟨file,(Went.asked tidy).after new⟩⟩
      obtain ⟨v,cut,new⟩ := loaded.rmdired cons.asked picked apart dir empty went
      rw [attempt_ok outcome,next_ok,bind_run,cut]
      exact ⟨proper,gone,slot,x,q,entry,target,apart,.inr ⟨dir,empty,(Went.asked tidy).after new⟩⟩

end Steps
end Ucore.Sfs
