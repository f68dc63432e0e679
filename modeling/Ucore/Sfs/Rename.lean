import Ucore.Sfs.Ops

-- Rename, within one directory and from one to another, with its undo.
namespace Ucore.Sfs
open Bytes Outcomes Ownership Item Ns
open Option (map_some mem_unique)

lemma Item.enter_leave {r : Item} (entry : r.slot k = some (x,name)) (low : k < r.blocks) (slots : r.info ≠ 0) (small : r.info < 2^32) :
    (r.leave k).enter k x name = r := by
  have slot : (fun l => if l = k then some (x,name) else (if l = k then none else r.slot l)) = r.slot := by
    funext l
    by_cases here : l = k
    · simp [here,entry]
    simp [here]
  have count : (r.info - 1 + 1) % 2^32 = r.info := by omega
  have eq : max r.blocks (k + 1) = r.blocks := by omega
  cases r
  simp only [enter,leave,setSlot] at slot count eq ⊢
  rw [slot,count,eq]

lemma Item.inc_dec {r : Item} (links : r.nlinks ≠ 0) (small : r.nlinks < 2^16) : r.decLinks.incLinks = r := by
  have count : (r.nlinks - 1 + 1) % 2^16 = r.nlinks := by omega
  cases r
  simp only [incLinks,decLinks] at count ⊢
  rw [count]

structure Undoable (ns : Ns) (d k x : Nat) (name : CStr) (r q : Item) (isdir : Bool) : Prop where
  found : ns d = some r
  target : ns x = some q
  entry : r.slot k = some (x,name)
  low : k < r.blocks
  slots : r.info ≠ 0
  count : r.info < 2^32
  links : q.nlinks ≠ 0
  small : q.nlinks < 2^16
  parent : isdir = true → 2 ≤ r.nlinks
  width : r.nlinks < 2^16

lemma Ns.restore_detach (undoable : Undoable ns d k x name r q isdir) : (ns.detach d k x isdir).restore d k x name isdir = ns := by
  have back := enter_leave undoable.entry undoable.low undoable.slots undoable.count
  have all := inc_dec undoable.links undoable.small
  have got := undoable.found
  have goal := undoable.target
  funext j
  cases isdir with
  | false =>
    simp only [restore,detach,link,unlink,Bool.false_eq_true,if_false]
    by_cases atDir : j = d
    · subst atDir
      by_cases atTarget : j = x
      · subst atTarget
        obtain rfl := mem_unique got goal
        simp only [alter,if_true,got,map_some]
        exact congrArg some ((congrArg (fun p : Item => p.decLinks.incLinks) back).trans all)
      simp [alter,atTarget,got,back]
    by_cases atTarget : j = x
    · subst atTarget
      simp [alter,atDir,goal,all]
    simp [alter,atDir,atTarget]
  | true =>
    have two := undoable.parent rfl
    have wide := undoable.width
    have again := inc_dec (r:=r) (by omega) wide
    simp only [restore,detach,link,unlink,if_true]
    by_cases atDir : j = d
    · subst atDir
      by_cases atTarget : j = x
      · subst atTarget
        obtain rfl := mem_unique got goal
        have twice := inc_dec (r:=r.decLinks) (show r.nlinks - 1 ≠ 0 by omega) (show r.nlinks - 1 < 2^16 by omega)
        simp only [alter,if_true,got,map_some]
        refine congrArg some ((congrArg (fun p : Item => p.decLinks.decLinks.incLinks.incLinks) back).trans ?_)
        rw [twice,again]
      simp only [alter,atTarget,if_true,if_false,got,map_some]
      exact congrArg some ((congrArg (fun p : Item => p.decLinks.incLinks) back).trans again)
    by_cases atTarget : j = x
    · subst atTarget
      simp [alter,atDir,goal,all]
    simp [alter,atDir,atTarget]

section Moves
variable {s t u : SfsFs} {d d' x k k' : Nat} {r r' q : Item} {name newName : CStr}

lemma Open.stays (opened : Open s d r) (went : Went s t m) (stays : s.ns.Stays m) : ∃ r',Open t d r' ∧ r.Stays r' := by
  obtain ⟨r',got,eq⟩ := stays d r opened.found
  exact ⟨r',⟨went.ns ▸ got,eq.refs ▸ opened.held,eq.type.trans opened.dir⟩,eq⟩

lemma node_type (got : s.ns x = some q) (held : 0 < q.refs) : (s.node x).din.type = q.type := by
  obtain ⟨_,eq⟩ := listed_of got held
  rw [← eq]
  rfl

lemma Open.held_loaded (opened : Open s d r) (load : Loaded s t x) : ∃ r',Open t d r' ∧ r' = if d = x then r.incRefs else r := by
  refine ⟨_,⟨?_,?_,?_⟩,rfl⟩
  · rw [load.went.ns]
    exact alter_back opened.found
  · split
    · exact Nat.succ_pos _
    exact opened.held
  split
  · exact opened.dir
  exact opened.dir

lemma detach_run (cons : Consistent s) (pick : Picked s d k x r q name) (load : Loaded s t x) :
    (t.heap t.tick = false ∧ sfsDirentUnlinkNolock d k x t = .err .eNoMem t.asked) ∨
    (t.heap t.tick = true ∧ ∃ u v,sfsDirentUnlinkNolock d k x t = .ok () u ∧ (u.node x).din.type = q.type ∧
      when (q.type = sfsTypeDir) (sfsNlinksDecNolock d) u = .ok () v ∧ Went t v (t.ns.detach d k x (q.type = sfsTypeDir)) ∧ Still t.asked v) := by
  obtain ⟨r',opened,shape⟩ := pick.opened.held_loaded load
  have low : k < r'.blocks := by
    rw [shape]
    split <;> exact pick.low
  have slots : r'.info ≠ 0 := by
    rw [shape]
    split <;> exact pick.slots
  have links : r'.nlinks = r.nlinks := by
    rw [shape]
    split <;> rfl
  have got := load.found pick.target
  rcases unlink_open load.went.tidy opened got (Nat.succ_pos _) low slots pick.links with ⟨full,bad⟩ | ⟨mem,u,ran,went,_,still⟩
  · exact .inl ⟨full,bad⟩
  obtain ⟨_,found',eq⟩ := t.ns.stays_unlink d k x x q.incRefs got
  have kind := node_type (s:=u) (x:=x) (went.ns ▸ found') (eq.refs ▸ Nat.succ_pos _)
  rw [eq.type] at kind
  refine .inr ⟨mem,u,?_⟩
  by_cases dir : q.type = sfsTypeDir
  · have parent := cons.sane.links_parent cons.tidy.bounded pick.opened.found pick.entry ⟨q,pick.target,dir⟩
    have left : u.ns d = some (if d = x then (r'.leave k).decLinks else r'.leave k) := by
      rw [went.ns]
      exact alter_back (alter_self opened.found _)
    obtain ⟨v,fewer,new,still'⟩ := decLinks_went went.tidy left (by split <;> exact opened.held) (by
      split
      · change r'.nlinks - 1 ≠ 0
        omega
      change r'.nlinks ≠ 0
      omega)
    rw [went.ns] at new
    refine ⟨v,ran,kind,?_,?_,still.trans still'⟩
    · simpa only [dir,decide_true,when_true] using fewer
    simp only [detach,dir,decide_true,if_true]
    exact went.trans new (t.ns.stays_unlink d k x).isSome
  exact ⟨u,ran,kind,by simp [dir],by simpa only [detach,dir,decide_false,Bool.false_eq_true,if_false] using went,still⟩

lemma Tidy.widths (tidy : Tidy s) (got : s.ns x = some q) : q.info < 2^32 ∧ q.nlinks < 2^16 := by
  obtain ⟨mem,rfl⟩ := ns_some got
  have fits := (tidy.fine x mem).fits
  exact ⟨fits.info,fits.nlinks⟩

lemma appendCost_own (on : d ∈ s.inodeList) (listed' : d ∈ t.inodeList) (mem : d ∈ s.inodes) (member' : d ∈ t.inodes)
    (own : t.own = s.own) : appendCost t d k = appendCost s d k := by
  have same spot : spotBlock t.dev (t.node d).din d spot = spotBlock s.dev (s.node d).din d spot := by
    have eq := congrFun own (d,spot)
    rwa [own_inode mem,own_inode member',din_listed on,din_listed listed'] at eq
  have ind : (t.node d).din.indirect = (s.node d).din.indirect := same .ind
  have dbl : (t.node d).din.dbIndirect = (s.node d).din.dbIndirect := same .dbl
  have mid j : entBlock t.dev (t.node d).din.dbIndirect j = entBlock s.dev (s.node d).din.dbIndirect j := same (.mid j)
  simp only [appendCost,ind,mid]
  rw [dbl]

lemma Open.member (opened : Open s d r) : d ∈ s.inodes := (ns_some opened.found).1

lemma Open.cost (opened : Open s d r) (opened' : Open t d r') (own : t.own = s.own) : appendCost t d k = appendCost s d k :=
  appendCost_own opened.listed opened'.listed opened.member opened'.member own

def Item.Full (r : Item) : Prop := ∀ l,l < r.blocks → r.slot l ≠ none

-- The kmalloc calls and the free blocks for which the unlink in the middle of a
-- rename goes through, the new entry cannot be written and the old one cannot
-- be written again.
def Strands (s : SfsFs) (x d' : Nat) (r' : Item) : Prop :=
  s.heap (s.tick + loadTicks s x) = true ∧
  (s.heap (s.tick + loadTicks s x + 1) = false ∨ (r'.Full ∧ s.super.unusedBlocks < appendCost s d' r'.blocks)) ∧
  s.heap (s.tick + loadTicks s x + 2) = false

structure Aimed (s : SfsFs) (d' k' : Nat) (r' : Item) : Prop where
  opened : Open s d' r'
  low : k' ≤ r'.blocks
  full : k' = r'.blocks ↔ r'.Full

lemma Aimed.detached (aimed : Aimed s d' k' r') (load : Loaded s t x) (ne : d' ≠ d)
    (went : Went t u (t.ns.detach d k x isdir)) (still : Still t.asked u) :
    (∃ p,Open u d' p ∧ p.blocks = r'.blocks) ∧ (WriteFails u d' k' ↔ s.heap (s.tick + loadTicks s x + 1) = false ∨
        (r'.Full ∧ s.super.unusedBlocks < appendCost s d' r'.blocks)) := by
  obtain ⟨r'',opened,shape⟩ := aimed.opened.held_loaded load
  have got : u.ns d' = some (if d' = x then r''.decLinks else r'') := went.ns ▸ detach_other ne opened.found
  have new : Open u d' (if d' = x then r''.decLinks else r'') := by
    refine ⟨got,?_,?_⟩
    · split <;> exact opened.held
    split <;> exact opened.dir
  have blocks : (if d' = x then r''.decLinks else r'').blocks = r'.blocks := by
    rw [shape]
    split <;> rfl
  have own : u.own = s.own := still.own.trans load.own
  have heap : u.heap = s.heap := went.kept.heap.trans load.went.kept.heap
  have tick : u.tick = s.tick + loadTicks s x + 1 := by rw [still.tick,← load.tick]; rfl
  have super : u.super = s.super := still.super.trans load.super
  refine ⟨⟨_,new,blocks⟩,?_⟩
  rw [WriteFails,new.blocks,blocks,heap,tick,super,aimed.opened.cost new own,← aimed.full]
  refine or_congr_right (and_congr_right fun last => ?_)
  rw [last]

lemma attach_run (tidy : Tidy s) (opened : Open s d' r') (goal : s.ns x = some q) (held : 0 < q.refs) (low : k' ≤ r'.blocks)
    (short : newName.strlen ≤ sfsMaxFnameLen) (isdir : Bool) :
    (WriteFails s d' k' ∧ ∃ t,sfsDirentLinkNolock d' k' x newName s = .err .eNoMem t ∧ Went s t s.ns ∧ t.tick = s.tick + 1) ∨
    (¬ WriteFails s d' k' ∧ ∃ t u,sfsDirentLinkNolock d' k' x newName s = .ok () t ∧ when isdir (sfsNlinksIncNolock d' >>= fun _ => sfsDirinfoSetParent x d') t = .ok () u ∧
      Went s u (s.ns.attach d' k' x newName isdir)) := by
  rcases link_open tidy opened goal held low short with ⟨fails,t,bad,went,tick⟩ | ⟨works,t,ran,went,_⟩
  · exact .inl ⟨fails,t,bad,went,tick⟩
  refine .inr ⟨works,t,?_⟩
  cases isdir with
  | false => exact ⟨t,ran,rfl,went⟩
  | true =>
    have stays := s.ns.stays_link d' k' x newName
    obtain ⟨p,new,_⟩ := opened.stays went stays
    obtain ⟨u,more,went',_⟩ := incLinks_went went.tidy new.found new.held
    rw [went.ns] at went'
    obtain ⟨_,got,eq⟩ := (stays.trans (stays_incLinks _ d')) x q goal
    have live : (u.ns d').isSome := by
      rw [went'.ns,alter_isSome,link_isSome,opened.found]
      rfl
    obtain ⟨v,set,went'',_⟩ := setParent_went went'.tidy (went'.ns ▸ got) (eq.refs ▸ held) live
    rw [went'.ns] at went''
    refine ⟨v,ran,?_,(went.trans went' stays.isSome).trans went'' (stays.trans (stays_incLinks _ d')).isSome⟩
    simp [more,set]

lemma undo_run (tidy : Tidy s) (opened : Open s d r) (goal : s.ns x = some q) (held : 0 < q.refs) (low : k < r.blocks)
    (short : name.strlen ≤ sfsMaxFnameLen) (isdir : Bool) :
    (s.heap s.tick = false ∧ ∃ t,sfsRename2Undo d k x name isdir s = .ok () t ∧ Went s t s.ns) ∨
    (s.heap s.tick = true ∧ ∃ t,sfsRename2Undo d k x name isdir s = .ok () t ∧ Went s t (s.ns.restore d k x name isdir)) := by
  have below : k ≠ (s.node d).din.blocks := by
    rw [opened.blocks]
    omega
  rcases link_open tidy opened goal held low.le short with ⟨fails,t,bad,went,_⟩ | ⟨works,t,ran,went,_⟩
  · refine .inl ⟨fails.resolve_right fun full => below full.1,t,?_,went⟩
    simp [sfsRename2Undo,attempt_err bad]
  have mem : s.heap s.tick = true := by
    by_contra full
    exact works (.inl (by simpa using full))
  refine .inr ⟨mem,?_⟩
  cases isdir with
  | false =>
    refine ⟨t,?_,went⟩
    simp [sfsRename2Undo,attempt_ok ran]
  | true =>
    obtain ⟨p,new,_⟩ := opened.stays went (s.ns.stays_link d k x name)
    obtain ⟨u,more,went',_⟩ := incLinks_went went.tidy new.found new.held
    rw [went.ns] at went'
    refine ⟨u,?_,went.trans went' (s.ns.stays_link d k x name).isSome⟩
    simp [sfsRename2Undo,attempt_ok ran,more]

lemma Picked.undoable (pick : Picked s d k x r q name) (cons : Consistent s) (load : Loaded s t x) : ∃ r',Undoable t.ns d k x name r' q.incRefs (q.type = sfsTypeDir) := by
  obtain ⟨r',opened,shape⟩ := pick.opened.held_loaded load
  have got := load.found pick.target
  have widths := load.went.tidy.widths opened.found
  refine ⟨r',opened.found,got,?_,?_,?_,widths.1,pick.links,(load.went.tidy.widths got).2,fun dir => ?_,widths.2⟩
  · rw [shape]
    split <;> exact pick.entry
  · rw [shape]
    split <;> exact pick.low
  · rw [shape]
    split <;> exact pick.slots
  have two := cons.sane.links_parent cons.tidy.bounded pick.opened.found pick.entry ⟨q,pick.target,of_decide_eq_true dir⟩
  rw [shape]
  split <;> exact two

lemma move_run (cons : Consistent s) (pick : Picked s d k x r q name) (load : Loaded s t x) (aimed : Aimed s d' k' r')
    (ne : d' ≠ d) (short : name.strlen ≤ sfsMaxFnameLen) (short' : newName.strlen ≤ sfsMaxFnameLen) :
    (sfsRename2Move d k name d' k' newName x t).Meets
      (fun _ u => ¬ Strands s x d' r' ∧ Went t u ((t.ns.detach d k x (q.type = sfsTypeDir)).attach d' k' x newName (q.type = sfsTypeDir)))
      (fun _ u => (¬ Strands s x d' r' ∧ Went t u t.ns) ∨ (Strands s x d' r' ∧ Went t u (t.ns.detach d k x (q.type = sfsTypeDir))))
      (fun _ => False) := by
  have heap : t.heap = s.heap := load.went.kept.heap
  have tick : t.tick = s.tick + loadTicks s x := load.tick
  rcases detach_run cons pick load with ⟨full,bad⟩ | ⟨mem,u,v,ran,kind,fewer,went,still⟩
  · simp only [sfsRename2Move,rules,bad]
    refine .inl ⟨fun strands => ?_,.asked load.went.tidy⟩
    rw [heap,tick,strands.1] at full
    cases full
  rw [heap,tick] at mem
  simp only [sfsRename2Move,rules,ran,kind,fewer]
  obtain ⟨⟨p,opened,blocks⟩,fails_iff⟩ := aimed.detached load ne went still
  have stays := t.ns.stays_detach d k x (q.type = sfsTypeDir)
  obtain ⟨q',got,eq⟩ := stays x q.incRefs (load.found pick.target)
  have held : 0 < q'.refs := eq.refs ▸ Nat.succ_pos _
  rcases attach_run went.tidy opened (went.ns ▸ got) held (blocks ▸ aimed.low) short' (q.type = sfsTypeDir) with
    ⟨fails,w,bad,went',tick'⟩ | ⟨works,w,z,linked,finished,went'⟩
  · obtain ⟨_,opened',shape⟩ := pick.opened.held_loaded load
    obtain ⟨r'',opened'',same'⟩ := opened'.stays (went.trans went' stays.isSome) (went.ns ▸ stays)
    have low : k < r''.blocks := by
      refine lt_of_lt_of_le ?_ same'.blocks
      rw [shape]
      split <;> exact pick.low
    have heap' : w.heap w.tick = s.heap (s.tick + loadTicks s x + 2) := by
      rw [went'.kept.heap,went.kept.heap,heap,tick',still.tick]
      exact congrArg s.heap (congrArg (· + 2) tick)
    rcases undo_run went'.tidy opened'' (by rw [went'.ns,went.ns]; exact got) held low short (q.type = sfsTypeDir) with
      ⟨full,z,undone,new⟩ | ⟨mem',z,undone,new⟩
    · simp only [attempt_err bad,rules,undone]
      refine .inr ⟨⟨mem,fails_iff.mp fails,heap' ▸ full⟩,?_⟩
      rw [went'.ns] at new
      rw [went.ns] at went' new
      exact (went.trans went' stays.isSome).trans new stays.isSome
    simp only [attempt_err bad,rules,undone]
    refine .inl ⟨fun strands => ?_,?_⟩
    · rw [heap',strands.2.2] at mem'
      cases mem'
    obtain ⟨_,undoable⟩ := pick.undoable cons load
    rw [went'.ns,went.ns,restore_detach undoable] at new
    rw [went.ns] at went'
    exact (went.trans went' stays.isSome).trans new stays.isSome
  simp only [attempt_ok linked,rules,finished]
  refine ⟨fun strands => works (fails_iff.mpr strands.2.1),?_⟩
  rw [went.ns] at went'
  exact went.trans went' stays.isSome

-- The new entry or, in the last case, nothing stands for x when it is let go.
lemma Loaded.dropped (load : Loaded s t x) (cons : Consistent s) (pick : Picked s d k x r q name) (opened' : Open s d' r')
    (went : Went t u m) (stays : t.ns.Stays m) : ∃ v,vopRefDec [d',d] x u = .ok () v ∧ Went s v (m.release x) := by
  obtain ⟨q',got,eq⟩ := stays x q.incRefs (load.found pick.target)
  have spare : q'.opens < q'.refs := by
    rw [eq.opens,eq.refs]
    exact Nat.lt_succ_of_le (cons.tidy.opens pick.target)
  have free : q'.refs = 1 → x ∉ [d',d] := by
    intro last low
    rw [eq.refs] at last
    have none : q.refs = 0 := Nat.succ.inj last
    rcases List.mem_cons.mp low with rfl | low
    · obtain rfl := mem_unique pick.target opened'.found
      exact absurd none (Nat.ne_of_gt opened'.held)
    obtain rfl := List.mem_singleton.mp low
    obtain rfl := mem_unique pick.target pick.opened.found
    exact absurd none (Nat.ne_of_gt pick.opened.held)
  have has : q'.removed = false := eq.removed.trans pick.present
  obtain ⟨v,ran,new,_⟩ := refDec_run went.tidy (went.ns ▸ got) _
    ⟨spare,fun gone => absurd gone (by rw [has]; decide),fun _ _ => pick.root,free⟩
  rw [went.ns] at new
  refine ⟨v,ran,(load.went.trans went ?_).trans new ?_⟩
  · exact hold_stays s.ns x
  intro j live
  exact stays.isSome j (by rw [load.went.ns]; exact hold_stays s.ns x j live)

structure Lost (s : SfsFs) (d : Nat) (name : CStr) (d' : Nat) (newName : CStr) (x : Nat) : Prop where
  proper : Proper name ∧ Proper newName
  apart : d' ≠ d
  searched : s.heap s.tick = true ∧ s.heap (s.tick + 1) = true
  found : ∃ r k,s.ns d = some r ∧ r.removed = false ∧ r.slot k = some (x,name)
  loads : ¬ LoadFails s.asked.asked x ∧ ∃ q,s.ns x = some q ∧ Known q.type
  strands : ∃ r',s.ns d' = some r' ∧ r'.removed = false ∧ (∀ l y,r'.slot l ≠ some (y,newName)) ∧ Strands s.asked.asked x d' r'

lemma Searched.aimed (seek : Searched r'.slot r'.blocks newName (.noent k')) (opened : Open s d' r') : Aimed s d' k' r' := by
  refine ⟨opened,seek.1,seek.2.2.2,fun full => ?_⟩
  by_contra ne
  have := seek.1
  exact full k' (by omega) seek.2.1

section
variable (cons : Consistent s) (opened : Open s d r)
include cons opened

lemma rename2_run (opened' : Open s d' r') (has : r.removed = false)
    (present' : r'.removed = false) (ne : d' ≠ d) (proper : Proper name) (proper' : Proper newName) :
    (sfsRename2Nolock d name d' newName s).Meets
      (fun _ t => (∀ y,¬ Lost s d name d' newName y) ∧ ∃ k x q k',r.slot k = some (x,name) ∧ s.ns x = some q ∧ Vacant r' k' newName ∧
        Went s t (s.ns.move d k x d' k' newName (q.type = sfsTypeDir)))
      (fun _ t => ((∀ y,¬ Lost s d name d' newName y) ∧ Went s t s.ns) ∨
        ∃ k x q,Lost s d name d' newName x ∧ r.slot k = some (x,name) ∧ s.ns x = some q ∧ Went s t (s.ns.lose d k x (q.type = sfsTypeDir)))
      (fun f => f = .invalidType ∧ ∀ y,¬ Lost s d name d' newName y) := by
  have tidy := cons.tidy
  simp only [sfsRename2Nolock,rules]
  rcases search_open tidy opened proper.1 with ⟨full,bad⟩ | ⟨mem,a,ran,seek⟩
  · rw [bad]
    refine .inl ⟨fun y lost => ?_,.asked tidy⟩
    rw [lost.searched.1] at full
    cases full
  rw [ran,next_ok]
  cases a with
  | noent _ =>
    refine .inl ⟨fun y lost => ?_,.asked tidy⟩
    obtain ⟨p,l,found,_,entry⟩ := lost.found
    obtain rfl := mem_unique found opened.found
    exact seek.2.2.1 l y entry
  | found x k =>
    obtain ⟨low,entry⟩ := seek
    -- names are once, so a lost inode can only be the one found
    have only y : Lost s d name d' newName y → y = x := by
      intro lost
      obtain ⟨p,l,found,_,entry'⟩ := lost.found
      obtain rfl := mem_unique found opened.found
      obtain rfl := cons.sane.distinct d p l k y x name found entry' entry
      rw [entry'] at entry
      exact congrArg Prod.fst (Option.some.inj entry)
    simp only [rules]
    rcases search_open (Sound.asked tidy) opened'.asked proper'.1 with ⟨full,bad⟩ | ⟨mem',a,ran',searched'⟩
    · rw [bad]
      refine .inl ⟨fun y lost => ?_,(Went.asked tidy).after (.asked (Sound.asked tidy))⟩
      have := lost.searched.2
      rw [show s.heap (s.tick + 1) = false from full] at this
      cases this
    rw [ran',next_ok]
    have both : Went s s.asked.asked s.ns := (Went.asked tidy).after (.asked (Sound.asked tidy))
    cases a with
    | found y l =>
      refine .inl ⟨fun z lost => ?_,both⟩
      obtain ⟨p,found,_,unbound,_⟩ := lost.strands
      obtain rfl := mem_unique found opened'.found
      exact unbound l y searched'.2
    | noent k' =>
      have aimed := searched'.aimed opened'.asked.asked
      simp only [rules]
      have cons' := cons.asked.asked
      obtain ⟨q,goal,links,_,cases_⟩ := load_entry cons' opened.asked.asked.found entry
      have pick := cons'.picked opened.asked.asked low entry goal
      have target' : s.ns x = some q := goal
      rcases cases_ with ⟨fails,t,bad,went⟩ | ⟨works,unknown,bad⟩ | ⟨works,seen,t,got,load⟩
      · rw [bad]
        exact .inl ⟨fun y lost => lost.loads.1 (only y lost ▸ fails),both.after went⟩
      · rw [bad]
        refine ⟨rfl,fun y lost => ?_⟩
        obtain ⟨_,_,found,seen⟩ := lost.loads
        rw [only y lost,target'] at found
        exact unknown (Option.some.inj found ▸ seen)
      rw [got,next_ok,bind_run]
      have stays := t.ns.stays_detach d k x (q.type = sfsTypeDir)
      have done := move_run cons' pick load aimed ne proper.1 proper'.1
      have strands y : Lost s d name d' newName y → Strands s.asked.asked x d' r' := by
        intro lost
        obtain ⟨p,found,_,_,strands⟩ := lost.strands
        obtain rfl := mem_unique found opened'.found
        exact only y lost ▸ strands
      revert done
      cases outcome : sfsRename2Move d k name d' k' newName x t with
      | fault f => exact fun done => absurd done id
      | ok _ u =>
        rintro ⟨safe,went⟩
        obtain ⟨v,cut,new⟩ := load.dropped cons' pick opened'.asked.asked went (stays.trans (stays_attach _ d' k' x newName _))
        rw [attempt_ok outcome,next_ok,bind_run,cut]
        rw [load.went.ns] at new
        exact ⟨fun y lost => safe (strands y lost),k,x,q,k',entry,target',searched'.vacant,both.after new⟩
      | err e u =>
        rintro (⟨safe,went⟩ | ⟨lost,went⟩)
        · have locked : ∀ h ∈ [d',d],∃ p,s.asked.asked.ns h = some p ∧ 0 < p.refs := by
            intro h inside
            rcases List.mem_cons.mp inside with rfl | inside
            · exact ⟨r',opened'.found,opened'.held⟩
            exact opened.asked.asked.locked h inside
          obtain ⟨v,cut,new⟩ := load.undo cons' goal links locked went
          rw [attempt_err outcome,next_ok,bind_run,cut]
          exact .inl ⟨fun y lost => safe (strands y lost),both.after new⟩
        obtain ⟨v,cut,new⟩ := load.dropped cons' pick opened'.asked.asked went stays
        rw [attempt_err outcome,next_ok,bind_run,cut]
        rw [load.went.ns] at new
        exact .inr ⟨k,x,q,⟨⟨proper,proper'⟩,ne,⟨mem,mem'⟩,⟨r,k,opened.found,has,entry⟩,⟨works,q,target',seen⟩,
          ⟨r',opened'.found,present',searched'.2.2.1,lost⟩⟩,entry,target',both.after new⟩

lemma rename1_run (proper : Proper name) (proper' : Proper newName) : (sfsRename1Nolock d name newName s).Meets
      (fun _ t => (name = newName ∧ Went s t s.ns) ∨
        ∃ k x,r.slot k = some (x,name) ∧ (∀ l y,r.slot l ≠ some (y,newName)) ∧ Went s t (s.ns.alter d (setSlot k (some (x,newName)))))
      (fun _ t => Went s t s.ns) (fun _ => False) := by
  have tidy := cons.tidy
  unfold sfsRename1Nolock
  split
  next eq => exact .inl ⟨eq,.refl tidy⟩
  simp only [rules]
  rcases search_open tidy opened proper.1 with ⟨_,bad⟩ | ⟨_,a,ran,seek⟩
  · rw [bad]
    exact .asked tidy
  rw [ran,next_ok]
  cases a with
  | noent _ => exact .asked tidy
  | found x k =>
    obtain ⟨low,entry⟩ := seek
    have both : Went s s.asked.asked s.ns := (Went.asked tidy).after (.asked (Sound.asked tidy))
    simp only [rules]
    rcases search_open (Sound.asked tidy) opened.asked proper'.1 with ⟨_,bad⟩ | ⟨_,a,ran',searched'⟩
    · rw [bad]
      exact both
    rw [ran',next_ok]
    cases a with
    | found y l => exact both
    | noent _ =>
      have opened' := opened.asked.asked
      have below : k < (s.asked.asked.node d).din.blocks := by
        rw [opened'.blocks]
        exact low
      have live := (cons.sane.named d r k x name opened.found entry).2.2.2
      have writable : Writable (some (x,newName)) := by
        rintro y n eq
        cases eq
        exact ⟨(inode_small tidy.blocks (ns_inode.mpr live)).1,(inode_small tidy.blocks (ns_inode.mpr live)).2,proper'.1⟩
      cases mem : s.asked.asked.heap s.asked.asked.tick with
      | false =>
        simp only [direntWrite_nomem opened'.type below.le mem]
        exact both.after (.asked both.tidy)
      | true =>
        simp only [direntWrite_old both.tidy opened'.listed opened'.type below mem writable]
        refine .inr ⟨k,x,entry,searched'.2.2.1,?_⟩
        have asked := both.after (.asked both.tidy)
        exact asked.after (putEntry_went asked.tidy (asked.tidy.blocks.leaf_held opened'.asked.listed below)
          ((congrArg DiskInode.type (din_listed opened'.asked.listed)).trans opened'.type) writable)

lemma sfsRename_run (opened' : Open s d' r') : (sfsRename d name d' newName s).Meets
      (fun _ t => (∀ y,¬ Lost s d name d' newName y) ∧ Proper name ∧ Proper newName ∧ r.removed = false ∧ r'.removed = false ∧ ((d = d' ∧ name = newName ∧ Went s t s.ns) ∨
        (d = d' ∧ ∃ k x,r.slot k = some (x,name) ∧ (∀ l y,r.slot l ≠ some (y,newName)) ∧ Went s t (s.ns.alter d (setSlot k (some (x,newName))))) ∨
        (d ≠ d' ∧ ∃ k x q k',r.slot k = some (x,name) ∧ s.ns x = some q ∧ Vacant r' k' newName ∧ Went s t (s.ns.move d k x d' k' newName (q.type = sfsTypeDir)))))
      (fun _ t => ((∀ y,¬ Lost s d name d' newName y) ∧ Went s t s.ns) ∨
        ∃ k x q,Lost s d name d' newName x ∧ r.slot k = some (x,name) ∧ s.ns x = some q ∧ Went s t (s.ns.lose d k x (q.type = sfsTypeDir)))
      (fun f => f = .invalidType ∧ ∀ y,¬ Lost s d name d' newName y) := by
  have tidy := cons.tidy
  unfold sfsRename
  split
  next long =>
    refine .inl ⟨fun y lost => ?_,.refl tidy⟩
    have one := lost.proper.1.1
    have two := lost.proper.2.1
    omega
  rename_i long
  split
  next dots => exact .inl ⟨fun y lost => dots.elim lost.proper.1.2.1 lost.proper.1.2.2,.refl tidy⟩
  rename_i plain
  split
  next dots => exact .inl ⟨fun y lost => dots.elim lost.proper.2.2.1 lost.proper.2.2.2,.refl tidy⟩
  rename_i plain'
  have proper : Proper name := ⟨by omega,fun h => plain (.inl h),fun h => plain (.inr h)⟩
  have proper' : Proper newName := ⟨by omega,fun h => plain' (.inl h),fun h => plain' (.inr h)⟩
  rw [bind_run]
  cases gone : r.removed with
  | true =>
    rw [trylock_gone (opened.removed.trans gone)]
    refine .inl ⟨fun y lost => ?_,.refl tidy⟩
    obtain ⟨p,_,got,has,_⟩ := lost.found
    obtain rfl := mem_unique got opened.found
    rw [has] at gone
    cases gone
  | false =>
    rw [trylock_free (opened.removed.trans gone) (by simp),next_ok]
    split
    next eq =>
      subst eq
      obtain rfl := mem_unique opened.found opened'.found
      have never : ∀ y,¬ Lost s d name d newName y := fun y lost => lost.apart rfl
      have done := rename1_run cons opened proper proper'
      revert done
      cases sfsRename1Nolock d name newName s with
      | ok _ t =>
        rintro (⟨eq,went⟩ | ⟨k,x,entry,unbound,went⟩)
        · exact ⟨never,proper,proper',rfl,gone,.inl ⟨rfl,eq,went⟩⟩
        exact ⟨never,proper,proper',rfl,gone,.inr (.inl ⟨rfl,k,x,entry,unbound,went⟩)⟩
      | err e t => exact fun went => .inl ⟨never,went⟩
      | fault f => exact fun done => absurd done id
    rename_i ne
    rw [bind_run]
    cases gone' : r'.removed with
    | true =>
      rw [trylock_gone (opened'.removed.trans gone')]
      refine .inl ⟨fun y lost => ?_,.refl tidy⟩
      obtain ⟨p,got,has,_⟩ := lost.strands
      obtain rfl := mem_unique got opened'.found
      rw [has] at gone'
      cases gone'
    | false =>
      rw [trylock_free (opened'.removed.trans gone') (by simpa using Ne.symm ne),next_ok]
      have done := rename2_run cons opened opened' gone gone' (Ne.symm ne) proper proper'
      revert done
      cases sfsRename2Nolock d name d' newName s with
      | ok _ t =>
        rintro ⟨never,k,x,q,k',entry,goal,free,went⟩
        exact ⟨never,proper,proper',rfl,rfl,.inr (.inr ⟨ne,k,x,q,k',entry,goal,free,went⟩)⟩
      | err e t => exact id
      | fault f => exact id

end

end Moves
end Ucore.Sfs
