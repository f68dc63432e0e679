import Ucore.Sfs.View

-- Directory entries: what the search finds, and what writing, linking and
-- unlinking an entry do to the namespace.
namespace Ucore.Sfs
open Bytes Outcomes Ownership Item Ns Sound

section Search
variable {s : SfsFs} {stale : Nat → Prop} {d k : Nat} {name : CStr}

lemma direntRead_run (sound : Sound s stale) (listed : d ∈ s.inodeList) (dir : (s.node d).din.type = sfsTypeDir)
    (cap : k < (s.node d).din.blocks) : sfsDirentReadNolock d k s = .ok (readEntry (s.dev (s.own (d,.leaf k)))) s := by
  have held := sound.blocks.leaf_held listed cap
  have used := sound.blocks.own_used held
  simp [sfsDirentReadNolock,dir,cap,bmapLoad_old sound.blocks listed cap,blockInuse_used sound.blocks.toGeometry used held,
    rbuf_run (sound.blocks.own_reach held) (show 0 < sfsBlksize by decide) (show 0 + diskEntrySize ≤ sfsBlksize by decide)]

def Searched (slot : Nat → Option (Nat × CStr)) (blocks : Nat) (name : CStr) : Search → Prop
  | .found ino k => k < blocks ∧ slot k = some (ino,name)
  | .noent k => k ≤ blocks ∧ slot k = none ∧ (∀ l ino,slot l ≠ some (ino,name)) ∧ (k = blocks → ∀ l,l < blocks → slot l ≠ none)

section
variable (sound : Sound s stale) (listed : d ∈ s.inodeList)
include sound listed

lemma slot_entry (dir : (s.node d).din.type = sfsTypeDir) (cap : k < (s.node d).din.blocks) : s.slot d k = entryOf (s.dev (s.own (d,.leaf k))) :=
  slot_held (sound.blocks.leaf_held listed cap) (by rw [din_listed listed]; exact dir)

lemma slot_beyond (beyond : (s.node d).din.blocks ≤ k) : s.slot d k = none := by
  have mem := sound.blocks.cached d listed
  apply slot_vacant
  by_contra held
  rw [own_inode mem] at held
  have cap := (sound.blocks.mapped d mem k).mp held
  rw [din_listed listed] at cap
  omega

-- Before slot i no entry has the name, and emptySlot is the last empty one or
-- still the number of slots.
lemma searchLoop_run (dir : (s.node d).din.type = sfsTypeDir) (name : CStr) (n : Nat) :
    ∀ i emptySlot,i + n = (s.node d).din.blocks → (∀ l < i,∀ ino,s.slot d l ≠ some (ino,name)) →
      (emptySlot = (s.node d).din.blocks ∧ (∀ l < i,s.slot d l ≠ none) ∨ emptySlot < i ∧ s.slot d emptySlot = none) →
      ∃ r,sfsDirentSearchLoop d name n i emptySlot s = .ok r s ∧ Searched (s.slot d) (s.node d).din.blocks name r := by
  induction n with
  | zero =>
    intro i emptySlot total unseen empty
    have unbound l ino : s.slot d l ≠ some (ino,name) := by
      by_cases below : l < i
      · exact unseen l below ino
      rw [slot_beyond sound listed (by omega)]
      simp
    refine ⟨.noent emptySlot,rfl,?_⟩
    rcases empty with ⟨rfl,full⟩ | ⟨below,free⟩
    · exact ⟨le_refl _,slot_beyond sound listed (le_refl _),unbound,fun _ l cap => full l (by omega)⟩
    exact ⟨by omega,free,unbound,fun h => by omega⟩
  | succ n ih =>
    intro i emptySlot _ unseen empty
    have cap : i < (s.node d).din.blocks := by omega
    have entry := slot_entry sound listed dir cap
    simp only [entryOf] at entry
    simp only [sfsDirentSearchLoop,rules,direntRead_run sound listed dir cap,ite_run]
    by_cases free : (readEntry (s.dev (s.own (d,.leaf i)))).ino = 0
    · rw [if_pos free] at entry ⊢
      refine ih (i + 1) i (by omega) (fun l below ino => ?_) (.inr ⟨by omega,entry⟩)
      by_cases last : l = i
      · rw [last,entry]
        simp
      exact unseen l (by omega) ino
    rw [if_neg free] at entry ⊢
    by_cases eq : name = (readEntry (s.dev (s.own (d,.leaf i)))).name
    · rw [if_pos eq]
      exact ⟨_,rfl,cap,by rw [entry,eq]⟩
    rw [if_neg eq]
    refine ih (i + 1) emptySlot (by omega) (fun l below ino => ?_) ?_
    · by_cases last : l = i
      · rw [last,entry]
        intro h
        exact eq (by injection h with h; exact (congrArg Prod.snd h).symm)
      exact unseen l (by omega) ino
    rcases empty with ⟨rfl,full⟩ | ⟨below,none⟩
    · refine .inl ⟨rfl,fun l below => ?_⟩
      by_cases last : l = i
      · rw [last,entry]
        simp
      exact full l (by omega)
    exact .inr ⟨by omega,none⟩

end

lemma search_nomem (short : name.strlen ≤ sfsMaxFnameLen) (full : s.heap s.tick = false) : sfsDirentSearchNolock d name s = .err .eNoMem s.asked := by
  simp [sfsDirentSearchNolock,short,kmalloc,full,SfsFs.asked]

lemma search_run (sound : Sound s stale) (listed : d ∈ s.inodeList) (dir : (s.node d).din.type = sfsTypeDir)
    (short : name.strlen ≤ sfsMaxFnameLen) (mem : s.heap s.tick = true) :
    ∃ r,sfsDirentSearchNolock d name s = .ok r s.asked ∧ Searched (s.slot d) (s.node d).din.blocks name r := by
  obtain ⟨r,ran,seek⟩ := searchLoop_run (s:=s.asked) sound.asked listed dir name (s.node d).din.blocks 0 (s.node d).din.blocks
    (zero_add _) (fun _ below => absurd below (Nat.not_lt_zero _)) (.inl ⟨rfl,fun _ below => absurd below (Nat.not_lt_zero _)⟩)
  refine ⟨r,?_,seek⟩
  simp only [sfsDirentSearchNolock,rules,short,kmalloc,mem,ite_run,Bool.true_eq_false]
  exact ran

end Search

def slotBytes : Option (Nat × CStr) → Buf
  | some (lnk,name) => entryBytes lnk name
  | none => zero

def Writable (entry : Option (Nat × CStr)) : Prop := ∀ x name,entry = some (x,name) → x ≠ 0 ∧ x < 2^32 ∧ name.strlen ≤ sfsMaxFnameLen

lemma Writable.none : Writable none := fun _ _ h => by cases h

lemma entryOf_write {entry : Option (Nat × CStr)} (writable : Writable entry) : entryOf (copy b 0 diskEntrySize (slotBytes entry)) = entry := by
  cases entry with
  | none =>
    have ino : (readEntry (copy b 0 diskEntrySize zero)).ino = 0 := by
      simp only [readEntry]
      rw [getLE_copy_inside (by omega) (by decide),getLE_zero]
    simp [entryOf,slotBytes,ino]
  | some e =>
    obtain ⟨x,name⟩ := e
    obtain ⟨nonzero,small,short⟩ := writable x name rfl
    simp [entryOf,slotBytes,readEntry_write small short,nonzero]

section Write
variable {s : SfsFs} {stale : Nat → Prop} {d k : Nat} {entry : Option (Nat × CStr)}

def SfsFs.putEntry (s : SfsFs) (b : Nat) (entry : Option (Nat × CStr)) : SfsFs :=
  s.setBlock b (copy (s.dev b) 0 diskEntrySize (slotBytes entry))

lemma direntWrite_nomem (dir : (s.node d).din.type = sfsTypeDir) (cap : k ≤ (s.node d).din.blocks) (full : s.heap s.tick = false) :
    sfsDirentWriteNolock d k entry s = .err .eNoMem s.asked := by
  simp [sfsDirentWriteNolock,dir,cap,kmalloc,full,SfsFs.asked]

def storeEntry (entry : Option (Nat × CStr)) (ino : Nat) : SfsM Unit := do
  let used ← sfsBlockInuse ino
  check used .direntInuse
  sfsWbuf (slotBytes entry) diskEntrySize ino 0

lemma direntWrite_load (dir : (s.node d).din.type = sfsTypeDir) (cap : k ≤ (s.node d).din.blocks) (mem : s.heap s.tick = true)
    (writable : Writable entry) : sfsDirentWriteNolock d k entry s = (sfsBmapLoadNolock d k s.asked).next (storeEntry entry) := by
  cases entry with
  | none =>
    simp only [sfsDirentWriteNolock,rules,dir,cap,Bool.and_self,kmalloc,mem,Bool.true_eq_false]
    rfl
  | some e =>
    obtain ⟨x,name⟩ := e
    obtain ⟨_,_,short⟩ := writable x name rfl
    simp only [sfsDirentWriteNolock,rules,dir,cap,Bool.and_self,kmalloc,mem,Bool.true_eq_false,short]
    rfl

lemma storeEntry_run (blocks : Blocks s flight) (held : s.own p ≠ 0) : storeEntry entry (s.own p) s = .ok () (s.putEntry (s.own p) entry) := by
  have used := blocks.own_used held
  simp only [storeEntry,rules,blockInuse_used blocks.toGeometry used held,
    wbuf_run (blocks.own_reach held) (show 0 < sfsBlksize by decide) (show 0 + diskEntrySize ≤ sfsBlksize by decide)]
  rfl

lemma direntWrite_old (sound : Sound s stale) (listed : d ∈ s.inodeList) (dir : (s.node d).din.type = sfsTypeDir)
    (cap : k < (s.node d).din.blocks) (mem : s.heap s.tick = true) (writable : Writable entry) :
    sfsDirentWriteNolock d k entry s = .ok () (s.asked.putEntry (s.own (d,.leaf k)) entry) := by
  have held := sound.blocks.leaf_held listed cap
  rw [direntWrite_load dir (by omega) mem writable,bmapLoad_old (s:=s.asked) sound.blocks.asked listed cap,next_ok]
  exact storeEntry_run (s:=s.asked) sound.blocks.asked held

lemma putEntry_went (tidy : Tidy s) (held : s.own (d,.leaf k) ≠ 0) (dir : (s.din d).type = sfsTypeDir) (writable : Writable entry) :
    Went s (s.putEntry (s.own (d,.leaf k)) entry) (s.ns.alter d (setSlot k entry)) := by
  refine ⟨setLeaf tidy held _,?_,kept_setLeaf tidy.blocks held dir _⟩
  rw [SfsFs.putEntry,ns_setLeaf tidy.blocks held dir,entryOf_write writable]

def WriteFails (s : SfsFs) (d k : Nat) : Prop :=
  s.heap s.tick = false ∨ (k = (s.node d).din.blocks ∧ s.super.unusedBlocks < appendCost s d k)

structure Wrote (s t : SfsFs) (d k : Nat) (entry : Option (Nat × CStr)) : Prop where
  sound : Sound t (· = d)
  ns : t.ns = s.ns.alter d (fill k entry)
  kept : Kept s t
  inodeList : t.inodeList = s.inodeList
  inodes : t.inodes = s.inodes
  head : SameHead (s.node d) (t.node d)
  tick : t.tick = s.tick + 1

lemma fill_old {r : Item} (below : k < r.blocks) : r.fill k entry = r.setSlot k entry := by
  have : max r.blocks (k + 1) = r.blocks := by omega
  simp only [fill,this]
  rfl

lemma direntWrite_run (tidy : Tidy s) (listed : d ∈ s.inodeList) (dir : (s.node d).din.type = sfsTypeDir)
    (cap : k ≤ (s.node d).din.blocks) (writable : Writable entry) :
    (WriteFails s d k ∧ ∃ t,sfsDirentWriteNolock d k entry s = .err .eNoMem t ∧ Went s t s.ns ∧ t.inodeList = s.inodeList ∧ t.tick = s.tick + 1) ∨
    (¬ WriteFails s d k ∧ ∃ t,sfsDirentWriteNolock d k entry s = .ok () t ∧ Wrote s t d k entry) := by
  cases mem : s.heap s.tick with
  | false => exact .inl ⟨.inl mem,s.asked,direntWrite_nomem dir cap mem,.asked tidy,rfl,rfl⟩
  | true =>
    by_cases below : k < (s.node d).din.blocks
    · right
      have held := tidy.blocks.leaf_held listed below
      refine ⟨?_,_,direntWrite_old tidy listed dir below mem writable,?_⟩
      · rintro (none | ⟨last,_⟩)
        · rw [mem] at none
          cases none
        omega
      have went := putEntry_went (s:=s.asked) (asked tidy) held (by rw [din_listed (s:=s.asked) listed]; exact dir) writable
      refine ⟨weaken went.tidy (fun _ => False.elim),?_,(Kept.asked s).trans went.kept (fun _ old _ => old),rfl,rfl,.refl _,rfl⟩
      rw [show s.own (d,.leaf k) = s.asked.own (d,.leaf k) from rfl,went.ns]
      refine alter_congr fun r found => (fill_old ?_).symm
      rw [ns_listed (s:=s.asked) tidy.blocks.asked listed] at found
      rw [← Option.some.inj found]
      exact below
    have last : k = (s.node d).din.blocks := by omega
    subst last
    rw [direntWrite_load dir cap mem writable]
    have eq : appendCost s.asked d (s.asked.node d).din.blocks = appendCost s d (s.node d).din.blocks := rfl
    rcases bmapLoad_new (s:=s.asked) tidy.blocks.asked listed with ⟨full,t,failed,after,frame,grows,count,marked⟩ | ⟨b,t,got,extended,cost⟩
    · refine .inl ⟨.inr ⟨rfl,full⟩,t,?_,⟨?_,?_,?_⟩,frame.inodeList,frame.tick⟩
      · rw [show sfsBmapLoadNolock d (s.node d).din.blocks s.asked = _ from failed,next_err]
      · refine grow (asked tidy) after frame grows listed (by omega) (fun _ _ h => h) fun _ clean => ?_
        rcases marked with eq | set
        · exact ⟨eq,id⟩
        rw [set] at clean
        cases clean
      · rw [grows.ns frame listed,count]
        refine (alter_id fun r found => ?_).trans rfl
        rw [ns_listed (s:=s.asked) tidy.blocks.asked listed] at found
        rw [← Option.some.inj found]
        rfl
      exact (Kept.asked s).trans (grows.keeps frame listed) fun _ old _ => old
    right
    have listed' : d ∈ t.inodeList := extended.frame.inodeList ▸ listed
    have din := din_listed listed'
    have here : t.own (d,.leaf (s.node d).din.blocks) = b := extended.here
    have held : t.own (d,.leaf (s.node d).din.blocks) ≠ 0 := here.symm ▸ extended.nonzero
    have kind : (t.din d).type = sfsTypeDir := by
      rw [din,extended.frame.head.type]
      exact dir
    have grown : Sound t (· = d) :=
      grow (asked tidy) extended.blocks extended.frame extended.grows listed (by rw [extended.count]; omega)
        (fun _ _ => False.elim) fun new => absurd rfl new
    refine ⟨?_,t.putEntry (t.own (d,.leaf (s.node d).din.blocks)) entry,?_,⟨grown.setLeaf held _,?_,?_,extended.frame.inodeList,
      extended.frame.inodes,extended.frame.head,extended.frame.tick⟩⟩
    · rintro (none | ⟨_,_⟩)
      · rw [mem] at none
        cases none
      change t.super.unusedBlocks + appendCost s d (s.node d).din.blocks = s.super.unusedBlocks at cost
      omega
    · rw [show sfsBmapLoadNolock d (s.node d).din.blocks s.asked = _ from got,next_ok,← here]
      exact storeEntry_run extended.blocks held
    · rw [SfsFs.putEntry,ns_setLeaf extended.blocks held kind,entryOf_write writable,extended.grows.ns extended.frame listed,alter_alter,extended.count]
      refine alter_congr fun r found => ?_
      rw [ns_listed (s:=s.asked) tidy.blocks.asked listed] at found
      rw [← Option.some.inj found]
      simp only [Function.comp,fill,setSlot,setBlocks,SfsInode.item]
      congr 1
      have : max (s.node d).din.blocks ((s.node d).din.blocks + 1) = (s.node d).din.blocks + 1 := by omega
      exact this.symm
    refine ((Kept.asked s).trans (extended.grows.keeps extended.frame listed) fun _ old _ => old).trans
      (kept_setLeaf extended.blocks held kind _) fun j old _ => ?_
    rw [extended.frame.inodes]
    exact old

lemma Wrote.listed (wrote : Wrote s t d k entry) (listed : i ∈ s.inodeList) : i ∈ t.inodeList := by
  rw [wrote.inodeList]
  exact listed

lemma Wrote.kind (wrote : Wrote s t d k entry) (dir : (s.node d).din.type = sfsTypeDir) : (t.node d).din.type = sfsTypeDir := by
  rw [wrote.head.type]
  exact dir

lemma Wrote.count {c : Nat → Nat} {f : Item → Item} (wrote : Wrote s t d k entry) (listed : d ∈ s.inodeList)
    (dir : (s.node d).din.type = sfsTypeDir) (small : c (t.node d).din.info < 2^32)
    (eq : ∀ r,s.ns d = some r → f r = {r.fill k entry with info:=c r.info}) :
    Went s (t.setNode d (mark fun x => {x with info:=c x.info})) (s.ns.alter d f) := by
  have fits := wrote.sound.fits (wrote.listed listed)
  have went : Went t (t.setNode d (mark fun x => {x with info:=c x.info})) (t.ns.alter d fun r => {r with info:=c r.info}) :=
    .mark wrote.sound (fun _ h => h) (wrote.listed listed) ⟨⟨rfl,rfl,rfl⟩,rfl,rfl⟩ {fits with info:=small}
      (fun file => absurd (wrote.kind dir) file) (fun _ => rfl)
  refine ⟨went.tidy,?_,wrote.kept.trans went.kept fun j old _ => ?_⟩
  · rw [went.ns,wrote.ns,alter_alter]
    refine alter_congr fun r got => ?_
    rw [eq r got]
    rfl
  rw [wrote.inodes]
  exact old

lemma inode_small (blocks : Blocks s flight) (mem : i ∈ s.inodes) : i ≠ 0 ∧ i < 2^32 := by
  have nonzero := blocks.nonzero i mem
  have mine : s.own (i,.self) = i := own_inode mem .self
  have inside := (blocks.own_used (mine.symm ▸ nonzero)).1
  rw [mine] at inside
  have small := blocks.small
  exact ⟨nonzero,by omega⟩

lemma direntLink_run {x : Nat} {name : CStr} (tidy : Tidy s) (listed : d ∈ s.inodeList) (dir : (s.node d).din.type = sfsTypeDir)
    (linked : x ∈ s.inodeList) (cap : k ≤ (s.node d).din.blocks) (short : name.strlen ≤ sfsMaxFnameLen) :
    (WriteFails s d k ∧ ∃ t,sfsDirentLinkNolock d k x name s = .err .eNoMem t ∧ Went s t s.ns ∧ t.tick = s.tick + 1) ∨
    (¬ WriteFails s d k ∧ ∃ t,sfsDirentLinkNolock d k x name s = .ok () t ∧ Went s t ((s.ns.alter d (enter k x name)).alter x incLinks) ∧ t.tick = s.tick + 1) := by
  obtain ⟨nonzero,small⟩ := inode_small tidy.blocks (tidy.blocks.cached x linked)
  have writable : Writable (some (x,name)) := by
    rintro y n h
    cases h
    exact ⟨nonzero,small,short⟩
  rcases direntWrite_run tidy listed dir cap writable with ⟨fails,t,failed,went,_,tick⟩ | ⟨works,t,wrote,done⟩
  · refine .inl ⟨fails,t,?_,went,tick⟩
    simp [sfsDirentLinkNolock,failed]
  have counted := done.count (c:=fun n => (n + 1) % 2^32) (f:=enter k x name) listed dir (Nat.mod_lt _ (by decide)) (fun _ _ => rfl)
  obtain ⟨u,ran,went,_,still⟩ := Went.incLinks counted.tidy (i:=x) (done.listed linked)
  refine .inr ⟨works,u,?_,counted.trans ?_ fun j old => ?_,still.tick.trans done.tick⟩
  · simp only [sfsDirentLinkNolock,rules,wrote,setDirty_run]
    exact ran
  · rw [← counted.ns]
    exact went
  rwa [alter_isSome]

lemma putEntry_still (blocks : Blocks s flight) (held : s.own (d,.leaf k) ≠ 0) : (s.putEntry (s.own (d,.leaf k)) entry).own = s.own :=
  own_setBlock (blocks.plain_of_leaf held)

lemma direntUnlink_run {x : Nat} (tidy : Tidy s) (listed : d ∈ s.inodeList) (dir : (s.node d).din.type = sfsTypeDir)
    (linked : x ∈ s.inodeList) (cap : k < (s.node d).din.blocks) (slots : (s.node d).din.slots ≠ 0) (links : (s.node x).din.nlinks ≠ 0) :
    (s.heap s.tick = false ∧ sfsDirentUnlinkNolock d k x s = .err .eNoMem s.asked) ∨
    (s.heap s.tick = true ∧ ∃ t,sfsDirentUnlinkNolock d k x s = .ok () t ∧
      Went s t ((s.ns.alter d (leave k)).alter x decLinks) ∧ t.inodeList = s.inodeList ∧ Still s.asked t) := by
  cases mem : s.heap s.tick with
  | false =>
    refine .inl ⟨rfl,?_⟩
    simp [sfsDirentUnlinkNolock,direntWrite_nomem dir (le_of_lt cap) mem]
  | true =>
    have held := tidy.blocks.leaf_held listed cap
    have wrote : sfsDirentWriteNolock d k none s = _ := direntWrite_old tidy listed dir cap mem .none
    rcases direntWrite_run tidy listed dir (le_of_lt cap) Writable.none with ⟨_,t,failed,_⟩ | ⟨_,t,again,done⟩
    · rw [wrote] at failed
      cases failed
    obtain rfl : s.asked.putEntry (s.own (d,.leaf k)) none = t := by
      rw [wrote] at again
      injection again
    have small : (s.node d).din.info - 1 < 2^32 := by
      have := (tidy.fits listed).info
      omega
    have counted := done.count (c:=fun n => n - 1) (f:=leave k) listed dir small fun r got => by
      rw [ns_listed tidy.blocks listed] at got
      rw [fill_old (by rw [← Option.some.inj got]; exact cap)]
      rfl
    have links' : (((s.asked.putEntry (s.own (d,.leaf k)) none).setNode d (mark fun x => {x with info:=x.info - 1})).node x).din.nlinks ≠ 0 := by
      by_cases here : x = d
      · subst here
        rw [setNode_self]
        exact links
      rw [(apart_setNode _ d _).node x here]
      exact links
    obtain ⟨u,ran,went,lists,still⟩ := Went.decLinks counted.tidy (i:=x) linked links'
    have steady : (s.asked.putEntry (s.own (d,.leaf k)) none).own = s.asked.own := putEntry_still (s:=s.asked) tidy.blocks.asked held
    have own : ((s.asked.putEntry (s.own (d,.leaf k)) none).setNode d (mark fun x => {x with info:=x.info - 1})).own = s.asked.own := by
      rw [← steady]
      exact own_sameMap listed ⟨rfl,rfl,rfl⟩
    refine .inr ⟨rfl,u,?_,counted.trans (by rw [← counted.ns]; exact went) (fun j old => by rwa [alter_isSome]),lists,⟨still.own.trans own,still.super,still.tick⟩⟩
    simp only [sfsDirentUnlinkNolock,rules,wrote]
    rw [if_pos (by simpa using ⟨slots,links⟩)]
    simp only [sfsNlinksDecNolock,rules,ne_eq,links'] at ran
    exact ran

end Write
end Ucore.Sfs
