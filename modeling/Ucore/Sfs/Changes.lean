import Ucore.Sfs.Links

-- The changes an operation on names makes to the namespace, and that each of
-- them keeps its laws.
namespace Ucore.Sfs
open Item Ns Set
open Option (mem_unique)
variable {ns : Ns} {d i x k : Nat} {r q : Item}

section Facts
variable {n : CStr}

namespace Ns.Mid
variable (sane : ns.Sane)
include sane

lemma links_named (bound : ns.Bounded) (entry : p ∈ ns.names x) (goal : ns x = some q) : q.nlinks ≠ 0 := by
  have law := sane.law x q goal
  have has : 0 < (ns.names x).ncard := (ncard_pos (bound.names x)).mpr ⟨p,entry⟩
  simp only [due] at law
  split at law <;> omega

lemma links_dir (got : ns d = some r) (dir : r.type = sfsTypeDir) (present : r.removed = false) : r.nlinks ≠ 0 := by
  have law := sane.law d r got
  simp only [due,dir,present,and_self,if_true] at law
  omega

lemma unlinked (bound : ns.Bounded) (got : ns x = some r) (none : r.nlinks = 0) : ns.names x = ∅ ∧ (∀ k,r.slot k = Option.none) ∧ x ≠ sfsBlknRoot := by
  have empty : ns.names x = ∅ := by
    by_contra has
    obtain ⟨p,entry⟩ := nonempty_iff_ne_empty.mpr has
    exact sane.links_named bound entry got none
  refine ⟨empty,fun k => ?_,?_⟩
  · cases held : r.slot k with
    | none => rfl
    | some e =>
      obtain ⟨dir,present,_⟩ := sane.named x r k e.1 e.2 got held
      exact absurd none (sane.links_dir got dir present)
  rintro rfl
  obtain ⟨s,old,dir,present⟩ := sane.root
  obtain rfl := mem_unique old got
  exact sane.links_dir got dir present none

lemma links_removed (got : ns x = some r) (gone : r.removed = true) : r.nlinks = 0 := by
  have law := sane.law x r got
  obtain ⟨_,empty⟩ := sane.removed x r got gone
  simp only [due,empty,ncard_empty,gone] at law
  simpa using law

lemma slots_entry (bound : ns.Bounded) (got : ns d = some r) (entry : r.slot k = some (x,n)) : r.info ≠ 0 := by
  obtain ⟨dir,_⟩ := sane.named d r k x n got entry
  rw [sane.slots d r got dir]
  exact Nat.pos_iff_ne_zero.mp ((ncard_pos (bound.taken got)).mpr ⟨k,by simp [taken,entry]⟩)

lemma present (got : ns x = some q) (entry : p ∈ ns.names x) : q.removed = false := by
  cases gone : q.removed with
  | false => rfl
  | true =>
    rw [(sane.removed x q got gone).2] at entry
    exact absurd entry (notMem_empty p)

lemma links_parent (bound : ns.Bounded) (got : ns d = some r) (entry : r.slot k = some (x,n)) (dir : ns.isDir x) : 2 ≤ r.nlinks := by
  obtain ⟨type,present,_⟩ := sane.named d r k x n got entry
  have has : 0 < (ns.subdirs r).ncard := (ncard_pos (bound.subdirs got)).mpr ⟨k,x,n,entry,dir⟩
  have law := sane.law d r got
  simp only [due,type,present,and_self,if_true] at law
  split at law <;> omega

lemma links_named_dir (bound : ns.Bounded) (entry : p ∈ ns.names x) (goal : ns x = some q) (dir : q.type = sfsTypeDir) : 2 ≤ q.nlinks := by
  have has : 0 < (ns.names x).ncard := (ncard_pos (bound.names x)).mpr ⟨p,entry⟩
  have law := sane.law x q goal
  simp only [due,dir,sane.present goal entry,and_self,if_true] at law
  split at law <;> omega

end Ns.Mid

lemma Item.taken_none (finite : r.taken.Finite) (none : r.taken.ncard = 0) (k : Nat) : r.slot k = Option.none := by
  by_contra held
  have mem : k ∈ r.taken := held
  rw [(ncard_eq_zero finite).mp none] at mem
  exact mem

namespace Ns.Mid

lemma links_empty (sane : ns.Sane) (bound : ns.Bounded) (goal : ns x = some q) (dir : q.type = sfsTypeDir)
    (entry : p ∈ ns.names x) (root : x ≠ sfsBlknRoot) (empty : q.info = 0) : q.nlinks = 2 := by
  have sole : ns.names x = {p} := eq_singleton_iff_unique_mem.mpr ⟨entry,fun e mem => sane.once x e p ⟨q,goal,dir⟩ mem entry⟩
  have none : q.taken.ncard = 0 := by rw [← sane.slots x q goal dir,empty]
  have childless : ns.subdirs q = ∅ := by
    refine eq_empty_iff_forall_notMem.mpr fun k child => ?_
    obtain ⟨y,m,held,_⟩ := child
    rw [taken_none (bound.taken goal) none k] at held
    cases held
  have law := sane.law x q goal
  simp only [due,dir,sane.present goal entry,sole,childless,ncard_singleton,ncard_empty,root,and_self,if_true,if_false] at law
  omega

lemma release (sane : ns.Sane) (bound : ns.Bounded) (i : Nat) : (ns.release i).Sane := by
  unfold Ns.release
  cases got : ns i with
  | none => exact sane
  | some r =>
    simp only
    split
    next last =>
      obtain ⟨empty,slots,root⟩ := sane.unlinked bound got last.2
      exact drop sane got slots empty root
    exact touch sane (fun _ _ => ⟨rfl,rfl,rfl,rfl,fun _ => rfl⟩) fun _ _ => rfl

lemma hold (sane : ns.Sane) (i : Nat) : (ns.alter i incRefs).Sane := touch sane (fun _ _ => ⟨rfl,rfl,rfl,rfl,fun _ => rfl⟩) fun _ _ => rfl

end Ns.Mid

lemma Ns.release_hold (got : ns i = some r) (alive : 0 < r.refs ∨ r.nlinks ≠ 0) : (ns.alter i incRefs).release i = ns := by
  have next : ns.alter i incRefs i = some r.incRefs := alter_self got _
  have stays : ¬ (r.incRefs.refs = 1 ∧ r.incRefs.nlinks = 0) := by
    rintro ⟨last,none⟩
    have last : r.refs + 1 = 1 := last
    exact alive.elim (by omega) fun links => links none
  simp only [Ns.release,next,stays,if_false,alter_alter]
  exact alter_id fun _ _ => rfl

lemma Ns.hold_comm (ns : Ns) (i j : Nat) : (ns.alter i incRefs).alter j incRefs = (ns.alter j incRefs).alter i incRefs := by
  funext l
  simp only [alter]
  split <;> split <;> rfl

lemma Ns.release_instead (got : ns i = some r) (alive : 0 < r.refs ∨ r.nlinks ≠ 0) (x : Nat) : ((ns.alter i incRefs).alter x incRefs).release i = ns.alter x incRefs := by
  rw [hold_comm]
  refine release_hold (alter_back got) ?_
  split
  · exact .inl (Nat.succ_pos _)
  exact alive

structure Vacant (r : Item) (k : Nat) (name : CStr) : Prop where
  low : k ≤ r.blocks
  empty : r.slot k = none
  unbound : ∀ l y,r.slot l ≠ some (y,name)

namespace Ns

def link (ns : Ns) (d k x : Nat) (name : CStr) : Ns := (ns.alter d (enter k x name)).alter x Item.incLinks
def unlink (ns : Ns) (d k x : Nat) : Ns := (ns.alter d (leave k)).alter x Item.decLinks

lemma link_isSome (ns : Ns) (d k x : Nat) (name : CStr) (j : Nat) : (ns.link d k x name j).isSome = (ns j).isSome := by simp only [link,alter_isSome]

lemma unlink_isSome (ns : Ns) (d k x j : Nat) : (ns.unlink d k x j).isSome = (ns j).isSome := by simp only [unlink,alter_isSome]

lemma release_add {type : Nat} (gone : ns i = none) : (ns.add i (.made type)).release i = ns := by
  have here : ns.add i (.made type) i = some (.made type) := by simp [add]
  have last : (Item.made type).refs = 1 ∧ (Item.made type).nlinks = 0 := ⟨rfl,rfl⟩
  simp only [release,here,last,and_self,if_true]
  funext j
  by_cases eq : j = i
  · simp [drop,eq,gone]
  simp [drop,add,eq]

lemma add_isSome (i j : Nat) (r : Item) (live : (ns j).isSome) : (ns.add i r j).isSome := by
  unfold add
  split
  · rfl
  exact live

end Ns

end Facts

def Ns.makeDir (ns : Ns) (d k i : Nat) (name : CStr) : Ns :=
  ((((ns.add i (.made sfsTypeDir)).link d k i name).alter i (setParent d)).alter i Item.incLinks).alter d Item.incLinks
def Ns.takeDir (ns : Ns) (d k x : Nat) : Ns :=
  ((((ns.alter x incRefs).unlink d k x).alter x remove).alter x Item.decLinks).alter d Item.decLinks

def Ns.mkdir (ns : Ns) (d k i : Nat) (name : CStr) : Ns := (ns.makeDir d k i name).release i
def Ns.unlinkFile (ns : Ns) (d k x : Nat) : Ns := ((ns.alter x incRefs).unlink d k x).release x
def Ns.rmdir (ns : Ns) (d k x : Nat) : Ns := (ns.takeDir d k x).release x

lemma hold_stays (ns : Ns) (x : Nat) : ∀ j,(ns j).isSome → (ns.alter x incRefs j).isSome := fun j live => by rwa [alter_isSome]

structure Item.Stays (r q : Item) : Prop where
  type : q.type = r.type
  removed : q.removed = r.removed
  refs : q.refs = r.refs
  opens : q.opens = r.opens
  blocks : r.blocks ≤ q.blocks

def Ns.Stays (m n : Ns) : Prop := ∀ j r,m j = some r → ∃ q,n j = some q ∧ r.Stays q

section Stays
variable {m n o : Ns} {f : Item → Item}

lemma Item.Stays.trans (one : r.Stays q) (two : q.Stays p) : r.Stays p :=
  ⟨two.type.trans one.type,two.removed.trans one.removed,two.refs.trans one.refs,two.opens.trans one.opens,one.blocks.trans two.blocks⟩

lemma Ns.Stays.trans (one : m.Stays n) (two : n.Stays o) : m.Stays o := by
  intro j r got
  obtain ⟨q,found',stays⟩ := one j r got
  obtain ⟨p,found'',stays'⟩ := two j q found'
  exact ⟨p,found'',stays.trans stays'⟩

lemma Ns.Stays.isSome (stays : m.Stays n) (j : Nat) (live : (m j).isSome) : (n j).isSome := by
  obtain ⟨r,got⟩ := Option.isSome_iff_exists.mp live
  obtain ⟨q,found',_⟩ := stays j r got
  rw [found']
  rfl

lemma Ns.Stays.alter (keeps : ∀ r : Item,r.Stays (f r)) : m.Stays (m.alter i f) := by
  intro j r got
  refine ⟨_,alter_back got,?_⟩
  split
  · exact keeps r
  exact ⟨rfl,rfl,rfl,rfl,le_refl _⟩

lemma Ns.stays_unlink (ns : Ns) (d k x : Nat) : ns.Stays (ns.unlink d k x) :=
  (Ns.Stays.alter (f:=leave k) fun _ => ⟨rfl,rfl,rfl,rfl,le_refl _⟩).trans
    (.alter (f:=Item.decLinks) fun _ => ⟨rfl,rfl,rfl,rfl,le_refl _⟩)

lemma Ns.stays_link (ns : Ns) (d k x : Nat) (name : CStr) : ns.Stays (ns.link d k x name) :=
  (Ns.Stays.alter (f:=enter k x name) fun _ => ⟨rfl,rfl,rfl,rfl,le_max_left _ _⟩).trans
    (.alter (f:=Item.incLinks) fun _ => ⟨rfl,rfl,rfl,rfl,le_refl _⟩)

lemma Ns.stays_incLinks (ns : Ns) (i : Nat) : ns.Stays (ns.alter i Item.incLinks) := .alter fun _ => ⟨rfl,rfl,rfl,rfl,le_refl _⟩
lemma Ns.stays_decLinks (ns : Ns) (i : Nat) : ns.Stays (ns.alter i Item.decLinks) := .alter fun _ => ⟨rfl,rfl,rfl,rfl,le_refl _⟩
lemma Ns.stays_setParent (ns : Ns) (i p : Nat) : ns.Stays (ns.alter i (setParent p)) := .alter fun _ => ⟨rfl,rfl,rfl,rfl,le_refl _⟩

end Stays

namespace Ns

def detach (ns : Ns) (d k x : Nat) (isdir : Bool) : Ns :=
  if isdir then (ns.unlink d k x).alter d Item.decLinks else ns.unlink d k x

def attach (ns : Ns) (d k x : Nat) (name : CStr) (isdir : Bool) : Ns :=
  if isdir then ((ns.link d k x name).alter d Item.incLinks).alter x (setParent d) else ns.link d k x name

def restore (ns : Ns) (d k x : Nat) (name : CStr) (isdir : Bool) : Ns :=
  if isdir then (ns.link d k x name).alter d Item.incLinks else ns.link d k x name

def move (ns : Ns) (d k x d' k' : Nat) (name : CStr) (isdir : Bool) : Ns :=
  (((ns.alter x incRefs).detach d k x isdir).attach d' k' x name isdir).release x

def lose (ns : Ns) (d k x : Nat) (isdir : Bool) : Ns := ((ns.alter x incRefs).detach d k x isdir).release x

lemma stays_detach (ns : Ns) (d k x : Nat) (isdir : Bool) : ns.Stays (ns.detach d k x isdir) := by
  unfold Ns.detach
  split
  · exact (ns.stays_unlink d k x).trans (stays_decLinks _ d)
  exact ns.stays_unlink d k x

lemma stays_attach (ns : Ns) (d k x : Nat) (name : CStr) (isdir : Bool) : ns.Stays (ns.attach d k x name isdir) := by
  unfold Ns.attach
  split
  · exact ((ns.stays_link d k x name).trans (stays_incLinks _ d)).trans (stays_setParent _ x d)
  exact ns.stays_link d k x name

structure Into (ns : Ns) (d k : Nat) (name : CStr) (r : Item) : Prop where
  found : ns d = some r
  dir : r.type = sfsTypeDir
  present : r.removed = false
  vacant : Vacant r k name
  few : r.blocks < 2^20

structure Entry (ns : Ns) (d k x : Nat) (name : CStr) (r q : Item) : Prop where
  found : ns d = some r
  slot : r.slot k = some (x,name)
  target : ns x = some q

section Composite
variable {debt debt' : Nat → Int} {loose loose' : Nat → Prop} {d' k' : Nat} {r' : Item} {name newName : CStr}

lemma Mid.settle (mid : ns.Mid debt loose) (eq : ∀ j,debt j = debt' j) (fewer : ∀ y,loose y → loose' y ∨ ¬ ns.isDir y) : ns.Mid debt' loose' := by
  obtain rfl : debt = debt' := funext eq
  exact {mid with
    placed:=fun y r got dir tight => mid.placed y r got dir fun free => (fewer y free).elim tight fun file => file ⟨r,got,dir⟩}

lemma Bounded.same (bound : ns.Bounded) (i : Nat) (f : Item → Item) (eq : ∀ r : Item,(f r).slot = r.slot ∧ (f r).blocks = r.blocks) : (ns.alter i f).Bounded := by
  refine bound.alter fun r l got held => ?_
  rw [(eq r).1] at held
  rw [(eq r).2]
  exact bound.slots i r got l held

lemma Bounded.link (bound : ns.Bounded) (d k x : Nat) (name : CStr) : (ns.link d k x name).Bounded := (bound.enter d k x name).same x _ fun _ => ⟨rfl,rfl⟩

lemma Bounded.unlink (bound : ns.Bounded) (d k x : Nat) : (ns.unlink d k x).Bounded := (bound.leave d k).same x _ fun _ => ⟨rfl,rfl⟩

lemma Mid.link (mid : ns.Mid debt loose) (bound : ns.Bounded) (into : ns.Into d k name r) (goal : ns x = some q)
    (ne : x ≠ sfsBlknRoot) (kept : q.removed = false) (lone : q.type = sfsTypeDir → ns.names x = ∅) (room : q.nlinks < 65535) :
    (ns.link d k x name).Mid (fun j => debt j - if j = d ∧ q.type = sfsTypeDir then 1 else 0) (fun j => loose j ∨ j = x) := by
  have entered := mid.enter bound into.found into.dir into.present into.vacant.empty into.vacant.unbound goal ne kept lone into.few
  have more := entered.incLinks (i:=x) fun p got => by
    obtain ⟨_,old,rfl⟩ := alter_some got
    obtain rfl := mem_unique old goal
    split <;> exact room
  exact more.settle (fun j => by split <;> omega) fun _ free => .inl free

lemma Mid.unlink (mid : ns.Mid debt loose) (bound : ns.Bounded) (entry : ns.Entry d k x name r q) (links : q.nlinks ≠ 0) :
    (ns.unlink d k x).Mid (fun j => debt j + if j = d ∧ q.type = sfsTypeDir then 1 else 0) loose := by
  have left := mid.leave bound entry.found entry.slot entry.target
  have less := left.decLinks (i:=x) fun p got => by
    obtain ⟨_,old,rfl⟩ := alter_some got
    obtain rfl := mem_unique old entry.target
    split <;> exact links
  exact less.settle (fun j => by split <;> omega) fun _ free => .inl free

lemma Entry.hold (entry : ns.Entry d k x name r q) : (ns.alter x incRefs).Entry d k x name (if d = x then r.incRefs else r) q.incRefs := by
  refine ⟨alter_back entry.found,?_,alter_self entry.target _⟩
  split <;> exact entry.slot

lemma Entry.named (entry : ns.Entry d k x name r q) : (d,k) ∈ ns.names x := ⟨r,name,entry.found,entry.slot⟩

-- A directory has one entry; without it, it has none.
lemma Mid.unlink_unnamed (mid : ns.Mid debt loose) (dir : ns.isDir x) (entry : ns.Entry d k x name r q) : (ns.unlink d k x).names x = ∅ := by
  have toggle := toggle_leave entry.found entry.slot
  rw [Ns.unlink,Ns.names_alter (f:=Item.decLinks) fun _ _ => rfl]
  refine eq_empty_iff_forall_notMem.mpr fun e mem => ?_
  have old : e ∈ ns.names x := by
    rw [toggle.names x,if_pos rfl]
    exact .inr mem
  obtain rfl := mid.once x e (d,k) dir old entry.named
  exact toggle.absent x mem

lemma Mid.linkFile (sane : ns.Sane) (bound : ns.Bounded) (into : ns.Into d k name r) (goal : ns x = some q)
    (file : q.type ≠ sfsTypeDir) (room : q.nlinks < 65535) : (ns.link d k x name).Sane := by
  have root : x ≠ sfsBlknRoot := by
    rintro rfl
    obtain ⟨p,got,dir,_⟩ := sane.root
    obtain rfl := mem_unique got goal
    exact file dir
  have kept : q.removed = false := by
    cases gone : q.removed with
    | false => rfl
    | true => exact absurd (sane.removed x q goal gone).1 file
  refine (sane.link bound into goal root kept (fun dir => absurd dir file) room).settle (fun j => by simp [file]) fun y free => ?_
  rcases free with none | rfl
  · exact .inl none
  refine .inr ?_
  rintro ⟨p,got,dir⟩
  obtain ⟨_,found',rfl⟩ := alter_some got
  obtain ⟨_,found'',rfl⟩ := alter_some found'
  obtain rfl := mem_unique found'' goal
  refine file ?_
  split at dir <;> split at dir <;> exact dir

lemma Into.add (into : ns.Into d k name r) (gone : ns i = none) (type : Nat) : (ns.add i (.made type)).Into d k name r := by
  refine {into with found:=?_}
  rw [add_ne]
  · exact into.found
  rintro rfl
  rw [into.found] at gone
  cases gone

lemma Into.apart (into : ns.Into d k name r) (gone : ns i = none) : i ≠ d := by
  rintro rfl
  rw [into.found] at gone
  cases gone

lemma Mid.create (sane : ns.Sane) (bound : ns.Bounded) (into : ns.Into d k name r) (gone : ns i = none) : ((ns.add i (.made sfsTypeFile)).link d k i name).Sane := by
  have added : (ns.add i (.made sfsTypeFile)).Sane := (sane.add gone rfl sfsTypeFile).settle (fun j => by simp [sfsTypeFile,sfsTypeDir]) fun _ free => .inl free
  exact added.linkFile (bound.add i _) (into.add gone _) (q:=.made sfsTypeFile) (by simp [Ns.add]) (by decide) (by decide)

lemma link_named (got : ns d = some r) : (d,k) ∈ (ns.link d k x name).names x := by
  refine ⟨if d = x then (r.enter k x name).incLinks else r.enter k x name,name,alter_back (alter_self got _),?_⟩
  split <;> simp [Item.incLinks,enter,setSlot]

lemma Bounded.makeDir (bound : ns.Bounded) (d k i : Nat) (name : CStr) : (ns.makeDir d k i name).Bounded :=
  ((((bound.add i _).link d k i name).same i (setParent d) fun _ => ⟨rfl,rfl⟩).same i Item.incLinks fun _ => ⟨rfl,rfl⟩).same d
    Item.incLinks fun _ => ⟨rfl,rfl⟩

lemma Mid.makeDir (sane : ns.Sane) (bound : ns.Bounded) (into : ns.Into d k name r) (gone : ns i = none) (room : r.nlinks < 65535) : (ns.makeDir d k i name).Sane := by
  have ne := into.apart gone
  have root : i ≠ sfsBlknRoot := by
    rintro rfl
    obtain ⟨p,got,_⟩ := sane.root
    rw [got] at gone
    cases gone
  have added := sane.add gone rfl sfsTypeDir
  have made : ns.add i (.made sfsTypeDir) i = some (.made sfsTypeDir) := by simp [Ns.add]
  have unnamed : (ns.add i (.made sfsTypeDir)).names i = ∅ := by
    rw [names_add _ gone]
    exact sane.unnamed gone
  have linked := added.link (bound.add i _) (into.add gone _) made root rfl (fun _ => unnamed) (by decide)
  have here : ((ns.add i (.made sfsTypeDir)).link d k i name) i = some (Item.made sfsTypeDir).incLinks := alter_self (by rw [Ns.alter_ne ne,made]) _
  have above : ((ns.add i (.made sfsTypeDir)).link d k i name) d = some (r.enter k i name) := by
    rw [Ns.link,Ns.alter_ne (Ne.symm ne)]
    exact alter_self (into.add gone _).found _
  have placed := linked.setParent (x:=i) (d:=d) fun e mem => congrArg Prod.fst (linked.once i e (d,k) ⟨_,here,rfl⟩ mem (link_named (into.add gone _).found))
  -- its "." and its ".."
  have own := placed.incLinks (i:=i) fun p got => by
    rw [alter_self here] at got
    cases got
    exact (show (1 : Nat) < 65535 by decide)
  have up := own.incLinks (i:=d) fun p got => by
    rw [Ns.alter_ne (Ne.symm ne),Ns.alter_ne (Ne.symm ne),above] at got
    cases got
    exact room
  exact up.settle (fun j => by
    by_cases first : j = i
    · subst first
      simp [ne]
    by_cases two : j = d
    · simp [two,Ne.symm ne,Item.made]
    simp [first,two]) fun y free => absurd (free.1.resolve_left id) free.2

lemma Bounded.hold (bound : ns.Bounded) (x : Nat) : (ns.alter x incRefs).Bounded := bound.same x _ fun _ => ⟨rfl,rfl⟩

lemma Mid.unlinkHeld (sane : ns.Sane) (bound : ns.Bounded) (entry : ns.Entry d k x name r q) (file : q.type ≠ sfsTypeDir) : ((ns.alter x incRefs).unlink d k x).Sane := by
  have links : q.nlinks ≠ 0 := sane.links_named bound entry.named entry.target
  exact ((sane.hold x).unlink (bound.hold x) entry.hold links).settle (fun j => by simp [incRefs,file]) fun _ free => .inl free

lemma Bounded.takeDir (bound : ns.Bounded) (d k x : Nat) : (ns.takeDir d k x).Bounded :=
  ((((bound.hold x).unlink d k x).same x remove fun _ => ⟨rfl,rfl⟩).same x Item.decLinks fun _ => ⟨rfl,rfl⟩).same d Item.decLinks
    fun _ => ⟨rfl,rfl⟩

lemma Mid.takeDir (sane : ns.Sane) (bound : ns.Bounded) (entry : ns.Entry d k x name r q) (dir : q.type = sfsTypeDir)
    (empty : q.info = 0) (ne : x ≠ d) : (ns.takeDir d k x).Sane := by
  have root := (sane.named d r k x name entry.found entry.slot).2.2.1
  have two := sane.links_empty bound entry.target dir entry.named root empty
  have parent := sane.links_parent bound entry.found entry.slot ⟨q,entry.target,dir⟩
  have gone := (sane.hold x).unlink (bound.hold x) entry.hold (show q.nlinks ≠ 0 by omega)
  have here : ((ns.alter x incRefs).unlink d k x) x = some q.incRefs.decLinks := alter_self (by rw [Ns.alter_ne ne]; exact alter_self entry.target _) _
  have above : ((ns.alter x incRefs).unlink d k x) d = some (r.leave k) := by
    rw [Ns.unlink,Ns.alter_ne (Ne.symm ne)]
    exact alter_self (by rw [Ns.alter_ne (Ne.symm ne),entry.found]) _
  have unnamed := (sane.hold x).unlink_unnamed ⟨_,alter_self entry.target _,dir⟩ entry.hold
  have vacant : ∀ l,q.slot l = none := taken_none (bound.taken entry.target) (by rw [← sane.slots x q entry.target dir,empty])
  have removed := gone.remove here dir (show q.removed = false from sane.present entry.target entry.named) vacant unnamed root
  have less := removed.decLinks (i:=x) fun p got => by
    rw [alter_self here] at got
    cases got
    change q.nlinks - 1 ≠ 0
    omega
  have fewer := less.decLinks (i:=d) fun p got => by
    rw [Ns.alter_ne (Ne.symm ne),Ns.alter_ne (Ne.symm ne),above] at got
    cases got
    change r.nlinks ≠ 0
    omega
  exact fewer.settle (fun j => by
    by_cases first : j = x
    · subst first
      simp [ne]
    by_cases second : j = d
    · simp [second,Ne.symm ne,incRefs,dir]
    simp [first,second]) fun _ free => .inl free

lemma Mid.detach {isdir : Bool} (sane : ns.Sane) (bound : ns.Bounded) (entry : ns.Entry d k x name r q)
    (kind : isdir = decide (q.type = sfsTypeDir)) : (ns.detach d k x isdir).Sane ∧ (ns.detach d k x isdir).Bounded := by
  have links := sane.links_named bound entry.named entry.target
  have gone := sane.unlink bound entry links
  subst kind
  unfold Ns.detach
  by_cases dir : q.type = sfsTypeDir
  · simp only [dir,decide_true,if_true]
    refine ⟨?_,(bound.unlink d k x).same d Item.decLinks fun _ => ⟨rfl,rfl⟩⟩
    have parent := sane.links_parent bound entry.found entry.slot ⟨q,entry.target,dir⟩
    have less := gone.decLinks (i:=d) fun p got => by
      rw [Ns.unlink,alter_back (alter_self entry.found _)] at got
      cases got
      split
      · change r.nlinks - 1 ≠ 0
        omega
      change r.nlinks ≠ 0
      omega
    exact less.settle (fun j => by by_cases here : j = d <;> simp [here,dir]) fun _ free => .inl free
  simp only [dir,decide_false,Bool.false_eq_true,if_false]
  exact ⟨gone.settle (fun j => by simp [dir]) fun _ free => .inl free,bound.unlink d k x⟩

lemma detach_unnamed (sane : ns.Sane) (entry : ns.Entry d k x name r q) (dir : q.type = sfsTypeDir) : (ns.detach d k x true).names x = ∅ := by
  have empty := sane.unlink_unnamed ⟨q,entry.target,dir⟩ entry
  simp only [Ns.detach,if_true]
  rwa [Ns.names_alter (f:=Item.decLinks) fun _ _ => rfl]

lemma detach_target (entry : ns.Entry d k x name r q) (isdir : Bool) :
    ∃ p,ns.detach d k x isdir x = some p ∧ p.type = q.type ∧ p.removed = q.removed ∧ p.nlinks ≤ q.nlinks - 1 := by
  obtain ⟨p,got,left⟩ : ∃ p : Item,ns.unlink d k x x = some p.decLinks ∧ p.type = q.type ∧ p.removed = q.removed ∧ p.nlinks = q.nlinks := by
    by_cases eq : x = d
    · subst eq
      obtain rfl := mem_unique entry.found entry.target
      exact ⟨_,alter_self (alter_self entry.found _) _,rfl,rfl,rfl⟩
    exact ⟨q,alter_self (by rw [Ns.alter_ne eq,entry.target]) _,rfl,rfl,rfl⟩
  obtain ⟨type,removed,_⟩ := left
  unfold Ns.detach
  split
  · refine ⟨_,alter_back got,?_⟩
    split
    · exact ⟨type,removed,show p.nlinks - 1 - 1 ≤ _ by omega⟩
    exact ⟨type,removed,show p.nlinks - 1 ≤ _ by omega⟩
  exact ⟨_,got,type,removed,show p.nlinks - 1 ≤ _ by omega⟩

lemma Mid.attach {isdir : Bool} (sane : ns.Sane) (bound : ns.Bounded) (into : ns.Into d k name r) (goal : ns x = some q)
    (kind : isdir = decide (q.type = sfsTypeDir)) (root : x ≠ sfsBlknRoot) (kept : q.removed = false)
    (lone : q.type = sfsTypeDir → ns.names x = ∅) (room : q.nlinks < 65535)
    (above : q.type = sfsTypeDir → r.nlinks + (if d = x then 1 else 0) < 65535) : (ns.attach d k x name isdir).Sane := by
  subst kind
  unfold Ns.attach
  by_cases dir : q.type = sfsTypeDir
  · simp only [dir,decide_true,if_true]
    have linked := sane.link bound into goal root kept lone room
    have more := linked.incLinks (i:=d) fun p got => by
      have beyond := above dir
      rw [Ns.link,alter_back (alter_self into.found _)] at got
      cases got
      split at beyond
      next eq =>
        rw [if_pos eq]
        exact lt_of_le_of_lt (Nat.mod_le (r.nlinks + 1) (2^16)) beyond
      next ne =>
        rw [if_neg ne]
        exact beyond
    have isDir : ((ns.link d k x name).alter d Item.incLinks).isDir x := by
      obtain ⟨p,got,eq⟩ := ((ns.stays_link d k x name).trans (stays_incLinks _ d)) x q goal
      exact ⟨p,got,eq.type.trans dir⟩
    have here : (d,k) ∈ ((ns.link d k x name).alter d Item.incLinks).names x := by
      rw [Ns.names_alter (f:=Item.incLinks) fun _ _ => rfl]
      exact link_named into.found
    have placed := more.setParent (x:=x) (d:=d) fun e mem => congrArg Prod.fst (more.once x e (d,k) isDir mem here)
    exact placed.settle (fun j => by by_cases here : j = d <;> simp [here,dir]) fun y free => absurd (free.1.resolve_left id) free.2
  simp only [dir,decide_false,Bool.false_eq_true,if_false]
  exact sane.linkFile bound into goal dir room

lemma Bounded.attach (bound : ns.Bounded) (d k x : Nat) (name : CStr) (isdir : Bool) : (ns.attach d k x name isdir).Bounded := by
  unfold Ns.attach
  split
  · exact ((bound.link d k x name).same d Item.incLinks fun _ => ⟨rfl,rfl⟩).same x (setParent d) fun _ => ⟨rfl,rfl⟩
  exact bound.link d k x name

lemma detach_other {isdir : Bool} (ne : d' ≠ d) (got : ns d' = some r') : ns.detach d k x isdir d' = some (if d' = x then r'.decLinks else r') := by
  have first : ns.unlink d k x d' = some (if d' = x then r'.decLinks else r') := alter_back (by rw [Ns.alter_ne ne,got])
  unfold Ns.detach
  split
  · rw [Ns.alter_ne ne,first]
  exact first

lemma Into.detach (into : ns.Into d' k' newName r') (ne : d' ≠ d) (k x : Nat) (isdir : Bool) :
    (ns.detach d k x isdir).Into d' k' newName (if d' = x then r'.decLinks else r') := by
  refine ⟨detach_other ne into.found,?_,?_,?_,?_⟩
  · split <;> exact into.dir
  · split <;> exact into.present
  · split <;> exact {into.vacant with}
  split <;> exact into.few

lemma Into.hold (into : ns.Into d k name r) (x : Nat) : (ns.alter x incRefs).Into d k name (if d = x then r.incRefs else r) := by
  refine ⟨alter_back into.found,?_,?_,?_,?_⟩
  · split <;> exact into.dir
  · split <;> exact into.present
  · split <;> exact {into.vacant with}
  split <;> exact into.few

lemma Mid.moveHeld {isdir : Bool} (sane : ns.Sane) (bound : ns.Bounded) (entry : ns.Entry d k x name r q)
    (into : ns.Into d' k' newName r') (ne : d' ≠ d) (kind : isdir = decide (q.type = sfsTypeDir)) (width : q.nlinks < 2^16)
    (above : q.type = sfsTypeDir → r'.nlinks < 65535) :
    (((ns.alter x incRefs).detach d k x isdir).attach d' k' x newName isdir).Sane := by
  have links : q.nlinks ≠ 0 := sane.links_named bound entry.named entry.target
  obtain ⟨away,bounded'⟩ := (sane.hold x).detach (bound.hold x) entry.hold kind
  obtain ⟨p,here,type,removed,less⟩ := detach_target entry.hold isdir
  have fewer : p.nlinks ≤ q.nlinks - 1 := less
  have kept : q.removed = false := sane.present entry.target entry.named
  exact away.attach bounded' ((into.hold x).detach ne k x isdir) here (by rw [kind,type]; rfl)
    (sane.named d r k x name entry.found entry.slot).2.2.1 (removed.trans kept)
    (fun dir => by
      have dir' : q.type = sfsTypeDir := type.symm.trans dir
      rw [kind,decide_eq_true dir']
      exact detach_unnamed (sane.hold x) entry.hold dir')
    (by omega) (fun dir => by
      have beyond := above (type.symm.trans dir)
      by_cases eq : d' = x
      · obtain rfl : q = r' := Option.some.inj (entry.target.symm.trans (eq ▸ into.found))
        simp only [eq,if_true]
        change q.nlinks - 1 + 1 < 65535
        omega
      simp only [eq,if_false]
      omega)

lemma Mid.resize (sane : ns.Sane) (got : ns i = some r) (file : r.type ≠ sfsTypeDir) (info blocks : Nat) : (ns.alter i fun p => (p.setInfo info).setBlocks blocks).Sane :=
  Ns.Mid.touch sane (fun _ found' => ⟨rfl,rfl,rfl,rfl,fun dir => absurd dir (mem_unique got found' ▸ file)⟩) fun _ _ => rfl

end Composite

end Ns

inductive Change where
  | same
  | hold (i : Nat)
  | release (i : Nat)
  | reopen (i : Nat)
  | close (i : Nat)
  | resize (i info blocks : Nat)
  | create (d k i : Nat) (name : CStr)
  | mkdir (d k i : Nat) (name : CStr)
  | link (d k x : Nat) (name : CStr)
  | unlinkFile (d k x : Nat) (name : CStr)
  | rmdir (d k x : Nat) (name : CStr)
  | retitle (d k x : Nat) (name newName : CStr)
  | move (d k x : Nat) (name : CStr) (d' k' : Nat) (newName : CStr) (isdir : Bool)
  | lose (d k x : Nat) (name : CStr) (isdir : Bool)

def Change.apply (ns : Ns) : Change → Ns
  | .same => ns
  | .hold i => ns.alter i incRefs
  | .release i => ns.release i
  | .reopen i => ns.alter i incOpens
  | .close i => ns.alter i decOpens
  | .resize i info blocks => ns.alter i fun p => (p.setInfo info).setBlocks blocks
  | .create d k i name => (ns.add i (.made sfsTypeFile)).link d k i name
  | .mkdir d k i name => ns.mkdir d k i name
  | .link d k x name => ns.link d k x name
  | .unlinkFile d k x _ => ns.unlinkFile d k x
  | .rmdir d k x _ => ns.rmdir d k x
  | .retitle d k x _ newName => ns.alter d (setSlot k (some (x,newName)))
  | .move d k x _ d' k' newName isdir => ns.move d k x d' k' newName isdir
  | .lose d k x _ isdir => ns.lose d k x isdir

def Change.Valid (ns : Ns) : Change → Prop
  | .same | .hold _ | .release _ | .reopen _ | .close _ => True
  | .resize i _ _ => ∃ r,ns i = some r ∧ r.type ≠ sfsTypeDir
  | .create d k i name => ns i = none ∧ ∃ r,ns.Into d k name r
  | .mkdir d k i name => ns i = none ∧ ∃ r,ns.Into d k name r ∧ r.nlinks < 65535
  | .link d k x name => ∃ r q,ns.Into d k name r ∧ ns x = some q ∧ q.type ≠ sfsTypeDir ∧ q.nlinks < 65535
  | .unlinkFile d k x name => ∃ r q,ns.Entry d k x name r q ∧ q.type ≠ sfsTypeDir
  | .rmdir d k x name => ∃ r q,ns.Entry d k x name r q ∧ q.type = sfsTypeDir ∧ q.info = 0 ∧ x ≠ d
  | .retitle d k x name newName => ∃ r q,ns.Entry d k x name r q ∧ ∀ l y,r.slot l ≠ some (y,newName)
  | .move d k x name d' k' newName isdir => ∃ r r' q,ns.Entry d k x name r q ∧ ns.Into d' k' newName r' ∧ d' ≠ d ∧
      isdir = decide (q.type = sfsTypeDir) ∧ q.nlinks < 2^16 ∧ (q.type = sfsTypeDir → r'.nlinks < 65535)
  | .lose d k x name isdir => ∃ r q,ns.Entry d k x name r q ∧ isdir = decide (q.type = sfsTypeDir)

lemma Change.sane (sane : ns.Sane) (bound : ns.Bounded) (c : Change) (valid : c.Valid ns) : (c.apply ns).Sane := by
  cases c with
  | same => exact sane
  | hold i => exact sane.hold i
  | release i => exact sane.release bound i
  | reopen i => exact Ns.Mid.touch sane (fun _ _ => ⟨rfl,rfl,rfl,rfl,fun _ => rfl⟩) fun _ _ => rfl
  | close i => exact Ns.Mid.touch sane (fun _ _ => ⟨rfl,rfl,rfl,rfl,fun _ => rfl⟩) fun _ _ => rfl
  | resize i info blocks =>
    obtain ⟨r,got,file⟩ := valid
    exact sane.resize got file info blocks
  | create d k i name =>
    obtain ⟨gone,r,into⟩ := valid
    exact sane.create bound into gone
  | mkdir d k i name =>
    obtain ⟨gone,r,into,room⟩ := valid
    exact (sane.makeDir bound into gone room).release (bound.makeDir d k i name) i
  | link d k x name =>
    obtain ⟨r,q,into,goal,file,room⟩ := valid
    exact sane.linkFile bound into goal file room
  | unlinkFile d k x name =>
    obtain ⟨r,q,entry,file⟩ := valid
    exact (sane.unlinkHeld bound entry file).release ((bound.hold x).unlink d k x) x
  | rmdir d k x name =>
    obtain ⟨r,q,entry,dir,empty,ne⟩ := valid
    exact (sane.takeDir bound entry dir empty ne).release (bound.takeDir d k x) x
  | retitle d k x name newName =>
    obtain ⟨r,q,entry,unbound⟩ := valid
    exact Ns.Mid.retitle sane entry.found entry.slot unbound
  | move d k x name d' k' newName isdir =>
    obtain ⟨r,_,q,entry,into,ne,kind,width,above⟩ := valid
    have bounded' := ((sane.hold x).detach (bound.hold x) entry.hold kind).2
    exact (sane.moveHeld bound entry into ne kind width above).release (bounded'.attach d' k' x newName isdir) x
  | lose d k x _ _ =>
    obtain ⟨r,q,entry,kind⟩ := valid
    obtain ⟨away,bounded'⟩ := (sane.hold x).detach (bound.hold x) entry.hold kind
    exact away.release bounded' x

end Ucore.Sfs
