import Mathlib.Data.Set.Card
import Mathlib.Data.Set.Finite.Lattice
import Mathlib.Order.Interval.Finset.Nat
import Mathlib.Tactic.Linarith
import Ucore.Sfs.Namespace

-- The laws of the namespace: link counts, slot counts, distinct names and one
-- entry for a directory. debt says by how much a link count is off while an
-- operation is under way, loose which directories have no right parent yet.
namespace Ucore.Sfs
open Item Ns Set
open Option (mem_unique)
variable {ns : Ns} {d x k : Nat} {r q : Item} {n : CStr}

section Laws
variable {i : Nat} {f : Item → Item}

def Ns.names (ns : Ns) (i : Nat) : Set (Nat × Nat) := {p | ∃ r n,ns p.1 = some r ∧ r.slot p.2 = some (i,n)}

def Ns.isDir (ns : Ns) (i : Nat) : Prop := ∃ r,ns i = some r ∧ r.type = sfsTypeDir

def Ns.subdirs (ns : Ns) (r : Item) : Set Nat := {k | ∃ x n,r.slot k = some (x,n) ∧ ns.isDir x}

def Item.taken (r : Item) : Set Nat := {k | r.slot k ≠ none}

-- The entries that name the inode; for a directory that has not been removed
-- also its own '.' and the '..' of the directories in it, the root in itself.
noncomputable def Ns.due (ns : Ns) (i : Nat) (r : Item) : Int :=
  (ns.names i).ncard + if r.type = sfsTypeDir ∧ r.removed = false then 1 + (ns.subdirs r).ncard + (if i = sfsBlknRoot then 1 else 0) else 0

structure Ns.Bounded (ns : Ns) : Prop where
  finite : {j | (ns j).isSome}.Finite
  slots : ∀ d r,ns d = some r → ∀ k,r.slot k ≠ none → k < r.blocks

structure Ns.Mid (ns : Ns) (debt : Nat → Int) (loose : Nat → Prop) : Prop where
  law : ∀ i r,ns i = some r → (r.nlinks : Int) = ns.due i r + debt i
  root : ∃ r,ns sfsBlknRoot = some r ∧ r.type = sfsTypeDir ∧ r.removed = false
  named : ∀ d r k x n,ns d = some r → r.slot k = some (x,n) →
    r.type = sfsTypeDir ∧ r.removed = false ∧ x ≠ sfsBlknRoot ∧ (ns x).isSome
  distinct : ∀ d r k l x y n,ns d = some r → r.slot k = some (x,n) → r.slot l = some (y,n) → k = l
  slots : ∀ d r,ns d = some r → r.type = sfsTypeDir → r.info = r.taken.ncard
  once : ∀ x p q,ns.isDir x → p ∈ ns.names x → q ∈ ns.names x → p = q
  placed : ∀ x r,ns x = some r → r.type = sfsTypeDir → ¬ loose x → ∀ p ∈ ns.names x,r.parent = p.1
  removed : ∀ x r,ns x = some r → r.removed = true → r.type = sfsTypeDir ∧ ns.names x = ∅

abbrev Ns.Sane (ns : Ns) : Prop := ns.Mid (fun _ => 0) (fun _ => False)

namespace Ns.Bounded
variable (bounded : ns.Bounded)
include bounded

lemma entries : {p : Nat × Nat | ∃ r,ns p.1 = some r ∧ r.slot p.2 ≠ none}.Finite := by
  have each : ∀ d ∈ {j | (ns j).isSome},(image (fun k => (d,k)) (Set.Iio ((ns d).elim 0 blocks))).Finite := fun d _ => (finite_Iio _).image _
  refine (bounded.finite.biUnion each).subset ?_
  rintro ⟨d,k⟩ ⟨r,got,held⟩
  refine mem_biUnion (x:=d) (by simp [got]) ⟨k,?_,rfl⟩
  rw [got]
  exact bounded.slots d r got k held

lemma names (i : Nat) : (ns.names i).Finite := by
  refine bounded.entries.subset ?_
  rintro p ⟨r,n,got,slot⟩
  exact ⟨r,got,by simp [slot]⟩

lemma taken (got : ns d = some r) : r.taken.Finite := (finite_Iio r.blocks).subset fun k held => bounded.slots d r got k held

lemma subdirs (got : ns d = some r) : (ns.subdirs r).Finite := by
  refine (bounded.taken got).subset ?_
  rintro k ⟨x,n,slot,_⟩
  simp [Item.taken,slot]

lemma few (got : ns d = some r) : r.taken.ncard ≤ r.blocks := by
  have below : r.taken ⊆ Set.Iio r.blocks := fun k held => bounded.slots d r got k held
  have count := ncard_le_ncard below (finite_Iio _)
  rw [ncard_eq_toFinset_card' (Set.Iio r.blocks)] at count
  simpa using count

end Ns.Bounded

lemma Ns.alter_some (got : ns.alter i f j = some q) : ∃ r,ns j = some r ∧ q = if j = i then f r else r := by
  unfold alter at got
  split at got
  next here =>
    cases old : ns j with
    | none => simp [old] at got
    | some r => exact ⟨r,rfl,by simp [old] at got; simp [here,got]⟩
  next ne => exact ⟨q,got,by simp [ne]⟩

lemma Ns.alter_cases (got : ns i = some r) (new : ns.alter i f j = some q) : (j = i ∧ q = f r) ∨ (j ≠ i ∧ ns j = some q) := by
  unfold alter at new
  split at new
  next here =>
    subst here
    rw [got] at new
    exact .inl ⟨rfl,(Option.some.inj new).symm⟩
  next ne => exact .inr ⟨ne,new⟩

lemma Ns.alter_all {P : Nat → Item → Prop} (got : ns i = some r) (all : ∀ j q,ns j = some q → P j q) (here : P i r → P i (f r)) :
    ∀ j q,ns.alter i f j = some q → P j q := by
  intro j q new
  rcases alter_cases got new with ⟨rfl,rfl⟩ | ⟨_,old⟩
  · exact here (all j r got)
  exact all j q old

lemma Ns.alter_back (got : ns j = some r) : ns.alter i f j = some (if j = i then f r else r) := by
  unfold alter
  split <;> simp [got]

lemma Ns.isDir_alter (type : ∀ r,ns i = some r → (f r).type = r.type) (j : Nat) : (ns.alter i f).isDir j ↔ ns.isDir j := by
  constructor
  · rintro ⟨q,got,dir⟩
    obtain ⟨r,old,rfl⟩ := alter_some got
    refine ⟨r,old,?_⟩
    split at dir
    next here =>
      subst here
      rwa [type r old] at dir
    exact dir
  rintro ⟨r,old,dir⟩
  refine ⟨_,Ns.alter_back old,?_⟩
  split
  next here =>
    subst here
    rw [type r old,dir]
  exact dir

lemma Ns.names_alter (slot : ∀ r,ns i = some r → (f r).slot = r.slot) (j : Nat) : (ns.alter i f).names j = ns.names j := by
  ext p
  constructor
  · rintro ⟨q,n,got,entry⟩
    obtain ⟨r,old,rfl⟩ := alter_some got
    refine ⟨r,n,old,?_⟩
    split at entry
    next here =>
      subst here
      rwa [slot r old] at entry
    exact entry
  rintro ⟨r,n,old,entry⟩
  refine ⟨_,n,Ns.alter_back old,?_⟩
  split
  next here =>
    subst here
    rw [slot r old,entry]
  exact entry

structure Item.Like (r q : Item) : Prop where
  type : q.type = r.type
  parent : q.parent = r.parent
  slot : q.slot = r.slot
  removed : q.removed = r.removed
  info : r.type = sfsTypeDir → q.info = r.info

lemma Ns.subdirs_congr {ns' : Ns} (dirs : ∀ j,ns'.isDir j ↔ ns.isDir j) (slot : q.slot = r.slot) : ns'.subdirs q = ns.subdirs r := by
  ext k
  simp [Ns.subdirs,slot,dirs]

lemma Ns.subdirs_same {ns' : Ns} (dirs : ∀ k x n,r.slot k = some (x,n) → (ns'.isDir x ↔ ns.isDir x)) : ns'.subdirs r = ns.subdirs r :=
  Set.ext fun k => exists_congr fun x => exists_congr fun n => and_congr_right (dirs k x n)

lemma Ns.Mid.recast {debt' : Nat → Int} {loose' : Nat → Prop} (mid : ns.Mid debt loose) (got : ns i = some r)
    (type : (f r).type = r.type) (slot : (f r).slot = r.slot) (info : r.type = sfsTypeDir → (f r).info = r.info)
    (links : ((f r).nlinks : Int) = ns.due i (f r) + debt' i) (even : ∀ j ≠ i,debt' j = debt j)
    (gone : (f r).removed = true → r.removed = true ∨ (i ≠ sfsBlknRoot ∧ r.type = sfsTypeDir ∧ (∀ k,r.slot k = none) ∧ ns.names i = ∅))
    (parent : r.type = sfsTypeDir → ¬ loose' i → ∀ p ∈ ns.names i,(f r).parent = p.1) (tight : ∀ j ≠ i,loose j → loose' j) :
    (ns.alter i f).Mid debt' loose' := by
  have each : ∀ r',ns i = some r' → r' = r := fun r' found' => mem_unique found' got
  have names := names_alter (f:=f) fun r' found' => by rw [each r' found',slot]
  have dirs := isDir_alter (f:=f) fun r' found' => by rw [each r' found',type]
  have stays : (r.removed = false ∧ (i = sfsBlknRoot ∨ ∃ k,r.slot k ≠ none)) → (f r).removed = false := by
    rintro ⟨present,used⟩
    by_contra marked
    rcases gone (by simpa using marked) with before | ⟨apart,_,empty,_⟩
    · simp [present] at before
    rcases used with root | ⟨k,held⟩
    · exact apart root
    exact held (empty k)
  refine ⟨fun j q new => ?_,?_,fun d q k x n new entry => ?_,fun d q k l x y n new one two => ?_,fun d q new dir => ?_,
    fun x p q dir one two => ?_,fun x q new dir free p entry => ?_,fun x q new marked => ?_⟩
  · rcases alter_cases got new with ⟨rfl,rfl⟩ | ⟨ne,old⟩
    · rw [links]
      simp [Ns.due,names,subdirs_congr dirs rfl]
    rw [even j ne,mid.law j q old]
    simp [Ns.due,names,subdirs_congr dirs rfl]
  · obtain ⟨s,old,dir,present⟩ := mid.root
    by_cases here : sfsBlknRoot = i
    · obtain rfl := each s (here ▸ old)
      exact ⟨f s,here ▸ alter_self got f,type.trans dir,stays ⟨present,.inl here.symm⟩⟩
    exact ⟨s,(alter_ne here f).trans old,dir,present⟩
  · rw [alter_isSome]
    rcases alter_cases got new with ⟨rfl,rfl⟩ | ⟨_,old⟩
    · rw [slot] at entry
      obtain ⟨dir,present,apart,live⟩ := mid.named d r k x n got entry
      exact ⟨type.trans dir,stays ⟨present,.inr ⟨k,by simp [entry]⟩⟩,apart,live⟩
    exact mid.named d q k x n old entry
  · rcases alter_cases got new with ⟨rfl,rfl⟩ | ⟨_,old⟩
    · rw [slot] at one two
      exact mid.distinct d r k l x y n got one two
    exact mid.distinct d q k l x y n old one two
  · rcases alter_cases got new with ⟨rfl,rfl⟩ | ⟨_,old⟩
    · rw [type] at dir
      rw [info dir,mid.slots d r got dir,Item.taken,Item.taken,slot]
    exact mid.slots d q old dir
  · rw [names] at one two
    exact mid.once x p q ((dirs x).mp dir) one two
  · rw [names] at entry
    rcases alter_cases got new with ⟨rfl,rfl⟩ | ⟨ne,old⟩
    · exact parent (type ▸ dir) free p entry
    exact mid.placed x q old dir (fun held => free (tight x ne held)) p entry
  rw [names]
  rcases alter_cases got new with ⟨rfl,rfl⟩ | ⟨_,old⟩
  · rw [type]
    rcases gone marked with before | ⟨_,dir,_,unnamed⟩
    · exact mid.removed x r got before
    exact ⟨dir,unnamed⟩
  exact mid.removed x q old marked

lemma Ns.alter_absent (absent : ns i = none) (f : Item → Item) : ns.alter i f = ns := by
  funext j
  unfold alter
  split
  next here =>
    subst here
    rw [absent]
    rfl
  rfl

namespace Ns.Mid

lemma root_alter (mid : ns.Mid debt loose) (eq : ∀ r,(f r).type = r.type ∧ (f r).removed = r.removed) :
    ∃ r,ns.alter i f sfsBlknRoot = some r ∧ r.type = sfsTypeDir ∧ r.removed = false := by
  obtain ⟨r,old,isDir,stays⟩ := mid.root
  refine ⟨_,Ns.alter_back old,?_⟩
  split
  · rwa [(eq r).1,(eq r).2,and_iff_left stays]
  exact ⟨isDir,stays⟩

lemma adjust {δ : Int} (mid : ns.Mid debt loose) (like : ∀ r,ns i = some r → r.Like (f r))
    (links : ∀ r,ns i = some r → ((f r).nlinks : Int) = r.nlinks + δ) :
    (ns.alter i f).Mid (fun j => debt j + if j = i then δ else 0) loose := by
  cases got : ns i with
  | none =>
    rw [alter_absent got]
    refine {mid with law:=fun j s old => ?_}
    rw [mid.law j s old,if_neg,add_zero]
    rintro rfl
    simp [got] at old
  | some r =>
    obtain ⟨type,parent,slot,removed,info⟩ := like r got
    refine mid.recast got type slot info ?_ (fun j ne => by simp [ne]) (fun gone => .inl (removed ▸ gone))
      (fun dir tight p entry => parent.trans (mid.placed i r got dir tight p entry)) (fun _ _ held => held)
    have due : ns.due i (f r) = ns.due i r := by simp [Ns.due,type,removed,Ns.subdirs,slot]
    rw [links r got,mid.law i r got,due,if_pos rfl,add_assoc]

lemma touch (mid : ns.Mid debt loose) (like : ∀ r,ns i = some r → r.Like (f r)) (links : ∀ r,ns i = some r → (f r).nlinks = r.nlinks) : (ns.alter i f).Mid debt loose := by
  have := mid.adjust (δ:=0) like fun r got => by rw [links r got,add_zero]
  simpa using this

lemma incLinks (mid : ns.Mid debt loose) (room : ∀ r,ns i = some r → r.nlinks < 65535) :
    (ns.alter i Item.incLinks).Mid (fun j => debt j + if j = i then 1 else 0) loose := by
  refine mid.adjust (fun r _ => ⟨rfl,rfl,rfl,rfl,fun _ => rfl⟩) fun r got => ?_
  have := room r got
  have small : (r.nlinks + 1) % 2^16 = r.nlinks + 1 := Nat.mod_eq_of_lt (by omega)
  simp only [Item.incLinks,small]
  push_cast
  ring

lemma decLinks (mid : ns.Mid debt loose) (some_ : ∀ r,ns i = some r → r.nlinks ≠ 0) : (ns.alter i Item.decLinks).Mid (fun j => debt j + if j = i then -1 else 0) loose := by
  refine mid.adjust (fun r _ => ⟨rfl,rfl,rfl,rfl,fun _ => rfl⟩) fun r got => ?_
  have := some_ r got
  simp only [Item.decLinks]
  omega

end Ns.Mid

end Laws

structure Toggle (without with_ : Ns) (d k x : Nat) (n : CStr) (r q : Item) : Prop where
  others : ∀ j,j ≠ d → with_ j = without j
  before : without d = some r
  after : with_ d = some q
  vacant : r.slot k = none
  slot : q.slot = fun l => if l = k then some (x,n) else r.slot l
  type : q.type = r.type
  removed : q.removed = r.removed
  parent : q.parent = r.parent

namespace Toggle

section Toggle
variable {without with_ : Ns}

section
variable (toggle : Toggle without with_ d k x n r q)
include toggle

lemma names (j : Nat) : with_.names j = if j = x then insert (d,k) (without.names j) else without.names j := by
  ext ⟨e,l⟩
  by_cases here : e = d
  · subst here
    have left : (e,l) ∈ with_.names j ↔ ∃ m,q.slot l = some (j,m) := by simp [Ns.names,toggle.after]
    have right : (e,l) ∈ without.names j ↔ ∃ m,r.slot l = some (j,m) := by simp [Ns.names,toggle.before]
    by_cases eq : l = k
    · subst eq
      rw [left,toggle.slot]
      by_cases goal : j = x
      · simp [goal]
      simp only [if_true,Option.some.injEq,Prod.mk.injEq,Ne.symm goal,false_and,exists_false,goal,if_false,right,toggle.vacant]
      simp
    rw [left,toggle.slot]
    by_cases goal : j = x
    · rw [if_pos goal,mem_insert_iff,right]
      simp [eq]
    rw [if_neg goal,right]
    simp [eq]
  have eq : (e,l) ∈ with_.names j ↔ (e,l) ∈ without.names j := by simp [Ns.names,toggle.others e here]
  rw [eq]
  split
  · simp [here]
  rfl

lemma absent (j : Nat) : (d,k) ∉ without.names j := by
  rintro ⟨_,m,got,entry⟩
  rw [toggle.before] at got
  cases got
  rw [toggle.vacant] at entry
  cases entry

lemma isDir (j : Nat) : with_.isDir j ↔ without.isDir j := by
  by_cases here : j = d
  · subst here
    simp [Ns.isDir,toggle.before,toggle.after,toggle.type]
  simp [Ns.isDir,toggle.others j here]

lemma subdirs (goal : without x = some p) : with_.subdirs q = if p.type = sfsTypeDir then insert k (without.subdirs r) else without.subdirs r := by
  have kind : without.isDir x ↔ p.type = sfsTypeDir := by simp [Ns.isDir,goal]
  ext l
  have left : l ∈ with_.subdirs q ↔ ∃ y m,q.slot l = some (y,m) ∧ without.isDir y := by simp [Ns.subdirs,toggle.isDir]
  rw [left,toggle.slot]
  by_cases eq : l = k
  · subst eq
    have out : l ∉ without.subdirs r := by
      rintro ⟨y,m,entry,_⟩
      rw [toggle.vacant] at entry
      cases entry
    by_cases dir : p.type = sfsTypeDir
    · simp only [if_true,dir,mem_insert_iff,true_or,iff_true]
      exact ⟨x,n,rfl,kind.mpr dir⟩
    simp only [if_true,dir,if_false,out,iff_false]
    rintro ⟨y,m,entry,isDir⟩
    obtain ⟨rfl,_⟩ := Prod.mk.inj (Option.some.inj entry)
    exact dir (kind.mp isDir)
  by_cases dir : p.type = sfsTypeDir
  · simp [eq,dir,Ns.subdirs]
  simp [eq,dir,Ns.subdirs]

lemma subdirs_absent : k ∉ without.subdirs r := by
  rintro ⟨y,m,entry,_⟩
  rw [toggle.vacant] at entry
  cases entry

lemma due (bounded : without.Bounded) (goal : without x = some p)
    (dir : r.type = sfsTypeDir) (present : r.removed = false) (got : without j = some s) (found' : with_ j = some s') :
    with_.due j s' = without.due j s + (if j = x then 1 else 0) + (if j = d ∧ p.type = sfsTypeDir then 1 else 0) := by
  have links : ((with_.names j).ncard : Int) = (without.names j).ncard + if j = x then 1 else 0 := by
    rw [toggle.names]
    split
    · rw [ncard_insert_of_notMem (toggle.absent j) (bounded.names j)]
      push_cast
      rfl
    simp
  simp only [Ns.due,links]
  by_cases here : j = d
  · subst here
    obtain rfl := mem_unique got toggle.before
    obtain rfl := mem_unique found' toggle.after
    have kids : ((with_.subdirs s').ncard : Int) = (without.subdirs s).ncard + if p.type = sfsTypeDir then 1 else 0 := by
      rw [toggle.subdirs goal]
      split
      · rw [ncard_insert_of_notMem toggle.subdirs_absent (bounded.subdirs got)]
        push_cast
        rfl
      simp
    simp only [toggle.type,toggle.removed,dir,present,and_self,if_true,true_and]
    push_cast
    rw [kids]
    ring
  obtain rfl : s' = s := by
    rw [toggle.others j here,got] at found'
    exact (Option.some.inj found').symm
  rw [subdirs_congr toggle.isDir rfl]
  simp only [here,false_and,if_false]
  ring

end

end Toggle

end Toggle

section Entries
variable {p : Item} {debt : Nat → Int} {loose : Nat → Prop}

lemma toggle_enter (got : ns d = some r) (vacant : r.slot k = none) : Toggle ns (ns.alter d (Item.enter k x n)) d k x n r (r.enter k x n) :=
  ⟨fun _ ne => alter_ne ne _,got,alter_self got _,vacant,rfl,rfl,rfl,rfl⟩

lemma toggle_leave (got : ns d = some r) (entry : r.slot k = some (x,n)) : Toggle (ns.alter d (Item.leave k)) ns d k x n (r.leave k) r := by
  refine ⟨fun _ ne => (alter_ne ne _).symm,alter_self got _,got,by simp [Item.leave,Item.setSlot],?_,rfl,rfl,rfl⟩
  funext l
  by_cases here : l = k
  · simp [here,entry]
  simp [here,Item.leave,Item.setSlot]

lemma taken_enter : (r.enter k x n).taken = insert k r.taken := by
  ext l
  by_cases here : l = k
  · simp [Item.taken,Item.enter,Item.setSlot,here]
  simp [Item.taken,Item.enter,Item.setSlot,here]

lemma taken_leave : (r.leave k).taken = r.taken \ {k} := by
  ext l
  by_cases here : l = k
  · simp [Item.taken,Item.leave,Item.setSlot,here]
  simp [Item.taken,Item.leave,Item.setSlot,here]

lemma Item.distinct_set (once : ∀ l l' y y' m,r.slot l = some (y,m) → r.slot l' = some (y',m) → l = l')
    (unbound : ∀ l y,r.slot l ≠ some (y,n)) {l l' y y' : Nat} {m : CStr} (first : (if l = k then some (x,n) else r.slot l) = some (y,m))
    (two : (if l' = k then some (x,n) else r.slot l') = some (y',m)) : l = l' := by
  split at first
  · split at two
    · simp_all
    cases first
    exact absurd two (unbound l' y')
  split at two
  · cases two
    exact absurd first (unbound l y)
  exact once l l' y y' m first two

lemma Ns.Mid.enter (mid : ns.Mid debt loose) (bounded : ns.Bounded) (got : ns d = some r) (dir : r.type = sfsTypeDir)
    (present : r.removed = false) (vacant : r.slot k = none) (unbound : ∀ l y,r.slot l ≠ some (y,n)) (goal : ns x = some p)
    (apart : x ≠ sfsBlknRoot) (kept : p.removed = false) (lone : p.type = sfsTypeDir → ns.names x = ∅) (room : r.blocks < 2^20) :
    (ns.alter d (Item.enter k x n)).Mid
      (fun j => debt j - (if j = x then 1 else 0) - if j = d ∧ p.type = sfsTypeDir then 1 else 0) (fun j => loose j ∨ j = x) := by
  have toggle := toggle_enter (x:=x) (n:=n) got vacant
  refine ⟨fun j s' new => ?_,?_,fun e s l y m new entry => ?_,fun e s l l' y y' m new first two => ?_,
    alter_all got mid.slots fun count _ => ?_,fun y e e' isDir first two => ?_,alter_all got (fun y s old isDir tight e entry => ?_) id,
    alter_all got (fun y s old gone => ?_) id⟩
  · obtain ⟨s,old,eq⟩ := alter_some new
    have links : s'.nlinks = s.nlinks := by
      rw [eq]
      split <;> rfl
    rw [links,toggle.due bounded goal dir present old new,mid.law j s old]
    ring
  · exact mid.root_alter fun _ => ⟨rfl,rfl⟩
  · rw [alter_isSome]
    rcases alter_cases got new with ⟨rfl,rfl⟩ | ⟨_,old⟩
    · change (if l = k then some (x,n) else r.slot l) = _ at entry
      split at entry
      · cases entry
        exact ⟨dir,present,apart,by simp [goal]⟩
      exact mid.named e r l y m got entry
    exact mid.named e s l y m old entry
  · rcases alter_cases got new with ⟨rfl,rfl⟩ | ⟨_,old⟩
    · exact distinct_set (mid.distinct e r · · · · · got) unbound first two
    exact mid.distinct e s l l' y y' m old first two
  · have few := bounded.few got
    have count := count dir
    have fresh : k ∉ r.taken := by simp [Item.taken,vacant]
    rw [taken_enter,ncard_insert_of_notMem fresh (bounded.taken got)]
    change (r.info + 1) % 2^32 = _
    omega
  · rw [toggle.isDir] at isDir
    rw [toggle.names] at first two
    split at first
    next eq =>
      subst eq
      have none : ns.names y = ∅ := lone (by
        obtain ⟨s,old,kind⟩ := isDir
        obtain rfl := mem_unique old goal
        exact kind)
      rw [if_pos rfl] at two
      simp only [none,insert_empty_eq,mem_singleton_iff] at first two
      rw [first,two]
    next ne =>
      rw [if_neg ne] at two
      exact mid.once y e e' isDir first two
  · rw [toggle.names,if_neg (fun h => tight (.inr h))] at entry
    exact mid.placed y s old isDir (fun h => tight (.inl h)) e entry
  rw [toggle.names,if_neg]
  · exact mid.removed y s old gone
  rintro rfl
  obtain rfl := mem_unique old goal
  cases kept.symm.trans gone

namespace Ns.Bounded

lemma alter {f : Item → Item} (bounded : ns.Bounded)
    (slots : ∀ r l,ns d = some r → (f r).slot l ≠ none → l < (f r).blocks) : (ns.alter d f).Bounded := by
  refine ⟨by simp only [alter_isSome]; exact bounded.finite,fun e s got l held => ?_⟩
  obtain ⟨r,old,rfl⟩ := alter_some got
  split at held
  next here =>
    subst here
    rw [if_pos rfl]
    exact slots r l old held
  next ne =>
    rw [if_neg ne]
    exact bounded.slots e r old l held

lemma leave (bounded : ns.Bounded) (d k : Nat) : (ns.alter d (Item.leave k)).Bounded := by
  refine bounded.alter fun r l got held => ?_
  refine bounded.slots d r got l fun none => held ?_
  simp [Item.leave,Item.setSlot,none]

lemma enter (bounded : ns.Bounded) (d k x : Nat) (n : CStr) : (ns.alter d (Item.enter k x n)).Bounded := by
  refine bounded.alter fun r l got held => ?_
  change l < max r.blocks (k + 1)
  by_cases here : l = k
  · omega
  have low := bounded.slots d r got l (by simpa [Item.enter,Item.setSlot,here] using held)
  omega

lemma add (bounded : ns.Bounded) (i type : Nat) : (ns.add i (.made type)).Bounded := by
  refine ⟨(bounded.finite.insert i).subset fun j live => ?_,fun j r got k held => ?_⟩
  · by_cases here : j = i
    · exact .inl here
    exact .inr (by simpa [Ns.add,here] using live)
  unfold Ns.add at got
  split at got
  · cases got
    exact absurd rfl held
  exact bounded.slots j r got k held

end Ns.Bounded

lemma Ns.Mid.leave (mid : ns.Mid debt loose) (bounded : ns.Bounded) (got : ns d = some r) (entry : r.slot k = some (x,n))
    (goal : ns x = some p) :
    (ns.alter d (Item.leave k)).Mid (fun j => debt j + (if j = x then 1 else 0) + if j = d ∧ p.type = sfsTypeDir then 1 else 0) loose := by
  obtain ⟨dir,present,_,_⟩ := mid.named d r k x n got entry
  have toggle := toggle_leave got entry
  have target' := Ns.alter_back (i:=d) (f:=Item.leave k) goal
  have kind : (if x = d then p.leave k else p).type = p.type := by split <;> rfl
  have slotAt l e : (r.leave k).slot l = some e → r.slot l = some e := by
    intro held
    by_cases here : l = k
    · simp [Item.leave,Item.setSlot,here] at held
    simpa [Item.leave,Item.setSlot,here] using held
  have subset j : (ns.alter d (Item.leave k)).names j ⊆ ns.names j := by
    intro e held
    rw [toggle.names]
    split
    · exact mem_insert_of_mem _ held
    exact held
  refine ⟨fun j s' new => ?_,?_,fun e s l y m new held => ?_,fun e s l l' y y' m new one two => ?_,
    alter_all got mid.slots fun count _ => ?_,fun y e e' isDir one two => ?_,
    alter_all got (fun y s old isDir tight e held => mid.placed y s old isDir tight e (subset y held)) id,
    alter_all got (fun y s old gone => have ⟨kind,bare⟩ := mid.removed y s old gone; ⟨kind,subset_empty_iff.mp (bare ▸ subset y)⟩) id⟩
  · obtain ⟨s,old,eq⟩ := alter_some new
    have links : s'.nlinks = s.nlinks := by
      rw [eq]
      split <;> rfl
    rw [links,mid.law j s old,toggle.due (bounded.leave d k) target' dir present new old,kind]
    ring
  · exact mid.root_alter fun _ => ⟨rfl,rfl⟩
  · rw [alter_isSome]
    rcases alter_cases got new with ⟨rfl,rfl⟩ | ⟨_,old⟩
    · exact mid.named e r l y m got (slotAt l _ held)
    exact mid.named e s l y m old held
  · rcases alter_cases got new with ⟨rfl,rfl⟩ | ⟨_,old⟩
    · exact mid.distinct e r l l' y y' m got (slotAt l _ one) (slotAt l' _ two)
    exact mid.distinct e s l l' y y' m old one two
  · have mem : k ∈ r.taken := by simp [Item.taken,entry]
    rw [taken_leave,ncard_sdiff_singleton_of_mem mem,← count dir]
    rfl
  exact mid.once y e e' ((toggle.isDir y).mpr isDir) (subset y one) (subset y two)

lemma Item.retitle_slot {m : CStr} (entry : r.slot k = some (x,n)) (l y : Nat) : (∃ c,(r.setSlot k (some (x,m))).slot l = some (y,c)) ↔ ∃ c,r.slot l = some (y,c) := by
  change (∃ c,(if l = k then some (x,m) else r.slot l) = some (y,c)) ↔ _
  by_cases here : l = k
  · rw [here,entry]
    simp
  simp [here]

namespace Ns

lemma names_retitle {m : CStr} (got : ns d = some r) (entry : r.slot k = some (x,n)) (j : Nat) : (ns.alter d (Item.setSlot k (some (x,m)))).names j = ns.names j := by
  ext ⟨e,l⟩
  by_cases here : e = d
  · subst here
    have left : (e,l) ∈ (ns.alter e (Item.setSlot k (some (x,m)))).names j ↔ ∃ c,(r.setSlot k (some (x,m))).slot l = some (j,c) := by simp [Ns.names,alter_self got]
    have right : (e,l) ∈ ns.names j ↔ ∃ c,r.slot l = some (j,c) := by simp [Ns.names,got]
    rw [left,right,retitle_slot entry]
  simp [Ns.names,alter_ne here]

lemma Mid.retitle {m : CStr} (mid : ns.Mid debt loose) (got : ns d = some r) (entry : r.slot k = some (x,n))
    (unbound : ∀ l y,r.slot l ≠ some (y,m)) : (ns.alter d (Item.setSlot k (some (x,m)))).Mid debt loose := by
  have slotAt : ∀ l,(r.setSlot k (some (x,m))).slot l = if l = k then some (x,m) else r.slot l := fun _ => rfl
  have eq := retitle_slot (m:=m) entry
  have names := names_retitle (m:=m) got entry
  have dirs : ∀ j,(ns.alter d (Item.setSlot k (some (x,m)))).isDir j ↔ ns.isDir j := isDir_alter fun _ _ => rfl
  have kids : (ns.alter d (Item.setSlot k (some (x,m)))).subdirs (r.setSlot k (some (x,m))) = ns.subdirs r := by
    ext l
    simp only [Ns.subdirs,mem_ofPred_eq,dirs]
    constructor
    · rintro ⟨y,c,held,isDir⟩
      obtain ⟨c',old⟩ := (eq l y).mp ⟨c,held⟩
      exact ⟨y,c',old,isDir⟩
    rintro ⟨y,c,held,isDir⟩
    obtain ⟨c',new⟩ := (eq l y).mpr ⟨c,held⟩
    exact ⟨y,c',new,isDir⟩
  have taken : (r.setSlot k (some (x,m))).taken = r.taken := by
    ext l
    by_cases here : l = k
    · simp [Item.taken,slotAt,here,entry]
    simp [Item.taken,slotAt,here]
  refine ⟨fun j s new => ?_,?_,fun e s l y c new held => ?_,fun e s l l' y y' c new one two => ?_,
    alter_all got mid.slots fun count isDir => ?_,fun y e e' isDir one two => ?_,?_,?_⟩
  · rcases alter_cases got new with ⟨rfl,rfl⟩ | ⟨_,old⟩
    · have law := mid.law j r got
      simp only [Ns.due,names,kids] at law ⊢
      exact law
    have law := mid.law j s old
    simp only [Ns.due,names,subdirs_congr dirs rfl] at law ⊢
    exact law
  · exact mid.root_alter fun _ => ⟨rfl,rfl⟩
  · rw [alter_isSome]
    rcases alter_cases got new with ⟨rfl,rfl⟩ | ⟨_,old⟩
    · obtain ⟨c',held'⟩ := (eq l y).mp ⟨c,held⟩
      exact mid.named e r l y c' got held'
    exact mid.named e s l y c old held
  · rcases alter_cases got new with ⟨rfl,rfl⟩ | ⟨_,old⟩
    · exact distinct_set (mid.distinct e r · · · · · got) unbound one two
    exact mid.distinct e s l l' y y' c old one two
  · rw [taken]
    exact count isDir
  · rw [names] at one two
    exact mid.once y e e' ((dirs y).mp isDir) one two
  · simp only [names]
    exact alter_all got mid.placed id
  simp only [names]
  exact alter_all got mid.removed id

lemma Mid.setParent (mid : ns.Mid debt loose) (entered : ∀ e ∈ ns.names x,e.1 = d) : (ns.alter x (setParent d)).Mid debt (fun j => loose j ∧ j ≠ x) := by
  cases got : ns x with
  | none =>
    rw [alter_absent got]
    refine {mid with placed:=fun y s old dir tight => mid.placed y s old dir fun held => tight ⟨held,?_⟩}
    rintro rfl
    simp [got] at old
  | some r =>
    exact mid.recast got rfl rfl (fun _ => rfl) (mid.law x r got) (fun _ _ => rfl) .inl (fun _ _ e held => (entered e held).symm)
      fun _ ne held => ⟨held,ne⟩

lemma Mid.remove (mid : ns.Mid debt loose) (got : ns x = some r) (dir : r.type = sfsTypeDir) (present : r.removed = false)
    (empty : ∀ k,r.slot k = none) (unnamed : ns.names x = ∅) (apart : x ≠ sfsBlknRoot) :
    (ns.alter x Item.remove).Mid (fun j => debt j + if j = x then 1 else 0) loose := by
  refine mid.recast got rfl rfl (fun _ => rfl) ?_ (fun j ne => by simp [ne]) (fun _ => .inr ⟨apart,dir,empty,unnamed⟩)
    (fun dir tight => mid.placed x r got dir tight) fun _ _ held => held
  have none : ns.subdirs r = ∅ := by
    ext l
    simp [Ns.subdirs,empty]
  have law := mid.law x r got
  simp only [Ns.due,unnamed,dir,present,none,apart,ncard_empty,and_self,if_true,if_false] at law
  simp only [Ns.due,Item.remove,unnamed,ncard_empty,if_true]
  simp at law ⊢
  linarith

lemma Mid.unnamed (mid : ns.Mid debt loose) (absent : ns x = none) : ns.names x = ∅ := by
  ext ⟨e,l⟩
  simp only [mem_empty_iff_false,iff_false]
  rintro ⟨s,m,got,held⟩
  obtain ⟨_,_,_,live⟩ := mid.named e s l x m got held
  simp [absent] at live

lemma add_some {type : Nat} (got : ns.add x (.made type) j = some q) : j = x ∧ q = .made type ∨ j ≠ x ∧ ns j = some q := by
  unfold Ns.add at got
  split at got
  next here => exact .inl ⟨here,(Option.some.inj got).symm⟩
  next ne => exact .inr ⟨ne,got⟩

lemma add_ne {type : Nat} (ne : j ≠ x) : ns.add x (.made type) j = ns j := by simp [Ns.add,ne]

lemma names_add (type : Nat) (absent : ns x = none) (j : Nat) : (ns.add x (.made type)).names j = ns.names j := by
  ext ⟨e,l⟩
  constructor
  · rintro ⟨s,m,got,held⟩
    rcases add_some got with ⟨_,rfl⟩ | ⟨_,old⟩
    · cases held
    exact ⟨s,m,old,held⟩
  rintro ⟨s,m,got,held⟩
  have ne : e ≠ x := by
    rintro rfl
    rw [absent] at got
    cases got
  exact ⟨s,m,by rw [add_ne ne]; exact got,held⟩

lemma Mid.add (mid : ns.Mid debt loose) (absent : ns x = none) (even : debt x = 0) (type : Nat) :
    (ns.add x (.made type)).Mid (fun j => debt j - if j = x ∧ type = sfsTypeDir then 1 else 0) loose := by
  have names := names_add type absent
  have root : x ≠ sfsBlknRoot := by
    rintro rfl
    obtain ⟨s,got,_⟩ := mid.root
    rw [absent] at got
    cases got
  have dirs j : j ≠ x → ((ns.add x (.made type)).isDir j ↔ ns.isDir j) := by
    intro ne
    simp [Ns.isDir,add_ne ne]
  have kids j s : ns j = some s → (ns.add x (.made type)).subdirs s = ns.subdirs s := by
    refine fun got => subdirs_same fun l y m held => dirs y ?_
    rintro rfl
    obtain ⟨_,_,_,live⟩ := mid.named j s l y m got held
    simp [absent] at live
  refine ⟨fun j s got => ?_,?_,fun e s l y m got held => ?_,fun e s l l' y y' m got first two => ?_,
    fun e s got isDir => ?_,fun y e e' isDir first two => ?_,fun y s got isDir tight e held => ?_,fun y s got gone => ?_⟩
  · rcases add_some got with ⟨rfl,rfl⟩ | ⟨ne,old⟩
    · have empty : (ns.add j (.made type)).subdirs (.made type) = ∅ := by
        ext l
        simp [Ns.subdirs,made]
      simp only [Ns.due,names,mid.unnamed absent,empty,ncard_empty,root,if_false,even]
      by_cases dir : type = sfsTypeDir
      · simp [made,dir]
      simp [made,dir]
    have law := mid.law j s old
    simp only [Ns.due,names,kids j s old,ne,false_and,if_false,sub_zero] at law ⊢
    exact law
  · obtain ⟨s,old,isDir,stays⟩ := mid.root
    exact ⟨s,by rw [add_ne (Ne.symm root)]; exact old,isDir,stays⟩
  · rcases add_some got with ⟨rfl,rfl⟩ | ⟨ne,old⟩
    · cases held
    obtain ⟨isDir,stays,apart,live⟩ := mid.named e s l y m old held
    refine ⟨isDir,stays,apart,?_⟩
    unfold Ns.add
    split
    · rfl
    exact live
  · rcases add_some got with ⟨rfl,rfl⟩ | ⟨ne,old⟩
    · cases first
    exact mid.distinct e s l l' y y' m old first two
  · rcases add_some got with ⟨rfl,rfl⟩ | ⟨ne,old⟩
    · simp [made,Item.taken]
    exact mid.slots e s old isDir
  · rw [names] at first two
    by_cases here : y = x
    · rw [here,mid.unnamed absent] at first
      cases first
    exact mid.once y e e' ((dirs y here).mp isDir) first two
  · rw [names] at held
    rcases add_some got with ⟨rfl,rfl⟩ | ⟨ne,old⟩
    · rw [mid.unnamed absent] at held
      cases held
    exact mid.placed y s old isDir tight e held
  rcases add_some got with ⟨rfl,rfl⟩ | ⟨_,old⟩
  · cases gone
  rw [names]
  exact mid.removed y s old gone

lemma drop_some (got : ns.drop x j = some q) : j ≠ x ∧ ns j = some q := by
  unfold drop at got
  split at got
  · cases got
  next ne => exact ⟨ne,got⟩

lemma drop_ne (ne : j ≠ x) : ns.drop x j = ns j := by simp [drop,ne]

lemma names_drop (got : ns x = some r) (empty : ∀ k,r.slot k = none) (j : Nat) : (ns.drop x).names j = ns.names j := by
  ext ⟨e,l⟩
  constructor
  · rintro ⟨s,m,new,held⟩
    exact ⟨s,m,(drop_some new).2,held⟩
  rintro ⟨s,m,old,held⟩
  refine ⟨s,m,?_,held⟩
  rw [drop_ne]
  · exact old
  rintro rfl
  obtain rfl := mem_unique old got
  rw [empty] at held
  cases held

lemma Mid.drop (mid : ns.Mid debt loose) (got : ns x = some r) (empty : ∀ k,r.slot k = none) (unnamed : ns.names x = ∅)
    (root : x ≠ sfsBlknRoot) : (ns.drop x).Mid debt loose := by
  have apart e s l y m : ns e = some s → s.slot l = some (y,m) → e ≠ x ∧ y ≠ x := by
    intro old held
    refine ⟨?_,?_⟩
    · rintro rfl
      obtain rfl := mem_unique old got
      rw [empty] at held
      cases held
    rintro rfl
    have : (e,l) ∈ ns.names y := ⟨s,m,old,held⟩
    rw [unnamed] at this
    cases this
  have names := names_drop got empty
  have dirs j : j ≠ x → ((ns.drop x).isDir j ↔ ns.isDir j) := by
    intro ne
    simp [Ns.isDir,drop_ne ne]
  have kids j s : ns j = some s → (ns.drop x).subdirs s = ns.subdirs s := fun old => subdirs_same fun l y m held => dirs y (apart j s l y m old held).2
  refine ⟨fun j s new => ?_,?_,fun e s l y m new held => ?_,fun e s l l' y y' m new => mid.distinct e s l l' y y' m (drop_some new).2,
    fun e s new => mid.slots e s (drop_some new).2,fun y e e' isDir first two => ?_,fun y s new => ?_,fun y s new => ?_⟩
  · obtain ⟨_,old⟩ := drop_some new
    have law := mid.law j s old
    simp only [Ns.due,names,kids j s old] at law ⊢
    exact law
  · obtain ⟨s,old,isDir,stays⟩ := mid.root
    exact ⟨s,by rw [drop_ne (Ne.symm root)]; exact old,isDir,stays⟩
  · obtain ⟨_,old⟩ := drop_some new
    obtain ⟨isDir,stays,ne,live⟩ := mid.named e s l y m old held
    exact ⟨isDir,stays,ne,by rw [drop_ne (apart e s l y m old held).2]; exact live⟩
  · rw [names] at first two
    have ne : y ≠ x := by
      rintro rfl
      rw [unnamed] at first
      cases first
    exact mid.once y e e' ((dirs y ne).mp isDir) first two
  · rw [names]
    exact mid.placed y s (drop_some new).2
  rw [names]
  exact mid.removed y s (drop_some new).2

end Ns

end Entries
end Ucore.Sfs
