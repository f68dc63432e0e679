import Ucore.Lib.Forest
import Ucore.Sfs.Changes

-- The directories as a tree: who is whose parent, who has been removed, and
-- where each of them is entered.
namespace Ucore.Sfs
open Forest Change Item Ns
variable {ns : Ns} {i j d k x : Nat} {r q : Item} {name : CStr}

structure Dir where
  parent : Nat
  removed : Bool
  home : Set (Nat × Nat)

def Ns.dir (ns : Ns) (i : Nat) : Option Dir :=
  match ns i with
  | some r => if r.type = sfsTypeDir then some ⟨r.parent,r.removed,ns.names i⟩ else none
  | none => none

section Dirs
variable {f : Item → Item}

namespace Ns

lemma dir_found (got : ns i = some r) (dir : r.type = sfsTypeDir) : ns.dir i = some ⟨r.parent,r.removed,ns.names i⟩ := by simp [Ns.dir,got,dir]

lemma dir_file (got : ns i = some r) (file : r.type ≠ sfsTypeDir) : ns.dir i = none := by simp [Ns.dir,got,file]

lemma dir_none (out : ns i = none) : ns.dir i = none := by simp [Ns.dir,out]

lemma dir_some {e : Dir} (seen : ns.dir i = some e) : ∃ r,ns i = some r ∧ r.type = sfsTypeDir ∧ e = ⟨r.parent,r.removed,ns.names i⟩ := by
  unfold Ns.dir at seen
  split at seen
  · rename_i r got
    split at seen
    next dir => exact ⟨r,got,dir,(Option.some.inj seen).symm⟩
    cases seen
  cases seen

lemma dir_isDir : (ns.dir i).isSome ↔ ns.isDir i := by
  constructor
  · intro seen
    obtain ⟨e,seen⟩ := Option.isSome_iff_exists.mp seen
    obtain ⟨r,got,dir,_⟩ := dir_some seen
    exact ⟨r,got,dir⟩
  rintro ⟨r,got,dir⟩
  rw [dir_found got dir]
  rfl

-- One inode changes, and no entry names another inode than before.
lemma dir_alter (type : ∀ r,ns i = some r → (f r).type = r.type) (entries : ∀ j,(ns.alter i f).names j = ns.names j)
    (g : Dir → Dir) (eq : ∀ r,ns i = some r → g ⟨r.parent,r.removed,ns.names i⟩ = ⟨(f r).parent,(f r).removed,ns.names i⟩) (j : Nat) :
    (ns.alter i f).dir j = if j = i then (ns.dir j).map g else ns.dir j := by
  have names := entries j
  cases got : ns j with
  | none =>
    have out : ns.alter i f j = none := by
      have := alter_isSome ns i j f
      rw [got] at this
      simpa using this
    rw [dir_none out,dir_none got]
    simp
  | some r =>
    have found' := alter_back (i:=i) (f:=f) got
    by_cases here : j = i
    · subst here
      rw [if_pos rfl] at found' ⊢
      by_cases dir : r.type = sfsTypeDir
      · rw [dir_found found' ((type r got).trans dir),dir_found got dir,names,Option.map_some,eq r got]
      rw [dir_file found' (by rwa [type r got]),dir_file got dir]
      rfl
    rw [if_neg here] at found' ⊢
    by_cases dir : r.type = sfsTypeDir
    · rw [dir_found found' dir,dir_found got dir,names]
    rw [dir_file found' dir,dir_file got dir]

lemma dir_like (type : ∀ r : Item,(f r).type = r.type) (slot : ∀ r : Item,(f r).slot = r.slot)
    (parent : ∀ r : Item,(f r).parent = r.parent) (removed : ∀ r : Item,(f r).removed = r.removed) : (ns.alter i f).dir = ns.dir := by
  funext j
  rw [dir_alter (fun r _ => type r) (names_alter fun r _ => slot r) id (fun r _ => by rw [parent,removed]; rfl)]
  simp

lemma dir_incLinks (ns : Ns) (i : Nat) : (ns.alter i incLinks).dir = ns.dir := dir_like (fun _ => rfl) (fun _ => rfl) (fun _ => rfl) fun _ => rfl
lemma dir_decLinks (ns : Ns) (i : Nat) : (ns.alter i Item.decLinks).dir = ns.dir := dir_like (fun _ => rfl) (fun _ => rfl) (fun _ => rfl) fun _ => rfl
lemma dir_hold (ns : Ns) (i : Nat) : (ns.alter i incRefs).dir = ns.dir := dir_like (fun _ => rfl) (fun _ => rfl) (fun _ => rfl) fun _ => rfl

-- What is not a directory is not in the tree, whatever happens to it.
lemma dir_outside (out : ns.dir x = none) (g : Dir → Dir) (j : Nat) : (if j = x then (ns.dir j).map g else ns.dir j) = ns.dir j := by
  split
  next here =>
    rw [here,out]
    rfl
  rfl

end Ns

def Dir.enter (d k : Nat) (e : Dir) : Dir := {e with home:=insert (d,k) e.home}
def Dir.bare (e : Dir) : Dir := {e with home:=∅}
def Dir.remove (e : Dir) : Dir := {e with removed:=true}
def Dir.setParent (p : Nat) (e : Dir) : Dir := {e with parent:=p}

namespace Ns

lemma dir_toggle {without with_ : Ns} (toggle : Toggle without with_ d k x name r q) (j : Nat) :
    with_.dir j = if j = x then (without.dir j).map (Dir.enter d k) else without.dir j := by
  have names := toggle.names j
  by_cases atDir : j = d
  · subst atDir
    by_cases dir : r.type = sfsTypeDir
    · rw [Ns.dir_found toggle.after (toggle.type.trans dir),Ns.dir_found toggle.before dir,names,toggle.parent,toggle.removed]
      split <;> rfl
    rw [dir_file toggle.after (by rwa [toggle.type]),dir_file toggle.before dir]
    simp
  have ne := toggle.others j atDir
  cases got : without j with
  | none =>
    rw [Ns.dir_none got,Ns.dir_none (ne.trans got)]
    simp
  | some p =>
    by_cases dir : p.type = sfsTypeDir
    · rw [Ns.dir_found got dir,Ns.dir_found (ne.trans got) dir,names]
      split <;> rfl
    rw [dir_file got dir,dir_file (ne.trans got) dir]
    simp

lemma dir_link (got : ns d = some r) (free : r.slot k = none) (j : Nat) : (ns.link d k x name).dir j = if j = x then (ns.dir j).map (Dir.enter d k) else ns.dir j := by
  rw [Ns.link,Ns.dir_incLinks]
  exact dir_toggle (toggle_enter got free) j

-- A directory has one entry, so that it is bare without it.
lemma Mid.dir_unlink (mid : ns.Mid debt loose) (entry : ns.Entry d k x name r q) (j : Nat) :
    (ns.unlink d k x).dir j = if j = x then (ns.dir j).map Dir.bare else ns.dir j := by
  have toggle := dir_toggle (toggle_leave entry.found entry.slot) j
  rw [Ns.unlink,Ns.dir_decLinks]
  by_cases here : j = x
  · subst here
    rw [if_pos rfl] at toggle ⊢
    cases seen : (ns.alter d (Item.leave k)).dir j with
    | none =>
      rw [toggle,seen]
      rfl
    | some e =>
      rw [toggle,seen]
      obtain ⟨p,_,_,rfl⟩ := dir_some seen
      have isDir : ns.isDir j := by
        have := dir_isDir.mp (Option.isSome_iff_exists.mpr ⟨_,seen⟩)
        rwa [isDir_alter (f:=Item.leave k) fun _ _ => rfl] at this
      have empty := mid.unlink_unnamed isDir entry
      rw [Ns.unlink,Ns.names_alter (f:=Item.decLinks) fun _ _ => rfl] at empty
      simp only [Option.map_some,Dir.enter,Dir.bare,empty]
  rw [if_neg here] at toggle ⊢
  exact toggle.symm

lemma dir_add_file (out : ns i = none) : (ns.add i (.made sfsTypeFile)).dir = ns.dir := by
  funext j
  have names := names_add sfsTypeFile out j
  by_cases here : j = i
  · subst here
    rw [Ns.dir_none out]
    exact dir_file (r:=.made sfsTypeFile) (by simp [Ns.add]) (by decide)
  simp only [Ns.dir,add_ne here,names]

lemma Mid.dir_add (mid : ns.Mid debt loose) (out : ns i = none) (j : Nat) : (ns.add i (.made sfsTypeDir)).dir j = if j = i then some ⟨0,false,∅⟩ else ns.dir j := by
  have names := names_add sfsTypeDir out j
  by_cases here : j = i
  · subst here
    rw [if_pos rfl,Ns.dir_found (r:=.made sfsTypeDir) (by simp [Ns.add]) rfl,names,mid.unnamed out]
    rfl
  rw [if_neg here]
  simp only [Ns.dir,add_ne here,names]

section
variable (sane : ns.Sane) (bounded : ns.Bounded)
include sane bounded

lemma Mid.dir_release (i j : Nat) : (ns.release i).dir j = ns.dir j ∨ (j = i ∧ (ns.release i).dir j = none ∧ ∀ e,ns.dir j = some e → e.removed = true) := by
  unfold Ns.release
  cases got : ns i with
  | none => exact .inl rfl
  | some r =>
    simp only
    split
    next last =>
      obtain ⟨_,empty,_⟩ := sane.unlinked bounded got last.2
      have names := names_drop got empty j
      by_cases here : j = i
      · subst here
        refine .inr ⟨rfl,Ns.dir_none (by simp [Ns.drop]),fun e seen => ?_⟩
        obtain ⟨p,found',dir,rfl⟩ := dir_some seen
        obtain rfl := Option.mem_unique found' got
        cases gone : p.removed with
        | true => rfl
        | false => exact absurd last.2 (sane.links_dir got dir gone)
      refine .inl ?_
      simp only [Ns.dir,drop_ne here,names]
    exact .inl (congrFun (dir_like (f:=decRefs) (fun _ => rfl) (fun _ => rfl) (fun _ => rfl) fun _ => rfl) j)

lemma Mid.dir_release_present {e : Dir} (i : Nat) (seen : ns.dir j = some e) (has : e.removed = false) : (ns.release i).dir j = some e := by
  rcases sane.dir_release bounded i j with eq | ⟨_,_,gone⟩
  · rw [eq,seen]
  rw [gone e seen] at has
  cases has

lemma Mid.dir_release_other (ne : j ≠ i) : (ns.release i).dir j = ns.dir j := (sane.dir_release bounded i j).resolve_right fun gone => ne gone.1

-- A change at x alone, after which x is let go.
lemma Mid.dir_release_at {e : Dir} {old : Nat → Option Dir} (held : ∀ j,ns.dir j = if j = x then some e else old j) (has : e.removed = false) (j : Nat) :
    (ns.release x).dir j = if j = x then some e else old j := by
  by_cases here : j = x
  · subst here
    rw [if_pos rfl]
    exact sane.dir_release_present bounded j ((held j).trans (if_pos rfl)) has
  rw [if_neg here,sane.dir_release_other bounded here,held,if_neg here]

lemma Mid.dir_release_file (file : ns.dir i = none) : (ns.release i).dir = ns.dir := by
  funext j
  rcases sane.dir_release bounded i j with eq | ⟨rfl,none,_⟩
  · exact eq
  rw [none,file]

end

end Ns

end Dirs

section Effects
variable {d' k' : Nat} {r' : Item} {newName : CStr}

namespace Ns

lemma Mid.dir_mkdir (sane : ns.Sane) (bounded : ns.Bounded) (into : ns.Into d k name r) (out : ns i = none) (room : r.nlinks < 65535) (j : Nat) :
    (ns.mkdir d k i name).dir j = if j = i then some ⟨d,false,{(d,k)}⟩ else ns.dir j := by
  have into' := into.add out sfsTypeDir
  have held j : (ns.makeDir d k i name).dir j = if j = i then some ⟨d,false,{(d,k)}⟩ else ns.dir j := by
    rw [Ns.makeDir,Ns.dir_incLinks,Ns.dir_incLinks,Ns.dir_alter (f:=Item.setParent d) (fun _ _ => rfl) (Ns.names_alter fun _ _ => rfl) (Dir.setParent d)
      (fun _ _ => rfl),dir_link into'.found into'.vacant.empty,sane.dir_add out]
    by_cases here : j = i
    · simp [here,Dir.setParent,Dir.enter]
    simp [here]
  have sane' := sane.makeDir bounded into out room
  have bounded' := bounded.makeDir d k i name
  exact sane'.dir_release_at bounded' held rfl j

lemma Mid.dir_rmdir (sane : ns.Sane) (bounded : ns.Bounded) (entry : ns.Entry d k x name r q) (dir : q.type = sfsTypeDir)
    (empty : q.info = 0) (ne : x ≠ d) (j : Nat) :
    (j ≠ x ∧ (ns.rmdir d k x).dir j = ns.dir j) ∨
    (j = x ∧ ((ns.rmdir d k x).dir j = none ∨ (ns.rmdir d k x).dir j = some ⟨q.parent,true,∅⟩)) := by
  have held j : (ns.takeDir d k x).dir j = if j = x then some ⟨q.parent,true,∅⟩ else ns.dir j := by
    rw [Ns.takeDir,Ns.dir_decLinks,Ns.dir_decLinks,Ns.dir_alter (f:=Item.remove) (fun _ _ => rfl) (Ns.names_alter fun _ _ => rfl) Dir.remove
      (fun _ _ => rfl),(sane.hold x).dir_unlink entry.hold,dir_hold]
    by_cases here : j = x
    · simp [here,Ns.dir_found entry.target dir,Dir.remove,Dir.bare]
    simp [here]
  have sane' := sane.takeDir bounded entry dir empty ne
  have bounded' := bounded.takeDir d k x
  by_cases here : j = x
  · refine .inr ⟨here,?_⟩
    subst here
    rcases sane'.dir_release bounded' j j with eq | ⟨_,none,_⟩
    · exact .inr (eq.trans ((held j).trans (if_pos rfl)))
    exact .inl none
  exact .inl ⟨here,by rw [Ns.rmdir,sane'.dir_release_other bounded' here,held,if_neg here]⟩

lemma Mid.dir_detach {isdir : Bool} (sane : ns.Sane) (entry : ns.Entry d k x name r q) (j : Nat) :
    (ns.detach d k x isdir).dir j = if j = x then (ns.dir j).map Dir.bare else ns.dir j := by
  unfold Ns.detach
  split
  · rw [Ns.dir_decLinks]
    exact sane.dir_unlink entry j
  exact sane.dir_unlink entry j

lemma Mid.dir_move (sane : ns.Sane) (bounded : ns.Bounded) (entry : ns.Entry d k x name r q) (into : ns.Into d' k' newName r')
    (ne : d' ≠ d) (dir : q.type = sfsTypeDir) (width : q.nlinks < 2^16) (above : r'.nlinks < 65535) (j : Nat) :
    (ns.move d k x d' k' newName true).dir j = if j = x then some ⟨d',false,{(d',k')}⟩ else ns.dir j := by
  have kind : true = decide (q.type = sfsTypeDir) := (decide_eq_true dir).symm
  have sane' := sane.moveHeld bounded entry into ne kind width fun _ => above
  have bounded' := (((sane.hold x).detach (bounded.hold x) entry.hold kind).2).attach d' k' x newName true
  have into' := (into.hold x).detach ne k x true
  have held j : (((ns.alter x incRefs).detach d k x true).attach d' k' x newName true).dir j = if j = x then some ⟨d',false,{(d',k')}⟩ else ns.dir j := by
    simp only [Ns.attach,if_true]
    rw [Ns.dir_alter (f:=Item.setParent d') (fun _ _ => rfl) (Ns.names_alter fun _ _ => rfl) (Dir.setParent d') (fun _ _ => rfl),Ns.dir_incLinks,
      dir_link into'.found into'.vacant.empty,(sane.hold x).dir_detach entry.hold,dir_hold]
    by_cases here : j = x
    · simp [here,Ns.dir_found entry.target dir,Dir.setParent,Dir.enter,Dir.bare,sane.present entry.target entry.named]
    simp [here]
  exact sane'.dir_release_at bounded' held rfl j

lemma Mid.dir_lose (sane : ns.Sane) (bounded : ns.Bounded) (entry : ns.Entry d k x name r q) (dir : q.type = sfsTypeDir) (j : Nat) :
    (ns.lose d k x true).dir j = if j = x then some ⟨q.parent,false,∅⟩ else ns.dir j := by
  have kind : true = decide (q.type = sfsTypeDir) := (decide_eq_true dir).symm
  obtain ⟨sane',bounded'⟩ := (sane.hold x).detach (bounded.hold x) entry.hold kind
  have held j : ((ns.alter x incRefs).detach d k x true).dir j = if j = x then some ⟨q.parent,false,∅⟩ else ns.dir j := by
    rw [(sane.hold x).dir_detach entry.hold,dir_hold]
    by_cases here : j = x
    · simp [here,Ns.dir_found entry.target dir,Dir.bare,sane.present entry.target entry.named]
    simp [here]
  exact sane'.dir_release_at bounded' held rfl j

end Ns

def Change.Plain : Change → Prop
  | .mkdir _ _ _ _ | .rmdir _ _ _ _ => False
  | .move _ _ _ _ _ _ _ isdir | .lose _ _ _ _ isdir => isdir = false
  | _ => True

lemma Change.dir_plain (sane : ns.Sane) (bounded : ns.Bounded) (c : Change) (valid : c.Valid ns) (plain : c.Plain) (j : Nat) :
    (c.apply ns).dir j = ns.dir j ∨ ((c.apply ns).dir j = none ∧ ∀ e,ns.dir j = some e → e.removed = true) := by
  cases c with
  | same => exact .inl rfl
  | hold i => exact .inl (congrFun (dir_hold ns i) j)
  | release i =>
    rcases sane.dir_release bounded i j with same | ⟨_,none,gone⟩
    · exact .inl same
    exact .inr ⟨none,gone⟩
  | reopen i => exact .inl (congrFun (dir_like (f:=incOpens) (fun _ => rfl) (fun _ => rfl) (fun _ => rfl) fun _ => rfl) j)
  | close i => exact .inl (congrFun (dir_like (f:=decOpens) (fun _ => rfl) (fun _ => rfl) (fun _ => rfl) fun _ => rfl) j)
  | resize i info blocks => exact .inl (congrFun (dir_like (f:=fun p => (p.setInfo info).setBlocks blocks) (fun _ => rfl) (fun _ => rfl) (fun _ => rfl) fun _ => rfl) j)
  | create d k i name =>
    obtain ⟨out,r,into⟩ := valid
    have into' := into.add out sfsTypeFile
    refine .inl ?_
    simp only [apply]
    rw [dir_link into'.found into'.vacant.empty,dir_add_file out]
    exact dir_outside (Ns.dir_none out) _ j
  | mkdir d k i name => exact plain.elim
  | link d k x name =>
    obtain ⟨r,q,into,goal,file,_⟩ := valid
    refine .inl ?_
    simp only [apply]
    rw [dir_link into.found into.vacant.empty]
    exact dir_outside (dir_file goal file) _ j
  | unlinkFile d k x name =>
    obtain ⟨r,q,entry,file⟩ := valid
    have held : ((ns.alter x incRefs).unlink d k x).dir = ns.dir := by
      funext j
      rw [(sane.hold x).dir_unlink entry.hold,dir_hold]
      exact dir_outside (dir_file entry.target file) _ j
    refine .inl ?_
    simp only [apply,Ns.unlinkFile]
    rw [(sane.unlinkHeld bounded entry file).dir_release_file ((bounded.hold x).unlink d k x) (by rw [held,dir_file entry.target file]),held]
  | rmdir d k x name => exact plain.elim
  | retitle d k x name newName =>
    obtain ⟨r,q,entry,_⟩ := valid
    refine .inl ((Ns.dir_alter (f:=setSlot k (some (x,newName))) (fun _ _ => rfl) (names_retitle entry.found entry.slot) id (fun _ _ => rfl) j).trans ?_)
    simp
  | move d k x name d' k' newName isdir =>
    obtain ⟨r,_,q,entry,into,ne,kind,width,above⟩ := valid
    obtain rfl : isdir = false := plain
    have file : q.type ≠ sfsTypeDir := of_decide_eq_false kind.symm
    have into' := (into.hold x).detach ne k x false
    have held : (((ns.alter x incRefs).detach d k x false).attach d' k' x newName false).dir = ns.dir := by
      funext j
      simp only [Ns.attach,Bool.false_eq_true,if_false]
      rw [dir_link into'.found into'.vacant.empty,(sane.hold x).dir_detach entry.hold,dir_hold]
      simp only [dir_outside (dir_file entry.target file)]
    refine .inl ?_
    simp only [apply,Ns.move]
    rw [(sane.moveHeld bounded entry into ne kind width above).dir_release_file
      (((sane.hold x).detach (bounded.hold x) entry.hold kind).2.attach d' k' x newName false) (by rw [held,dir_file entry.target file]),held]
  | lose d k x _ isdir =>
    obtain ⟨r,q,entry,kind⟩ := valid
    obtain rfl : isdir = false := plain
    have file : q.type ≠ sfsTypeDir := of_decide_eq_false kind.symm
    obtain ⟨sane',bounded'⟩ := (sane.hold x).detach (bounded.hold x) entry.hold kind
    have held : ((ns.alter x incRefs).detach d k x false).dir = ns.dir := by
      funext j
      rw [(sane.hold x).dir_detach entry.hold,dir_hold]
      exact dir_outside (dir_file entry.target file) _ j
    refine .inl ?_
    simp only [apply,Ns.lose]
    rw [sane'.dir_release_file bounded' (by rw [held,dir_file entry.target file]),held]

end Effects

def Ns.Attached (ns : Ns) : Prop := ∀ i e,ns.dir i = some e → e.removed = false → i ≠ sfsBlknRoot → e.home.Nonempty

def Ns.Upheld (ns : Ns) : Prop := ∀ i e,ns.dir i = some e → ∃ p,ns.dir e.parent = some p ∧ p.removed = false

def Ns.above (ns : Ns) (i : Nat) : Option Nat :=
  if i = sfsBlknRoot then none else (ns.dir i).bind fun e => if e.removed then none else some e.parent

def Ns.Rooted (ns : Ns) : Prop := ∀ i e,ns.dir i = some e → e.removed = false → Below ns.above sfsBlknRoot i

def Change.Sheds : Change → Prop
  | .lose _ _ _ _ isdir => isdir = true
  | _ => False

def Change.Clear (ns : Ns) : Change → Prop
  | .rmdir _ _ x _ => ∀ j e,j ≠ x → ns.dir j = some e → e.parent ≠ x
  | _ => True

def Change.Outward (ns : Ns) : Change → Prop
  | .move _ _ x _ d' _ _ isdir => isdir = true → ¬ Below ns.above x d'
  | _ => True

section Keeping
variable {e : Dir}

lemma Ns.above_some (up : ns.above i = some j) : i ≠ sfsBlknRoot ∧ ∃ e,ns.dir i = some e ∧ e.removed = false ∧ e.parent = j := by
  unfold Ns.above at up
  split at up
  · cases up
  rename_i ne
  obtain ⟨e,seen,up⟩ := Option.bind_eq_some_iff.mp up
  split at up
  · cases up
  next has => exact ⟨ne,e,seen,by simpa using has,Option.some.inj up⟩

lemma Ns.above_dir (ne : i ≠ sfsBlknRoot) (seen : ns.dir i = some e) (has : e.removed = false) : ns.above i = some e.parent := by simp [Ns.above,ne,seen,has]

lemma Ns.Into.node (into : ns.Into d k name r) : ∃ e,ns.dir d = some e ∧ e.removed = false := ⟨_,Ns.dir_found into.found into.dir,into.present⟩

lemma Ns.Mid.home (sane : ns.Sane) (seen : ns.dir i = some e) (mem : p ∈ e.home) : e.parent = p.1 ∧ ∃ r n,ns p.1 = some r ∧ r.slot p.2 = some (i,n) := by
  obtain ⟨r,got,dir,rfl⟩ := dir_some seen
  exact ⟨sane.placed i r got dir id p mem,mem⟩

lemma Change.plain_back (sane : ns.Sane) (bounded : ns.Bounded) (c : Change) (valid : c.Valid ns) (plain : c.Plain)
    (seen : (c.apply ns).dir j = some e) : ns.dir j = some e := by
  rcases c.dir_plain sane bounded valid plain j with eq | ⟨none,_⟩
  · rwa [eq] at seen
  rw [none] at seen
  cases seen

lemma Change.plain_present (sane : ns.Sane) (bounded : ns.Bounded) (c : Change) (valid : c.Valid ns) (plain : c.Plain)
    (seen : ns.dir j = some e) (has : e.removed = false) : (c.apply ns).dir j = some e := by
  rcases c.dir_plain sane bounded valid plain j with eq | ⟨_,gone⟩
  · rwa [eq]
  rw [gone e seen] at has
  cases has

lemma Change.cases_tree {motive : Change → Prop} (plain : ∀ c,c.Plain → motive c) (mkdir : ∀ d k i name,motive (.mkdir d k i name))
    (rmdir : ∀ d k x name,motive (.rmdir d k x name)) (move : ∀ d k x name d' k' newName,motive (.move d k x name d' k' newName true))
    (lose : ∀ d k x name,motive (.lose d k x name true)) (c : Change) : motive c := by
  cases c with
  | mkdir d k i name => exact mkdir d k i name
  | rmdir d k x name => exact rmdir d k x name
  | move d k x name d' k' newName isdir =>
    cases isdir with
    | true => exact move d k x name d' k' newName
    | false => exact plain _ rfl
  | lose d k x name isdir =>
    cases isdir with
    | true => exact lose d k x name
    | false => exact plain _ rfl
  | _ => exact plain _ trivial

section
variable (sane : ns.Sane) (bounded : ns.Bounded)
include sane bounded

lemma Change.attached (attached : ns.Attached) (c : Change) (valid : c.Valid ns) (safe : ¬ c.Sheds) : (c.apply ns).Attached := by
  intro j e seen has ne
  cases c using cases_tree with
  | plain c plain => exact attached j e (c.plain_back sane bounded valid plain seen) has ne
  | mkdir d k i name =>
    obtain ⟨out,r,into,room⟩ := valid
    rw [apply,sane.dir_mkdir bounded into out room] at seen
    split at seen
    · cases seen
      exact ⟨(d,k),rfl⟩
    exact attached j e seen has ne
  | rmdir d k x name =>
    obtain ⟨r,q,entry,dir,empty,far⟩ := valid
    rw [apply] at seen
    rcases sane.dir_rmdir bounded entry dir empty far j with ⟨_,eq⟩ | ⟨_,none | gone⟩
    · exact attached j e (eq ▸ seen) has ne
    · rw [none] at seen
      cases seen
    rw [gone] at seen
    cases seen
    cases has
  | move d k x name d' k' _ =>
    obtain ⟨r,_,q,entry,into,far,kind,width,above⟩ := valid
    have dir : q.type = sfsTypeDir := of_decide_eq_true kind.symm
    rw [apply,sane.dir_move bounded entry into far dir width (above dir)] at seen
    split at seen
    · cases seen
      exact ⟨(d',k'),rfl⟩
    exact attached j e seen has ne
  | lose d k x _ => exact absurd rfl safe

omit sane bounded in
-- One directory is set below another that is there.
lemma Ns.Upheld.put {ns' : Ns} (upheld : ns.Upheld) (step : ∀ j,ns'.dir j = if j = x then some ⟨d,false,home⟩ else ns.dir j) (up : ns.dir d = some p)
    (has : p.removed = false) : ns'.Upheld := by
  have old j p (seen : ns.dir j = some p) (has : p.removed = false) : ∃ p',ns'.dir j = some p' ∧ p'.removed = false := by
    rw [step]
    split
    · exact ⟨_,rfl,rfl⟩
    exact ⟨p,seen,has⟩
  intro j e seen
  rw [step] at seen
  split at seen
  · cases seen
    exact old d p up has
  obtain ⟨p,up,has⟩ := upheld j e seen
  exact old _ p up has

lemma Change.upheld (upheld : ns.Upheld) (c : Change) (valid : c.Valid ns)
    (clear : c.Clear ns) : (c.apply ns).Upheld := by
  intro j e seen
  cases c using cases_tree with
  | plain c plain =>
    obtain ⟨p,up,has⟩ := upheld j e (c.plain_back sane bounded valid plain seen)
    exact ⟨p,c.plain_present sane bounded valid plain up has,has⟩
  | mkdir d k i name =>
    obtain ⟨out,r,into,room⟩ := valid
    obtain ⟨p,up,has⟩ := into.node
    exact upheld.put (sane.dir_mkdir bounded into out room) up has j e seen
  | rmdir d k x name =>
    obtain ⟨r,q,entry,dir,empty,far⟩ := valid
    have step := sane.dir_rmdir bounded entry dir empty far
    have old : ∀ j ≠ x,(ns.rmdir d k x).dir j = ns.dir j := fun j ne => (step j).elim And.right fun here => absurd here.1 ne
    have placed : q.parent = d := sane.placed x q entry.target dir id _ entry.named
    obtain ⟨kept,obtained⟩ := upheld x _ (Ns.dir_found entry.target dir)
    rw [apply] at seen
    rcases step j with ⟨ne,eq⟩ | ⟨rfl,none | gone⟩
    · obtain ⟨p,up,has⟩ := upheld j e (eq ▸ seen)
      exact ⟨p,(old _ (clear j e ne (eq ▸ seen))).trans up,has⟩
    · rw [none] at seen
      cases seen
    rw [gone] at seen
    cases seen
    exact ⟨kept,(old _ (show q.parent ≠ j by rw [placed]; exact Ne.symm far)).trans obtained.1,obtained.2⟩
  | move d k x name _ _ _ =>
    obtain ⟨r,_,q,entry,into,far,kind,width,above⟩ := valid
    have dir : q.type = sfsTypeDir := of_decide_eq_true kind.symm
    obtain ⟨p,up,has⟩ := into.node
    exact upheld.put (sane.dir_move bounded entry into far dir width (above dir)) up has j e seen
  | lose d k x _ =>
    obtain ⟨r,q,entry,kind⟩ := valid
    have dir : q.type = sfsTypeDir := of_decide_eq_true kind.symm
    obtain ⟨p,up,has⟩ := upheld x _ (Ns.dir_found entry.target dir)
    exact upheld.put (sane.dir_lose bounded entry dir) up has j e seen

lemma Ns.Mid.childless (attached : ns.Attached) (goal : ns x = some q)
    (dir : q.type = sfsTypeDir) (empty : q.info = 0) (c : Nat) : ns.above c ≠ some x := by
  intro up
  obtain ⟨ne,e,seen,has,parent⟩ := above_some up
  obtain ⟨p,mem⟩ := attached c e seen has ne
  obtain ⟨placed,r,n,got,held⟩ := sane.home seen mem
  rw [← placed,parent] at got
  obtain rfl := Option.mem_unique got goal
  rw [taken_none (bounded.taken goal) (by rw [← sane.slots x r goal dir,empty])] at held
  cases held

lemma Change.rooted (attached : ns.Attached) (rooted : ns.Rooted) (c : Change)
    (valid : c.Valid ns) (safe : ¬ c.Sheds) (outward : c.Outward ns) : (c.apply ns).Rooted := by
  intro j e seen has
  cases c using cases_tree with
  | plain c plain =>
    refine (rooted j e (c.plain_back sane bounded valid plain seen) has).mono fun i p up => ?_
    obtain ⟨ne,e',known',present',rfl⟩ := above_some up
    exact above_dir ne (c.plain_present sane bounded valid plain known' present') present'
  | mkdir d k i name =>
    obtain ⟨out,r,into,room⟩ := valid
    have step := sane.dir_mkdir bounded into out room
    have eq i' p : ns.above i' = some p → (ns.mkdir d k i name).above i' = some p := by
      intro up
      obtain ⟨ne,e',known',present',rfl⟩ := above_some up
      refine above_dir ne ?_ present'
      rw [step,if_neg]
      · exact known'
      rintro rfl
      rw [Ns.dir_none out] at known'
      cases known'
    rw [apply,step] at seen
    split at seen
    next here =>
      subst here
      obtain ⟨p,home,kept⟩ := into.node
      refine .step (p:=d) ?_ ((rooted d p home kept).mono eq)
      refine above_dir (e:=⟨d,false,{(d,k)}⟩) ?_ ((step j).trans (if_pos rfl)) rfl
      rintro rfl
      obtain ⟨p,got,_⟩ := sane.root
      rw [got] at out
      cases out
    exact (rooted j e seen has).mono eq
  | rmdir d k x name =>
    obtain ⟨r,q,entry,dir,empty,far⟩ := valid
    have leaf := sane.childless bounded attached entry.target dir empty
    rw [apply] at seen
    have old i p : i ≠ x → ns.above i = some p → (ns.rmdir d k x).above i = some p := by
      intro away up
      obtain ⟨ne,e',known',present',rfl⟩ := above_some up
      refine above_dir ne ?_ present'
      rcases sane.dir_rmdir bounded entry dir empty far i with ⟨_,eq⟩ | ⟨here,_⟩
      · rw [eq,known']
      exact absurd here away
    rcases sane.dir_rmdir bounded entry dir empty far j with ⟨ne,eq⟩ | ⟨_,none | gone⟩
    · exact (rooted j e (eq ▸ seen) has).keep old fun below => ne (below.only leaf)
    · rw [none] at seen
      cases seen
    rw [gone] at seen
    cases seen
    cases has
  | move d k x name d' k' newName =>
    obtain ⟨r,_,q,entry,into,far,kind,width,above⟩ := valid
    have dir : q.type = sfsTypeDir := of_decide_eq_true kind.symm
    have step := sane.dir_move bounded entry into far dir width (above dir)
    have root := (sane.named d r k x name entry.found entry.slot).2.2.1
    have old i p : i ≠ x → ns.above i = some p → (ns.move d k x d' k' newName true).above i = some p := by
      intro away up
      obtain ⟨ne,_,known',present',rfl⟩ := above_some up
      exact above_dir ne ((step i).trans ((if_neg away).trans known')) present'
    have moved : (ns.move d k x d' k' newName true).above x = some d' := above_dir (e:=⟨d',false,{(d',k')}⟩) root ((step x).trans (if_pos rfl)) rfl
    obtain ⟨p,home,kept⟩ := into.node
    have goal := rooted d' p home kept
    rw [apply,step] at seen
    split at seen
    next here =>
      rw [here]
      exact .step moved (goal.keep old (outward rfl))
    exact Below.graft old moved goal (outward rfl) (rooted j e seen has)
  | lose d k x _ => exact absurd rfl safe

end

end Keeping
end Ucore.Sfs
