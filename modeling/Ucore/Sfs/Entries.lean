import Ucore.Sfs.Changes

-- The entries of all directories, and what each change does to them.
namespace Ucore.Sfs
open Item Ns

abbrev Slots := Nat → Nat → Option (Nat × CStr)

def Ns.entry (ns : Ns) : Slots := fun d k => (ns d).bind fun r => r.slot k

def Slots.put (e : Slots) (d k : Nat) (v : Option (Nat × CStr)) : Slots := fun d' k' => if d' = d ∧ k' = k then v else e d' k'

def Change.edit (e : Slots) : Change → Slots
  | .create d k i name | .mkdir d k i name | .link d k i name => e.put d k (some (i,name))
  | .unlinkFile d k _ _ | .rmdir d k _ _ | .lose d k _ _ _ => e.put d k none
  | .retitle d k x _ newName => e.put d k (some (x,newName))
  | .move d k x _ d' k' newName _ => (e.put d k none).put d' k' (some (x,newName))
  | _ => e

namespace Ns

section Entries
variable {ns : Ns} {d k x i : Nat} {r q : Item} {f : Item → Item} {name : CStr}

lemma entry_found (got : ns d = some r) (k : Nat) : ns.entry d k = r.slot k := by simp [Ns.entry,got]

lemma entry_some (held : ns.entry d k = some v) : ∃ r,ns d = some r ∧ r.slot k = some v := Option.bind_eq_some_iff.mp held

lemma entry_alter (slot : ∀ r : Item,(f r).slot = r.slot) : (ns.alter i f).entry = ns.entry := by
  funext d k
  by_cases here : d = i
  · subst here
    cases got : ns d with
    | none => simp [Ns.entry,alter,got]
    | some r => rw [Ns.entry_found (alter_self got f),Ns.entry_found got,slot]
  simp only [Ns.entry,alter_ne here]

lemma entry_slot (got : ns d = some r) (slot : ∀ r : Item,(f r).slot = fun l => if l = k then v else r.slot l) :
    (ns.alter d f).entry = ns.entry.put d k v := by
  funext d' l
  unfold Slots.put
  by_cases here : d' = d
  · subst here
    rw [Ns.entry_found (alter_self got f),Ns.entry_found got,slot]
    simp
  simp only [Ns.entry,alter_ne here,here,false_and,if_false]

lemma entry_add (gone : ns i = none) (type : Nat) : (ns.add i (.made type)).entry = ns.entry := by
  funext d k
  by_cases here : d = i
  · subst here
    simp [Ns.entry,add,gone,made]
  simp [Ns.entry,add,here]

lemma entry_hold (ns : Ns) (i : Nat) : (ns.alter i incRefs).entry = ns.entry := entry_alter fun _ => rfl

lemma entry_link (got : ns d = some r) (k x : Nat) (name : CStr) : (ns.link d k x name).entry = ns.entry.put d k (some (x,name)) := by
  unfold Ns.link
  rw [entry_alter (f:=incLinks) fun _ => rfl]
  exact entry_slot (f:=enter k x name) got fun _ => rfl

lemma entry_unlink (got : ns d = some r) (k x : Nat) : (ns.unlink d k x).entry = ns.entry.put d k none := by
  unfold unlink
  rw [entry_alter (f:=decLinks) fun _ => rfl]
  exact entry_slot (f:=leave k) got fun _ => rfl

lemma Mid.entry_release (sane : ns.Sane) (bound : ns.Bounded) (i : Nat) : (ns.release i).entry = ns.entry := by
  unfold Ns.release
  cases got : ns i with
  | none => rfl
  | some r =>
    change (if _ then _ else _ : Ns).entry = _
    split
    next gone =>
      funext d k
      by_cases here : d = i
      · subst here
        rw [Ns.entry_found got,(sane.unlinked bound got gone.2).2.1 k]
        simp [Ns.entry,Ns.drop]
      simp [Ns.entry,Ns.drop,here]
    next => exact entry_alter fun _ => rfl

lemma entry_detach (got : ns d = some r) (k x : Nat) (isdir : Bool) : (ns.detach d k x isdir).entry = ns.entry.put d k none := by
  unfold detach
  split
  next => rw [entry_alter (f:=decLinks) fun _ => rfl,entry_unlink got]
  next => exact entry_unlink got k x

lemma entry_attach (got : ns d = some r) (k x : Nat) (name : CStr) (isdir : Bool) :
    (ns.attach d k x name isdir).entry = ns.entry.put d k (some (x,name)) := by
  unfold attach
  split
  next => rw [entry_alter (f:=setParent d) fun _ => rfl,entry_alter (f:=incLinks) fun _ => rfl,entry_link got]
  next => exact entry_link got k x name

end Entries

end Ns

lemma Change.entry {ns : Ns} (sane : ns.Sane) (bound : ns.Bounded) (c : Change) (valid : c.Valid ns) : (c.apply ns).entry = c.edit ns.entry := by
  cases c with
  | same => rfl
  | hold i => exact entry_hold ns i
  | release i => exact sane.entry_release bound i
  | reopen _ | close _ | resize _ _ _ => exact entry_alter fun _ => rfl
  | create d k i name =>
    obtain ⟨gone,r,into⟩ := valid
    change ((ns.add i (.made sfsTypeFile)).link d k i name).entry = _
    rw [entry_link (into.add gone sfsTypeFile).found,entry_add gone]
    rfl
  | mkdir d k i name =>
    obtain ⟨gone,r,into,room⟩ := valid
    change (ns.mkdir d k i name).entry = _
    rw [Ns.mkdir,(sane.makeDir bound into gone room).entry_release (bound.makeDir d k i name),makeDir,
      entry_alter (f:=incLinks) fun _ => rfl,entry_alter (f:=incLinks) fun _ => rfl,
      entry_alter (f:=setParent d) fun _ => rfl,entry_link (into.add gone sfsTypeDir).found,entry_add gone]
    rfl
  | link d k x name =>
    obtain ⟨r,q,into,-⟩ := valid
    exact entry_link into.found k x name
  | unlinkFile d k x name =>
    obtain ⟨r,q,entry,file⟩ := valid
    change (ns.unlinkFile d k x).entry = _
    rw [Ns.unlinkFile,(sane.unlinkHeld bound entry file).entry_release ((bound.hold x).unlink d k x),entry_unlink entry.hold.found,entry_hold]
    rfl
  | rmdir d k x name =>
    obtain ⟨r,q,entry,dir,empty,ne⟩ := valid
    change (ns.rmdir d k x).entry = _
    rw [Ns.rmdir,(sane.takeDir bound entry dir empty ne).entry_release (bound.takeDir d k x),takeDir,
      entry_alter (f:=decLinks) fun _ => rfl,entry_alter (f:=decLinks) fun _ => rfl,
      entry_alter (f:=remove) fun _ => rfl,entry_unlink entry.hold.found,entry_hold]
    rfl
  | retitle d k x name newName =>
    obtain ⟨r,q,entry,-⟩ := valid
    exact entry_slot (f:=setSlot k (some (x,newName))) entry.found fun _ => rfl
  | move d k x name d' k' newName isdir =>
    obtain ⟨r,_,q,entry,into,ne,kind,width,above⟩ := valid
    have got := ((into.hold x).detach ne k x isdir).found
    have held := (sane.hold x).detach (bound.hold x) entry.hold kind
    change (ns.move d k x d' k' newName isdir).entry = _
    rw [Ns.move,(sane.moveHeld bound entry into ne kind width above).entry_release (held.2.attach d' k' x newName isdir),
      entry_attach got,entry_detach entry.hold.found,entry_hold]
    rfl
  | lose d k x _ isdir =>
    obtain ⟨r,q,entry,kind⟩ := valid
    have held := (sane.hold x).detach (bound.hold x) entry.hold kind
    change (ns.lose d k x isdir).entry = _
    rw [Ns.lose,held.1.entry_release held.2,entry_detach entry.hold.found,entry_hold]
    rfl

end Ucore.Sfs
