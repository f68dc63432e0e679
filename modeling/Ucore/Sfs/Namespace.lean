import Ucore.Sfs.Format

-- What the callers of the file system see of it: for every inode in use its
-- kind, its counts, its parent and its entries, and who holds it in memory.
namespace Ucore.Sfs

structure Item where
  type : Nat
  nlinks : Nat
  parent : Nat
  info : Nat
  blocks : Nat
  slot : Nat → Option (Nat × CStr)
  removed : Bool
  refs : Nat
  opens : Nat

abbrev Ns := Nat → Option Item

def Ns.alter (ns : Ns) (i : Nat) (f : Item → Item) : Ns := fun j => if j = i then (ns j).map f else ns j
def Ns.add (ns : Ns) (i : Nat) (r : Item) : Ns := fun j => if j = i then some r else ns j
def Ns.drop (ns : Ns) (i : Nat) : Ns := fun j => if j = i then none else ns j

namespace Item

def made (type : Nat) : Item := ⟨type,0,0,0,0,fun _ => none,false,1,0⟩

def incLinks (r : Item) : Item := {r with nlinks:=(r.nlinks + 1) % 2^16}
def decLinks (r : Item) : Item := {r with nlinks:=r.nlinks - 1}
def setParent (p : Nat) (r : Item) : Item := {r with parent:=p}
def setInfo (n : Nat) (r : Item) : Item := {r with info:=n}
def setBlocks (n : Nat) (r : Item) : Item := {r with blocks:=n}
def remove (r : Item) : Item := {r with removed:=true}
def incRefs (r : Item) : Item := {r with refs:=r.refs + 1}
def decRefs (r : Item) : Item := {r with refs:=r.refs - 1}
def incOpens (r : Item) : Item := {r with opens:=r.opens + 1}
def decOpens (r : Item) : Item := {r with opens:=r.opens - 1}
def setSlot (k : Nat) (e : Option (Nat × CStr)) (r : Item) : Item := {r with slot:=fun l => if l = k then e else r.slot l}

end Item

def Ns.release (ns : Ns) (i : Nat) : Ns :=
  match ns i with
  | some r => if r.refs = 1 ∧ r.nlinks = 0 then ns.drop i else ns.alter i Item.decRefs
  | none => ns

def Item.fill (k : Nat) (e : Option (Nat × CStr)) (r : Item) : Item := {r.setSlot k e with blocks:=max r.blocks (k + 1)}

def Item.enter (k x : Nat) (name : CStr) (r : Item) : Item :=
  {r.setSlot k (some (x,name)) with info:=(r.info + 1) % 2^32,blocks:=max r.blocks (k + 1)}
def Item.leave (k : Nat) (r : Item) : Item := {r.setSlot k none with info:=r.info - 1}

namespace Ns

lemma alter_alter (ns : Ns) (i : Nat) (f g : Item → Item) : (ns.alter i f).alter i g = ns.alter i (g ∘ f) := by
  funext j
  by_cases here : j = i
  · simp [alter,here]
  simp [alter,here]

lemma alter_isSome (ns : Ns) (i j : Nat) (f : Item → Item) : (ns.alter i f j).isSome = (ns j).isSome := by
  unfold alter
  split <;> simp

lemma alter_self {ns : Ns} (got : ns i = some r) (f : Item → Item) : ns.alter i f i = some (f r) := by simp [alter,got]

lemma alter_ne {ns : Ns} (ne : j ≠ i) (f : Item → Item) : ns.alter i f j = ns j := by simp [alter,ne]

lemma alter_congr {ns : Ns} (eq : ∀ r,ns i = some r → f r = g r) : ns.alter i f = ns.alter i g := by
  funext j
  by_cases here : j = i
  · subst here
    cases got : ns j with
    | none => simp [alter,got]
    | some r => simp [alter,got,eq r got]
  simp [alter,here]

lemma alter_id {ns : Ns} (eq : ∀ r,ns i = some r → f r = r) : ns.alter i f = ns := by
  rw [alter_congr (g:=id) eq]
  funext j
  simp [alter]

end Ns

end Ucore.Sfs
