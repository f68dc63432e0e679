import Mathlib.Logic.Function.Basic
import Ucore.Lib.Shape

namespace Ucore.Rb

open Trees
open Function (update)

structure Node (ν : Type) where
  red : Bool
  parent : ν
  left : ν
  right : ν
deriving Repr,DecidableEq

structure Tree (ν : Type) where
  nil : ν
  root : ν
  compare : ν → ν → Int

abbrev Heap (ν : Type) := ν → Node ν

namespace Node

variable {ν : Type} {s : Side} {c : Bool} {p a b : ν}

def kid (n : Node ν) : Side → ν
  | .left => n.left
  | .right => n.right

def setKid (n : Node ν) (s : Side) (x : ν) : Node ν :=
  match s with
  | .left => {n with left:=x}
  | .right => {n with right:=x}

def of (s : Side) (c : Bool) (p a b : ν) : Node ν :=
  match s with
  | .left => ⟨c,p,a,b⟩
  | .right => ⟨c,p,b,a⟩

@[simp] lemma of_red : (of s c p a b).red = c := by cases s <;> rfl

@[simp] lemma of_parent : (of s c p a b).parent = p := by cases s <;> rfl

@[simp] lemma of_kid : (of s c p a b).kid s = a := by cases s <;> rfl

@[simp] lemma of_kid_other : (of s c p a b).kid s.other = b := by cases s <;> rfl

@[simp] lemma of_setKid {j : ν} : (of s c p a b).setKid s j = of s c p j b := by cases s <;> rfl

end Node

section Code

variable {ν : Type} [DecidableEq ν] (tree : Tree ν)

def setRed (x : ν) (red : Bool) (h : Heap ν) : Heap ν := update h x {h x with red:=red}

def setParent (x p : ν) (h : Heap ν) : Heap ν := update h x {h x with parent:=p}

def setKid (s : Side) (x y : ν) (h : Heap ν) : Heap ν := update h x ((h x).setKid s y)

-- FUNC_ROTATE: rb_left_rotate is the rotation to the left side, rb_right_rotate the one to the right.
-- A failed assert is none.
def rotate (s : Side) (x : ν) (h : Heap ν) : Option (Heap ν) :=
  let y := (h x).kid s.other
  if x ≠ tree.root ∧ x ≠ tree.nil ∧ y ≠ tree.nil then
    let h := setKid s.other x ((h y).kid s) h
    let h := if (h y).kid s ≠ tree.nil then setParent ((h y).kid s) x h else h
    let h := setParent y (h x).parent h
    let h := if x = (h (h x).parent).kid s then setKid s (h x).parent y h else setKid s.other (h x).parent y h
    let h := setKid s y x h
    let h := setParent x y h
    if (h tree.nil).red = false then some h else none
  else none

-- The search loop of rb_insert_binary. Here and below fuel bounds the passes of a loop, and running out of it is none.
def descend (node : ν) (h : Heap ν) : Nat → ν → ν → Option ν
  | 0,_,_ => none
  | fuel+1,x,y =>
    if x = tree.nil then some y
    else descend node h fuel (if 0 < tree.compare x node then (h x).left else (h x).right) x

def rbInsertBinary (fuel : Nat) (node : ν) (h : Heap ν) : Option (Heap ν) := do
  let h := setKid .left node tree.nil (setKid .right node tree.nil h)
  let y ← descend tree node h fuel (h tree.root).left tree.root
  let h := setParent node y h
  return if y = tree.root ∨ 0 < tree.compare y node then setKid .left y node h else setKid .right y node h

def rbInsertSub (s : Side) (x : ν) (h : Heap ν) : Option (ν × Heap ν) :=
  let y := (h (h (h x).parent).parent).kid s.other
  if (h y).red then
    let h := setRed (h x).parent false h
    let h := setRed y false h
    let h := setRed (h (h x).parent).parent true h
    some ((h (h x).parent).parent,h)
  else do
    let (x,h) ← if x = (h (h x).parent).kid s.other then do
        let h' ← rotate tree s (h x).parent h
        pure ((h x).parent,h')
      else pure (x,h)
    let h := setRed (h x).parent false h
    let h := setRed (h (h x).parent).parent true h
    let h ← rotate tree s.other (h (h x).parent).parent h
    return (x,h)

def rbInsertFixup : Nat → ν → Heap ν → Option (Heap ν)
  | 0,_,_ => none
  | fuel+1,x,h =>
    if (h (h x).parent).red then do
      let s := if (h x).parent = (h (h (h x).parent).parent).left then Side.left else Side.right
      let (x,h) ← rbInsertSub tree s x h
      rbInsertFixup fuel x h
    else some h

def rbInsert (fuel : Nat) (node : ν) (h : Heap ν) : Option (Heap ν) := do
  let h ← rbInsertBinary tree fuel node h
  let h ← rbInsertFixup tree fuel node (setRed node true h)
  let h := setRed (h tree.root).left false h
  if (h tree.nil).red = false ∧ (h tree.root).red = false then some h else none

def leftmost (h : Heap ν) : Nat → ν → Option ν
  | 0,_ => none
  | fuel+1,y => if (h y).left ≠ tree.nil then leftmost h fuel (h y).left else some y

def climb (h : Heap ν) : Nat → ν → ν → Option ν
  | 0,_,_ => none
  | fuel+1,x,y => if x = (h y).right then climb h fuel y (h y).parent else some y

def rbTreeSuccessor (fuel : Nat) (node : ν) (h : Heap ν) : Option ν :=
  if (h node).right ≠ tree.nil then leftmost tree h fuel (h node).right
  else do
    let y ← climb h fuel node (h node).parent
    return if y = tree.root then tree.nil else y

-- The end of RB_DELETE_FIXUP_SUB, where the far child of the sibling w is red.
def deleteFar (s : Side) (x w : ν) (h : Heap ν) : Option (Heap ν) :=
  let h := setRed w (h (h x).parent).red h
  let h := setRed (h x).parent false h
  let h := setRed ((h w).kid s.other) false h
  rotate tree s (h x).parent h

-- Its middle, where w is black.
def deleteBlack (root : ν) (s : Side) (x w : ν) (h : Heap ν) : Option (ν × Heap ν) :=
  if (h ((h w).kid s)).red = false ∧ (h ((h w).kid s.other)).red = false then
    let h := setRed w true h
    some ((h x).parent,h)
  else if (h ((h w).kid s.other)).red = false then do
    let h := setRed ((h w).kid s) false h
    let h := setRed w true h
    let h ← rotate tree s.other w h
    let h ← deleteFar tree s x ((h (h x).parent).kid s.other) h
    return (root,h)
  else do
    let h ← deleteFar tree s x w h
    return (root,h)

-- RB_DELETE_FIXUP_SUB, for the side x hangs on. root is the one saved at the start.
def rbDeleteFixupSub (root : ν) (s : Side) (x : ν) (h : Heap ν) : Option (ν × Heap ν) :=
  let w := (h (h x).parent).kid s.other
  if (h w).red then do
    let h := setRed w false h
    let h := setRed (h x).parent true h
    let h ← rotate tree s (h x).parent h
    deleteBlack tree root s x ((h (h x).parent).kid s.other) h
  else deleteBlack tree root s x w h

def rbDeleteLoop (root : ν) : Nat → ν → Heap ν → Option (Heap ν)
  | 0,_,_ => none
  | fuel+1,x,h =>
    if x ≠ root ∧ (h x).red = false then do
      let s := if x = (h (h x).parent).left then Side.left else Side.right
      let (x,h) ← rbDeleteFixupSub tree root s x h
      rbDeleteLoop root fuel x h
    else some (setRed x false h)

def rbDeleteFixup (fuel : Nat) (node : ν) (h : Heap ν) : Option (Heap ν) :=
  rbDeleteLoop tree (h tree.root).left fuel node h

def relink (y x : ν) (h : Heap ν) : Heap ν :=
  if y = (h (h y).parent).left then setKid .left (h y).parent x h else setKid .right (h y).parent x h

def rbDelete (fuel : Nat) (z : ν) (h : Heap ν) : Option (Heap ν) := do
  let y ← (if (h z).left = tree.nil ∨ (h z).right = tree.nil then some z else rbTreeSuccessor tree fuel z h)
  let x := if (h y).left ≠ tree.nil then (h y).left else (h y).right
  if y ≠ tree.root ∧ y ≠ tree.nil then do
    let h := setParent x (h y).parent h
    let h := relink y x h
    let needFixup := !(h y).red
    let h := if y ≠ z then
        let h := relink z y h
        let h := setParent (h z).right y h
        let h := setParent (h z).left y h
        update h y (h z)
      else h
    if needFixup then rbDeleteFixup tree fuel x h else return h
  else none

-- rb_tree_create, once its three allocations have succeeded.
def rbTreeCreate (h : Heap ν) : Heap ν :=
  let h := update h tree.nil ⟨false,tree.nil,tree.nil,tree.nil⟩
  update h tree.root ⟨false,tree.nil,tree.nil,tree.nil⟩

end Code

end Ucore.Rb
