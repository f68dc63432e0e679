import Ucore.Mm.Sharing
import Mathlib.Logic.Relation

-- Sequences of moves, and the functions of swap.c as such sequences. None of
-- these functions reads a page table, so each is followed under any table p.
namespace Ucore.Mm
open Bytes Outcomes Tally

def Way (allow : Label → Prop) : Account → Account → Prop := Relation.ReflTransGen fun x y => ∃ l,allow l ∧ Move l x y

def Still (l : Label) : Prop := l = .quiet
def Around (k : Key) (l : Label) : Prop := l = .quiet ∨ l = .entry k

section Ways
variable {allow : Label → Prop} {x y z : Account}

lemma Way.refl : Way allow x x := Relation.ReflTransGen.refl
lemma Way.one (move : Move l x y) (may : allow l) : Way allow x y := .single ⟨l,may,move⟩
lemma Way.trans (one : Way allow x y) (two : Way allow y z) : Way allow x z := Relation.ReflTransGen.trans one two
lemma Way.then (one : Way allow x y) (move : Move l y z) (may : allow l) : Way allow x z := Relation.ReflTransGen.tail one ⟨l,may,move⟩

lemma Way.mono (way : Way allow x y) (wider : ∀ l,allow l → more l) : Way more x y := by
  induction way with
  | refl => exact .refl
  | tail _ step ih =>
    obtain ⟨l,may,move⟩ := step
    exact ih.then move (wider l may)

lemma Way.still (move : Move .quiet x y) : Way Still x y := .one move rfl
lemma Way.step (one : Way Still x y) (move : Move .quiet y z) : Way Still x z := one.then move rfl

lemma Still.around (k : Key) (l : Label) (still : Still l) : Around k l := .inl still

namespace Way

lemma law (way : Way allow x y) (law : Law x.1 x.2) : Law y.1 y.2 := by
  induction way with
  | refl => exact law
  | tail _ step ih =>
    obtain ⟨l,_,move⟩ := step
    exact move.law ih

lemma exclusive (way : Way allow x y) (law : Law x.1 x.2) (excl : Exclusive x.1 x.2) : Exclusive y.1 y.2 := by
  induction way with
  | refl => exact excl
  | tail pre step ih =>
    obtain ⟨l,_,move⟩ := step
    exact move.exclusive (Way.law pre law) ih

lemma clean (way : Way allow x y) (law : Law x.1 x.2) (clean : Clean x.2) (keeps : ∀ l,allow l → l ≠ .lossy) : Clean y.2 := by
  induction way with
  | refl => exact clean
  | tail pre step ih =>
    obtain ⟨l,may,move⟩ := step
    exact move.clean (Way.law pre law) ih (keeps l may)

-- The view of an untouched entry stays, without discards or with clean pages.
lemma view (way : Way allow x y) (law : Law x.1 x.2) (excl : Exclusive x.1 x.2)
    (keeps : (∀ l,allow l → l ≠ .discard) ∨ Clean x.2 ∧ ∀ l,allow l → l ≠ .lossy)
    (k : Key) (ne : ∀ l,allow l → ¬ l.touches k) : y.2.view (y.2.pte k) = x.2.view (x.2.pte k) := by
  induction way with
  | refl => rfl
  | tail pre step ih =>
    obtain ⟨l,may,move⟩ := step
    refine (move.view (Way.law pre law) (exclusive pre law excl) (fun discards => ?_) k (ne l may)).trans ih
    exact keeps.elim (fun none => absurd discards (none l may)) fun tidy => Way.clean pre law tidy.1 tidy.2

end Way

end Ways

def Core.over (s : Core) (p : Key → Pte) : Core := {s with pte:=p}

def Vm.Cursor (s : Vm) : Prop := 0 < s.next ∧ s.next < s.maxSwapOffset

structure Beside (s t : Vm) : Prop where
  pte : t.pte = s.pte
  mmap : t.mmap = s.mmap
  table : t.table = s.table
  cursor : s.Cursor → t.Cursor

lemma Beside.refl (s : Vm) : Beside s s := ⟨rfl,rfl,rfl,id⟩
lemma Beside.trans (one : Beside s t) (two : Beside t u) : Beside s u :=
  ⟨two.pte.trans one.pte,two.mmap.trans one.mmap,two.table.trans one.table,two.cursor ∘ one.cursor⟩

lemma Beside.of (pte : t.pte = s.pte) (mmap : t.mmap = s.mmap) (table : t.table = s.table) (next : t.next = s.next)
    (top : t.maxSwapOffset = s.maxSwapOffset) : Beside s t :=
  ⟨pte,mmap,table,fun inside => by rwa [Vm.Cursor,next,top]⟩

def Books.Idle (b : Books) (s : Core) : Prop := ∀ f ∈ b.loose,s.ref f = 0 ∧ s.swap f = false

section Frames
variable {b : Books} {s : Vm} {p : Key → Pte}

lemma granted_run : granted s = .ok (s.mem s.tick) {s with tick:=s.tick + 1} := rfl
lemma freePage_run : freePage f s = .ok () (s.put (s.toCore.freed f)) := rfl
lemma setCount_run : setCount o n s = .ok () {s with memMap:=set s.memMap o n} := rfl
lemma setPte_run : setPte k e s = .ok () {s with pte:=set s.pte k e} := rfl
lemma setRef_run : setRef f n s = .ok () {s with ref:=set s.ref f n} := rfl

lemma allocPage_run (law : Law b (s.toCore.over p)) : (∃ t,allocPage s = .ok none t ∧ t.toCore = s.toCore ∧ Beside s t) ∨
    (∃ f rest t,s.free = f :: rest ∧ allocPage s = .ok (some f) t ∧ t.toCore = {s.toCore with free:=rest} ∧ Beside s t ∧
      s.ref f = 0 ∧ s.swap f = false ∧ f ∉ b.loose ∧
      Way Still (b,s.toCore.over p) ({b with loose:=insert f b.loose},t.toCore.over p)) := by
  unfold allocPage
  simp only [rules,granted_run]
  cases s.mem s.tick with
  | false => exact .inl ⟨_,rfl,rfl,⟨rfl,rfl,rfl,id⟩⟩
  | true =>
    simp only [rules]
    cases free : s.free with
    | nil => exact .inl ⟨_,rfl,rfl,⟨rfl,rfl,rfl,id⟩⟩
    | cons f rest =>
      obtain ⟨idle,out,tight⟩ := law.pool.free f (free ▸ List.mem_cons_self)
      exact .inr ⟨f,rest,_,rfl,rfl,rfl,⟨rfl,rfl,rfl,id⟩,idle,out,tight,.one (.alloc free) rfl⟩

lemma freed_way {s : Core} (loose : f ∈ b.loose) (idle : s.ref f = 0) (out : s.swap f = false) :
    Way Still (b,s.over p) ({b with loose:=b.loose \ {f}},(s.freed f).over p) :=
  .one (.free loose idle out) rfl

lemma swapOffset_run (law : Law b (s.toCore.over p)) (used : s.memMap o ≠ swapUnused) : swapOffset o s = .ok () s := by
  obtain ⟨low,high⟩ := law.slots.range o used
  have high : o < s.maxSwapOffset := high
  simp [swapOffset,low,high]

end Frames
end Ucore.Mm
