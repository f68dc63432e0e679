import Ucore.Lib.Tally
import Ucore.Mm.State

-- What the functions of the swap manager and of the page tables do to frames,
-- entries and counts, one small move at a time. Between two moves the books say
-- what the state owes: frames taken from the allocator and not yet referred to,
-- references of a page that no entry has (pin) and counts of a swap slot that no
-- entry has (duty).
namespace Ucore.Mm
open Bytes Tally Pte

def Pte.Maps (page : Nat) : Pte → Prop
  | .present f _ _ _ => f = page
  | _ => False

def Pte.Holds (offset : Nat) : Pte → Prop
  | .swapped o => o = offset
  | _ => False

@[simp] lemma Pte.maps_present {g : Nat} {w a d : Bool} : (present g w a d).Maps f ↔ g = f := .rfl
@[simp] lemma Pte.maps_swapped {o : Nat} : ¬ (swapped o).Maps f := id
@[simp] lemma Pte.maps_empty : ¬ empty.Maps f := id
@[simp] lemma Pte.holds_present {g : Nat} {w a d : Bool} : ¬ (present g w a d).Holds o := id
@[simp] lemma Pte.holds_swapped {p : Nat} : (swapped p).Holds o ↔ p = o := .rfl
@[simp] lemma Pte.holds_empty : ¬ empty.Holds o := id

noncomputable def Core.mapped (s : Core) (f : Nat) : Nat := tally s.pte (Pte.Maps f)
noncomputable def Core.held (s : Core) (o : Nat) : Nat := tally s.pte (Pte.Holds o)

structure Books where
  loose : Set Nat
  pin : Nat → Nat
  duty : Nat → Nat

def Books.none : Books := ⟨∅,fun _ => 0,fun _ => 0⟩

structure Sole (b : Books) (s : Core) (k : Key) (f : Nat) : Prop where
  entries : ∀ j,(s.pte j).Maps f → j = k
  slot : s.swap f = true → ∀ j,¬ (s.pte j).Holds (s.index f)
  duty : s.swap f = true → b.duty (s.index f) = 0

def Core.Calm (s : Core) (f : Nat) : Prop := ∀ k a d,s.pte k ≠ .present f true a d

-- entry k: the entry of k is made or removed. lossy: a dirty bit is forgotten.
-- discard: a page leaves the swap cache while entries still hold its slot.
inductive Label where
  | quiet
  | entry (k : Key)
  | lossy
  | discard
  | store (k : Key)

abbrev Account := Books × Core

inductive Move : Label → Account → Account → Prop where
  | alloc : s.free = f :: rest → Move .quiet (b,s) ({b with loose:=insert f b.loose},{s with free:=rest})
  | reorder : rest.Perm s.free → Move .quiet (b,s) (b,{s with free:=rest})
  | free : f ∈ b.loose → s.ref f = 0 → s.swap f = false → Move .quiet (b,s) ({b with loose:=b.loose \ {f}},s.freed f)
  | settle : 0 < s.ref f ∨ s.swap f = true → Move .quiet (b,s) ({b with loose:=b.loose \ {f}},s)
  | copy : f ∈ b.loose → s.ref f = 0 → s.swap f = false → Move .quiet (b,s) (b,{s with data:=set s.data f v})
  | pin : 0 < s.ref f ∨ s.swap f = true ∨ f ∈ b.loose → s.Calm f →
      Move .quiet (b,s) ({b with pin:=set b.pin f (b.pin f + 1)},{s with ref:=set s.ref f (s.ref f + 1)})
  | unpin : 0 < b.pin f →
      Move .quiet (b,s) (⟨insert f b.loose,set b.pin f (b.pin f - 1),b.duty⟩,{s with ref:=set s.ref f (s.ref f - 1)})
  | clear : s.pte k = .present f w a d →
      Move (.entry k) (b,s) ({b with pin:=set b.pin f (b.pin f + 1)},
        {s with pte:=set s.pte k .empty,dirty:=set s.dirty f (s.dirty f || (s.swap f && d))})
  | drop : s.pte k = .swapped o →
      Move (.entry k) (b,s) ({b with duty:=set b.duty o (b.duty o + 1)},{s with pte:=set s.pte k .empty})
  | point : s.pte k = .empty → 0 < b.pin f → (w = true → b.pin f = 1 ∧ Sole b s k f) →
      Move (.entry k) (b,s) ({b with pin:=set b.pin f (b.pin f - 1)},{s with pte:=set s.pte k (.present f w a d)})
  | park : s.pte k = .empty → 0 < b.duty o →
      Move (.entry k) (b,s) ({b with duty:=set b.duty o (b.duty o - 1)},{s with pte:=set s.pte k (.swapped o)})
  | dup : s.memMap o < maxSwapRef → (∀ f,s.swap f = true → s.index f = o → s.Calm f) →
      Move .quiet (b,s) ({b with duty:=set b.duty o (b.duty o + 1)},{s with memMap:=set s.memMap o (s.memMap o + 1)})
  | undup : 0 < b.duty o → (s.memMap o = 1 → ∃ f ∈ s.hash,s.index f = o) →
      Move .quiet (b,s) ({b with duty:=set b.duty o (b.duty o - 1)},{s with memMap:=set s.memMap o (s.memMap o - 1)})
  | release : 0 < b.duty o → s.memMap o = 1 → (∀ f ∈ s.hash,s.index f ≠ o) →
      Move .quiet (b,s) ({b with duty:=set b.duty o 0},{s with memMap:=set s.memMap o swapUnused})
  | adopt : s.swap f = false → f ∉ s.free → s.memMap o = swapUnused → 0 < o → o < s.maxSwapOffset →
      Move .quiet (b,s) (b,{((s.hashed f o).activated f) with dirty:=set s.dirty f true,memMap:=set s.memMap o 0})
  | fetch : f ∈ b.loose → s.ref f = 0 → s.swap f = false → s.memMap o ≠ swapUnused → s.find o = none →
      Move .quiet (b,s) (b,{((s.hashed f o).activated f) with data:=set s.data f (s.disk o)})
  | steal : s.swap f = true → s.memMap (s.index f) = 0 →
      Move .quiet (b,s) ({b with loose:=insert f b.loose},{((s.unlisted f).unhashed f) with memMap:=set s.memMap (s.index f) swapUnused})
  | discard : s.swap f = true → s.ref f = 0 → s.dirty f = false → s.memMap (s.index f) ≠ 0 →
      Move .discard (b,s) ({b with loose:=insert f b.loose},(s.unlisted f).unhashed f)
  | activate : s.swap f = true → Move .quiet (b,s) (b,(s.unlisted f).activated f)
  | inactivate : s.swap f = true → Move .quiet (b,s) (b,(s.unlisted f).inactivated f)
  | soil : Move .quiet (b,s) (b,{s with dirty:=set s.dirty f true})
  | write : s.swap f = true → s.ref f = 0 →
      Move .quiet (b,s) (b,{s with disk:=set s.disk (s.index f) (s.data f),dirty:=set s.dirty f false})
  | rebit : s.pte k = .present f w a d → (w' = true → w = false → b.pin f = 0 ∧ Sole b s k f) → (d = true → d' = true ∨ s.swap f = false ∨ s.dirty f = true) →
      Move .quiet (b,s) (b,{s with pte:=set s.pte k (.present f w' a' d')})
  | forget : s.pte k = .present f w a d → (w' = true → w = false → b.pin f = 0 ∧ Sole b s k f) →
      Move .lossy (b,s) (b,{s with pte:=set s.pte k (.present f w' a' d')})
  | store : s.pte k = .present f true a d →
      Move (.store k) (b,s) (b,{s with data:=set s.data f v,pte:=set s.pte k (.present f true true true)})

structure Refs (b : Books) (s : Core) : Prop where
  finite : {k | s.pte k ≠ .empty}.Finite
  refs : ∀ f,s.ref f = s.mapped f + b.pin f

structure Slots (b : Books) (s : Core) : Prop where
  counts : ∀ o,s.memMap o = swapUnused ∧ s.held o + b.duty o = 0 ∨ s.memMap o < swapUnused ∧ s.memMap o = s.held o + b.duty o
  range : ∀ o,s.memMap o ≠ swapUnused → 0 < o ∧ o < s.maxSwapOffset

structure Cache (s : Core) : Prop where
  zero : ∀ o,s.memMap o = 0 → ∃ f ∈ s.hash,s.index f = o
  known : ∀ f ∈ s.hash,s.memMap (s.index f) ≠ swapUnused
  distinct : ∀ f ∈ s.hash,∀ g ∈ s.hash,s.index f = s.index g → f = g
  hashOnce : s.hash.Nodup
  hashed : ∀ f,f ∈ s.hash ↔ s.swap f = true

structure Listed (s : Core) : Prop where
  activeOnce : s.activeList.Nodup
  active : ∀ f,f ∈ s.activeList ↔ s.swap f = true ∧ s.active f = true
  activeCount : s.nrActive = s.activeList.length
  inactiveOnce : s.inactiveList.Nodup
  inactive : ∀ f,f ∈ s.inactiveList ↔ s.swap f = true ∧ s.active f = false
  inactiveCount : s.nrInactive = s.inactiveList.length

structure Pool (b : Books) (s : Core) : Prop where
  freeOnce : s.free.Nodup
  free : ∀ f ∈ s.free,s.ref f = 0 ∧ s.swap f = false ∧ f ∉ b.loose
  used : ∀ f,f < s.frames → f ∉ s.free → 0 < s.ref f ∨ s.swap f = true ∨ f ∈ b.loose

structure Law (b : Books) (s : Core) : Prop where
  refs : Refs b s
  slots : Slots b s
  cache : Cache s
  listed : Listed s
  pool : Pool b s

end Ucore.Mm
