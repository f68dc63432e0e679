import Ucore.Lib.Ownership
import Ucore.Sfs.State

-- Where a block can be in use: as an inode, as block idx of a file or a
-- directory, as its indirect or double-indirect block, as entry j of the latter.
namespace Ucore.Sfs
open Bytes Ownership

inductive Spot where
  | self
  | leaf (idx : Nat)
  | ind
  | dbl
  | mid (j : Nat)
deriving DecidableEq

abbrev Place := Nat × Spot

def entBlock (dev : Nat → Buf) (b k : Nat) : Nat := if b = 0 ∨ sfsBlkNentry ≤ k then 0 else readEnt (dev b) k

def leafBlock (dev : Nat → Buf) (din : DiskInode) (idx : Nat) : Nat :=
  if h : idx < sfsNdirect then din.direct ⟨idx,h⟩
  else if idx - sfsNdirect < sfsBlkNentry then entBlock dev din.indirect (idx - sfsNdirect)
  else
    let q := idx - sfsNdirect - sfsBlkNentry
    entBlock dev (entBlock dev din.dbIndirect (q / sfsBlkNentry)) (q % sfsBlkNentry)

def spotBlock (dev : Nat → Buf) (din : DiskInode) (ino : Nat) : Spot → Nat
  | .self => ino
  | .leaf idx => leafBlock dev din idx
  | .ind => din.indirect
  | .dbl => din.dbIndirect
  | .mid j => entBlock dev din.dbIndirect j

def SfsFs.din (s : SfsFs) (ino : Nat) : DiskInode := if ino ∈ s.inodeList then (s.node ino).din else readInode (s.dev ino)

def SfsFs.own (s : SfsFs) (p : Place) : Nat := if p.1 ∈ s.inodes then spotBlock s.dev (s.din p.1) p.1 p.2 else 0

def SfsFs.used (s : SfsFs) (b : Nat) : Prop := b < s.super.blocks ∧ s.freemap.bit b = false

def SfsFs.fixed (s : SfsFs) (b : Nat) : Prop := b = sfsBlknSuper ∨ (sfsBlknFreemap ≤ b ∧ b < sfsBlknFreemap + sfsFreemapBlocks s.super)

@[simp] lemma setDev_same (dev : Nat → Buf) (b : Nat) (x : Buf) : setDev dev b x b = x := by simp [setDev]
lemma setDev_ne {dev : Nat → Buf} (ne : y ≠ b) : setDev dev b x y = dev y := by simp [setDev,ne]

def Points (dev : Nat → Buf) (din : DiskInode) (b : Nat) : Prop :=
  b = din.indirect ∨ b = din.dbIndirect ∨ ∃ j,b = entBlock dev din.dbIndirect j

lemma entBlock_zero (dev : Nat → Buf) (k : Nat) : entBlock dev 0 k = 0 := by simp [entBlock]

section
variable {dev : Nat → Buf}

lemma entBlock_far (far : sfsBlkNentry ≤ k) : entBlock dev b k = 0 := by simp [entBlock,far]

lemma entBlock_read (pos : b ≠ 0) (low : k < sfsBlkNentry) : entBlock dev b k = readEnt (dev b) k := by simp [entBlock,pos,low]

lemma entBlock_setDev_ne (ne : c ≠ b) : entBlock (setDev dev b x) c k = entBlock dev c k := by
  unfold entBlock
  rw [setDev_ne ne]

lemma entBlock_put (pos : b ≠ 0) (low : k < sfsBlkNentry) (small : v < 2^32) (j : Nat) :
    entBlock (setDev dev b (putLE (dev b) (4 * k) 4 v)) b j = if j = k then v else entBlock dev b j := by
  by_cases eq : j = k
  · subst eq
    rw [entBlock_read pos low,setDev_same,readEnt_put small,if_pos rfl]
  rw [if_neg eq]
  unfold entBlock
  rw [setDev_same,readEnt_put_ne eq]

lemma entBlock_blank (blank : dev b = zero) (k : Nat) : entBlock dev b k = 0 := by
  unfold entBlock
  split
  · rfl
  rw [blank,readEnt_zero]

lemma leaf_direct (low : idx < sfsNdirect) : leafBlock dev din idx = din.direct ⟨idx,low⟩ := by simp [leafBlock,low]

lemma leaf_indirect (above : ¬ idx < sfsNdirect) (low : idx - sfsNdirect < sfsBlkNentry) : leafBlock dev din idx = entBlock dev din.indirect (idx - sfsNdirect) := by
  simp [leafBlock,above,low]

lemma leaf_double (above : ¬ idx < sfsNdirect) (beyond : ¬ idx - sfsNdirect < sfsBlkNentry) :
    leafBlock dev din idx = entBlock dev (entBlock dev din.dbIndirect ((idx - sfsNdirect - sfsBlkNentry) / sfsBlkNentry))
      ((idx - sfsNdirect - sfsBlkNentry) % sfsBlkNentry) := by
  simp [leafBlock,above,beyond]

lemma leaf_ext (direct : din'.direct = din.direct) (lone : ∀ k,entBlock dev' din'.indirect k = entBlock dev din.indirect k)
    (double : ∀ j k,entBlock dev' (entBlock dev' din'.dbIndirect j) k = entBlock dev (entBlock dev din.dbIndirect j) k) (idx : Nat) :
    leafBlock dev' din' idx = leafBlock dev din idx := by
  simp [leafBlock,direct,lone,double]

-- Writing a block that is no pointer block of din leaves its map alone.
lemma entBlock_frame (safe : ¬ Points dev din b) (j : Nat) : entBlock (setDev dev b x) din.dbIndirect j = entBlock dev din.dbIndirect j := by
  apply entBlock_setDev_ne
  rintro rfl
  exact safe (.inr (.inl rfl))

lemma spotBlock_frame (safe : ¬ Points dev din b) (ino : Nat) (spot : Spot) : spotBlock (setDev dev b x) din ino spot = spotBlock dev din ino spot := by
  cases spot with
  | self | ind | dbl => rfl
  | mid j => exact entBlock_frame safe j
  | leaf idx =>
    refine leaf_ext rfl (fun k => entBlock_setDev_ne ?_) (fun j k => ?_) idx
    · rintro rfl
      exact safe (.inl rfl)
    rw [entBlock_frame safe]
    apply entBlock_setDev_ne
    rintro rfl
    exact safe (.inr (.inr ⟨_,rfl⟩))

-- The five ways sfs_bmap_get_nolock and sfs_bmap_free_nolock change a map.
lemma spotBlock_direct {k : Fin 12} (spot : Spot) : spotBlock dev {din with direct:=fun j => if j = k then b else din.direct j} ino spot =
      if spot = .leaf k then b else spotBlock dev din ino spot := by
  cases spot with
  | self | ind | dbl | mid _ => rfl
  | leaf idx =>
    simp only [spotBlock,Spot.leaf.injEq]
    by_cases low : idx < sfsNdirect
    · rw [leaf_direct low,leaf_direct low]
      simp [Fin.ext_iff]
    have ne : idx ≠ k := by
      rintro rfl
      exact low k.isLt
    rw [if_neg ne]
    simp [leafBlock,low]

lemma spotBlock_indEntry (din : DiskInode) (pos : din.indirect ≠ 0) (inside : k < sfsBlkNentry) (small : v < 2^32)
    (notDbl : din.indirect ≠ din.dbIndirect) (notMid : ∀ j,din.indirect ≠ entBlock dev din.dbIndirect j) (spot : Spot) :
    spotBlock (setDev dev din.indirect (putLE (dev din.indirect) (4 * k) 4 v)) din ino spot = if spot = .leaf (sfsNdirect + k) then v else spotBlock dev din ino spot := by
  have mids : ∀ j,entBlock (setDev dev din.indirect (putLE (dev din.indirect) (4 * k) 4 v)) din.dbIndirect j =
      entBlock dev din.dbIndirect j := fun j => entBlock_setDev_ne (Ne.symm notDbl)
  cases spot with
  | self | ind | dbl => rfl
  | mid j => simp [spotBlock,mids,reduceCtorEq]
  | leaf idx =>
    simp only [spotBlock,Spot.leaf.injEq]
    by_cases low : idx < sfsNdirect
    · rw [leaf_direct low,leaf_direct low,if_neg (by omega)]
    by_cases mid : idx - sfsNdirect < sfsBlkNentry
    · rw [leaf_indirect low mid,leaf_indirect low mid,entBlock_put pos inside small]
      have eq : idx - sfsNdirect = k ↔ idx = sfsNdirect + k := by omega
      simp [eq]
    rw [leaf_double low mid,leaf_double low mid,mids,entBlock_setDev_ne (Ne.symm (notMid _)),if_neg (by omega)]

lemma spotBlock_indNew (pos : e ≠ 0) (free : din.indirect = 0) (low : k < sfsBlkNentry)
    (small : v < 2^32) (blank : dev e = zero) (notDbl : e ≠ din.dbIndirect)
    (notMid : ∀ j,e ≠ entBlock dev din.dbIndirect j) (spot : Spot) :
    spotBlock (setDev dev e (putLE (dev e) (4 * k) 4 v)) {din with indirect:=e} ino spot =
      if spot = .leaf (sfsNdirect + k) then v else if spot = .ind then e else spotBlock dev din ino spot := by
  rw [spotBlock_indEntry {din with indirect:=e} pos low small notDbl notMid]
  by_cases here : spot = .leaf (sfsNdirect + k)
  · rw [if_pos here,if_pos here]
  rw [if_neg here,if_neg here]
  cases spot with
  | self | ind | dbl | mid _ => rfl
  | leaf idx =>
    rw [if_neg nofun]
    exact leaf_ext (by rfl) (fun k => by rw [free,entBlock_zero,entBlock_blank blank]) (fun _ _ => by rfl) idx

lemma spotBlock_midEntry (din : DiskInode) (pos : din.dbIndirect ≠ 0) (low : j < sfsBlkNentry) (small : e < 2^32)
    (free : entBlock dev din.dbIndirect j = 0) (blank : dev e = zero) (new : e ≠ din.dbIndirect)
    (notInd : din.dbIndirect ≠ din.indirect) (notMid : ∀ i,din.dbIndirect ≠ entBlock dev din.dbIndirect i) (spot : Spot) :
    spotBlock (setDev dev din.dbIndirect (putLE (dev din.dbIndirect) (4 * j) 4 e)) din ino spot = if spot = .mid j then e else spotBlock dev din ino spot := by
  have mids : ∀ i,entBlock (setDev dev din.dbIndirect (putLE (dev din.dbIndirect) (4 * j) 4 e)) din.dbIndirect i =
      if i = j then e else entBlock dev din.dbIndirect i := entBlock_put pos low small
  cases spot with
  | self | ind | dbl => rfl
  | mid i => simp [spotBlock,mids]
  | leaf idx =>
    refine leaf_ext rfl (fun k => entBlock_setDev_ne (Ne.symm notInd)) (fun i k => ?_) idx
    rw [mids]
    by_cases here : i = j
    · rw [if_pos here,here,free,entBlock_zero]
      apply entBlock_blank
      rw [setDev_ne new,blank]
    rw [if_neg here,entBlock_setDev_ne (Ne.symm (notMid _))]

lemma spotBlock_dblNew (pos : d ≠ 0) (empty : din.dbIndirect = 0) (low : j < sfsBlkNentry)
    (small : e < 2^32) (blank : dev d = zero) (blankMid : dev e = zero) (new : e ≠ d) (notInd : d ≠ din.indirect) (spot : Spot) :
    spotBlock (setDev dev d (putLE (dev d) (4 * j) 4 e)) {din with dbIndirect:=d} ino spot =
      if spot = .mid j then e else if spot = .dbl then d else spotBlock dev din ino spot := by
  have none : ∀ i,entBlock dev d i = 0 := entBlock_blank blank
  rw [spotBlock_midEntry {din with dbIndirect:=d} pos low small (none j) blankMid new notInd
    (fun i h => pos (h.trans (none i)))]
  by_cases here : spot = .mid j
  · rw [if_pos here,if_pos here]
  rw [if_neg here,if_neg here]
  cases spot with
  | self | ind | dbl => rfl
  | mid i => simp [spotBlock,none,empty,entBlock_zero,reduceCtorEq]
  | leaf idx =>
    rw [if_neg nofun]
    exact leaf_ext (by rfl) (fun _ => by rfl) (fun i k => by simp [none,empty,entBlock_zero]) idx

lemma spotBlock_midLeaf (pos : entBlock dev din.dbIndirect j ≠ 0) (inside : k < sfsBlkNentry) (small : v < 2^32)
    (notInd : entBlock dev din.dbIndirect j ≠ din.indirect) (notDbl : entBlock dev din.dbIndirect j ≠ din.dbIndirect)
    (only : ∀ i,entBlock dev din.dbIndirect i = entBlock dev din.dbIndirect j → i = j) (spot : Spot) :
    spotBlock (setDev dev (entBlock dev din.dbIndirect j) (putLE (dev (entBlock dev din.dbIndirect j)) (4 * k) 4 v)) din ino spot =
      if spot = .leaf (sfsNdirect + sfsBlkNentry + sfsBlkNentry * j + k) then v else spotBlock dev din ino spot := by
  have mids : ∀ i,entBlock (setDev dev (entBlock dev din.dbIndirect j) (putLE (dev (entBlock dev din.dbIndirect j)) (4 * k) 4 v))
      din.dbIndirect i = entBlock dev din.dbIndirect i := fun i => entBlock_setDev_ne (Ne.symm notDbl)
  cases spot with
  | self | ind | dbl => rfl
  | mid i => simp [spotBlock,mids,reduceCtorEq]
  | leaf idx =>
    simp only [spotBlock,Spot.leaf.injEq]
    by_cases low : idx < sfsNdirect
    · rw [leaf_direct low,leaf_direct low,if_neg (by omega)]
    by_cases mid : idx - sfsNdirect < sfsBlkNentry
    · rw [leaf_indirect low mid,leaf_indirect low mid,entBlock_setDev_ne (Ne.symm notInd),if_neg (by omega)]
    rw [leaf_double low mid,leaf_double low mid,mids]
    by_cases here : (idx - sfsNdirect - sfsBlkNentry) / sfsBlkNentry = j
    · have eq : (idx - sfsNdirect - sfsBlkNentry) % sfsBlkNentry = k ↔
          idx = sfsNdirect + sfsBlkNentry + sfsBlkNentry * j + k := by
        simp only [sfsNdirect,sfsBlkNentry] at *
        omega
      rw [here,entBlock_put pos inside small]
      simp [eq]
    have ne : idx ≠ sfsNdirect + sfsBlkNentry + sfsBlkNentry * j + k := by
      simp only [sfsNdirect,sfsBlkNentry] at *
      omega
    rw [if_neg ne,entBlock_setDev_ne]
    exact fun equal => here (only _ equal)

lemma points_spot (ino : Nat) (points : Points dev din b) : ∃ spot,spotBlock dev din ino spot = b ∧ spot ≠ .self ∧ ∀ idx,spot ≠ .leaf idx := by
  rcases points with rfl | rfl | ⟨j,rfl⟩
  · exact ⟨.ind,rfl,by simp,by simp⟩
  · exact ⟨.dbl,rfl,by simp,by simp⟩
  exact ⟨.mid j,rfl,by simp,by simp⟩

end

end Ucore.Sfs
