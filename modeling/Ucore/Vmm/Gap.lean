import Ucore.Vmm.Contract

-- get_unmapped_area: the highest gap that is long enough.
namespace Ucore.Vmm
open List
variable {areas : List Area} {len start x : Nat}

-- The walk from the end of the mmap list.
def unmappedLoop (len : Nat) : List Area → Nat → Nat
  | [],start => if start ≥ userBase then start else 0
  | vma :: rest,start =>
    if start ≥ vma.stop then start
    else if start + len > vma.start then
      if len ≥ vma.start then 0 else unmappedLoop len rest (vma.start - len)
    else unmappedLoop len rest start

def getUnmappedArea (areas : List Area) (len : Nat) : Nat :=
  if len = 0 ∨ len > userTop then 0 else unmappedLoop len areas.reverse (userTop - len)

structure Suits (areas : List Area) (len s : Nat) : Prop where
  aligned : s % pgSize = 0
  low : userBase ≤ s
  high : s + len ≤ userTop
  clear : ∀ a ∈ areas,∀ x,s ≤ x → x < s + len → ¬ a.Has x

lemma Suits.apart (suits : Suits areas len x) (some : 0 < len) (mem : a ∈ areas) (fits : a.Fits) : a.stop ≤ x ∨ x + len ≤ a.start := by
  have solid := fits.solid
  have clear := suits.clear a mem (max x a.start)
  unfold Area.Has at clear
  omega

def Found (areas : List Area) (len s : Nat) : Prop := (s = 0 ∧ ∀ x,¬ Suits areas len x) ∨ IsGreatest {x | Suits areas len x} s

-- done is the part of the list already passed: start is below it, and no address
-- above start suits.
lemma unmappedLoop_found (some : 0 < len) (all : len % pgSize = 0) (rest done : List Area) (start : Nat) (ordered : Ordered (rest.reverse ++ done))
    (passed : ∀ a ∈ done,start + len ≤ a.start) (even : start % pgSize = 0) (high : start + len ≤ userTop)
    (most : ∀ x,Suits (rest.reverse ++ done) len x → x ≤ start) : Found (rest.reverse ++ done) len (unmappedLoop len rest start) := by
  induction rest generalizing done start with
  | nil =>
    rw [unmappedLoop]
    split
    next low => exact .inr ⟨⟨even,low,high,fun a mem x _ below has => by have := passed a mem; have := has.1; omega⟩,most⟩
    next low => exact .inl ⟨rfl,fun x suits => low (suits.low.trans (most x suits))⟩
  | cons vma rest ih =>
    rw [reverse_cons,append_assoc,singleton_append] at ordered most ⊢
    have mem : vma ∈ rest.reverse ++ vma :: done := by simp
    have fits := ordered.fits vma mem
    have solid := fits.solid
    rw [unmappedLoop]
    split
    next above =>
      refine .inr ⟨⟨even,by have := fits.low; omega,high,fun a mem x least below has => ?_⟩,most⟩
      obtain ⟨_,_⟩ := has
      rcases mem_append.mp mem with old | here
      · have := (pairwise_append.mp ordered.order).2.2 a old vma mem_cons_self
        omega
      rcases mem_cons.mp here with rfl | later
      · omega
      have := passed a later
      omega
    rename_i above
    have lower (x : Nat) (suits : Suits (rest.reverse ++ vma :: done) len x) : x + len ≤ vma.start :=
      (suits.apart some mem fits).resolve_left fun past => above (past.trans (most x suits))
    split
    next _ =>
      split
      · refine .inl ⟨rfl,fun x suits => ?_⟩
        have := lower x suits
        have : 0 < userBase ∧ _ := ⟨by decide,suits.low⟩
        omega
      refine ih _ _ ordered (fun a mem => ?_) (Nat.sub_mod_eq_zero_of_mod_eq (fits.startAligned.trans all.symm)) (by have := fits.high; omega)
        fun x suits => by have := lower x suits; omega
      rcases mem_cons.mp mem with rfl | mem
      · omega
      have := passed a mem
      omega
    next _ => exact ih _ _ ordered (forall_mem_cons.mpr ⟨by omega,passed⟩) even high most

theorem unmapped_area (reachable : Reachable w) (m len : Nat) (whole : len % pgSize = 0) :
    (getUnmappedArea (w.areas m) len = 0 ↔ len = 0 ∨ ∀ x,¬ Suits (w.areas m) len x) ∧
      (getUnmappedArea (w.areas m) len ≠ 0 → IsGreatest {x | Suits (w.areas m) len x} (getUnmappedArea (w.areas m) len)) := by
  rw [getUnmappedArea]
  by_cases none : len = 0 ∨ len > userTop
  · rw [if_pos none]
    refine ⟨⟨fun _ => none.imp_right fun long x suits => ?_,fun _ => rfl⟩,fun no => absurd rfl no⟩
    have := suits.high
    omega
  rw [if_neg none]
  have found := unmappedLoop_found (by omega) whole (w.areas m).reverse [] (userTop - len) (by simpa using reachable.tidy.ordered m) nofun
    (Nat.sub_mod_eq_zero_of_mod_eq whole.symm) (by omega) fun x suits => by have := suits.high; omega
  rw [append_nil,reverse_reverse] at found
  obtain ⟨zero,never⟩ | most := found
  · exact ⟨⟨fun _ => .inr never,fun _ => zero⟩,fun some => absurd zero some⟩
  have low : userBase ≤ _ := most.1.low
  refine ⟨⟨fun zero => ?_,fun no => ?_⟩,fun _ => most⟩
  · rw [zero] at low
    cases low
  · exact absurd most.1 (no.resolve_left (by omega) _)

-- Two pages are looked for above, between and below the areas at the top.
theorem unmapped_area_below : ∃ w : Memory,Reachable w ∧ (w.areas 0).map Area.start = [0xfffffffc000,0xfffffffe000] ∧ IsGreatest {x | Suits (w.areas 0) 0x2000 x} 0xfffffffa000 := by
  have ran : (runs entryPager (fun _ _ => True) (boot (fun _ => true) ⟨fun _ _ => 0,fun _ => 1,0⟩)
      [.mmCreate 0,.map 0 0xfffffffe000 0x1000 vmReadWrite,.map 0 0xfffffffc000 0x1000 vmReadWrite]).map (fun w => ((w.areas 0).map Area.start,getUnmappedArea (w.areas 0) 0x2000)) =
      some ([0xfffffffc000,0xfffffffe000],0xfffffffa000) := by decide +kernel
  obtain ⟨w,ran,same⟩ := Option.map_eq_some_iff.mp ran
  injection same with starts found
  have reachable : Reachable w := ⟨_,_,_,(runs_path ran).mono fun _ _ _ moved => moved.1⟩
  have most := (unmapped_area reachable 0 0x2000 rfl).2 (by rw [found]; decide)
  rw [found] at most
  exact ⟨w,reachable,starts,most⟩

end Ucore.Vmm
