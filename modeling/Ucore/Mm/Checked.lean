import Ucore.Mm.Memory

-- The search of try_alloc_swap_entry.
namespace Ucore.Mm
open Bytes Outcomes Runs Tally

-- What the scan still has to visit: from next round to the offset it began at.
def Ahead (top stop next x : Nat) : Prop :=
  if next < stop then next ≤ x ∧ x < stop else next ≤ x ∧ x < top ∨ 0 < x ∧ x < stop

def laps (top stop next : Nat) : Nat := if next < stop then stop - next else top - next + (stop - 1)

section
variable {top stop next unheld : Nat}

lemma scanEntries_all (memMap : Nat → Nat) (begun : 0 < stop ∧ stop < top) (inside : 0 < next ∧ next < top) (old : unheld < top) (enough : laps top stop next ≤ fuel) :
    (∀ more,scanEntries memMap top stop (fuel + more) next unheld = scanEntries memMap top stop fuel next unheld) ∧
      ((scanEntries memMap top stop fuel next unheld).1 = 0 → ∀ x,Ahead top stop next x → memMap x ≠ swapUnused ∧
        ((scanEntries memMap top stop fuel next unheld).2.1 = 0 → memMap x ≠ 0)) ∧
      ((scanEntries memMap top stop fuel next unheld).2.1 = 0 → unheld = 0) ∧ (scanEntries memMap top stop fuel next unheld).2.1 < top := by
  induction fuel generalizing next unheld with
  | zero =>
    unfold laps at enough
    split at enough <;> omega
  | succ fuel ih =>
    have seen : (if memMap next = 0 ∧ unheld = 0 then next else unheld) < top ∧
        ((if memMap next = 0 ∧ unheld = 0 then next else unheld) = 0 → memMap next ≠ 0 ∧ unheld = 0) := by
      split <;> omega
    have turn : (if next + 1 = top then 1 else next + 1) = 1 ∧ next + 1 = top ∨ (if next + 1 = top then 1 else next + 1) = next + 1 ∧ next + 1 < top := by
      split <;> omega
    simp only [Nat.succ_add,scanEntries]
    generalize (if next + 1 = top then 1 else next + 1) = after at turn ⊢
    by_cases more : (if memMap next = swapUnused then next else 0) = 0 ∧ after ≠ stop
    · have idle : memMap next ≠ swapUnused := fun free => by rw [if_pos free] at more; omega
      have going := more.2
      obtain ⟨stable,all,kept,low⟩ := ih (by omega : 0 < after ∧ after < top) seen.1 (by unfold laps at *; split at enough <;> split <;> omega)
      rw [if_pos more]
      refine ⟨fun n => by rw [if_pos more,stable],fun none x ahead => ?_,fun none => (seen.2 (kept none)).2,low⟩
      rcases eq_or_ne x next with rfl | ne
      · exact ⟨idle,fun none => (seen.2 (kept none)).1⟩
      refine all none x ?_
      unfold Ahead at *
      split at ahead <;> split <;> omega
    rw [if_neg more]
    refine ⟨fun n => by rw [if_neg more],fun none x ahead => ?_,fun none => (seen.2 none).2,seen.1⟩
    have home : after = stop := by_contra fun going => more ⟨none,going⟩
    have here : x = next := by
      unfold Ahead at ahead
      split at ahead <;> omega
    subst here
    exact ⟨fun free => by rw [if_pos free] at none; omega,fun none => (seen.2 none).1⟩

end

section
variable {s : Vm}

-- A stolen page leaves the hash; its offset is then unused.
lemma steal_run (cache : Cache s.toCore) (count : s.memMap o = 0) (pos : o ≠ 0)
    (scan : scanEntries s.memMap s.maxSwapOffset s.next s.maxSwapOffset s.next 0 = (0,o,next)) :
    ∃ t,tryAllocSwapEntry s = .ok o t ∧ t.memMap = set s.memMap o swapUnused ∧ t.find o = none := by
  obtain ⟨f,mem,rfl⟩ := cache.zero o count
  have cached : s.swap f = true := (cache.hashed f).mp mem
  obtain ⟨counts,hash,index,_⟩ := s.toCore.unlisted_cache f
  let moving : Vm := {s with next:=next}
  have listed : swapListDel f moving = _ := swapListDel_run cached
  have gone : ((s.unlisted f).hash.erase f).find? (fun page => (s.unlisted f).index page = s.index f) = none := by
    rw [hash,index]
    refine List.find?_eq_none.mpr fun g left => ?_
    obtain ⟨ne,there⟩ := cache.hashOnce.mem_erase_iff.mp left
    simpa using fun eq => ne (cache.distinct g there f mem eq)
  simp only [tryAllocSwapEntry,rules,scan,pos,ne_eq,show s.find (s.index f) = some f from cache.find_of cached,cached]
  rw [show swapListDel f {s with next:=next} = _ from listed,next_ok]
  by_cases idle : s.ref f = 0
  · have freed : swapFreePage f (moving.put (moving.toCore.unlisted f)) = _ := swapFreePage_unlisted cached idle
    simp only [idle,rules,freed,setCount_run]
    exact ⟨_,rfl,congrArg (set · _ _) counts,gone⟩
  have removed : swapPageDel f (moving.put (moving.toCore.unlisted f)) = _ := swapPageDel_run ((congrFun (s.toCore.unlisted_frames f).2.2.2 f).trans cached)
  simp only [idle,rules,removed,setCount_run]
  exact ⟨_,rfl,congrArg (set · _ _) counts,gone⟩

theorem swap_entry_found (cache : Cache s.toCore) (cursor : s.Cursor) (short : ∀ x,s.memMap x ≤ swapUnused) :
    (∀ more,scanEntries s.memMap s.maxSwapOffset s.next (s.maxSwapOffset + more) s.next 0 =
      scanEntries s.memMap s.maxSwapOffset s.next s.maxSwapOffset s.next 0) ∧
    ∃ o t,tryAllocSwapEntry s = .ok o t ∧ (o = 0 ↔ ∀ x,1 ≤ x → x < s.maxSwapOffset → 0 < s.memMap x ∧ s.memMap x < swapUnused) ∧
      (o ≠ 0 → t.memMap o = swapUnused ∧ t.find o = none) ∧ ∀ x,x ≠ o → t.memMap x = s.memMap x := by
  have round : laps s.maxSwapOffset s.next s.next ≤ s.maxSwapOffset := by
    obtain ⟨_,_⟩ := cursor
    unfold laps
    rw [if_neg (Nat.lt_irrefl _)]
    omega
  obtain ⟨stable,all,_,low⟩ := scanEntries_all s.memMap cursor cursor (cursor.1.trans cursor.2) round
  have scanned : Scanned s.memMap s.maxSwapOffset (scanEntries s.memMap s.maxSwapOffset s.next s.maxSwapOffset s.next 0) :=
    scanEntries_scanned cursor fun some => absurd rfl some
  refine ⟨stable,?_⟩
  clear stable
  generalize scan : scanEntries s.memMap s.maxSwapOffset s.next s.maxSwapOffset s.next 0 = found at all low scanned
  obtain ⟨empty,unheld,next⟩ := found
  obtain ⟨free,zero,_⟩ := scanned
  dsimp only at all low free zero
  rcases eq_or_ne empty 0 with rfl | some
  · rcases eq_or_ne unheld 0 with rfl | held
    · refine ⟨0,{s with next:=next},by simp [tryAllocSwapEntry,scan],iff_of_true rfl fun x one top => ?_,fun no => absurd rfl no,fun _ _ => rfl⟩
      obtain ⟨used,nonzero⟩ := all rfl x (by unfold Ahead; rw [if_neg (Nat.lt_irrefl _)]; omega)
      exact ⟨Nat.pos_of_ne_zero (nonzero rfl),lt_of_le_of_ne (short x) used⟩
    obtain ⟨t,ran,counts,gone⟩ := steal_run cache (zero held) held scan
    refine ⟨unheld,t,ran,iff_of_false held fun every => ?_,fun _ => ⟨by rw [counts,set_self],gone⟩,fun x ne => by rw [counts,set_ne ne]⟩
    exact absurd (zero held) (every unheld (Nat.pos_of_ne_zero held) low).1.ne'
  obtain ⟨unused,top⟩ := free some
  refine ⟨empty,{s with next:=next},by simp [tryAllocSwapEntry,scan,some],iff_of_false some fun every => ?_,fun _ => ⟨unused,?_⟩,fun _ _ => rfl⟩
  · exact absurd unused (every empty (Nat.pos_of_ne_zero some) top).2.ne
  · exact List.find?_eq_none.mpr fun f mem => by simpa using fun eq => cache.known f mem ((congrArg s.memMap eq).trans unused)

end

-- Offsets 1 and 3 are held, and 2 is kept by a page of the cache alone. The search
-- starts at 3, goes round and steals 2.
def fullSwap : Vm := {machine with
  free:=[1,2,3],swap:=fun f => f = 0,active:=fun f => f = 0,index:=fun _ => 2,hash:=[0],activeList:=[0],nrActive:=1
  memMap:=fun o => if o = 2 then 0 else 1,maxSwapOffset:=4,next:=3}

theorem swap_entry_found_steal : ∃ t,tryAllocSwapEntry fullSwap = .ok 2 t ∧ fullSwap.find 2 = some 0 ∧ t.memMap 2 = swapUnused ∧ t.find 2 = none := by
  have cache : Cache fullSwap.toCore := ⟨by simp [fullSwap],by simp [fullSwap,swapUnused],by simp [fullSwap],by simp [fullSwap],by simp [fullSwap]⟩
  obtain ⟨_,o,t,ran,_,found,_⟩ := swap_entry_found cache ⟨by decide,by decide⟩ fun x => by simp only [fullSwap]; split <;> decide
  have two : ∃ u,tryAllocSwapEntry fullSwap = .ok 2 u := ⟨_,rfl⟩
  obtain ⟨u,same⟩ := two
  rw [same] at ran
  cases ran
  exact ⟨_,same,rfl,found (by decide)⟩

end Ucore.Mm
