import Ucore.Vmm.Shared

-- mm_map and mm_unmap against a map from pages to flags and entries.
namespace Ucore.Vmm
open Outcomes Runs
open Function (update update_of_ne update_self)

-- Page-table entries as words, zero for none. The script gives the words the
-- page fault writes and whether a page table can be had (zero if not).
structure Entries where
  pte : Nat → Nat → Nat
  script : Nat → Nat
  tick : Nat

open Entries

def clearWrite (e : Nat) : Nat := if e / 2 % 2 = 1 then e - 2 else e

-- One page of copy_range: a present entry loses the write bit on both sides
-- unless the area is shared, a swap entry is copied.
def copyPage (target source p : Nat) (share : Bool) (tab : Entries) : Bool × Entries :=
  if tab.pte source p = 0 then (true,tab)
  else if tab.script tab.tick = 0 then (false,{tab with tick:=tab.tick + 1})
  else if tab.pte source p % 2 = 1 && !share then
    let e := clearWrite (tab.pte source p)
    (true,{tab with pte:=fun m q => if q = p ∧ (m = source ∨ m = target) then e else tab.pte m q,tick:=tab.tick + 1})
  else (true,{tab with pte:=fun m q => if q = p ∧ m = target then tab.pte source p else tab.pte m q,tick:=tab.tick + 1})

def copyPages (target source p n : Nat) (share : Bool) (tab : Entries) : Bool × Entries :=
  match n with
  | 0 => (true,tab)
  | n + 1 =>
    let r := copyPage target source p share tab
    if r.1 then copyPages target source (p + 1) n share r.2 else r

-- unmap_range_pte over the tables in the range. A table that is not there has
-- no entry to remove.
def unmapPages (m p : Nat) : Nat → Entries → Entries
  | 0,tab => tab
  | n + 1,tab => unmapPages m (p + 1) n (if tab.pte m p = 0 then tab else {tab with pte:=update tab.pte m (update (tab.pte m) p 0)})

def entryPager : Pager Entries where
  setupPgdir _ tab := (decide (tab.script tab.tick ≠ 0),{tab with tick:=tab.tick + 1})
  unmapRange m start stop tab := unmapPages m ((start + (pgSize - 1)) / pgSize) ((stop + (pgSize - 1)) / pgSize - (start + (pgSize - 1)) / pgSize) tab
  copyRange target source start stop share tab := copyPages target source (start / pgSize) ((stop - start) / pgSize) share tab
  fault m addr tab := {tab with pte:=fun j p => if j = m ∧ p = addr / pgSize then tab.script tab.tick else tab.pte j p,tick:=tab.tick + 1}
  release _ _ tab := tab

def Entries.held (tab : Entries) (m p : Nat) : Prop := tab.pte m p ≠ 0

section Pager

lemma copyPage_held (goal source p : Nat) (share : Bool) (tab : Entries) (j q : Nat) (entry : (copyPage goal source p share tab).2.held j q) :
    tab.held j q ∨ j = goal ∧ q = p := by
  unfold copyPage at entry
  split at entry
  · exact .inl entry
  rename_i some
  split at entry
  · exact .inl entry
  split at entry
  · by_cases here : q = p ∧ (j = source ∨ j = goal)
    · obtain ⟨rfl,rfl | rfl⟩ := here
      · exact .inl some
      exact .inr ⟨rfl,rfl⟩
    left
    simpa only [held,if_neg here] using entry
  by_cases here : q = p ∧ j = goal
  · exact .inr ⟨here.2,here.1⟩
  left
  simpa only [held,if_neg here] using entry

lemma copyPages_held (goal source p n : Nat) (share : Bool) (tab : Entries) (j q : Nat) (entry : (copyPages goal source p n share tab).2.held j q) :
    tab.held j q ∨ j = goal ∧ p ≤ q ∧ q < p + n := by
  induction n generalizing p tab with
  | zero => exact .inl entry
  | succ n ih =>
    unfold copyPages at entry
    dsimp only at entry
    split at entry
    · rcases ih _ _ entry with old | ⟨eq,_⟩
      · rcases copyPage_held _ _ _ _ _ _ _ old with old | ⟨eq,rfl⟩
        · exact .inl old
        exact .inr ⟨eq,by omega⟩
      exact .inr ⟨eq,by omega⟩
    rcases copyPage_held _ _ _ _ _ _ _ entry with old | ⟨eq,rfl⟩
    · exact .inl old
    exact .inr ⟨eq,by omega⟩

lemma unmapPages_pte (m p n : Nat) (tab : Entries) (j q : Nat) : (unmapPages m p n tab).pte j q = if j = m ∧ p ≤ q ∧ q < p + n then 0 else tab.pte j q := by
  induction n generalizing p tab with
  | zero => exact (if_neg (by omega)).symm
  | succ n ih =>
    rw [unmapPages,ih]
    -- Whether there was an entry or not, there is none at p now.
    have page : (if tab.pte m p = 0 then tab else {tab with pte:=update tab.pte m (update (tab.pte m) p 0)}).pte j q = if j = m ∧ q = p then 0 else tab.pte j q := by
      by_cases at_ : j = m ∧ q = p
      · obtain ⟨rfl,rfl⟩ := at_
        split <;> simp_all
      rw [if_neg at_]
      split
      · rfl
      by_cases same : j = m
      · subst same
        simp [update_of_ne fun eq => at_ ⟨rfl,eq⟩]
      simp [update_of_ne same]
    rw [page]
    split_ifs <;> first | rfl | omega

lemma unmapRange_pte (m start stop : Nat) (tab : Entries) (j q : Nat) :
    (entryPager.unmapRange m start stop tab).pte j q = if j = m ∧ start ≤ q * pgSize ∧ q * pgSize < stop then 0 else tab.pte j q := by
  unfold entryPager
  dsimp only
  rw [unmapPages_pte]
  refine if_congr (and_congr_right fun _ => ?_) rfl rfl
  unfold pgSize
  omega

lemma entryPager_tracks : entryPager.Tracks held := by
  refine ⟨fun _ _ _ _ => id,fun m start stop tab j p => ?_,fun goal source start stop share tab j p low high entry => ?_,fun m addr tab j p entry => ?_,fun _ _ _ _ _ => id⟩
  · by_cases here : j = m ∧ start ≤ p * pgSize ∧ p * pgSize < stop
    · simp [held,unmapRange_pte,here]
    simp [held,unmapRange_pte,here]
  · rcases copyPages_held _ _ _ _ _ _ _ _ entry with old | ⟨eq,_,_⟩
    · exact .inl old
    refine .inr ⟨eq,?_⟩
    unfold pgSize at *
    omega
  by_cases here : j = m ∧ p = addr / pgSize
  · exact .inr here
  left
  simpa only [held,entryPager,if_neg here] using entry

end Pager

def flagsAt (areas : List Area) (p : Nat) : Option Flags := (areas.find? fun a => inside a.start a.stop (p * pgSize)).map Area.flags

def MeetsPage (addr len p : Nat) : Prop := p * pgSize < addr + len ∧ addr < (p + 1) * pgSize

instance (addr len p : Nat) : Decidable (MeetsPage addr len p) := by unfold MeetsPage; infer_instance

abbrev Memory := World Entries

def Reachable (w : Memory) : Prop := ∃ grants script events,Path (Moves entryPager) (boot grants ⟨fun _ _ => 0,script,0⟩) events w

def MapContract (m addr len : Nat) (flags : Flags) (w : Memory) : Prop :=
  match mmMap m addr len flags w with
  | .ok _ t => (∀ p,MeetsPage addr len p → flagsAt (w.areas m) p = none ∧ flagsAt (t.areas m) p = some flags) ∧
    (∀ j p,¬ (j = m ∧ MeetsPage addr len p) → flagsAt (t.areas j) p = flagsAt (w.areas j) p) ∧ t.tables = w.tables
  | .err _ t => t.areas = w.areas ∧ t.tables = w.tables
  | .fault _ => True

def UnmapContract (m addr len : Nat) (w : Memory) : Prop :=
  match mmUnmap entryPager m addr len w with
  | .ok _ t => (∀ p,MeetsPage addr len p → flagsAt (t.areas m) p = none ∧ t.tables.pte m p = 0) ∧
    ∀ j p,¬ (j = m ∧ MeetsPage addr len p) → flagsAt (t.areas j) p = flagsAt (w.areas j) p ∧ t.tables.pte j p = w.tables.pte j p
  | .err _ t => t.areas = w.areas ∧ t.tables = w.tables
  | .fault _ => True

def WrapsInPage (addr len : Nat) : Prop :=
  word ≤ addr + len ∧ (addr + len - word) / pgSize = addr / pgSize ∧ (addr + len - word) % pgSize ≠ 0 ∧ userBase ≤ addr ∧ addr < userTop

instance (addr len : Nat) : Decidable (WrapsInPage addr len) := by unfold WrapsInPage; infer_instance

section Ends
variable {addr len : Nat}

lemma straight_pages (inWord : addr < word) (access : userAccess (lowEnd addr) (highEnd addr len) = true) (straight : addr + len < word) (some : 0 < len) (p : Nat) :
    MeetsPage addr len p ↔ lowEnd addr ≤ p * pgSize ∧ p * pgSize < highEnd addr len := by
  obtain ⟨_,_,_⟩ := userAccess_iff.mp access
  unfold MeetsPage
  unfold lowEnd highEnd roundUp roundDown userBase userTop word pgSize at *
  omega

-- A range that wraps gets through only from a place inside a page to a lower
-- place in it.
lemma wrapped_access (inWord : addr < word) (size : len < word) (wraps : word ≤ addr + len) :
    userAccess (lowEnd addr) (highEnd addr len) = true ↔ WrapsInPage addr len := by
  rw [userAccess_iff]
  unfold WrapsInPage
  unfold lowEnd highEnd roundUp roundDown userBase userTop word pgSize at *
  omega

end Ends

section FlagsAt
variable {areas : List Area} {a : Area} {p : Nat}

lemma flagsAt_some (ordered : Ordered areas) (mem : a ∈ areas) (has : a.Has (p * pgSize)) : flagsAt areas p = some a.flags := by
  unfold flagsAt
  cases got : areas.find? fun a => inside a.start a.stop (p * pgSize) with
  | none =>
    have := List.find?_eq_none.mp got a mem
    exact (this ((inside_has a _).mpr has)).elim
  | some b =>
    have on := List.find?_some got
    have has' := (inside_has b _).mp on
    rw [ordered.unique (List.mem_of_find?_eq_some got) mem has' has]
    rfl

lemma flagsAt_none (clear : ∀ a ∈ areas,¬ a.Has (p * pgSize)) : flagsAt areas p = none := by
  unfold flagsAt
  rw [List.find?_eq_none.mpr fun a mem => by rw [inside_has]; exact clear a mem]
  rfl

lemma flagsAt_congr (ordered : Ordered areas) (ordered' : Ordered areas') (there : ∀ a ∈ areas,a.Has (p * pgSize) → ∃ b ∈ areas',b.Has (p * pgSize) ∧ b.flags = a.flags)
    (back : ∀ b ∈ areas',b.Has (p * pgSize) → ∃ a ∈ areas,a.Has (p * pgSize)) : flagsAt areas' p = flagsAt areas p := by
  by_cases covered : ∃ a ∈ areas,a.Has (p * pgSize)
  · obtain ⟨a,mem,has⟩ := covered
    obtain ⟨b,member',has',eq⟩ := there a mem has
    rw [flagsAt_some ordered mem has,flagsAt_some ordered' member' has',eq]
  have clear : ∀ a ∈ areas,¬ a.Has (p * pgSize) := fun a mem has => covered ⟨a,mem,has⟩
  rw [flagsAt_none clear,flagsAt_none fun b mem has => covered (back b mem has)]

end FlagsAt

section Contracts
variable {w : Memory} {m addr len : Nat}

section
variable (tidy : Tidy held w) (here : m ∈ w.live) (inWord : addr < word) (straight : userAccess (lowEnd addr) (highEnd addr len) = true → addr + len < word) (some : 0 < len)
include tidy here inWord straight some

lemma map_contract {flags : Flags} (plain : userAccess (lowEnd addr) (highEnd addr len) = true → isShared flags = false) : MapContract m addr len flags w := by
  unfold MapContract
  have run := mmMap_run (tidy.ordered m) addr len flags
  cases ran : mmMap m addr len flags w with
  | fault x => trivial
  | err x t =>
    rw [ran] at run
    obtain ⟨n,rfl⟩ := run
    exact ⟨rfl,rfl⟩
  | ok _ t =>
    rw [ran] at run
    have fits := run.fits
    obtain ⟨access,rfl,ne,rfl⟩ := run
    have pages := straight_pages inWord access (straight access) some
    have ordered := tidy.ordered m
    have perm := insertArea_perm ordered ⟨lowEnd addr,highEnd addr len,flags &&& ~~~vmShare,none,0⟩
    have after := ordered.insert fits ne
    dsimp only
    refine ⟨fun p meets => ⟨flagsAt_none fun a mem has => ?_,?_⟩,fun j p out => ?_,rfl⟩
    · have range := (pages p).mp meets
      have := ne a mem
      unfold Apart at this
      unfold Area.Has at has
      dsimp only at this
      omega
    · rw [update_self]
      rw [flagsAt_some after (perm.mem_iff.mpr List.mem_cons_self) ((pages p).mp meets),share_kept.mpr (plain access)]
    rcases eq_or_ne j m with rfl | differ
    · rw [update_self]
      refine flagsAt_congr ordered after (fun a mem has => ⟨a,perm.mem_iff.mpr (List.mem_cons_of_mem _ mem),has,rfl⟩) fun b mem has => ?_
      rcases List.mem_cons.mp (perm.mem_iff.mp mem) with rfl | old
      · exact (out ⟨rfl,(pages p).mpr has⟩).elim
      exact ⟨b,old,has⟩
    rw [update_of_ne differ]

lemma unmap_contract : UnmapContract m addr len w := by
  unfold UnmapContract
  have run : (mmUnmap entryPager m addr len w).Meets _ _ _ := mmUnmap_run (tidy.ordered m) here addr len
  cases ran : mmUnmap entryPager m addr len w with
  | fault x => trivial
  | err x t =>
    rw [ran] at run
    obtain ⟨n,rfl⟩ := run
    exact ⟨rfl,rfl⟩
  | ok _ t =>
    rw [ran] at run
    obtain ⟨access,bare⟩ := run
    have order := (userAccess_iff.mp access).2.1
    have pages := straight_pages inWord access (straight access) some
    have entries := bare.entries entryPager_tracks tidy
    obtain ⟨new,areas,perm,ordered⟩ := bare.areas
    have fits := (tidy.ordered m).fits
    have cover : ∀ p,(∃ b ∈ new,b.Has (p * pgSize)) ↔ (∃ a ∈ w.areas m,a.Has (p * pgSize)) ∧ ¬ MeetsPage addr len p := fun p => by
      rw [pages]
      constructor
      · rintro ⟨b,mem,has⟩
        obtain ⟨a,old,piece⟩ := List.mem_flatMap.mp (perm.mem_iff.mp mem)
        obtain ⟨has,out⟩ := (pieces_has (fits a old) order _).mp ⟨b,piece,has⟩
        exact ⟨⟨a,old,has⟩,out⟩
      rintro ⟨⟨a,old,has⟩,out⟩
      obtain ⟨b,piece,has⟩ := (pieces_has (fits a old) order _).mpr ⟨has,out⟩
      exact ⟨b,perm.mem_iff.mpr (List.mem_flatMap.mpr ⟨a,old,piece⟩),has⟩
    refine ⟨fun p meets => ⟨?_,?_⟩,fun j p out => ⟨?_,?_⟩⟩
    · rw [areas,update_self]
      exact flagsAt_none fun b mem has => ((cover p).mp ⟨b,mem,has⟩).2 meets
    · by_contra entry
      exact ((entries m p).mp entry).2 ⟨rfl,(pages p).mp meets⟩
    · rcases eq_or_ne j m with rfl | ne
      · rw [areas,update_self]
        refine flagsAt_congr (tidy.ordered j) ordered (fun a mem has => ?_) fun b mem has => ((cover p).mp ⟨b,mem,has⟩).1
        obtain ⟨b,piece,has⟩ := (pieces_has (fits a mem) order _).mpr ⟨has,fun range => out ⟨rfl,(pages p).mpr range⟩⟩
        exact ⟨b,perm.mem_iff.mpr (List.mem_flatMap.mpr ⟨a,mem,piece⟩),has,(pieces_cases piece).1⟩
      rw [areas,update_of_ne ne]
    rw [bare.tables]
    have eq : ∀ (l : List Area) (tab : Entries),(l.foldl (clearPart entryPager m (lowEnd addr) (highEnd addr len)) tab).pte j p = tab.pte j p := by
      intro l
      induction l with
      | nil => exact fun _ => rfl
      | cons a l ih =>
        intro _
        rw [List.foldl_cons,ih,clearPart,unmapRange_pte]
        refine if_neg fun inside => out ⟨inside.1,(pages p).mpr ?_⟩
        exact ⟨le_trans (Nat.le_max_left ..) inside.2.1,lt_of_lt_of_le inside.2.2 (Nat.min_le_left ..)⟩
    exact eq _ _

end

lemma Reachable.tidy (reachable : Reachable w) : Tidy held w := by
  obtain ⟨grants,_,_,path⟩ := reachable
  exact Moves.tidy_run entryPager_tracks path (boot_tidy grants fun _ _ entry => entry rfl)

def emptySpace : Memory := {boot (fun _ => true) ⟨fun _ _ => 0,fun _ => 1,1⟩ with live:={0}}

lemma emptySpace_reachable : Reachable emptySpace :=
  ⟨fun _ => true,fun _ => 1,_,.step .nil ⟨show (Event.mmCreate 0).Enabled _ from Finset.notMem_empty 0,.inl rfl⟩⟩

lemma emptySpace_map (flags : Flags) (access : userAccess (lowEnd addr) (highEnd addr len) = true) :
    ∃ t,mmMap 0 addr len flags emptySpace = .ok ⟨lowEnd addr,highEnd addr len,flags &&& ~~~vmShare,none,0⟩ t ∧ t.areas 0 = [⟨lowEnd addr,highEnd addr len,flags &&& ~~~vmShare,none,0⟩] := by
  have fits := ends_fit access (flags &&& ~~~vmShare) none 0
  refine ⟨{emptySpace with areas:=update emptySpace.areas 0 [⟨lowEnd addr,highEnd addr len,flags &&& ~~~vmShare,none,0⟩],tick:=1},?_,rfl⟩
  simp only [mmMap,ite_run,rules,vmaCreate,granted,access,Bool.not_true]
  have clear : findVma (emptySpace.areas 0) (lowEnd addr) = none := rfl
  have yes : emptySpace.grants emptySpace.tick = true := rfl
  simp only [clear,yes,Option.any_none,rules]
  rw [insertVmaStruct_ok (w := {emptySpace with tick:=emptySpace.tick + 1}) (show Ordered [] from ⟨.nil,by simp⟩) fits fun _ no => absurd no List.not_mem_nil]
  rfl

-- The page after addr's is in the range, but not in the area.
lemma wrapped_breaks (inWord : addr < word) (size : len < word) (wraps : WrapsInPage addr len) (flags : Flags) : ¬ MapContract 0 addr len flags emptySpace := by
  intro contract
  have access := (wrapped_access inWord size wraps.1).mpr wraps
  obtain ⟨t,ran,areas⟩ := emptySpace_map flags access
  unfold MapContract at contract
  rw [ran] at contract
  have meets : MeetsPage addr len (addr / pgSize + 1) := by
    obtain ⟨far,-,-,-,top⟩ := wraps
    unfold MeetsPage
    unfold pgSize word userTop at *
    omega
  have covered := (contract.1 _ meets).2
  rw [areas,flagsAt_none] at covered
  · cases covered
  intro a mem has
  obtain rfl := List.mem_singleton.mp mem
  obtain ⟨_,_,-,-,_⟩ := wraps
  unfold Area.Has at has
  dsimp only at has
  unfold highEnd lowEnd roundUp roundDown pgSize word userTop at *
  omega

lemma shared_breaks (inWord : addr < word) (some : 0 < len) (access : userAccess (lowEnd addr) (highEnd addr len) = true) (straight : addr + len < word) {flags : Flags}
    (contract : MapContract 0 addr len flags emptySpace) : isShared flags = false := by
  obtain ⟨t,ran,areas⟩ := emptySpace_map flags access
  unfold MapContract at contract
  rw [ran] at contract
  have inside : lowEnd addr ≤ addr / pgSize * pgSize ∧ addr / pgSize * pgSize < highEnd addr len := by
    obtain ⟨_,_,_⟩ := userAccess_iff.mp access
    unfold lowEnd highEnd roundUp roundDown userBase userTop word pgSize at *
    omega
  have covered := (contract.1 (addr / pgSize) ((straight_pages inWord access straight some _).mpr inside)).2
  have ordered : Ordered [⟨lowEnd addr,highEnd addr len,flags &&& ~~~vmShare,none,0⟩] := ⟨List.pairwise_singleton ..,by simpa using ends_fit access _ none 0⟩
  rw [areas,flagsAt_some ordered List.mem_cons_self inside] at covered
  exact share_kept.mp (Option.some.inj covered)

end Contracts

end Ucore.Vmm
