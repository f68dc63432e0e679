import Ucore.Lib.Runs
import Ucore.Buddy.Alloc
import Ucore.Buddy.Init

-- Histories of the allocator. zones and allocated record what the calls were
-- given and returned; the functions never read them.
namespace Ucore.Buddy
open Dyadic
open Option (mem_unique)

structure Heap where
  pmm : Pmm
  zones : List (Nat × Nat)
  allocated : Nat → Bool

inductive Op where
  | initMemmap (base n : Nat)
  | allocPages (n : Nat)
  | freePages (base n : Nat)

def Heap.exec (h : Heap) : Op → Except Fault Heap
  | .initMemmap base n => do
    let s ← buddyInitMemmap h.pmm base n
    .ok {h with pmm:=s,zones:=h.zones ++ [(base,n)]}
  | .allocPages n => do
    let (page,s) ← buddyAllocPages h.pmm n
    match page with
    | some page => .ok {h with pmm:=s,allocated:=fun x => h.allocated x || (page ≤ x && x < page + n)}
    | none => .ok {h with pmm:=s}
  | .freePages base n => do
    let s ← buddyFreePages h.pmm base n
    .ok {h with pmm:=s,allocated:=fun x => h.allocated x && !(base ≤ x && x < base + n)}

def Permitted (h : Heap) : Op → Prop
  | .initMemmap base n => 0 < n ∧ h.pmm.zoneNum < maxZoneNum ∧ base + n ≤ h.pmm.npage ∧
      ∀ x,base ≤ x → x < base + n → (h.pmm.page x).pgReserved = true
  | .allocPages n => 0 < n ∧ n ≤ 2^16
  | .freePages base n => 0 < n ∧ n ≤ 2^16 ∧ (∀ x,base ≤ x → x < base + n → h.allocated x = true) ∧
      ∃ k,∀ x,base ≤ x → x < base + n → InZone h.zones k x

def Step (h : Heap) (op : Op) (next : Heap) : Prop := Permitted h op ∧ h.exec op = .ok next
def Boot (maxpa : Nat) (mem : Nat → Page) (h : Heap) : Prop := h = ⟨pageInit maxpa mem,[],fun _ => false⟩
def Reached (maxpa : Nat) (mem : Nat → Page) : Heap → Prop := Runs.Reached (Boot maxpa mem) Step

def Heap.busy (h : Heap) : Set Nat := {x | h.allocated x = true}
lemma mem_busy {h : Heap} : x ∈ h.busy ↔ h.allocated x = true := .rfl

def Good (mem : Nat → Page) (h : Heap) : Prop :=
  Inv (fun p => {mem p with pgReserved:=true}) h.zones h.pmm h.busy

lemma boot_good (boot : Boot maxpa mem h) : Good mem h := by
  subst h
  have none k p : ¬ InZone [] k p := by
    rintro ⟨z,got,_⟩
    simp at got
  have lists : (pageInit maxpa mem).freeList = fun _ => [] := by funext o; simp [pageInit,buddyInit]
  have counts : (pageInit maxpa mem).nrFree = fun _ => 0 := by funext o; simp [pageInit,buddyInit]
  refine ⟨⟨rfl,Nat.zero_le _,?_,?_,?_,?_,?_,fun _ _ => rfl,fun _ _ => rfl⟩,?_,?_,?_,?_,?_,?_,?_,?_⟩
  · have cut : min maxpa svSize ≤ svSize := Nat.min_le_right _ _
    simp only [pageInit,buddyInit,svSize,reservedDriverOsSize,pgSize] at *
    omega
  · intro k z got; simp at got
  · intro k z got; simp at got
  · intro k l p one; exact (none k p one).elim
  · intro k p member; exact (none k p member).elim
  · intro o p
    simp only [lists,List.not_mem_nil,false_iff]
    rintro ⟨⟨k,member⟩,_⟩
    exact none k p member
  · intro o; simp [lists]
  · intro o; simp [lists,counts]
  · intro o p on; simp [lists] at on
  · intro o p m q x on; simp [lists] at on
  · intro k x member; exact (none k x member).elim
  · intro x used; simp [Heap.busy] at used
  intro k z o p got; simp at got

lemma Good.exec (good : Good mem h) (permitted : Permitted h op) : ∃ next,h.exec op = .ok next ∧ Good mem next := by
  cases op with
  | initMemmap base n =>
    obtain ⟨has,room,fits,reserved⟩ := permitted
    obtain ⟨t,ran,inv⟩ := buddyInitMemmap_spec good has room fits reserved
    exact ⟨{h with pmm:=t,zones:=h.zones ++ [(base,n)]},by simp [Heap.exec,ran,bind,Except.bind],inv⟩
  | allocPages n =>
    obtain ⟨has,small⟩ := permitted
    obtain ⟨_,_,_,_,ran⟩ := buddyAllocPages_spec good has small
    rcases ran with ⟨ran,_⟩ | ⟨page,t,k,ran,_,_,inv⟩
    · exact ⟨h,by simp [Heap.exec,ran,bind,Except.bind],good⟩
    refine ⟨{h with pmm:=t,allocated:=fun x => h.allocated x || (page ≤ x && x < page + n)},by simp [Heap.exec,ran,bind,Except.bind],inv.congr_busy ?_⟩
    intro x
    simp [mem_busy,mem_range]
  | freePages base n =>
    obtain ⟨has,small,used,k,zone⟩ := permitted
    have span : Span h.zones k h.busy base n := by
      obtain ⟨z,got,low,_⟩ := zone base (le_refl _) (by omega)
      obtain ⟨w,found',_,_⟩ := zone (base + n - 1) (by omega) (by omega)
      obtain rfl : z = w := mem_unique got found'
      exact ⟨used,z,got,low,by omega⟩
    obtain ⟨t,ran,inv⟩ := buddyFreePages_spec good has small span
    refine ⟨{h with pmm:=t,allocated:=fun x => h.allocated x && !(base ≤ x && x < base + n)},by simp [Heap.exec,ran,bind,Except.bind],inv.congr_busy ?_⟩
    intro x
    simp only [mem_busy,mem_range,Set.mem_sdiff,Bool.and_eq_true,Bool.not_eq_true',Bool.and_eq_false_iff,decide_eq_false_iff_not]
    exact and_congr_right fun _ => by omega

lemma reached_good (reached : Reached maxpa mem h) : Good mem h := by
  refine Runs.Reached.invariant (fun s boot => boot_good boot) ?_ reached
  rintro t _ u good ⟨permitted,ran⟩
  obtain ⟨_,ran',new⟩ := good.exec permitted
  rw [ran] at ran'
  cases ran'
  exact new

-- The heap as its users see it. A page in no zone still has the descriptor
-- page_init gave it.
structure Sound (mem : Nat → Page) (h : Heap) : Prop where
  disjoint : ∀ o p m q x,p ∈ h.pmm.freeList o → q ∈ h.pmm.freeList m → Within x p o → Within x q m → p = q ∧ o = m
  placed : ∀ o p,p ∈ h.pmm.freeList o → o ≤ maxOrder ∧ ∃ (k : Nat) (z : Nat × Nat),h.zones[k]? = some z ∧ z.1 ≤ p ∧ 2^o ∣ p - z.1 ∧
    ∀ x,Within x p o → InZone h.zones k x
  heads : ∀ o p,p ∈ h.pmm.freeList o ↔
    (∃ k,InZone h.zones k p) ∧ (h.pmm.page p).pgProperty = true ∧ (h.pmm.page p).property = o
  outside : ∀ p,(∀ k,¬ InZone h.zones k p) → h.pmm.page p = {mem p with pgReserved:=true}
  headsOnly : (∀ p,(mem p).pgProperty = false) → ∀ o p,p ∈ h.pmm.freeList o ↔
    (h.pmm.page p).pgProperty = true ∧ (h.pmm.page p).property = o
  distinct : ∀ o,(h.pmm.freeList o).Nodup
  counted : ∀ o,h.pmm.nrFree o = (h.pmm.freeList o).length
  shared : ∀ k x,InZone h.zones k x →
    (h.allocated x = false ∧ ∃ p o,(p ∈ h.pmm.freeList o ∧ Within x p o) ∧
      ∀ q m,q ∈ h.pmm.freeList m → Within x q m → q = p ∧ m = o) ∨
    (h.allocated x = true ∧ ∀ p o,p ∈ h.pmm.freeList o → ¬ Within x p o)
  inZones : ∀ x,h.allocated x = true → ∃ k,InZone h.zones k x

lemma Good.sound (good : Good mem h) : Sound mem h := by
  refine ⟨good.disjoint,?_,good.listed,good.outside,?_,good.nodup,good.counted,?_,good.held⟩
  · intro o p on
    obtain ⟨cap,k,sits⟩ := good.block o p on
    obtain ⟨z,got,low,_,even⟩ := id sits
    exact ⟨cap,k,z,got,low,even,fun x inside => sits.inZone inside⟩
  · intro clear o p
    rw [good.listed o p]
    refine ⟨fun h => h.2,fun set => ⟨?_,set⟩⟩
    by_contra nowhere
    have kept := good.outside p (not_exists.mp nowhere)
    have := set.1
    rw [kept] at this
    simp [clear p] at this
  intro k x member
  cases used : h.allocated x with
  | false =>
    have free : x ∉ h.busy := by simp [mem_busy,used]
    obtain ⟨o,p,on,within⟩ := (good.covers k x member).mp free
    refine .inl ⟨rfl,p,o,⟨on,within⟩,?_⟩
    intro q m listed' within'
    exact good.disjoint m q o p x listed' on within' within
  | true => exact .inr ⟨rfl,fun p o on within => good.head_free on within used⟩

def blankPage : Page := ⟨0,false,false,0,0⟩
def Heap.after (h : Heap) (op : Op) : Heap :=
  match h.exec op with
  | .ok next => next
  | .error _ => h
def smallBoot : Heap := ⟨pageInit 0x10010000 (fun _ => blankPage),[],fun _ => false⟩
def smallZone : Heap := smallBoot.after (.initMemmap 2 13)
def smallUsed : Heap := smallZone.after (.allocPages 3)
def smallFreed : Heap := smallUsed.after (.freePages 11 1)

lemma smallZone_reached : Reached 0x10010000 (fun _ => blankPage) smallZone := by
  have permitted : Permitted smallBoot (.initMemmap 2 13) := ⟨by decide,by decide,by decide,fun x _ _ => rfl⟩
  have ran : smallBoot.exec (.initMemmap 2 13) = .ok smallZone := rfl
  have boot : Reached 0x10010000 (fun _ => blankPage) smallBoot := ⟨smallBoot,[],rfl,.nil⟩
  exact boot.step ⟨permitted,ran⟩

lemma smallUsed_reached : Reached 0x10010000 (fun _ => blankPage) smallUsed := by
  have permitted : Permitted smallZone (.allocPages 3) := ⟨by decide,by decide⟩
  have ran : smallZone.exec (.allocPages 3) = .ok smallUsed := rfl
  exact smallZone_reached.step ⟨permitted,ran⟩

lemma smallFreed_step : Step smallUsed (.freePages 11 1) smallFreed := by
  refine ⟨⟨by decide,by decide,?_,0,?_⟩,rfl⟩
  · intro x low high
    obtain rfl : x = 11 := by omega
    rfl
  intro x _ _
  exact ⟨(2,13),rfl,by change 2 ≤ x; omega,by change x < 2 + 13; omega⟩

-- Every state any history of calls reaches is sound, and no assert of the
-- allocator stops the next call.
theorem buddy_heap_sound (maxpa : Nat) (mem : Nat → Page) (h : Heap) (reached : Reached maxpa mem h) :
    Sound mem h ∧ ∀ op,Permitted h op → ∃ next,h.exec op = .ok next :=
  ⟨(reached_good reached).sound,fun _ permitted => (reached_good reached).exec permitted |>.imp fun _ ran => ran.1⟩

theorem buddy_heap_sound_small : smallFreed.pmm.freeList 0 = [11,13,14] ∧ Sound (fun _ => blankPage) smallFreed ∧
    ∀ op,Permitted smallFreed op → ∃ next,smallFreed.exec op = .ok next :=
  ⟨rfl,buddy_heap_sound 0x10010000 (fun _ => blankPage) smallFreed (smallUsed_reached.step smallFreed_step)⟩

def Path : Heap → List Op → Heap → Prop := Runs.Path Step

def zoneBlocks (h : Heap) (z : Nat × Nat) (i o : Nat) : Prop := i < z.2 ∧ z.1 + i ∈ h.pmm.freeList o
def zoneFree (h : Heap) (z : Nat × Nat) (i : Nat) : Prop := i < z.2 ∧ h.allocated (z.1 + i) = false

lemma Good.tiling {k : Nat} (good : Good mem h) (got : h.zones[k]? = some z) : Tiling (zoneBlocks h z) (zoneFree h z) maxOrder ∧ Coalesced (zoneBlocks h z) maxOrder := by
  have spot i o : zoneBlocks h z i o → Sits h.zones k (z.1 + i) o ∧ Aligned i o := by
    rintro ⟨less,on⟩
    obtain ⟨_,l,sits⟩ := good.block o _ on
    have eq := sits.zone_eq good.toLayout ⟨z,got,by omega,by omega⟩
    subst l
    obtain ⟨w,found',_,_,even⟩ := id sits
    obtain rfl : z = w := mem_unique got found'
    exact ⟨sits,by simpa using even⟩
  have shift : ∀ x i o,Within x i o ↔ Within (z.1 + x) (z.1 + i) o := by intro x i o; simp only [Within]; omega
  refine ⟨⟨?_,fun i o member => (spot i o member).2,?_,?_⟩,?_⟩
  · rintro i o ⟨_,on⟩
    exact (good.block o _ on).1
  · rintro i o j m x ⟨_,one⟩ ⟨_,two⟩ inOne inTwo
    have := good.disjoint o _ m _ _ one two ((shift x i o).mp inOne) ((shift x j m).mp inTwo)
    omega
  · intro x
    constructor
    · rintro ⟨less,free⟩
      have out : z.1 + x ∉ h.busy := by simp [mem_busy,free]
      have member : InZone h.zones k (z.1 + x) := ⟨z,got,by omega,by omega⟩
      obtain ⟨o,p,on,within⟩ := (good.covers k _ member).mp out
      obtain ⟨_,l,sits⟩ := good.block o p on
      have eq := good.apart l k _ (sits.inZone within) member
      subst l
      obtain ⟨w,found',_,_,_⟩ := id sits
      obtain rfl : z = w := mem_unique got found'
      have back : z.1 + (p - z.1) = p := by omega
      have pos := Nat.two_pow_pos o
      exact ⟨p - z.1,o,⟨by omega,by rwa [back]⟩,(shift x _ o).mpr (by rwa [back])⟩
    rintro ⟨i,o,member,within⟩
    obtain ⟨w,found',_,_⟩ := (spot i o member).1.inZone ((shift x i o).mp within)
    obtain rfl : z = w := mem_unique got found'
    have free := good.head_free member.2 ((shift x i o).mp within)
    exact ⟨by omega,by simpa [mem_busy] using free⟩
  rintro i o member below ⟨_,on⟩
  obtain ⟨sits,_⟩ := spot i o member
  have near : InZone h.zones k (z.1 + buddy (z.1 + i - z.1) o) := ⟨z,got,by omega,by simp; omega⟩
  exact good.coalesced k z o (z.1 + i) got sits member.2 below near (by simpa using on)

lemma Good.canonical {k : Nat} (good : Good mem h) (got : h.zones[k]? = some z) : zoneBlocks h z i o ↔ Maximal (zoneFree h z) maxOrder i o :=
  (good.tiling got).1.maximal_iff (good.tiling got).2

lemma Good.member_iff (good : Good mem h) : p ∈ h.pmm.freeList o ↔
    ∃ (k : Nat) (z : Nat × Nat),h.zones[k]? = some z ∧ z.1 ≤ p ∧ Maximal (zoneFree h z) maxOrder (p - z.1) o := by
  constructor
  · intro on
    obtain ⟨_,k,z,got,low,_,_⟩ := good.block o p on
    have pos := Nat.two_pow_pos o
    refine ⟨k,z,got,low,(good.canonical got).mp ⟨by omega,?_⟩⟩
    rwa [show z.1 + (p - z.1) = p by omega]
  rintro ⟨k,z,got,_,maximal⟩
  have member := ((good.canonical got).mpr maximal).2
  rwa [show z.1 + (p - z.1) = p by omega] at member

lemma same_free_same_blocks (good : Good mem h) (good' : Good mem' h') (zones : h.zones = h'.zones)
    (free : ∀ k x,InZone h.zones k x → h.allocated x = h'.allocated x) :
    p ∈ h.pmm.freeList o ↔ p ∈ h'.pmm.freeList o := by
  have agree : ∀ (k : Nat) (z : Nat × Nat),h.zones[k]? = some z → zoneFree h z = zoneFree h' z := by
    intro k z got
    funext x
    have eq : x < z.2 → h.allocated (z.1 + x) = h'.allocated (z.1 + x) := fun less => free k _ ⟨z,got,by omega,by omega⟩
    apply propext
    simp only [zoneFree]
    constructor
    · rintro ⟨less,clear⟩; exact ⟨less,by rw [← eq less]; exact clear⟩
    rintro ⟨less,clear⟩; exact ⟨less,by rw [eq less]; exact clear⟩
  rw [good.member_iff,good'.member_iff,← zones]
  constructor
  · rintro ⟨k,z,got,low,maximal⟩
    exact ⟨k,z,got,low,by rwa [← agree k z got]⟩
  rintro ⟨k,z,got,low,_⟩
  exact ⟨k,z,got,low,by rwa [agree k z got]⟩

def Op.isInit : Op → Bool
  | .initMemmap _ _ => true
  | _ => false

lemma path_zones (path : Path h ops h') (noInit : ∀ op ∈ ops,op.isInit = false) : h'.zones = h.zones := by
  induction path with
  | nil => rfl
  | @step _ t a u _ next ih =>
    have old := ih (fun op mem => noInit op (List.mem_append_left _ mem))
    have last := noInit a (by simp)
    obtain ⟨_,ran⟩ := next
    rw [← old]
    cases a with
    | initMemmap base n => cases last
    | allocPages n =>
      simp only [Heap.exec,bind,Except.bind] at ran
      split at ran
      · cases ran
      split at ran <;> cases ran <;> rfl
    | freePages _ n =>
      simp only [Heap.exec,bind,Except.bind] at ran
      split at ran
      · cases ran
      cases ran; rfl

-- The blocks on the free lists are determined by the zones and the free pages
-- alone: they are the maximal aligned blocks of free pages. So histories that
-- leave the same pages free leave the same blocks, and so does every run of
-- allocations and frees that gives back what it took.
theorem buddy_blocks_canonical (maxpa : Nat) (mem : Nat → Page) (h : Heap) (reached : Reached maxpa mem h) :
    (∀ (k : Nat) (z : Nat × Nat),h.zones[k]? = some z → ∀ i o,i < z.2 ∧ z.1 + i ∈ h.pmm.freeList o ↔
      Maximal (fun x => x < z.2 ∧ h.allocated (z.1 + x) = false) maxOrder i o) ∧
    (∀ maxpa' mem' h',Reached maxpa' mem' h' → h.zones = h'.zones →
      (∀ k x,InZone h.zones k x → h.allocated x = h'.allocated x) →
      ∀ o p,p ∈ h.pmm.freeList o ↔ p ∈ h'.pmm.freeList o) ∧
    (∀ ops h',Path h ops h' → (∀ op ∈ ops,op.isInit = false) → h'.allocated = h.allocated →
      ∀ o p,p ∈ h'.pmm.freeList o ↔ p ∈ h.pmm.freeList o) := by
  have good := reached_good reached
  refine ⟨fun k z found i o => good.canonical found,?_,?_⟩
  · intro maxpa' mem' h' reached' zones free o p
    exact same_free_same_blocks good (reached_good reached') zones free
  intro ops h' path noInit restored o p
  have later : Reached maxpa mem h' := Runs.Path.reached path reached
  exact same_free_same_blocks (reached_good later) good (path_zones path noInit) (fun _ x _ => by rw [restored])

theorem buddy_blocks_canonical_small : smallFreed.pmm.freeList 3 = [2] ∧
    ∀ i o,i < 13 ∧ 2 + i ∈ smallFreed.pmm.freeList o ↔
      Maximal (fun x => x < 13 ∧ smallFreed.allocated (2 + x) = false) maxOrder i o :=
  ⟨rfl,(buddy_blocks_canonical 0x10010000 (fun _ => blankPage) smallFreed
    (smallUsed_reached.step smallFreed_step)).1 0 (2,13) rfl⟩

end Ucore.Buddy
