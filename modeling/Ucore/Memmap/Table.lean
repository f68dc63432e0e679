import Ucore.Memmap.State

namespace Ucore.Memmap
open Level
open List hiding count

lemma nodes_push (s : Map) (addr : Nat) (flag : Int) : (s.pushNode addr flag).nodes = s.nodes ++ [(addr,flag)] := by
  simp only [Map.nodes,Map.pushNode,range_succ,map_append,map_cons,map_nil,if_true]
  congr 1
  apply map_congr_left
  intro k mem
  have ne : k ≠ s.mmnodeCount := Nat.ne_of_lt (mem_range.mp mem)
  simp only [if_neg ne]

lemma nodes_appends (s : Map) (regions : List Region) : (memmapAppends s regions).nodes = regions.flatMap fun r => [(r.start,r.flag),(r.stop,negInt r.flag)] := by
  have grow : ∀ t : Map,(regions.foldl memmapAppend t).nodes = t.nodes ++ regions.flatMap fun r => [(r.start,r.flag),(r.stop,negInt r.flag)] := by
    induction regions with
    | nil => intro t; simp
    | cons r _ ih =>
      intro t
      rw [foldl_cons,ih,memmapAppend,nodes_push,nodes_push]
      simp
  rw [memmapAppends,grow]
  rfl

lemma selectNode_spec (addr : Nat → Nat) (i left k j : Nat) (low : i ≤ j) (high : j < k) (least : ∀ q,i ≤ q → q < k → addr j ≤ addr q) :
    i ≤ selectNode addr left k j ∧ selectNode addr left k j < k + left ∧ ∀ q,i ≤ q → q < k + left → addr (selectNode addr left k j) ≤ addr q := by
  induction left generalizing k j with
  | zero => exact ⟨low,high,least⟩
  | succ left ih =>
    rw [selectNode,show k + (left + 1) = k + 1 + left by omega]
    split
    · next smaller =>
      apply ih (k+1) k (by omega) (by omega)
      intro q from_ below
      by_cases last : q = k
      · rw [last]
      have := least q from_ (by omega)
      omega
    next _ =>
    apply ih (k+1) j low (by omega)
    intro q from_ _
    by_cases last : q = k
    · rw [last]; omega
    exact least q from_ (by omega)

lemma swap_range {i j n q : Nat} (low : i ≤ j) (high : j < n) (from_ : i ≤ q) (below : q < n) : i ≤ Equiv.swap i j q ∧ Equiv.swap i j q < n := by
  rw [Equiv.swap_apply_def]
  split
  · exact ⟨low,high⟩
  split
  · exact ⟨le_refl i,by omega⟩
  exact ⟨from_,below⟩

def Ordered (s : Map) (i : Nat) : Prop :=
  ∀ p q,p < i → p < q → q < s.mmnodeCount → s.mmnodeAddr p ≤ s.mmnodeAddr q

lemma ordered_swap (ordered : Ordered s i) (low : i ≤ j) (high : j < s.mmnodeCount)
    (least : ∀ q,i ≤ q → q < s.mmnodeCount → s.mmnodeAddr j ≤ s.mmnodeAddr q) : Ordered (s.swapNodes i j) (i+1) := by
  intro p q _ less below
  change q < s.mmnodeCount at below
  change s.mmnodeAddr (Equiv.swap i j p) ≤ s.mmnodeAddr (Equiv.swap i j q)
  by_cases here : p = i
  · subst p
    rw [Equiv.swap_apply_left]
    obtain ⟨from_,inside⟩ := swap_range low high (le_of_lt less) below
    exact least _ from_ inside
  have pre : p < i := by omega
  rw [Equiv.swap_apply_of_ne_of_ne here (by omega)]
  by_cases later : i ≤ q
  · obtain ⟨_,inside⟩ := swap_range low high later below
    exact ordered p _ pre (by omega) inside
  rw [Equiv.swap_apply_of_ne_of_ne (by omega) (by omega)]
  exact ordered p q pre less below

lemma range_sum [AddCommMonoid M] (f : Nat → M) (n : Nat) : ((range n).map f).sum = ∑ k ∈ Finset.range n,f k := by
  rw [Finset.sum,Finset.range_val,Multiset.range,Multiset.map_coe,Multiset.sum_coe]

-- What a sum over the nodes sees is not changed by the sort.
lemma swap_sum (f : Nat × Int → Level) (s : Map) (one : i < s.mmnodeCount) (two : j < s.mmnodeCount) : ((s.swapNodes i j).nodes.map f).sum = (s.nodes.map f).sum := by
  simp only [Map.nodes,map_map,range_sum]
  apply Equiv.Perm.sum_comp (Equiv.swap i j) (Finset.range s.mmnodeCount) (f ∘ fun k => (s.mmnodeAddr k,s.mmnodeFlag k))
  intro k moved
  have spot : k = i ∨ k = j := by
    by_contra ne
    rw [not_or] at ne
    exact moved (Equiv.swap_apply_of_ne_of_ne ne.1 ne.2)
  apply Finset.mem_coe.mpr
  apply Finset.mem_range.mpr
  rcases spot with rfl | rfl
  · exact one
  exact two

lemma sortNodes_spec (f : Nat × Int → Level) (left i : Nat) (s : Map) (total : i + left = s.mmnodeCount) (ordered : Ordered s i) :
    Ordered (sortNodes left i s) (sortNodes left i s).mmnodeCount ∧ ((sortNodes left i s).nodes.map f).sum = (s.nodes.map f).sum := by
  induction left generalizing i s with
  | zero =>
    rw [add_zero] at total
    rw [sortNodes,← total]
    exact ⟨ordered,rfl⟩
  | succ left ih =>
    obtain ⟨low,high,least⟩ := selectNode_spec s.mmnodeAddr i left (i+1) i (le_refl i) (Nat.lt_succ_self i)
      (fun q from_ below => by rw [show q = i by omega])
    rw [show i + 1 + left = s.mmnodeCount by omega] at high least
    obtain ⟨sorted,sum⟩ := ih (i+1) (s.swapNodes i _) (by change i + 1 + left = s.mmnodeCount; omega) (ordered_swap ordered low high least)
    exact ⟨sorted,sum.trans (swap_sum f s (by omega) high)⟩

lemma Ordered.pairwise (ordered : Ordered s s.mmnodeCount) : s.nodes.Pairwise fun x y => x.1 ≤ y.1 := by
  rw [Map.nodes,pairwise_map]
  apply List.Pairwise.imp_of_mem _ pairwise_lt_range
  intro p q inP inQ less
  exact ordered p q (mem_range.mp inP) less (mem_range.mp inQ)

def Level.step (flag : Int) : Level := count (0,0) flag
def levelAt (nodes : List (Nat × Int)) (a : Nat) : Level := (nodes.map fun node => if node.1 ≤ a then step node.2 else 0).sum

lemma count_step (l : Level) (flag : Int) : l.count flag = l + step flag := by
  obtain ⟨x,y⟩ := l
  unfold step count
  split_ifs <;> simp [sub_eq_add_neg]

lemma levelAt_cons (node : Nat × Int) (rest : List (Nat × Int)) (a : Nat) : levelAt (node :: rest) a = (if node.1 ≤ a then step node.2 else 0) + levelAt rest a := sum_cons

lemma levelAt_above (above : ∀ node ∈ nodes,a < node.1) : levelAt nodes a = 0 := by
  induction nodes with
  | nil => rfl
  | cons node _ ih =>
    have one := above node mem_cons_self
    rw [levelAt_cons,if_neg (by omega),ih (fun x mem => above x (mem_cons_of_mem _ mem)),zero_add]

def crossed (table : List Nat) (a : Nat) : Bool := table.foldr (fun b odd => xor (b ≤ a) odd) false

lemma crossed_above (above : ∀ b ∈ table,a < b) : crossed table a = false := by
  induction table with
  | nil => rfl
  | cons b table ih =>
    have one := above b mem_cons_self
    change xor (decide (b ≤ a)) (crossed table a) = false
    rw [ih (fun x mem => above x (mem_cons_of_mem _ mem)),decide_eq_false (by omega)]
    rfl

lemma crossed_below (below : ∀ b ∈ table,b ≤ a) : crossed table a = decide (table.length % 2 = 1) := by
  induction table with
  | nil => rfl
  | cons b table ih =>
    change xor (decide (b ≤ a)) (crossed table a) = _
    have flip : decide ((table.length + 1) % 2 = 1) = !decide (table.length % 2 = 1) := by
      rw [← decide_not,decide_eq_decide]
      omega
    rw [ih (fun x mem => below x (mem_cons_of_mem _ mem)),decide_eq_true (below b mem_cons_self),Bool.true_xor,length_cons,flip]

lemma sweep_node (nodes : List (Nat × Int)) (l : Level) (v : Bool) : ∀ b ∈ sweep nodes l v,∃ node ∈ nodes,node.1 = b := by
  fun_induction sweep nodes l v with
  | case1 => intro b mem; cases mem
  | case2 node l v changed =>
    intro b mem
    exact ⟨node,mem_cons_self,(mem_singleton.mp mem).symm⟩
  | case3 => intro b mem; cases mem
  | case4 node next rest l v _ ih =>
    intro b mem
    obtain ⟨x,got,eq⟩ := ih b mem
    exact ⟨x,mem_cons_of_mem _ got,eq⟩
  | case5 node next rest l v ne changed ih =>
    intro b mem
    rcases mem_cons.mp mem with rfl | mem
    · exact ⟨node,mem_cons_self,rfl⟩
    obtain ⟨x,got,eq⟩ := ih b mem
    exact ⟨x,mem_cons_of_mem _ got,eq⟩
  | case6 _ _ _ l v _ _ ih =>
    intro b mem
    obtain ⟨x,got,eq⟩ := ih b mem
    exact ⟨x,mem_cons_of_mem _ got,eq⟩

lemma sweep_spec (nodes : List (Nat × Int)) (l : Level) (v : Bool) (sorted : nodes.Pairwise fun x y => x.1 ≤ y.1) : (sweep nodes l v).Pairwise (· < ·) ∧
    ∀ a,(∃ node ∈ nodes.head?,node.1 ≤ a) → xor (crossed (sweep nodes l v) a) v = (l + levelAt nodes a).vaild := by
  have later : ∀ (node next : Nat × Int) (rest : List (Nat × Int)),(node :: next :: rest).Pairwise (fun x y => x.1 ≤ y.1) →
      node.1 ≠ next.1 → ∀ x ∈ next :: rest,node.1 < next.1 ∧ next.1 ≤ x.1 := by
    intro node next rest sorted ne x mem
    have up := rel_of_pairwise_cons sorted (mem_cons_self (a := next))
    rcases mem_cons.mp mem with rfl | mem
    · exact ⟨by omega,le_refl _⟩
    exact ⟨by omega,rel_of_pairwise_cons (pairwise_cons.mp sorted).2 mem⟩
  fun_induction sweep nodes l v with
  | case1 l v => exact ⟨.nil,by simp⟩
  | case2 node l v changed =>
    refine ⟨pairwise_singleton _ _,?_⟩
    rintro a ⟨_,first,le⟩
    cases first
    rw [levelAt_cons,if_pos le,← add_assoc,← count_step]
    simp only [crossed,foldr,decide_eq_true le,levelAt,map_nil,sum_nil,add_zero]
    revert changed
    cases v <;> cases (l.count node.2).vaild <;> simp
  | case3 node l v changed =>
    refine ⟨.nil,?_⟩
    rintro a ⟨_,first,le⟩
    cases first
    rw [levelAt_cons,if_pos le,← add_assoc,← count_step]
    simp only [crossed,foldr,levelAt,map_nil,sum_nil,add_zero]
    revert changed
    cases v <;> cases (l.count node.2).vaild <;> simp
  | case4 node next rest l v eq ih =>
    obtain ⟨order,parity⟩ := ih (pairwise_cons.mp sorted).2
    refine ⟨order,?_⟩
    rintro a ⟨_,first,le⟩
    cases first
    rw [levelAt_cons,if_pos le,← add_assoc,← count_step]
    exact parity a ⟨next,rfl,by omega⟩
  | case5 node next rest l v ne changed ih =>
    obtain ⟨order,parity⟩ := ih (pairwise_cons.mp sorted).2
    have after := later node next rest sorted ne
    have above : ∀ b ∈ sweep (next :: rest) (l.count node.2) (l.count node.2).vaild,next.1 ≤ b := by
      intro b mem
      obtain ⟨x,got,rfl⟩ := sweep_node _ _ _ b mem
      exact (after x got).2
    refine ⟨pairwise_cons.mpr ⟨fun b mem => ?_,order⟩,?_⟩
    · have := above b mem
      have := (after next mem_cons_self).1
      omega
    rintro a ⟨_,first,le⟩
    cases first
    rw [levelAt_cons,if_pos le,← add_assoc,← count_step]
    change xor (xor (decide (node.1 ≤ a)) (crossed _ a)) v = _
    have flip : v = !(l.count node.2).vaild := by
      revert changed
      cases v <;> cases (l.count node.2).vaild <;> simp
    rw [decide_eq_true le]
    by_cases reach : next.1 ≤ a
    · rw [← parity a ⟨next,rfl,reach⟩,flip]
      cases crossed (sweep (next :: rest) (l.count node.2) (l.count node.2).vaild) a <;> simp
    rw [crossed_above (fun b mem => by have := above b mem; omega),levelAt_above (fun x mem => by have := (after x mem).2; omega),flip,add_zero]
    simp
  | case6 node next rest l v ne changed ih =>
    obtain ⟨order,parity⟩ := ih (pairwise_cons.mp sorted).2
    have after := later node next rest sorted ne
    refine ⟨order,?_⟩
    rintro a ⟨_,first,le⟩
    cases first
    rw [levelAt_cons,if_pos le,← add_assoc,← count_step]
    by_cases reach : next.1 ≤ a
    · exact parity a ⟨next,rfl,reach⟩
    rw [crossed_above (fun b mem => ?_),levelAt_above (fun x mem => ?_),add_zero]
    · have eq : (l.count node.2).vaild = v := by simpa using changed
      rw [eq,Bool.false_xor]
    · have := (after x mem).2
      omega
    obtain ⟨x,got,rfl⟩ := sweep_node _ _ _ b mem
    have := (after x got).2
    omega

-- The table memmap_process leaves: strictly increasing, and crossed exactly
-- where the counts up to an address make it valid.
lemma process_spec (s : Map) : (memmapProcess s).memmapAddr.Pairwise (· < ·) ∧ ∀ a,crossed (memmapProcess s).memmapAddr a = (levelAt s.nodes a).vaild := by
  have sorting := fun f => sortNodes_spec f s.mmnodeCount 0 s (zero_add _) (fun p q one => by omega)
  have sorted := Ordered.pairwise (sorting fun _ => 0).1
  have level : ∀ a,levelAt (sortNodes s.mmnodeCount 0 s).nodes a = levelAt s.nodes a := fun a => (sorting _).2
  obtain ⟨order,parity⟩ := sweep_spec _ (0,0) false sorted
  refine ⟨order,?_⟩
  intro a
  rw [← level a]
  change crossed (sweep (sortNodes s.mmnodeCount 0 s).nodes (0,0) false) a = _
  generalize (sortNodes s.mmnodeCount 0 s).nodes = nodes at sorted parity
  cases nodes with
  | nil => rfl
  | cons node rest =>
    by_cases reach : node.1 ≤ a
    · have := parity a ⟨node,rfl,reach⟩
      rw [Bool.xor_false] at this
      rw [this]
      exact congrArg vaild (zero_add (levelAt (node :: rest) a))
    have least : ∀ x ∈ node :: rest,a < x.1 := by
      intro x mem
      rcases mem_cons.mp mem with rfl | mem
      · omega
      have := rel_of_pairwise_cons sorted mem
      omega
    rw [levelAt_above least,crossed_above]
    · rfl
    intro b mem
    obtain ⟨x,got,rfl⟩ := sweep_node _ _ _ b mem
    exact least x got

lemma interval_cons : Interval (b :: c :: table) lo hi ↔ (b = lo ∧ c = hi) ∨ Interval table lo hi := by
  constructor
  · rintro ⟨k,one,two⟩
    cases k with
    | zero => exact .inl ⟨Option.some.inj one,Option.some.inj two⟩
    | succ k => exact .inr ⟨k,one,two⟩
  rintro (⟨rfl,rfl⟩ | ⟨k,one,two⟩)
  · exact ⟨0,rfl,rfl⟩
  exact ⟨k+1,one,two⟩

lemma interval_crossed (a : Nat) : ∀ table : List Nat,table.Pairwise (· < ·) → table.length % 2 = 0 →
    ((∃ lo hi,Interval table lo hi ∧ lo ≤ a ∧ a < hi) ↔ crossed table a = true)
  | [],_,_ => by simp [Interval,crossed]
  | [_],_,even => by cases even
  | b :: c :: table,order,even => by
    have ih := interval_crossed a table (pairwise_cons.mp (pairwise_cons.mp order).2).2 (by simp at even; omega)
    have less : b < c := rel_of_pairwise_cons order mem_cons_self
    have above : ∀ x ∈ table,c < x := fun x mem => rel_of_pairwise_cons (pairwise_cons.mp order).2 mem
    change _ ↔ xor (decide (b ≤ a)) (xor (decide (c ≤ a)) (crossed table a)) = true
    have split : (∃ lo hi,Interval (b :: c :: table) lo hi ∧ lo ≤ a ∧ a < hi) ↔ (b ≤ a ∧ a < c) ∨ crossed table a = true := by
      rw [← ih]
      constructor
      · rintro ⟨lo,hi,interval,inside⟩
        rcases interval_cons.mp interval with ⟨rfl,rfl⟩ | rest
        · exact .inl inside
        exact .inr ⟨lo,hi,rest,inside⟩
      rintro (inside | ⟨lo,hi,rest,inside⟩)
      · exact ⟨b,c,interval_cons.mpr (.inl ⟨rfl,rfl⟩),inside⟩
      exact ⟨lo,hi,interval_cons.mpr (.inr rest),inside⟩
    rw [split]
    by_cases past : c ≤ a
    · rw [decide_eq_true past,decide_eq_true (by omega : b ≤ a)]
      simp [past]
    rw [crossed_above (fun x mem => by have := above x mem; omega),decide_eq_false past]
    simp
    omega

def reclaims (regions : List Region) (a : Nat) : Nat := regions.countP fun r => r.flag = flagReclaimable && r.holds a

-- What the code counts beyond the claim for a region at an address: a flag of 0 or
-- INT_MIN opens free memory at both ends; -3 closes a reclaimable region at its
-- start; another negative flag but -1 exchanges the two ends of a reserved region.
def Region.misread (r : Region) (a : Nat) : Level :=
  if 0 < r.flag ∨ r.flag = -flagFree then 0
  else if r.flag = 0 ∨ r.flag = -2^31 then if r.start ≤ a then (2,0) else 0
  else if r.holds a then if r.flag = -flagReclaimable then (1,-1) else (2,0) else 0

def misreads (regions : List Region) (a : Nat) : Level := (regions.map fun r => r.misread a).sum

def Region.counted (r : Region) : Level := if r.flag = flagFree then (1,0) else if r.flag = flagReclaimable then (0,1) else (-1,0)

lemma step_region (r : Region) (a : Nat) (ordered : r.start ≤ r.stop) :
    (if r.start ≤ a then step r.flag else 0) + (if r.stop ≤ a then step (negInt r.flag) else 0) = (if r.holds a then r.counted else 0) + r.misread a := by
  have held : r.holds a = true ↔ r.start ≤ a ∧ a < r.stop := by simp [Region.holds]
  unfold Region.misread Region.counted negInt step count flagFree flagReclaimable
  by_cases begun : r.start ≤ a
  · by_cases done : r.stop ≤ a
    · have out : ¬ r.holds a = true := by rw [held]; omega
      simp only [if_pos begun,if_pos done,if_neg out]
      split_ifs <;> first | rfl | omega
    have inside : r.holds a = true := held.mpr ⟨begun,by omega⟩
    simp only [if_pos begun,if_neg done,if_pos inside]
    split_ifs <;> first | rfl | omega
  have out : ¬ r.holds a = true := by rw [held]; omega
  simp [begun,out,show ¬ r.stop ≤ a by omega]

lemma levelAt_regions (a : Nat) (ordered : ∀ r ∈ regions,r.start ≤ r.stop) :
    levelAt (regions.flatMap fun r => [(r.start,r.flag),(r.stop,negInt r.flag)]) a = (surplus regions a,(reclaims regions a : Int)) + misreads regions a := by
  induction regions with
  | nil => rfl
  | cons r rest ih =>
    have later := ih (fun x mem => ordered x (mem_cons_of_mem _ mem))
    have split : (surplus (r :: rest) a,(reclaims (r :: rest) a : Int)) = (if r.holds a then r.counted else 0) + (surplus rest a,(reclaims rest a : Int)) := by
      unfold surplus reclaims Region.counted
      simp only [countP_cons,flagFree,flagReclaimable]
      cases r.holds a with
      | false => simp
      | true =>
        by_cases free : r.flag = 1
        · simp [free]
          omega
        by_cases reclaimable : r.flag = 3
        · simp [reclaimable]
          omega
        simp [free,reclaimable]
        omega
    rw [flatMap_cons,cons_append,cons_append,nil_append,levelAt_cons,levelAt_cons,← add_assoc,step_region r a (ordered r mem_cons_self),later,split]
    exact add_add_add_comm ..

lemma level_vaild (x : Int) (n : Nat) : vaild (x,(n : Int)) = true ↔ 0 < x ∨ x = 0 ∧ 0 < n := by
  unfold vaild
  by_cases zero : x = 0
  · simp [zero]
  simp [zero]

-- The table is exactly the addresses where the free regions outnumber the others, or
-- balance them inside a reclaimable one.
structure Exact (table : List Nat) (regions : List Region) : Prop where
  order : table.Pairwise (· < ·)
  even : table.length % 2 = 0
  inside : ∀ a,(∃ lo hi,Interval table lo hi ∧ lo ≤ a ∧ a < hi) ↔
    0 < surplus regions a ∨ surplus regions a = 0 ∧ ∃ r ∈ regions,r.flag = flagReclaimable ∧ r.holds a = true

lemma claim_vaild (regions : List Region) (a : Nat) : vaild (surplus regions a,(reclaims regions a : Int)) = true ↔
    0 < surplus regions a ∨ surplus regions a = 0 ∧ ∃ r ∈ regions,r.flag = flagReclaimable ∧ r.holds a = true := by
  rw [level_vaild,reclaims,countP_pos_iff]
  simp

-- Beyond every boundary and every region nothing is open, so the count is even.
lemma even_of_level (level : ∀ a,crossed table a = vaild (surplus regions a,(reclaims regions a : Int))) : table.length % 2 = 0 := by
  let top := table.sum + (regions.map Region.stop).sum
  have below : ∀ b ∈ table,b ≤ top := fun b member => Nat.le_trans (le_sum_of_mem member) (Nat.le_add_right _ _)
  have closed : ∀ r ∈ regions,r.holds top = false := by
    intro r member
    have : r.stop ≤ (regions.map Region.stop).sum := le_sum_of_mem (mem_map_of_mem member)
    unfold Region.holds
    simp only [Bool.and_eq_false_iff,decide_eq_false_iff_not]
    exact .inr (by omega)
  have none : ∀ p : Region → Bool,regions.countP (fun r => p r && r.holds top) = 0 := by
    intro p
    apply countP_eq_zero.mpr
    intro r member
    simp [closed r member]
  have atTop := level top
  rw [crossed_below below,surplus,reclaims,none,none,none] at atTop
  have := of_decide_eq_false atTop
  omega

-- The misread flags are harmless exactly when they tip no address. Positive flags and
-- -1 are not misread.
theorem memmap_process_exact (s : Map) (regions : List Region) (ordered : ∀ r ∈ regions,r.start ≤ r.stop) :
    Exact (memmapProcess (memmapAppends s regions)).memmapAddr regions ↔
      ∀ a,vaild ((surplus regions a,(reclaims regions a : Int)) + misreads regions a) = vaild (surplus regions a,(reclaims regions a : Int)) := by
  obtain ⟨order,parity⟩ := process_spec (memmapAppends s regions)
  have level a : crossed (memmapProcess (memmapAppends s regions)).memmapAddr a = vaild ((surplus regions a,(reclaims regions a : Int)) + misreads regions a) := by
    rw [parity,nodes_appends,levelAt_regions a ordered]
  generalize (memmapProcess (memmapAppends s regions)).memmapAddr = table at order level
  constructor
  · intro exact a
    rw [← level a,Bool.eq_iff_iff,← interval_crossed a table order exact.even,claim_vaild]
    exact exact.inside a
  intro same
  have even := even_of_level fun a => (level a).trans (same a)
  refine ⟨order,even,fun a => ?_⟩
  rw [interval_crossed a table order even,level a,same a,claim_vaild]

def emptyMap : Map := ⟨0,fun _ => 0,fun _ => 0,[]⟩

-- The last region is misread inside two free ones, which tips nothing.
theorem memmap_process_exact_overlap :
    (memmapProcess (memmapAppends emptyMap [⟨0,9,1⟩,⟨4,6,2⟩,⟨9,12,3⟩,⟨0,2,1⟩,⟨0,2,1⟩,⟨0,2,-7⟩])).memmapAddr = [0,4,6,12] ∧
    Exact [0,4,6,12] [⟨0,9,1⟩,⟨4,6,2⟩,⟨9,12,3⟩,⟨0,2,1⟩,⟨0,2,1⟩,⟨0,2,-7⟩] := by
  have table : (memmapProcess (memmapAppends emptyMap [⟨0,9,1⟩,⟨4,6,2⟩,⟨9,12,3⟩,⟨0,2,1⟩,⟨0,2,1⟩,⟨0,2,-7⟩])).memmapAddr = [0,4,6,12] := by decide +kernel
  refine ⟨table,table ▸ (memmap_process_exact emptyMap _ (by simp)).mpr fun a => ?_⟩
  by_cases two : a < 2
  · interval_cases a <;> decide
  have clear : misreads [⟨0,9,1⟩,⟨4,6,2⟩,⟨9,12,3⟩,⟨0,2,1⟩,⟨0,2,1⟩,⟨0,2,-7⟩] a = 0 := by simp [misreads,Region.misread,Region.holds,flagFree,two]
  rw [clear,add_zero]

-- The e820 type 0xf0000000 is negative as an int, so its region is opened as
-- free memory.
theorem memmap_process_negative :
    (memmapProcess (memmapAppends emptyMap [⟨0,9,0xf0000000 - 2^32⟩])).memmapAddr = [0,9] ∧
    Interval [0,9] 0 9 ∧ surplus [⟨0,9,0xf0000000 - 2^32⟩] 5 = -1 := by
  refine ⟨by decide,⟨0,rfl,rfl⟩,by decide⟩

end Ucore.Memmap
