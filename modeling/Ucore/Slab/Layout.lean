import Mathlib.Tactic

-- How slab.c lays out a slab: cache_estimate, calculate_slab_order and
-- init_kmem_cache. A size_t is a Nat below 2^64; none is a panic or a trap.
namespace Ucore.Slab

def sub64 (a b : Nat) : Nat := (a + (2^64 - b % 2^64)) % 2^64

def roundup (a n : Nat) : Nat := (a + n - 1) % 2^64 - (a + n - 1) % 2^64 % n

def slabLimit : Nat := 0xFFFFFFFE

def slabSize (order : Nat) : Nat := 4096 * 2^order

-- sizeof(slab_t) is 48, sizeof(kmem_bufctl_t) is 8.
def slabMgmtSize (num align : Nat) : Nat := roundup ((48 + num * 8) % 2^64) align

-- The while loop of cache_estimate, for a number of turns.
def estimateLoop (size objsize align : Nat) : Nat → Nat → Option Nat
  | 0,_ => none
  | turns+1,nr => if size < (slabMgmtSize nr align + nr * objsize) % 2^64 then estimateLoop size objsize align turns (sub64 nr 1) else some nr

-- The number of objects and the remainder.
def cacheEstimate (turns order objsize align : Nat) (offSlab : Bool) : Option (Nat × Nat) :=
  if offSlab then
    let nr := min (slabSize order / objsize) slabLimit
    some (nr,sub64 (slabSize order) (nr * objsize))
  else
    (estimateLoop (slabSize order) objsize align turns ((slabSize order - 48) / (objsize + 8))).map fun nr =>
      (min nr slabLimit,sub64 (sub64 (slabSize order) (min nr slabLimit * objsize)) (slabMgmtSize (min nr slabLimit) align))

-- The search over the orders: num, page_order and left_over.
def calculateSlabOrder (turns objsize align : Nat) (offSlab : Bool) : List Nat → Option (Nat × Nat × Nat)
  | [] => none
  | order :: orders =>
    match cacheEstimate turns order objsize align offSlab with
    | none => none
    | some (num,remainder) =>
      if num ≠ 0 ∧ offSlab = true ∧ (objsize - 48) / 8 < num then none
      else if num ≠ 0 ∧ remainder * 8 % 2^64 ≤ slabSize order then some (num,order,remainder)
      else calculateSlabOrder turns objsize align offSlab orders

def getorder (n : Nat) : Option Nat := (List.range' 5 13).find? fun order => n ≤ 2^order

structure KmemCache where
  objsize : Nat
  num : Nat
  offset : Nat
  offSlab : Bool
  pageOrder : Nat
  -- The index of slab_cachep in slab_cache.
  slabCachep : Option Nat
deriving DecidableEq

def initKmemCache (turns objsize align : Nat) : Option KmemCache :=
  if align = 0 then none
  else
    let objsize := roundup objsize align
    let offSlab := decide (512 ≤ objsize)
    match calculateSlabOrder turns objsize align offSlab (List.range 11) with
    | none => none
    | some (num,order,leftOver) =>
      if offSlab = true ∧ leftOver < slabMgmtSize num align then
        (getorder (slabMgmtSize num align)).map fun k => ⟨objsize,num,0,true,order,some (k - 5)⟩
      else some ⟨objsize,num,slabMgmtSize num align,false,order,none⟩

lemma sub64_eq (le : b ≤ a) (small : a < 2^64) : sub64 a b = a - b := by
  unfold sub64
  omega

lemma roundup_eq (fits : a + n ≤ 2^64) (some : 0 < n) : a ≤ roundup a n ∧ n ∣ roundup a n ∧ roundup a n < a + n := by
  have word : (a + n - 1) % 2^64 = a + n - 1 := Nat.mod_eq_of_lt (by omega)
  have low := Nat.mod_lt (a + n - 1) some
  unfold roundup
  rw [word]
  exact ⟨by omega,Nat.dvd_sub_mod _,by omega⟩

lemma slabMgmtSize_eq (few : num ≤ 2^32) (fits : align ≤ 2^32) (some : 0 < align) :
    48 + num * 8 ≤ slabMgmtSize num align ∧ align ∣ slabMgmtSize num align ∧ slabMgmtSize num align < 48 + num * 8 + align := by
  unfold slabMgmtSize
  rw [Nat.mod_eq_of_lt (by omega)]
  exact roundup_eq (by omega) some

section
variable {align objsize order : Nat}

lemma estimateLoop_fits (room : 1024 ≤ size) (pos : 0 < align) (little : align ≤ objsize) (small : objsize < 512) (few : nr ≤ 2^20)
    (ran : estimateLoop size objsize align turns nr = some k) : k ≤ nr ∧ slabMgmtSize k align + k * objsize ≤ size := by
  induction turns generalizing nr with
  | zero => cases ran
  | succ turns ih =>
    obtain ⟨_,_,high⟩ := slabMgmtSize_eq (by omega : nr ≤ 2^32) (by omega : align ≤ 2^32) pos
    have product : nr * objsize ≤ nr * 512 := Nat.mul_le_mul_left _ small.le
    have exactly : (slabMgmtSize nr align + nr * objsize) % 2^64 = slabMgmtSize nr align + nr * objsize := Nat.mod_eq_of_lt (by omega)
    unfold estimateLoop at ran
    rw [exactly] at ran
    split at ran
    next full =>
      have more : 1 ≤ nr := Nat.pos_of_ne_zero fun none => by
        subst none
        omega
      rw [sub64_eq more (by omega)] at ran
      obtain ⟨less,fits⟩ := ih (by omega) ran
      exact ⟨by omega,fits⟩
    cases ran
    exact ⟨le_refl _,by omega⟩

-- What one order offers: the objects fit, beside their control area if it is on
-- the slab, and the remainder is what they leave.
def Offer (objsize align : Nat) (offSlab : Bool) (order num remainder : Nat) : Prop :=
  num ≤ 2^20 ∧ num * objsize + (if offSlab then 0 else slabMgmtSize num align) + remainder = slabSize order

lemma slabSize_le (low : order ≤ 10) : 4096 ≤ slabSize order ∧ slabSize order ≤ 2^22 := by
  have most := Nat.pow_le_pow_right (by decide : 0 < 2) low
  have least := Nat.one_le_two_pow (n:=order)
  unfold slabSize
  omega

lemma cacheEstimate_offer (low : order ≤ 10) (pos : 0 < align) (little : align ≤ objsize)
    (ran : cacheEstimate turns order objsize align (decide (512 ≤ objsize)) = some (num,remainder)) :
    Offer objsize align (decide (512 ≤ objsize)) order num remainder := by
  obtain ⟨least,most⟩ := slabSize_le low
  unfold Offer
  by_cases big : 512 ≤ objsize
  · rw [cacheEstimate,decide_eq_true big,if_pos rfl] at ran
    cases ran
    have few : slabSize order / objsize ≤ 2^13 := Nat.div_le_of_le_mul (by omega)
    rw [Nat.min_eq_left (by unfold slabLimit; omega),decide_eq_true big,if_pos rfl]
    have fits := Nat.div_mul_le_self (slabSize order) objsize
    rw [sub64_eq fits (by omega)]
    omega
  rw [cacheEstimate,decide_eq_false big,if_neg Bool.false_ne_true] at ran
  obtain ⟨nr,ended,same⟩ := Option.map_eq_some_iff.mp ran
  have few : (slabSize order - 48) / (objsize + 8) ≤ 2^19 := Nat.div_le_of_le_mul (by omega)
  obtain ⟨less,fits⟩ := estimateLoop_fits (by omega) pos little (by omega) (by omega) ended
  have left : sub64 (slabSize order) (nr * objsize) = slabSize order - nr * objsize := sub64_eq (by omega) (by omega)
  rw [Nat.min_eq_left (by unfold slabLimit; omega),left,sub64_eq (by omega) (by omega)] at same
  cases same
  rw [decide_eq_false big,if_neg Bool.false_ne_true]
  omega

lemma calculateSlabOrder_offer {orders : List Nat} (low : ∀ order ∈ orders,order ≤ 10) (pos : 0 < align) (little : align ≤ objsize)
    (ran : calculateSlabOrder turns objsize align (decide (512 ≤ objsize)) orders = some (num,order,remainder)) :
    0 < num ∧ order ≤ 10 ∧ remainder * 8 ≤ slabSize order ∧ Offer objsize align (decide (512 ≤ objsize)) order num remainder := by
  induction orders with
  | nil => cases ran
  | cons one orders ih =>
    have here := low one List.mem_cons_self
    unfold calculateSlabOrder at ran
    split at ran
    · cases ran
    rename_i num' remainder' got
    have offer := cacheEstimate_offer here pos little got
    have := (slabSize_le here).2
    split at ran
    · cases ran
    split at ran
    next fine =>
      cases ran
      refine ⟨Nat.pos_of_ne_zero fine.1,here,?_,offer⟩
      have total := offer.2
      rw [Nat.mod_eq_of_lt (by omega)] at fine
      exact fine.2
    exact ih (fun order mem => low order (List.mem_cons_of_mem _ mem)) ran

end

def slabCache (i : Nat) : Option KmemCache := initKmemCache 8 (2^(i + 5)) 16

lemma slabCache_chain (i : Nat) (low : i < 13) : ∃ c,slabCache i = some c ∧ c.objsize = 2^(i + 5) ∧
    (c.offSlab = true → ∃ k d,c.slabCachep = some k ∧ slabCache k = some d ∧ d.offSlab = false) := by
  have all : ∀ i < 13,(slabCache i).any (fun c => c.objsize = 2^(i + 5) && (!c.offSlab || (c.slabCachep.bind slabCache).any (!·.offSlab))) = true := by decide +kernel
  have here := all i low
  simp only [Option.any_eq_true,Option.bind_eq_some_iff,Bool.and_eq_true,Bool.or_eq_true,Bool.not_eq_true',decide_eq_true_eq] at here
  obtain ⟨c,got,size,on | ⟨d,⟨k,link,there⟩,on⟩⟩ := here
  · exact ⟨c,got,size,fun off => absurd (on.symm.trans off) (by decide)⟩
  exact ⟨c,got,size,fun _ => ⟨k,d,link,there,on⟩⟩

end Ucore.Slab
