import Mathlib.Data.Finset.Card
import Mathlib.Data.Nat.Bitwise

-- kern-ucore/fs/sfs/bitmap.c: a set bit is a free index.
namespace Ucore.Sfs
open Nat
open List hiding set

inductive BitmapFault where
  | create
  | scan
  | range
  | doubleFree
deriving DecidableEq

def wordBits : Nat := 32

structure Bitmap where
  nbits : Nat
  map : List Nat

-- The sum in the assert has 64 bits, the one of ROUNDUP_DIV 32. kmalloc asserts
-- that it is asked for something.
def bitmapCreate (nbits : Nat) : Except BitmapFault Bitmap :=
  let nwords := (nbits + wordBits - 1) % 2^32 / wordBits
  if nbits = 0 ∨ nwords = 0 then .error .create
  else
    let full := replicate nwords 0xFFFFFFFF
    let overbits := nbits - (nwords - 1) * wordBits
    if nbits ≠ nwords * wordBits then
      .ok ⟨nbits,full.set (nwords - 1) ((range' overbits (wordBits - overbits)).foldl (fun w k => w ^^^ 2^k) 0xFFFFFFFF)⟩
    else .ok ⟨nbits,full⟩

def bitmapScan : List Nat → Nat → Except BitmapFault (Option (Nat × Nat))
  | [],_ => .ok none
  | w :: ws,ix =>
    if w ≠ 0 then
      match (List.range wordBits).find? (fun offset => w.testBit offset) with
      | some offset => .ok (some (ix,offset))
      | none => .error .scan
    else bitmapScan ws (ix + 1)

-- none is -E_NO_MEM.
def bitmapAlloc (b : Bitmap) : Except BitmapFault (Option (Nat × Bitmap)) :=
  match bitmapScan b.map 0 with
  | .ok (some (ix,offset)) =>
    .ok (some (ix * wordBits + offset,{b with map:=b.map.set ix (b.map.getD ix 0 ^^^ 2^offset)}))
  | .ok none => .ok none
  | .error f => .error f

def Bitmap.bit (b : Bitmap) (index : Nat) : Bool := (b.map.getD (index / wordBits) 0).testBit (index % wordBits)

def bitmapTest (b : Bitmap) (index : Nat) : Except BitmapFault Bool :=
  if index < b.nbits then .ok (b.bit index) else .error .range

def bitmapFree (b : Bitmap) (index : Nat) : Except BitmapFault Bitmap :=
  if index < b.nbits then
    if b.bit index then .error .doubleFree
    else .ok {b with map:=b.map.set (index / wordBits) (b.map.getD (index / wordBits) 0 ||| 2^(index % wordBits))}
  else .error .range

structure Bitmap.Sound (b : Bitmap) : Prop where
  words : b.map.length = (b.nbits + wordBits - 1) / wordBits
  narrow : ∀ w ∈ b.map,w < 2^32
  left : ∀ i,b.bit i = true → i < b.nbits

def Bitmap.free (b : Bitmap) : Finset Nat := (Finset.range b.nbits).filter (fun i => b.bit i = true)

lemma Bitmap.Sound.mem_free {b : Bitmap} (sound : b.Sound) : i ∈ b.free ↔ b.bit i = true := by
  simp only [Bitmap.free,Finset.mem_filter,Finset.mem_range]
  exact ⟨fun h => h.2,fun h => ⟨sound.left i h,h⟩⟩

lemma word_bit {w : Nat} (narrow : w < 2^32) (nonzero : w ≠ 0) : ∃ k,k < wordBits ∧ w.testBit k = true := by
  obtain ⟨k,set⟩ := exists_testBit_of_ne_zero nonzero
  refine ⟨k,?_,set⟩
  by_contra far
  have above : w < 2^k := lt_of_lt_of_le narrow (Nat.pow_le_pow_right (by decide) (by simp only [wordBits] at far; omega))
  rw [testBit_lt_two_pow above] at set
  cases set

lemma find_bit {w : Nat} : (List.range wordBits).find? (fun k => w.testBit k) = some k ↔
    k < wordBits ∧ w.testBit k = true ∧ ∀ j < k,w.testBit j = false := by
  rw [List.find?_range_eq_some]
  simp only [mem_range,Bool.not_eq_true']
  exact ⟨fun ⟨set,cap,one⟩ => ⟨cap,set,one⟩,fun ⟨cap,set,one⟩ => ⟨set,cap,one⟩⟩

lemma bitmapScan_spec {l : List Nat} {base : Nat} (narrow : ∀ w ∈ l,w < 2^32) : (bitmapScan l base = .ok none ∧ ∀ w ∈ l,w = 0) ∨
    ∃ ix offset,bitmapScan l base = .ok (some (base + ix,offset)) ∧ ix < l.length ∧ offset < wordBits ∧
      (l.getD ix 0).testBit offset = true ∧ (∀ j < offset,(l.getD ix 0).testBit j = false) ∧
      ∀ j < ix,l.getD j 0 = 0 := by
  induction l generalizing base with
  | nil => exact .inl ⟨rfl,by simp⟩
  | cons w _ ih =>
    by_cases zero : w = 0
    · have later := fun v h => narrow v (mem_cons_of_mem _ h)
      rcases @ih (base + 1) later with ⟨none,all⟩ | ⟨ix,offset,got,inside,cap,set,one,pre⟩
      · exact .inl ⟨by simp [bitmapScan,zero,none],by simpa [zero] using all⟩
      refine .inr ⟨ix + 1,offset,?_,by simpa using inside,cap,by simpa using set,by simpa using one,?_⟩
      · simp only [bitmapScan,zero,ne_eq,not_true_eq_false,if_false,got]
        rw [show base + 1 + ix = base + (ix + 1) by omega]
      intro j _
      cases j with
      | zero => simpa using zero
      | succ j => simpa using pre j (by omega)
    obtain ⟨k,cap,set⟩ := word_bit (narrow w (by simp)) zero
    have has : ∃ k,(List.range wordBits).find? (fun k => w.testBit k) = some k := by
      rw [← Option.isSome_iff_exists,List.find?_isSome]
      exact ⟨k,mem_range.mpr cap,set⟩
    obtain ⟨offset,got⟩ := has
    obtain ⟨bound',set',one⟩ := find_bit.mp got
    refine .inr ⟨0,offset,?_,by simp,bound',by simpa using set',by simpa using one,fun j h => absurd h (by omega)⟩
    simp [bitmapScan,zero,got]

lemma bit_set {b : Bitmap} {k w : Nat} (inside : k < b.map.length) (j : Nat) :
    ({b with map:=b.map.set k w} : Bitmap).bit j = if j / wordBits = k then w.testBit (j % wordBits) else b.bit j := by
  simp only [Bitmap.bit,List.getD_eq_getElem?_getD,List.getElem?_set]
  by_cases eq : j / wordBits = k
  · simp [eq,inside]
  have ne : ¬ k = j / wordBits := fun h => eq h.symm
  simp [eq,ne]

lemma xor_two_pow {w k : Nat} (set : w.testBit k = true) (j : Nat) : (w ^^^ 2^k).testBit j = (w.testBit j && decide (j ≠ k)) := by
  rw [testBit_xor,testBit_two_pow]
  by_cases eq : k = j
  · subst eq; simp [set]
  have ne : ¬ j = k := fun h => eq h.symm
  simp [eq,ne]

lemma or_two_pow (w k j : Nat) : (w ||| 2^k).testBit j = (w.testBit j || decide (j = k)) := by
  rw [testBit_or,testBit_two_pow]
  by_cases eq : k = j
  · simp [eq]
  have ne : ¬ j = k := fun h => eq h.symm
  simp [eq,ne]

lemma index_parts (i j : Nat) : i = j ↔ i / wordBits = j / wordBits ∧ i % wordBits = j % wordBits := by simp only [wordBits]; omega

lemma bit_inside {b : Bitmap} (set : b.bit i = true) : i / wordBits < b.map.length := by
  by_contra out
  have := getD_eq_default b.map 0 (Nat.le_of_not_lt out)
  rw [Bitmap.bit,this,zero_testBit] at set
  cases set

-- The least free index is taken; none is left exactly when no bit is set.
lemma bitmapAlloc_spec {b : Bitmap} (sound : b.Sound) : (bitmapAlloc b = .ok none ∧ ∀ i,b.bit i = false) ∨
    ∃ i b',bitmapAlloc b = .ok (some (i,b')) ∧ b.bit i = true ∧ (∀ j < i,b.bit j = false) ∧
      b'.nbits = b.nbits ∧ b'.Sound ∧ ∀ j,b'.bit j = (b.bit j && decide (j ≠ i)) := by
  rcases @bitmapScan_spec b.map 0 sound.narrow with ⟨none,all⟩ | ⟨ix,offset,got,inside,cap,set,one,pre⟩
  · refine .inl ⟨by simp [bitmapAlloc,none],fun i => ?_⟩
    by_cases short : i / wordBits < b.map.length
    · have zero := all _ (getElem_mem short)
      simp [Bitmap.bit,List.getD_eq_getElem?_getD,List.getElem?_eq_getElem short,zero]
    by_contra set
    exact short (bit_inside (by simpa using set))
  have spot : (ix * wordBits + offset) / wordBits = ix ∧ (ix * wordBits + offset) % wordBits = offset := by simp only [wordBits] at cap ⊢; omega
  have bits : ∀ j,({b with map:=b.map.set ix (b.map.getD ix 0 ^^^ 2^offset)} : Bitmap).bit j = (b.bit j && decide (j ≠ ix * wordBits + offset)) := by
    intro j
    rw [bit_set inside]
    have parts := index_parts j (ix * wordBits + offset)
    rw [spot.1,spot.2] at parts
    by_cases eq : j / wordBits = ix
    · rw [if_pos eq,xor_two_pow set]
      simp [Bitmap.bit,eq,parts]
    have ne : j ≠ ix * wordBits + offset := fun h => eq (parts.mp h).1
    simp [eq,ne]
  refine .inr ⟨_,{b with map:=b.map.set ix (b.map.getD ix 0 ^^^ 2^offset)},by simp [bitmapAlloc,got],?_,?_,rfl,⟨?_,?_,?_⟩,bits⟩
  · simp only [Bitmap.bit,spot]; exact set
  · intro j _
    rcases lt_or_ge (j / wordBits) ix with less | _
    · rw [Bitmap.bit,pre _ less,zero_testBit]
    have eq : j / wordBits = ix := by simp only [wordBits] at *; omega
    simp only [Bitmap.bit,eq]
    exact one _ (by simp only [wordBits] at *; omega)
  · simp [sound.words]
  · intro w mem
    rcases mem_or_eq_of_mem_set mem with old | rfl
    · exact sound.narrow w old
    refine xor_lt_two_pow ?_ (Nat.pow_lt_pow_right (by decide) cap)
    rw [List.getD_eq_getElem?_getD,List.getElem?_eq_getElem inside]
    exact sound.narrow _ (getElem_mem inside)
  intro i kept
  rw [bits,Bool.and_eq_true] at kept
  exact sound.left i kept.1

lemma bitmapFree_spec {b : Bitmap} (sound : b.Sound) (inside : i < b.nbits) (used : b.bit i = false) :
    ∃ b',bitmapFree b i = .ok b' ∧ b'.nbits = b.nbits ∧ b'.Sound ∧ ∀ j,b'.bit j = (b.bit j || decide (j = i)) := by
  have short : i / wordBits < b.map.length := by rw [sound.words]; simp only [wordBits]; omega
  have bits : ∀ j,({b with map:=b.map.set (i / wordBits) (b.map.getD (i / wordBits) 0 ||| 2^(i % wordBits))} : Bitmap).bit j = (b.bit j || decide (j = i)) := by
    intro j
    rw [bit_set short]
    have parts := index_parts j i
    by_cases eq : j / wordBits = i / wordBits
    · rw [if_pos eq,or_two_pow]
      simp [Bitmap.bit,eq,parts]
    have ne : j ≠ i := fun h => eq (parts.mp h).1
    simp [eq,ne]
  refine ⟨{b with map:=b.map.set (i / wordBits) (b.map.getD (i / wordBits) 0 ||| 2^(i % wordBits))},
    by simp [bitmapFree,inside,used],rfl,⟨by simp [sound.words],?_,?_⟩,bits⟩
  · intro w mem
    rcases mem_or_eq_of_mem_set mem with old | rfl
    · exact sound.narrow w old
    refine or_lt_two_pow ?_ (Nat.pow_lt_pow_right (by decide) (mod_lt _ (by decide)))
    rw [List.getD_eq_getElem?_getD,List.getElem?_eq_getElem short]
    exact sound.narrow _ (getElem_mem short)
  intro j kept
  rw [bits,Bool.or_eq_true,decide_eq_true_eq] at kept
  rcases kept with old | rfl
  · exact sound.left j old
  exact inside

section Sets
variable {b : Bitmap} {nbits : Nat} {used : Finset Nat}

lemma flip_bits (w k n j : Nat) : ((range' k n).foldl (fun w k => w ^^^ 2^k) w).testBit j = (w.testBit j ^^ decide (k ≤ j ∧ j < k + n)) := by
  induction n generalizing w k with
  | zero => rw [decide_eq_false (by omega),Bool.xor_false]; rfl
  | succ n ih =>
    rw [range'_succ,foldl_cons,ih,testBit_xor,testBit_two_pow,Bool.xor_assoc]
    by_cases eq : k = j
    · rw [decide_eq_true eq,decide_eq_false (by omega),decide_eq_true (by omega)]
      rfl
    rw [decide_eq_false eq,Bool.false_xor]
    exact congrArg _ (decide_eq_decide.mpr (by omega))

lemma ones_bit (i : Nat) : (0xFFFFFFFF).testBit (i % wordBits) = true := (testBit_two_pow_sub_one 32 _).trans (decide_eq_true (mod_lt _ (by decide)))

lemma full_bit (n nwords i : Nat) : (⟨n,replicate nwords 0xFFFFFFFF⟩ : Bitmap).bit i = decide (i / wordBits < nwords) := by
  rw [Bitmap.bit,List.getD_eq_getElem?_getD,List.getElem?_replicate]
  split
  next low => rw [decide_eq_true low,Option.getD_some,ones_bit]
  next high => rw [decide_eq_false high,Option.getD_none,zero_testBit]

lemma bitmapCreate_spec (narrow : nbits < 2^32) (made : bitmapCreate nbits = .ok b) : b.Sound ∧ b.nbits = nbits ∧ ∀ i < nbits,b.bit i = true := by
  unfold bitmapCreate at made
  dsimp only at made
  split at made
  · cases made
  rename_i some
  obtain ⟨_,words⟩ := not_or.mp some
  have fits : (nbits + wordBits - 1) % 2^32 = nbits + wordBits - 1 := by
    simp only [wordBits] at words ⊢
    omega
  rw [fits] at made
  generalize count : (nbits + wordBits - 1) / wordBits = nwords at made
  have near : (nwords - 1) * wordBits < nbits ∧ nbits ≤ nwords * wordBits := by
    simp only [wordBits] at count ⊢
    omega
  suffices all : b.map.length = nwords ∧ (∀ w ∈ b.map,w < 2^32) ∧ b.nbits = nbits ∧ ∀ i,b.bit i = decide (i < nbits) by
    obtain ⟨length,small,rfl,bits⟩ := all
    exact ⟨⟨length.trans count.symm,small,fun i set => of_decide_eq_true ((bits i).symm.trans set)⟩,rfl,fun i low => (bits i).trans (decide_eq_true low)⟩
  have old : ∀ w ∈ replicate nwords 0xFFFFFFFF,w < 2^32 := fun w mem => by rw [eq_of_mem_replicate mem]; decide
  split at made
  · cases made
    refine ⟨by simp,fun w mem => ?_,rfl,fun i => ?_⟩
    · rcases mem_or_eq_of_mem_set mem with kept | rfl
      · exact old w kept
      refine lt_pow_two_of_testBit _ fun j high => ?_
      rw [flip_bits,decide_eq_false (by simp only [wordBits] at near ⊢; omega),Bool.xor_false]
      exact testBit_lt_two_pow (lt_of_lt_of_le (by decide : 0xFFFFFFFF < 2^32) (Nat.pow_le_pow_right (by decide) high))
    rw [bit_set (b:=⟨nbits,replicate nwords 0xFFFFFFFF⟩) (by rw [length_replicate]; simp only [wordBits] at near; omega),flip_bits,ones_bit,full_bit]
    split
    · rw [Bool.true_xor,← decide_not]
      exact decide_eq_decide.mpr (by simp only [wordBits] at *; omega)
    exact decide_eq_decide.mpr (by simp only [wordBits] at *; omega)
  rename_i whole
  cases made
  refine ⟨length_replicate,old,rfl,fun i => ?_⟩
  rw [full_bit]
  simp only [wordBits] at whole ⊢
  exact decide_eq_decide.mpr (by omega)

-- What the calls are for: a set of indices in use.
inductive BitmapCall where
  | alloc
  | free (index : Nat)
  | test (index : Nat)

inductive BitmapReply where
  | index (i : Nat)
  | noMem
  | done
  | bit (set : Bool)
deriving DecidableEq

def BitmapCall.Below (nbits : Nat) : BitmapCall → Prop
  | .alloc => True
  | .free i => i < nbits
  | .test i => i < nbits

def Bitmap.serve (b : Bitmap) : BitmapCall → Except BitmapFault (BitmapReply × Bitmap)
  | .alloc => (bitmapAlloc b).map fun | some (i,t) => (.index i,t) | none => (.noMem,b)
  | .free i => (bitmapFree b i).map (.done,·)
  | .test i => (bitmapTest b i).map (.bit ·,b)

def setServe (nbits : Nat) (used : Finset Nat) : BitmapCall → Except BitmapFault (BitmapReply × Finset Nat)
  | .alloc => match (List.range nbits).find? (· ∉ used) with
    | some i => .ok (.index i,insert i used)
    | none => .ok (.noMem,used)
  | .free i => if i ∈ used then .ok (.done,used.erase i) else .error .doubleFree
  | .test i => .ok (.bit (i ∉ used),used)

-- The replies to calls in turn, up to the first failed assert.
def replies (serve : σ → BitmapCall → Except BitmapFault (BitmapReply × σ)) (s : σ) : List BitmapCall → List (Except BitmapFault BitmapReply)
  | [] => []
  | c :: calls => match serve s c with
    | .ok (r,t) => .ok r :: replies serve t calls
    | .error f => [.error f]

structure Bitmap.Holds (b : Bitmap) (nbits : Nat) (used : Finset Nat) : Prop extends b.Sound where
  size : b.nbits = nbits
  agree : ∀ i < nbits,b.bit i = decide (i ∉ used)

lemma Bitmap.Holds.serve (holds : b.Holds nbits used) (below : c.Below nbits) :
    (∃ r t left,b.serve c = .ok (r,t) ∧ setServe nbits used c = .ok (r,left) ∧ t.Holds nbits left) ∨
      ∃ f,b.serve c = .error f ∧ setServe nbits used c = .error f := by
  obtain ⟨sound,rfl,agree⟩ := holds
  cases c with
  | alloc =>
    refine .inl ?_
    rcases bitmapAlloc_spec sound with ⟨ran,full⟩ | ⟨i,t,ran,set,least,size,sound',bits⟩
    · have none : (List.range b.nbits).find? (· ∉ used) = Option.none :=
        List.find?_eq_none.mpr fun i mem => by rw [← agree i (mem_range.mp mem),full]; decide
      exact ⟨.noMem,b,used,by simp [Bitmap.serve,ran,Except.map],by simp only [setServe,none],sound,rfl,agree⟩
    have inside := sound.left i set
    have one : (List.range b.nbits).find? (· ∉ used) = some i := List.find?_range_eq_some.mpr
      ⟨by rw [← agree i inside,set],mem_range.mpr inside,fun j low => by rw [← agree j (low.trans inside),least j low]; rfl⟩
    refine ⟨.index i,t,insert i used,by simp [Bitmap.serve,ran,Except.map],by simp only [setServe,one],sound',size,fun j low => ?_⟩
    rw [bits,agree j low]
    simp [Bool.and_comm]
  | free i =>
    cases set : b.bit i with
    | true =>
      have out := (agree i below).symm.trans set
      refine .inr ⟨.doubleFree,?_,?_⟩
      · simp [Bitmap.serve,bitmapFree,show i < b.nbits from below,set,Except.map]
      exact if_neg (of_decide_eq_true out)
    | false =>
      have mem := (agree i below).symm.trans set
      obtain ⟨t,ran,size,sound',bits⟩ := bitmapFree_spec sound below set
      refine .inl ⟨.done,t,used.erase i,by simp [Bitmap.serve,ran,Except.map],if_pos (by simpa using mem),sound',size,fun j low => ?_⟩
      rw [bits,agree j low]
      simp [Bool.or_comm]
  | test i =>
    refine .inl ⟨_,b,used,?_,rfl,sound,rfl,agree⟩
    rw [← agree i below]
    simp [Bitmap.serve,bitmapTest,show i < b.nbits from below,Except.map]

theorem bitmap_is_set (narrow : nbits < 2^32) (made : bitmapCreate nbits = .ok b) (below : ∀ c ∈ calls,c.Below nbits) :
    replies Bitmap.serve b calls = replies (setServe nbits) ∅ calls := by
  obtain ⟨sound,size,all⟩ := bitmapCreate_spec narrow made
  have holds : b.Holds nbits ∅ := ⟨sound,size,fun i low => by simp [all i low]⟩
  clear made all size
  revert holds
  generalize (∅ : Finset Nat) = used
  induction calls generalizing b used with
  | nil => exact fun _ => rfl
  | cons c calls ih =>
    intro holds
    rcases holds.serve (below c mem_cons_self) with ⟨r,t,left,ran,same,next⟩ | ⟨f,ran,same⟩
    · rw [replies,replies,ran,same]
      exact congrArg _ (ih (fun c member => below c (mem_cons_of_mem _ member)) next.toSound left next)
    · rw [replies,replies,ran,same]

theorem bitmap_is_set_small : (bitmapCreate 33).toOption.map (replies Bitmap.serve · [.alloc,.alloc,.free 0,.alloc,.test 32]) =
    some (replies (setServe 33) ∅ [.alloc,.alloc,.free 0,.alloc,.test 32]) := by
  cases made : bitmapCreate 33 with
  | error f => cases made
  | ok b => exact congrArg some (bitmap_is_set (by decide) made (by simp [BitmapCall.Below]))

end Sets

def smallMap (w : Nat) : Bitmap := ⟨32768,w :: replicate 1023 0⟩

lemma smallMap_bit (w b : Nat) : (smallMap w).bit b = (decide (b < 32) && w.testBit b) := by
  by_cases low : b < 32
  · rw [Bitmap.bit,div_eq_of_lt (show b < wordBits from low),mod_eq_of_lt (show b < wordBits from low),decide_eq_true low]
    rfl
  have word : 1 ≤ b / wordBits := (le_div_iff_mul_le (by decide)).mpr (by simp only [wordBits]; omega)
  obtain ⟨k,eq⟩ := Nat.exists_eq_add_of_le' word
  have zero : (smallMap w).map.getD (b / wordBits) 0 = 0 := by
    rw [eq]
    change (replicate 1023 0).getD k 0 = 0
    rw [List.getD_eq_getElem?_getD,List.getElem?_replicate]
    split <;> rfl
  rw [Bitmap.bit,zero,zero_testBit,decide_eq_false low,Bool.false_and]

lemma smallMap_sound (narrow : w < 2^32) : (smallMap w).Sound where
  words := by
    change (replicate 1023 0).length + 1 = _
    rw [length_replicate]
    exact (by decide : 1023 + 1 = (32768 + wordBits - 1) / wordBits)
  narrow v mem := by
    obtain rfl | rest := mem_cons.mp mem
    · exact narrow
    rw [eq_of_mem_replicate rest]
    decide
  left b set := by
    rw [smallMap_bit,Bool.and_eq_true,decide_eq_true_eq] at set
    change b < 32768
    omega

end Ucore.Sfs
