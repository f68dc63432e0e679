import Ucore.Mm.Ways

-- The functions of swap.c keep the laws: each is a sequence of moves.
namespace Ucore.Mm
open Bytes Outcomes Tally
open Function (update_idem)
variable {b : Books} {s : Vm} {p : Key → Pte}

structure Shrinks (s t : Core) : Prop where
  swap : ∀ f,t.swap f = true → s.swap f = true
  stays : ∀ f,s.ref f ≠ 0 → t.swap f = s.swap f
  ref : ∀ f,t.ref f = s.ref f
  index : t.index = s.index
  data : t.data = s.data
  disk : t.disk = s.disk

section
variable (cached : s.swap f = true)
include cached

lemma swapListDel_run : swapListDel f s = .ok () (s.put (s.toCore.unlisted f)) := by simp [swapListDel,cached]

lemma swapActiveListAdd_run : swapActiveListAdd f s = .ok () (s.put (s.toCore.activated f)) := by simp [swapActiveListAdd,cached]

lemma swapInactiveListAdd_run : swapInactiveListAdd f s = .ok () (s.put (s.toCore.inactivated f)) := by simp [swapInactiveListAdd,cached]

lemma swapPageDel_run : swapPageDel f s = .ok () (s.put (s.toCore.unhashed f)) := by simp [swapPageDel,cached]

lemma swapFreePage_run (unused : s.ref f = 0) : swapFreePage f s = .ok () (s.put ((s.toCore.unhashed f).freed f)) := by
  simp only [swapFreePage,rules,cached,unused,beq_self_eq_true,Bool.and_self,swapPageDel_run cached,freePage_run]
  rfl

lemma swapFreePage_unlisted (unused : s.ref f = 0) : swapFreePage f (s.put (s.toCore.unlisted f)) = .ok () (s.put (((s.toCore.unlisted f).unhashed f).freed f)) := by
  obtain ⟨_,_,ref,swap⟩ := s.toCore.unlisted_frames f
  exact swapFreePage_run (s:=(s.put (s.toCore.unlisted f))) ((congrFun swap f).trans cached) ((congrFun ref f).trans unused)

end

lemma Core.unlisted_over (s : Core) (f : Nat) (p : Key → Pte) : (s.over p).unlisted f = (s.unlisted f).over p := by
  unfold Core.unlisted Core.over
  split <;> rfl

-- A cached page without an entry is stolen, and back takes it from the loose frames.
lemma stolen_way {c : Core} (idle : b.Idle s.toCore) (cached : s.swap f = true) (none : s.memMap (s.index f) = 0)
    (back : Move .quiet ({b with loose:=insert f b.loose},({((s.toCore.unlisted f).unhashed f) with memMap:=set s.memMap (s.index f) swapUnused} : Core).over p)
      ({b with loose:=insert f b.loose \ {f}},c)) : Way Still (b,s.toCore.over p) (b,c) := by
  have steal : Move .quiet (b,s.toCore.over p) ({b with loose:=insert f b.loose},
      {(((s.toCore.over p).unlisted f).unhashed f) with memMap:=set s.memMap (s.index f) swapUnused}) := .steal cached none
  rw [Core.unlisted_over] at steal
  rw [Set.insert_sdiff_self_of_notMem fun loose => absurd ((idle f loose).2.symm.trans cached) (by decide)] at back
  exact (Way.still steal).step back

lemma steal_way (idle : b.Idle s.toCore) (cached : s.swap f = true) (unused : s.ref f = 0) (none : s.memMap (s.index f) = 0) :
    Way Still (b,s.toCore.over p) (b,({(((s.toCore.unlisted f).unhashed f).freed f) with memMap:=set (s.toCore.unlisted f).memMap (s.index f) swapUnused} : Core).over p) := by
  rw [(s.toCore.unlisted_cache f).1]
  exact stolen_way idle cached none (.free (.inl rfl) ((congrFun (s.toCore.unlisted_frames f).2.2.1 f).trans unused) set_self)

lemma freed_shrinks (unused : s.ref f = 0) : Shrinks s.toCore {(((s.toCore.unlisted f).unhashed f).freed f) with memMap:=m} := by
  obtain ⟨_,swap,index,data,disk,_⟩ := s.toCore.unlisted_fields f
  obtain ⟨_,_,ref,_⟩ := s.toCore.unlisted_frames f
  have twice : set (set (s.toCore.unlisted f).swap f false) f false = set s.swap f false := by
    rw [swap]
    exact update_idem ..
  refine ⟨fun g still => ?_,fun g used => ?_,fun g => ?_,index,data,disk⟩
  · change set (set (s.toCore.unlisted f).swap f false) f false g = true at still
    rw [twice] at still
    rcases eq_or_ne g f with rfl | ne
    · rw [set_self] at still
      cases still
    rwa [set_ne ne] at still
  · change set (set (s.toCore.unlisted f).swap f false) f false g = s.swap g
    have ne : g ≠ f := by
      rintro rfl
      exact used unused
    rw [twice,set_ne ne]
  change set (s.toCore.unlisted f).ref f 0 g = s.ref g
  rw [ref]
  rcases eq_or_ne g f with rfl | ne
  · rw [set_self,unused]
  rw [set_ne ne]

lemma swapRemoveEntry_run (law : Law b (s.toCore.over p)) (idle : b.Idle s.toCore) (due : 0 < b.duty o) :
    ∃ t,swapRemoveEntry o s = .ok () t ∧ Beside s t ∧ Shrinks s.toCore t.toCore ∧
      Way Still (b,s.toCore.over p) ({b with duty:=set b.duty o (b.duty o - 1)},t.toCore.over p) := by
  obtain ⟨used,_,count,_⟩ := law.due due
  have pos : 0 < s.memMap o := by
    have count : s.memMap o = _ := count
    omega
  simp only [swapRemoveEntry,rules,swapOffset_run law used,pos,setCount_run,ite_run]
  by_cases one : s.memMap o = 1
  · rw [if_pos one]
    have due_one : b.duty o - 1 = 0 := by
      have count : s.memMap o = _ := count
      omega
    cases got : s.find o with
    | none =>
      refine ⟨_,rfl,.of rfl rfl rfl rfl rfl,⟨fun _ => id,fun _ _ => rfl,fun _ => rfl,rfl,rfl,rfl⟩,?_⟩
      rw [due_one]
      have released : Move .quiet (b,s.toCore.over p) _ := .release due one (find_none got)
      have twice : set (set s.memMap o (s.memMap o - 1)) o swapUnused = set s.memMap o swapUnused := update_idem ..
      simp only [twice]
      exact .still released
    | some f =>
      obtain ⟨mem,cached,index⟩ := law.cache.find_some got
      have undone : Move .quiet (b,s.toCore.over p) _ := .undup due fun _ => ⟨f,mem,index⟩
      by_cases unused : s.ref f = 0
      · let lower : Vm := {s with memMap:=set s.memMap o (s.memMap o - 1)}
        have slot : lower.index f = o := index
        have none : lower.memMap (lower.index f) = 0 := by
          rw [slot]
          exact set_self.trans (by rw [one])
        have out := steal_way (p:=p) (b:={b with duty:=set b.duty o (b.duty o - 1)}) (s:=lower) idle cached unused none
        have less := freed_shrinks (s:=lower) (m:=set lower.memMap o swapUnused) unused
        have listed : swapListDel f lower = _ := swapListDel_run cached
        have freed : swapFreePage f (lower.put (lower.toCore.unlisted f)) = _ := swapFreePage_unlisted cached unused
        rw [slot] at out
        simp only [unused,ne_eq,rules]
        rw [listed,next_ok,bind_run,freed,next_ok,setCount_run]
        refine ⟨_,rfl,?_,{less with},(Way.still undone).trans out⟩
        obtain ⟨_,_,_,top,pte⟩ := lower.toCore.unlisted_cache f
        exact .of pte rfl rfl rfl top
      simp only [unused,ne_eq,not_false_eq_true,if_true]
      exact ⟨_,rfl,.of rfl rfl rfl rfl rfl,⟨fun _ => id,fun _ _ => rfl,fun _ => rfl,rfl,rfl,rfl⟩,.still undone⟩
  rw [if_neg one]
  refine ⟨_,rfl,.of rfl rfl rfl rfl rfl,⟨fun _ => id,fun _ _ => rfl,fun _ => rfl,rfl,rfl,rfl⟩,.still (.undup due fun eq => absurd eq one)⟩

structure Scanned (memMap : Nat → Nat) (top : Nat) (found : Nat × Nat × Nat) : Prop where
  empty : found.1 ≠ 0 → memMap found.1 = swapUnused ∧ found.1 < top
  unheld : found.2.1 ≠ 0 → memMap found.2.1 = 0
  next : 0 < found.2.2 ∧ found.2.2 < top

lemma scanEntries_scanned (inside : 0 < next ∧ next < top) (old : unheld ≠ 0 → memMap unheld = 0) : Scanned memMap top (scanEntries memMap top last fuel next unheld) := by
  induction fuel generalizing next unheld with
  | zero => exact ⟨fun some => absurd rfl some,old,inside⟩
  | succ _ ih =>
    have later : 0 < (if next + 1 = top then 1 else next + 1) ∧ (if next + 1 = top then 1 else next + 1) < top := by split <;> omega
    have kept : (if memMap next = 0 ∧ unheld = 0 then next else unheld) ≠ 0 → memMap (if memMap next = 0 ∧ unheld = 0 then next else unheld) = 0 := by
      split
      next both => exact fun _ => both.1
      next => exact old
    simp only [scanEntries]
    refine iteInduction (fun _ => ih later kept) fun _ => ⟨fun some => ?_,kept,later⟩
    by_cases free : memMap next = swapUnused
    · rw [if_pos free]
      exact ⟨free,inside.2⟩
    rw [if_neg free] at some
    exact absurd rfl some

lemma unhash_way (idle : b.Idle s.toCore) (cached : s.swap f = true) (used : 0 < s.ref f) (none : s.memMap (s.index f) = 0) :
    Way Still (b,s.toCore.over p) (b,({((s.toCore.unlisted f).unhashed f) with memMap:=set (s.toCore.unlisted f).memMap (s.index f) swapUnused} : Core).over p) := by
  rw [(s.toCore.unlisted_cache f).1]
  exact stolen_way idle cached none (.settle (.inl (used.trans_eq (congrFun (s.toCore.unlisted_frames f).2.2.1 f).symm)))

-- An entry that try_alloc_swap_entry returns is unused. The pages keep their
-- references and contents; those without references may leave the cache.
lemma tryAllocSwapEntry_run (law : Law b (s.toCore.over p)) (idle : b.Idle s.toCore) (cursor : s.Cursor) :
    ∃ o t,tryAllocSwapEntry s = .ok o t ∧ Beside s t ∧ (o ≠ 0 → t.memMap o = swapUnused ∧ o < t.maxSwapOffset) ∧ t.ref = s.ref ∧
      (∀ f,t.swap f = true → s.swap f = true) ∧ t.data = s.data ∧
      Way Still (b,s.toCore.over p) (b,t.toCore.over p) := by
  have scanned : Scanned s.memMap s.maxSwapOffset (scanEntries s.memMap s.maxSwapOffset s.next s.maxSwapOffset s.next 0) :=
    scanEntries_scanned cursor fun some => absurd rfl some
  simp only [tryAllocSwapEntry,rules]
  revert scanned
  generalize scanEntries s.memMap s.maxSwapOffset s.next s.maxSwapOffset s.next 0 = got
  obtain ⟨empty,unheld,next⟩ := got
  rintro ⟨free,zero,moved⟩
  simp only [rules,ite_run] at free zero moved ⊢
  by_cases some : empty = 0
  · simp only [some,ne_eq,not_true_eq_false,if_false]
    by_cases held : unheld = 0
    · simp only [held,not_true_eq_false,if_false]
      exact ⟨0,_,rfl,⟨rfl,rfl,rfl,fun _ => moved⟩,fun no => absurd rfl no,rfl,fun _ => id,rfl,.refl⟩
    have count : s.memMap unheld = 0 := zero held
    obtain ⟨f,mem,index⟩ := law.cache.zero unheld count
    have cached : s.swap f = true := (law.cache.hashed f).mp mem
    have got : s.find unheld = Option.some f := law.cache.find_iff.mpr ⟨cached,index⟩
    have none : s.memMap (s.index f) = 0 := (congrArg s.memMap index).trans count
    have inside : unheld < s.maxSwapOffset := (law.slots.range unheld (by rw [show (s.toCore.over p).memMap unheld = 0 from count]; decide)).2
    obtain ⟨_,_,ref,swap⟩ := s.toCore.unlisted_frames f
    obtain ⟨_,_,_,top,pte⟩ := s.toCore.unlisted_cache f
    obtain ⟨_,_,_,data,_⟩ := s.toCore.unlisted_fields f
    let moving : Vm := {s with next:=next}
    have listed : swapListDel f moving = _ := swapListDel_run cached
    have fewer g : set (s.toCore.unlisted f).swap f false g = true → s.swap g = true := by
      intro still
      rcases eq_or_ne g f with rfl | ne
      · rw [set_self] at still
        cases still
      rwa [set_ne ne,swap] at still
    simp only [held,rules,got,cached]
    rw [show swapListDel f {s with next:=next} = _ from listed,next_ok]
    by_cases unused : s.ref f = 0
    · have freed : swapFreePage f (moving.put (moving.toCore.unlisted f)) = _ := swapFreePage_unlisted cached unused
      simp only [unused,rules,freed,setCount_run]
      refine ⟨unheld,_,rfl,⟨pte,rfl,rfl,fun _ => ⟨moved.1,moved.2.trans_eq top.symm⟩⟩,fun _ => ⟨set_self,inside.trans_eq top.symm⟩,?_,?_,data,?_⟩
      · change set (s.toCore.unlisted f).ref f 0 = s.ref
        rw [ref,← unused]
        exact set_same
      · intro g still
        refine fewer g ?_
        change set (set (s.toCore.unlisted f).swap f false) f false g = true at still
        rwa [show set (set (s.toCore.unlisted f).swap f false) f false = set (s.toCore.unlisted f).swap f false from update_idem ..] at still
      have way := steal_way (p:=p) idle cached unused none
      rw [show s.index f = unheld from index] at way
      exact way
    simp only [unused,rules]
    have removed : swapPageDel f (moving.put (moving.toCore.unlisted f)) = _ := swapPageDel_run ((congrFun swap f).trans cached)
    simp only [rules,removed,setCount_run]
    refine ⟨unheld,_,rfl,⟨pte,rfl,rfl,fun _ => ⟨moved.1,moved.2.trans_eq top.symm⟩⟩,fun _ => ⟨set_self,inside.trans_eq top.symm⟩,ref,fewer,data,?_⟩
    have way := unhash_way (p:=p) idle cached (Nat.pos_of_ne_zero unused) none
    rw [show s.index f = unheld from index] at way
    exact way
  simp only [some,ne_eq,not_false_eq_true,if_true]
  obtain ⟨unused,inside⟩ := free some
  exact ⟨empty,_,rfl,⟨rfl,rfl,rfl,fun _ => moved⟩,fun _ => ⟨unused,inside⟩,rfl,fun _ => id,rfl,.refl⟩

-- swap_page_add of a mapped page without an entry, followed by
-- swap_active_list_add when it succeeds.
lemma swapPageAdd_new (law : Law b (s.toCore.over p)) (idle : b.Idle s.toCore) (cursor : s.Cursor) (out : s.swap f = false) (used : 0 < s.ref f) :
    (∃ t,swapPageAdd f 0 s = .ok false t ∧ Beside s t ∧ Way Still (b,s.toCore.over p) (b,t.toCore.over p)) ∨
    (∃ u t,swapPageAdd f 0 s = .ok true u ∧ swapActiveListAdd f u = .ok () t ∧ Beside s t ∧ t.ref = s.ref ∧ t.swap f = true ∧ t.dirty f = true ∧
      t.data = s.data ∧ Way Still (b,s.toCore.over p) (b,t.toCore.over p)) := by
  obtain ⟨o,u,ran,near,given,ref,fewer,data,way⟩ := tryAllocSwapEntry_run law idle cursor
  simp only [swapPageAdd,rules,out,Bool.not_false,ran,ite_run]
  by_cases none : o = 0
  · simp only [none,if_true]
    exact .inl ⟨u,rfl,near,way⟩
  obtain ⟨unused,inside⟩ := given none
  have after := way.law law
  have still : u.swap f = false := by
    cases cached : u.swap f with
    | false => rfl
    | true => exact absurd ((fewer f cached).symm.trans out) (by decide)
  have gone : f ∉ u.free := after.used (.inl (show 0 < u.ref f from ref ▸ used))
  have offset : swapOffset o u = .ok () u := by simp [swapOffset,Nat.pos_of_ne_zero none,inside]
  simp only [none,rules,offset,unused,beq_self_eq_true,setCount_run]
  refine .inr ⟨_,_,rfl,swapActiveListAdd_run set_self,near.trans (.of rfl rfl rfl rfl rfl),ref,set_self,set_self,data,?_⟩
  exact way.step (.adopt still gone unused (Nat.pos_of_ne_zero none) inside)

-- swap_in_page finds the page of the slot in the cache or reads it.
lemma swapInPage_run (law : Law b (s.toCore.over p)) (used : s.memMap o ≠ swapUnused) : (swapInPage o s).Meets
      (fun f t => Beside s t ∧ t.find o = some f ∧ t.memMap = s.memMap ∧ (∀ g,s.ref g ≠ 0 ∨ g ∈ b.loose → t.swap g = s.swap g) ∧ t.ref = s.ref ∧
        Way Still (b,s.toCore.over p) (b,t.toCore.over p))
      (fun _ t => Beside s t ∧ t.ref = s.ref ∧ t.swap = s.swap ∧ Way Still (b,s.toCore.over p) (b,t.toCore.over p))
      (fun _ => False) := by
  simp only [swapInPage,rules,swapOffset_run law used]
  cases got : s.find o with
  | some f => exact ⟨.refl s,got,rfl,fun _ _ => rfl,rfl,.refl⟩
  | none =>
    rcases allocPage_run law with ⟨t,ran,eq,near⟩ | ⟨f,_,t,_,ran,eq,near,unused,out,tight,way⟩
    · simp only [rules,ran]
      exact ⟨near,by rw [eq],by rw [eq],by rw [eq]; exact .refl⟩
    have inside : 0 < o := (law.slots.range o used).1
    have after := way.law law
    have memMap : t.memMap = s.memMap := by rw [eq]
    have ref : t.ref = s.ref := by rw [eq]
    have unused' : t.ref f = 0 := by rw [eq]; exact unused
    have outside' : t.swap f = false := by rw [eq]; exact out
    have found' : (t.toCore.over p).find o = none := by rw [eq]; exact got
    have used' : t.memMap o ≠ swapUnused := by rw [eq]; exact used
    simp only [rules,ran,swapfsRead,granted_run]
    cases t.mem t.tick with
    | false =>
      simp only [rules,freePage_run]
      refine ⟨near.trans (.of rfl rfl rfl rfl rfl),?_,?_,way.trans ?_⟩
      · change set t.ref f 0 = s.ref
        rw [← unused',set_same,eq]
      · change set t.swap f false = s.swap
        rw [← outside',set_same,eq]
      have freed := freed_way (p:=p) (b:={b with loose:=insert f b.loose}) (.inl rfl) unused' outside'
      rw [Set.insert_sdiff_self_of_notMem tight] at freed
      exact freed
    | true =>
      simp only [rules,swapPageAdd,outside',Bool.not_false,ite_run,inside.ne']
      rw [swapActiveListAdd_run (by exact set_self),next_ok]
      have fetched : Move .quiet ({b with loose:=insert f b.loose},t.toCore.over p) _ := .fetch (.inl rfl) unused' outside' used' found'
      have done := Move.settle (f:=f) (b:={b with loose:=insert f b.loose})
        (s:=({((t.toCore.hashed f o).activated f) with data:=set t.data f (t.disk o)} : Core).over p) (.inr set_self)
      rw [Set.insert_sdiff_self_of_notMem tight] at done
      have all := (way.step fetched).step done
      refine ⟨near.trans (.of rfl rfl rfl rfl rfl),(all.law law).cache.find_iff.mpr ⟨set_self,set_self⟩,memMap,fun g kept => ?_,ref,all⟩
      have ne : g ≠ f := by
        rintro rfl
        exact kept.elim (fun some => some unused) tight
      change set t.swap f true g = s.swap g
      rw [set_ne ne,eq]

-- Of the asserts of swap.c only the limit of swap_duplicate can fail: a slot that
-- MAX_SWAP_REF entries hold.
def Fault.Excused (f : Fault) : Prop := f.inSwap = true → f = .duplicate

def Cleaning (l : Label) : Prop := l = .quiet ∨ l = .discard

lemma Still.cleaning (l : Label) (still : Still l) : Cleaning l := .inl still

section
variable (low : 0 < o) (high : o < s.maxSwapOffset)
include low high

lemma swapOffset_ok : swapOffset o s = .ok () s := by simp [swapOffset,low,high]

lemma swapDuplicate_run : swapDuplicate o s = if s.memMap o < maxSwapRef then .ok () {s with memMap:=set s.memMap o (s.memMap o + 1)} else .fault .duplicate := by
  simp only [swapDuplicate,rules,swapOffset_ok low high,decide_eq_true_eq]
  split <;> rfl

lemma tryFreeSwapEntry_run : tryFreeSwapEntry o s = if s.memMap o = 0 then .ok true {s with memMap:=set s.memMap o swapUnused} else .ok false s := by
  simp only [tryFreeSwapEntry,rules,swapOffset_ok low high,ite_run]
  rfl

end

section Launder
variable (inside : 0 < s.index f ∧ s.index f < s.maxSwapOffset) (cached : s.swap f = true) (unused : s.ref f = 0)
include inside cached unused

lemma launderPage_zero (none : s.memMap (s.index f) = 0) :
    launderPage f s = .ok true {(s.put ((s.toCore.unhashed f).freed f)) with memMap:=set s.memMap (s.index f) swapUnused} := by
  simp only [launderPage,rules,tryFreeSwapEntry_run inside.1 inside.2,none,ite_run]
  rw [swapFreePage_run (by exact cached) (by exact unused)]
  rfl

lemma launderPage_clean (counted : s.memMap (s.index f) ≠ 0) (clean : s.dirty f = false) : launderPage f s = .ok true (s.put ((s.toCore.unhashed f).freed f)) := by
  simp only [launderPage,rules,tryFreeSwapEntry_run inside.1 inside.2,ite_run,counted,clean]
  rw [swapFreePage_run cached unused]
  rfl

variable (counted : s.memMap (s.index f) ≠ 0) (dirty : s.dirty f = true)
include counted dirty

omit cached unused in
lemma launderPage_crowded (full : maxSwapRef ≤ s.memMap (s.index f)) : launderPage f s = .fault .duplicate := by
  simp only [launderPage,rules,tryFreeSwapEntry_run inside.1 inside.2,ite_run,counted,dirty]
  rw [swapDuplicate_run inside.1 (by exact inside.2),if_neg (by exact not_lt.mpr full)]
  rfl

variable (few : s.memMap (s.index f) < maxSwapRef)
include few

omit inside cached unused counted dirty few in
lemma count_restored (s : Vm) (o : Nat) : set (set s.memMap o (s.memMap o + 1)) o (s.memMap o + 1 - 1) = s.memMap := by
  rw [Nat.add_sub_cancel,show set (set s.memMap o (s.memMap o + 1)) o (s.memMap o) = set s.memMap o (s.memMap o) from update_idem ..,set_same]

lemma launderPage_written (write : s.mem s.tick = true) :
    launderPage f s = .ok true {(s.put ((({s.toCore with disk:=set s.disk (s.index f) (s.data f),dirty:=set s.dirty f false} : Core).unhashed f).freed f)) with
      tick:=s.tick + 1} := by
  simp only [launderPage,rules,tryFreeSwapEntry_run inside.1 inside.2,ite_run,counted,dirty]
  rw [swapDuplicate_run inside.1 (by exact inside.2),if_pos (by exact few)]
  simp only [rules,swapfsWrite,granted_run,write,Bool.not_true,when_false,setCount_run,count_restored,ite_run,unused,ne_eq,set_self]
  rw [tryFreeSwapEntry_run inside.1 (by exact inside.2),if_neg (by exact counted)]
  simp only [rules]
  rw [swapFreePage_run (by exact cached) (by exact unused)]
  rfl

lemma launderPage_failed (refused : s.mem s.tick = false) : launderPage f s = .ok false {(s.put (s.toCore.inactivated f)) with tick:=s.tick + 1} := by
  have kept : set (set s.dirty f false) f true = s.dirty := by
    rw [← dirty,show set (set s.dirty f false) f (s.dirty f) = set s.dirty f (s.dirty f) from update_idem ..,set_same]
  simp only [launderPage,rules,tryFreeSwapEntry_run inside.1 inside.2,ite_run,counted,dirty]
  rw [swapDuplicate_run inside.1 (by exact inside.2),if_pos (by exact few)]
  simp only [rules,swapfsWrite,granted_run,refused,Bool.not_false,when_true,setCount_run,count_restored,ite_run,unused,ne_eq,set_self,kept,dirty]
  rw [swapInactiveListAdd_run (by exact cached)]
  rfl

end Launder

lemma Law.discard_way (t : Core) (cached : t.swap f = true) (unused : t.ref f = 0) (clean : t.dirty f = false) (counted : t.memMap (t.index f) ≠ 0) :
    Way Cleaning (.none,t) (.none,((t.unlisted f).unhashed f).freed f) := by
  have gone : Move .discard (.none,t) _ := .discard cached unused clean counted
  have freed := Move.free (f:=f) (b:={Books.none with loose:=insert f ∅}) (s:=(t.unlisted f).unhashed f) (.inl rfl)
    ((congrFun (t.unlisted_frames f).2.2.1 f).trans unused) set_self
  rw [Set.insert_sdiff_self_of_notMem (Set.notMem_empty f)] at freed
  exact (Way.one gone (.inr rfl)).then freed (.inl rfl)

lemma launder_round (law : Law Books.none s.toCore) (cached : s.swap f = true) (unused : s.ref f = 0) (inactive : s.active f = false) :
    (launderPage f (s.put (s.toCore.unlisted f))).Meets
      (fun freed t => Beside s t ∧ Way Cleaning (.none,s.toCore) (.none,t.toCore) ∧ (freed = false → t.active f = false) ∧
        t.inactiveList = s.inactiveList.erase f ++ (if freed then [] else [f]))
      (fun _ _ => False) Fault.Excused := by
  have seen : s.memMap (s.index f) ≠ swapUnused := law.cache.known f ((law.cache.hashed f).mpr cached)
  obtain ⟨low,high⟩ := law.slots.range _ seen
  obtain ⟨_,_,ref,swap⟩ := s.toCore.unlisted_frames f
  obtain ⟨memMap,_,index,top,pte⟩ := s.toCore.unlisted_cache f
  obtain ⟨_,_,_,data,disk,dirty,_⟩ := s.toCore.unlisted_fields f
  have listed : (s.toCore.unlisted f).inactiveList = s.inactiveList.erase f := by
    unfold Core.unlisted
    rw [inactive]
    rfl
  let off : Vm := s.put (s.toCore.unlisted f)
  have slot : off.index f = s.index f := congrFun index f
  have count : off.memMap (off.index f) = s.memMap (s.index f) := by
    rw [slot]
    exact congrFun memMap _
  have inside : 0 < off.index f ∧ off.index f < off.maxSwapOffset := by
    rw [slot]
    exact ⟨low,high.trans_eq top.symm⟩
  have cached' : off.swap f = true := (congrFun swap f).trans cached
  have unused' : off.ref f = 0 := (congrFun ref f).trans unused
  have near : Beside s off := .of pte rfl rfl rfl top
  change (launderPage f off).Meets _ _ _
  by_cases none : s.memMap (s.index f) = 0
  · rw [launderPage_zero inside cached' unused' (count.trans none)]
    refine ⟨near.trans (.of rfl rfl rfl rfl rfl),?_,nofun,listed.trans (List.append_nil _).symm⟩
    have way := (steal_way (p:=(s.toCore.unlisted f).pte) (b:=Books.none) (s:=s) (fun _ no => no.elim) cached unused none).mono Still.cleaning
    rw [← slot,show s.toCore.over (s.toCore.unlisted f).pte = s.toCore by rw [pte]; rfl] at way
    exact way
  have counted : off.memMap (off.index f) ≠ 0 := fun zero => none (count.symm.trans zero)
  cases clean : s.dirty f with
  | false =>
    rw [launderPage_clean inside cached' unused' counted ((congrFun dirty f).trans clean)]
    exact ⟨near.trans (.of rfl rfl rfl rfl rfl),Law.discard_way _ cached unused clean none,nofun,listed.trans (List.append_nil _).symm⟩
  | true =>
    have soiled : off.dirty f = true := (congrFun dirty f).trans clean
    by_cases few : s.memMap (s.index f) < maxSwapRef
    · cases granted : s.mem s.tick with
      | true =>
        rw [launderPage_written inside cached' unused' counted soiled (count ▸ few) granted]
        refine ⟨near.trans (.of rfl rfl rfl rfl rfl),?_,nofun,listed.trans (List.append_nil _).symm⟩
        have written : Move .quiet (.none,s.toCore) _ := .write cached unused
        have gone := Law.discard_way (f:=f) ({s.toCore with disk:=set s.disk (s.index f) (s.data f),dirty:=set s.dirty f false} : Core)
          cached unused set_self none
        have eq : ({s.toCore with disk:=set s.disk (s.index f) (s.data f),dirty:=set s.dirty f false} : Core).unlisted f =
            {(s.toCore.unlisted f) with disk:=set off.disk (off.index f) (off.data f),dirty:=set off.dirty f false} := by
          rw [slot,show off.disk = s.disk from disk,show off.data = s.data from data,show off.dirty = s.dirty from dirty]
          unfold Core.unlisted
          split <;> rfl
        rw [eq] at gone
        exact ((Way.still written).mono Still.cleaning).trans gone
      | false =>
        rw [launderPage_failed inside cached' unused' counted soiled (count ▸ few) granted]
        exact ⟨near.trans (.of rfl rfl rfl rfl rfl),(Way.still (.inactivate cached)).mono Still.cleaning,fun _ => set_self,congrArg (· ++ [f]) listed⟩
    rw [launderPage_crowded inside counted soiled (count ▸ not_lt.mp few)]
    exact fun _ => rfl

lemma erase_middle {l : List Nat} (once : l.Nodup) (split : l = pre ++ f :: rest) : l.erase f = pre ++ rest := by
  subst split
  have gone : f ∉ pre := fun mem => (List.nodup_append.mp once).2.2 f mem f List.mem_cons_self rfl
  rw [List.erase_append_right _ gone,List.erase_cons_head]

section
variable (law : Law Books.none s.toCore)
include law

lemma pageLaunderLoop_run (tail : ∃ pre,s.inactiveList = pre ++ rest) :
    (pageLaunderLoop n rest count s).Meets (fun _ t => Beside s t ∧ Way Cleaning (.none,s.toCore) (.none,t.toCore))
      (fun _ _ => False) Fault.Excused := by
  induction n generalizing rest count s with
  | zero =>
    rw [pageLaunderLoop]
    exact ⟨.refl s,.refl⟩
  | succ n ih =>
    cases rest with
    | nil =>
      rw [pageLaunderLoop]
      exact ⟨.refl s,.refl⟩
    | cons f rest =>
      obtain ⟨pre,split⟩ := tail
      obtain ⟨cached,inactive⟩ := (law.listed.inactive f).mp (split ▸ List.mem_append_right pre List.mem_cons_self)
      have less := erase_middle law.listed.inactiveOnce split
      simp only [pageLaunderLoop,rules,cached,inactive,Bool.not_false,Bool.and_self,swapListDel_run cached,ite_run]
      by_cases unused : s.ref f = 0
      · have round := launder_round law cached unused inactive
        simp only [unused,ne_eq,not_true_eq_false,if_false]
        revert round
        cases launderPage f (s.put (s.toCore.unlisted f)) with
        | fault x => exact id
        | err e t => exact False.elim
        | ok freed t =>
          rintro ⟨near,way,stays,after⟩
          have next := way.law law
          have go rest' count' : (∃ pre,t.inactiveList = pre ++ rest') → (pageLaunderLoop n rest' count' t).Meets
              (fun _ u => Beside s u ∧ Way Cleaning (.none,s.toCore) (.none,u.toCore)) (fun _ _ => False) Fault.Excused := by
            intro tail
            exact (ih next tail).mono (fun _ u done => ⟨near.trans done.1,way.trans done.2⟩) nofun fun _ => id
          cases freed with
          | true =>
            simp only [rules]
            refine go rest (count + 1) ⟨pre,?_⟩
            rw [after,less]
            simp
          | false =>
            simp only [rules,stays rfl,ite_run]
            refine go (rest ++ [f]) count ⟨pre,?_⟩
            rw [after,less]
            simp
      simp only [unused,ne_eq,not_false_eq_true,if_true]
      have way : Way Cleaning (.none,s.toCore) (.none,(s.toCore.unlisted f).activated f) := (Way.still (.activate cached)).mono Still.cleaning
      obtain ⟨_,_,_,top,pte⟩ := s.toCore.unlisted_cache f
      rw [swapActiveListAdd_run ((congrFun (s.toCore.unlisted_frames f).2.2.2 f).trans cached),next_ok]
      have tail : ∃ pre,(s.put ((s.toCore.unlisted f).activated f)).inactiveList = pre ++ rest := ⟨pre,by
        rw [← less]
        unfold Core.unlisted
        rw [inactive]
        rfl⟩
      have moved : Beside s (s.put ((s.toCore.unlisted f).activated f)) := .of pte rfl rfl rfl top
      change (pageLaunderLoop n rest count (s.put ((s.toCore.unlisted f).activated f))).Meets _ _ _
      exact (ih (way.law law) tail).mono (fun _ u done => ⟨moved.trans done.1,way.trans done.2⟩) nofun fun _ => id

lemma pageLaunder_run : (pageLaunder s).Meets (fun _ t => Beside s t ∧ Way Cleaning (.none,s.toCore) (.none,t.toCore))
      (fun _ _ => False) Fault.Excused := by
  simp only [pageLaunder,rules]
  exact pageLaunderLoop_run law ⟨[],rfl⟩

lemma refillInactiveLoop_run (tail : ∃ pre,s.activeList = pre ++ rest) :
    ∃ t,refillInactiveLoop n rest s = .ok () t ∧ Beside s t ∧ Way Still (.none,s.toCore) (.none,t.toCore) := by
  induction n generalizing rest s with
  | zero => exact ⟨s,by rw [refillInactiveLoop]; rfl,.refl s,.refl⟩
  | succ n ih =>
    cases rest with
    | nil => exact ⟨s,by rw [refillInactiveLoop]; rfl,.refl s,.refl⟩
    | cons f rest =>
      obtain ⟨pre,split⟩ := tail
      obtain ⟨cached,active⟩ := (law.listed.active f).mp (split ▸ List.mem_append_right pre List.mem_cons_self)
      simp only [refillInactiveLoop,rules,cached,active,Bool.and_self,ite_run]
      by_cases unused : s.ref f = 0
      · simp only [unused,rules,swapListDel_run cached]
        rw [swapInactiveListAdd_run ((congrFun (s.toCore.unlisted_frames f).2.2.2 f).trans cached),next_ok]
        have way : Way Still (.none,s.toCore) (.none,(s.toCore.unlisted f).inactivated f) := .still (.inactivate cached)
        obtain ⟨_,_,_,top,pte⟩ := s.toCore.unlisted_cache f
        have tail : ∃ pre,(s.put ((s.toCore.unlisted f).inactivated f)).activeList = pre ++ rest := ⟨pre,by
          rw [← erase_middle law.listed.activeOnce split]
          unfold Core.unlisted
          rw [active]
          rfl⟩
        obtain ⟨t,ran,near,rest⟩ := ih (way.law law) tail
        have moved : Beside s (s.put ((s.toCore.unlisted f).inactivated f)) := .of pte rfl rfl rfl top
        exact ⟨t,ran,moved.trans near,way.trans rest⟩
      simp only [unused,if_false]
      exact ih law ⟨pre ++ [f],by rw [split]; simp⟩

lemma refillInactiveScan_run : ∃ t,refillInactiveScan s = .ok () t ∧ Beside s t ∧ Way Still (.none,s.toCore) (.none,t.toCore) := by
  simp only [refillInactiveScan,rules]
  exact refillInactiveLoop_run law ⟨[],rfl⟩

end

end Ucore.Mm
