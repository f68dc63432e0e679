import Ucore.Mm.Swap

-- The page-table functions of pmm.c and swap_out_vma as sequences of moves.
namespace Ucore.Mm
open Bytes Outcomes Tally Move

structure Wrote (k : Key) (e : Pte) (s t : Vm) : Prop where
  pte : t.pte = set s.pte k e
  mmap : t.mmap = s.mmap
  table : t.table = s.table
  cursor : s.Cursor → t.Cursor

structure Thins (s t : Core) : Prop where
  swap : ∀ f,t.swap f = true → s.swap f = true
  index : t.index = s.index
  data : t.data = s.data

lemma Thins.refl (s : Core) : Thins s s := ⟨fun _ => id,rfl,rfl⟩

section Remove
variable {b : Books} {s : Vm}

lemma set_back [DecidableEq κ] {f : κ → Nat} {k : κ} : set (set f k (f k + 1)) k (set f k (f k + 1) k - 1) = f := by
  rw [set_self,Nat.add_sub_cancel,show set (set f k (f k + 1)) k (f k) = set f k (f k) from Function.update_idem ..,set_same]

lemma let_go (law : Law b s.toCore) (idle : b.Idle s.toCore) (entry : s.pte k = .present f w a d) :
    ∃ t : Core,t = {s.toCore with pte:=set s.pte k .empty,dirty:=set s.dirty f (s.dirty f || (s.swap f && d)),ref:=set s.ref f (s.ref f - 1)} ∧
      f ∉ b.loose ∧ Way (Around k) (b,s.toCore) ({b with loose:=insert f b.loose},t) := by
  have used := law.maps_used (k:=k) (f:=f) (entry ▸ rfl)
  have gone : f ∉ b.loose := fun loose => by
    have := (idle f loose).1
    omega
  have cleared : Move (.entry k) (b,s.toCore) _ := .clear entry
  refine ⟨_,rfl,gone,(Way.one cleared (.inr rfl)).then (l:=.quiet) ?_ (.inl rfl)⟩
  have unpinned := unpin (b:={b with pin:=set b.pin f (b.pin f + 1)}) (f:=f)
    (s:={s.toCore with pte:=set s.pte k .empty,dirty:=set s.dirty f (s.dirty f || (s.swap f && d))}) (show 0 < set b.pin f (b.pin f + 1) f by rw [set_self]; omega)
  rw [show ({b with pin:=set b.pin f (b.pin f + 1)} : Books).pin = set b.pin f (b.pin f + 1) from rfl,set_back] at unpinned
  exact unpinned

lemma pageRemovePte_run (law : Law b s.toCore) (idle : b.Idle s.toCore) (k : Key) :
    ∃ t,pageRemovePte k s = .ok () t ∧ Wrote k .empty s t ∧ Thins s.toCore t.toCore ∧ Way (Around k) (b,s.toCore) (b,t.toCore) := by
  simp only [pageRemovePte,rules]
  cases entry : s.pte k with
  | empty => exact ⟨s,rfl,⟨by rw [← entry,set_same],rfl,rfl,id⟩,.refl _,.refl⟩
  | swapped o =>
    have cut : Move (.entry k) (b,s.toCore) _ := .drop entry
    have after := cut.law law
    obtain ⟨t,ran,near,shrinks,way⟩ := swapRemoveEntry_run (b:={b with duty:=set b.duty o (b.duty o + 1)}) (p:=set s.pte k .empty) (o:=o) after idle
      (show 0 < set b.duty o (b.duty o + 1) o by rw [set_self]; omega)
    simp only [rules,ran,setPte_run]
    rw [show ({b with duty:=set b.duty o (b.duty o + 1)} : Books).duty = set b.duty o (b.duty o + 1) from rfl,set_back] at way
    refine ⟨_,rfl,{near with pte:=by rw [near.pte]},{shrinks with},?_⟩
    refine (Way.one cut (.inr rfl)).trans ?_
    rw [show set t.pte k .empty = set s.pte k .empty by rw [near.pte]]
    exact way.mono (Still.around k)
  | present f w a d =>
    obtain ⟨u,rfl,gone,way⟩ := let_go law idle entry
    have used := law.maps_used (k:=k) (f:=f) (entry ▸ rfl)
    cases cached : s.swap f with
    | false =>
      have eq : set s.dirty f (s.dirty f || (s.swap f && d)) = s.dirty := by rw [cached,Bool.false_and,Bool.or_false,set_same]
      rw [eq] at way
      by_cases last : s.ref f - 1 = 0
      · simp only [rules,ite_run,cached,Bool.not_false,setRef_run,last,beq_self_eq_true,when_true,freePage_run,setPte_run]
        refine ⟨_,rfl,⟨rfl,rfl,rfl,id⟩,⟨fun g still => ?_,rfl,rfl⟩,?_⟩
        · change set s.swap f false g = true at still
          rwa [show set s.swap f false = s.swap by rw [← cached,set_same]] at still
        have freed := Move.free (b:={b with loose:=insert f b.loose}) (f:=f)
          (s:={s.toCore with pte:=set s.pte k .empty,ref:=set s.ref f (s.ref f - 1)}) (.inl rfl) (set_self.trans last) cached
        rw [Set.insert_sdiff_self_of_notMem gone] at freed
        rw [last] at way freed
        exact way.then freed (.inl rfl)
      have more : (s.ref f - 1 == 0) = false := by simpa using last
      simp only [rules,ite_run,cached,Bool.not_false,setRef_run,more,when_false,setPte_run]
      refine ⟨_,rfl,⟨rfl,rfl,rfl,id⟩,⟨fun g => id,rfl,rfl⟩,?_⟩
      have done := settle (b:={b with loose:=insert f b.loose}) (f:=f)
        (s:={s.toCore with pte:=set s.pte k .empty,ref:=set s.ref f (s.ref f - 1)}) (.inl (show 0 < set s.ref f (s.ref f - 1) f by rw [set_self]; omega))
      rw [Set.insert_sdiff_self_of_notMem gone] at done
      exact way.then done (.inl rfl)
    | true =>
      have done := settle (b:={b with loose:=insert f b.loose}) (f:=f)
        (s:={s.toCore with pte:=set s.pte k .empty,dirty:=set s.dirty f (s.dirty f || (s.swap f && d)),ref:=set s.ref f (s.ref f - 1)}) (.inr cached)
      rw [Set.insert_sdiff_self_of_notMem gone] at done
      have all := way.then done (.inl rfl)
      cases d with
      | false =>
        rw [Bool.and_false,Bool.or_false,set_same] at all
        simp only [rules,ite_run,cached,Bool.not_true,when_false,setRef_run,setPte_run]
        exact ⟨_,rfl,⟨rfl,rfl,rfl,id⟩,⟨fun g => id,rfl,rfl⟩,all⟩
      | true =>
        rw [cached,Bool.and_true,Bool.or_true] at all
        simp only [rules,ite_run,cached,Bool.not_true,when_true,setRef_run,setPte_run]
        exact ⟨_,rfl,⟨rfl,rfl,rfl,id⟩,⟨fun g => id,rfl,rfl⟩,all⟩

end Remove

section Insert
variable {b : Books} {s : Vm}

lemma getPte_run (table : s.table k.1 (k.2 / 512) = true) : getPte k s = .ok true s := by simp [getPte,table]

-- get_pte with create: the page-table page is there, is made or cannot be had.
lemma getPte_cases (k : Key) : ∃ r t,getPte k s = .ok r t ∧ t.toCore = s.toCore ∧ t.mmap = s.mmap ∧ (s.Cursor → t.Cursor) ∧
    (∀ m n,s.table m n = true → t.table m n = true) ∧ (r = true → t.table k.1 (k.2 / 512) = true) := by
  cases table : s.table k.1 (k.2 / 512) with
  | true => exact ⟨true,s,getPte_run table,rfl,rfl,id,fun _ _ => id,fun _ => table⟩
  | false =>
    simp only [getPte,rules,table,granted_run]
    cases s.mem s.tick with
    | false => exact ⟨false,_,rfl,rfl,rfl,id,fun _ _ => id,by simp⟩
    | true =>
      refine ⟨true,_,rfl,rfl,rfl,id,fun m n there => ?_,fun _ => ?_⟩
      · change set s.table k.1 (set (s.table k.1) (k.2 / 512) true) m n = true
        rcases eq_or_ne m k.1 with rfl | ne
        · rw [set_self]
          rcases eq_or_ne n (k.2 / 512) with rfl | away
          · exact set_self
          rw [set_ne away]
          exact there
        rw [set_ne ne]
        exact there
      change set s.table k.1 (set (s.table k.1) (k.2 / 512) true) k.1 (k.2 / 512) = true
      rw [set_self,set_self]

structure Free (b : Books) (s : Core) (k : Key) (f : Nat) : Prop where
  pin : b.pin f = 0
  maps : ∀ j,¬ (s.pte j).Maps f
  holds : s.swap f = true → ∀ j,j ≠ k → ¬ (s.pte j).Holds (s.index f)
  duty : s.swap f = true → b.duty (s.index f) = 0

lemma pageInsert_new (law : Law b s.toCore) (idle : ∀ g ∈ b.loose,g ≠ f → s.ref g = 0 ∧ s.swap g = false)
    (table : s.table k.1 (k.2 / 512) = true) (used : 0 < s.ref f ∨ s.swap f = true ∨ f ∈ b.loose) (calm : s.toCore.Calm f)
    (ne : ¬ (s.pte k).Maps f) (alone : w = true → Free b s.toCore k f) :
    ∃ t,pageInsert f k w a d s = .ok true t ∧ Wrote k (.present f w a d) s t ∧ Thins s.toCore t.toCore ∧
      Way (Around k) (b,s.toCore) ({b with loose:=b.loose \ {f}},t.toCore) := by
  let more : Vm := {s with ref:=set s.ref f (s.ref f + 1)}
  let held : Books := ⟨b.loose \ {f},set b.pin f (b.pin f + 1),b.duty⟩
  have pinned : Way (Around k) (b,s.toCore) (held,more.toCore) := by
    refine (Way.one (.pin used calm) (.inl rfl)).then (l:=.quiet) ?_ (.inl rfl)
    exact settle (b:={b with pin:=set b.pin f (b.pin f + 1)}) (s:=more.toCore) (.inl (show 0 < set s.ref f (s.ref f + 1) f by rw [set_self]; omega))
  have idle' : held.Idle more.toCore := by
    intro g loose
    obtain ⟨unused,out⟩ := idle g loose.1 loose.2
    exact ⟨(set_ne loose.2).trans unused,out⟩
  obtain ⟨t,ran,wrote,thins,way⟩ := pageRemovePte_run (pinned.law law) idle' k
  have ran : pageRemovePte k {s with ref:=set s.ref f (s.ref f + 1)} = .ok () t := ran
  have run : pageInsert f k w a d s = .ok true {t with pte:=set t.pte k (.present f w a d)} := by
    simp only [pageInsert,rules,getPte_run table,setRef_run]
    cases entry : s.pte k with
    | empty =>
      simp only [pageRemovePte,rules,entry] at ran
      cases ran
      rfl
    | present old w a d =>
      have apart : old ≠ f := fun eq => ne (by rw [entry]; exact eq)
      simp [apart,ran,setPte_run]
    | swapped o => simp [ran,setPte_run]
  have empty : t.pte k = .empty := by rw [wrote.pte,set_self]
  have pointed : Move (.entry k) (held,t.toCore) ({held with pin:=set held.pin f (held.pin f - 1)},{t.toCore with pte:=set t.pte k (.present f w a d)}) := by
    refine .point empty (show 0 < set b.pin f (b.pin f + 1) f by rw [set_self]; omega) fun writable => ?_
    have free := alone writable
    refine ⟨(set_self (f:=b.pin)).trans (by rw [free.pin]),⟨fun j maps => ?_,fun cached j holds => ?_,fun cached => ?_⟩⟩
    · rw [wrote.pte] at maps
      by_contra apart
      rw [set_ne apart] at maps
      exact free.maps j maps
    · rw [wrote.pte,thins.index] at holds
      rcases eq_or_ne j k with rfl | apart
      · rw [set_self] at holds
        exact holds
      rw [set_ne apart] at holds
      exact free.holds (thins.swap f cached) j apart holds
    rw [thins.index]
    exact free.duty (thins.swap f cached)
  rw [show held.pin = set b.pin f (b.pin f + 1) from rfl,set_back] at pointed
  refine ⟨_,run,{wrote with pte:=?_},{thins with},(pinned.trans way).then pointed (.inr rfl)⟩
  change set t.pte k _ = _
  rw [wrote.pte]
  exact Function.update_idem ..

-- The page is there already: only the bits of the entry change.
lemma pageInsert_same (table : s.table k.1 (k.2 / 512) = true) (entry : s.pte k = .present f w a d) :
    pageInsert f k w' a' d' s = .ok true {s with pte:=set s.pte k (.present f w' a' d')} := by
  simp only [pageInsert,rules,getPte_run table,setRef_run,entry]
  have twice : set (set s.ref f (s.ref f + 1)) f (s.ref f) = s.ref := by
    rw [show set (set s.ref f (s.ref f + 1)) f (s.ref f) = set s.ref f (s.ref f) from Function.update_idem ..,set_same]
  rw [twice]
  rfl

end Insert
end Ucore.Mm
