import Ucore.Mm.Tables

-- Whole ranges: unmap_range, copy_range and swap_out_vma, page after page.
namespace Ucore.Mm
open Bytes Outcomes Tally
open Bool (false_eq_true)

def Vm.Tabled (s : Vm) : Prop := ∀ k,s.pte k ≠ .empty → s.table k.1 (k.2 / 512) = true

structure Sound (s : Vm) : Prop where
  law : Law Books.none s.toCore
  excl : Exclusive Books.none s.toCore
  cursor : s.Cursor
  tabled : s.Tabled

structure Ran (allow : Label → Prop) (s t : Vm) : Prop where
  way : Way allow (.none,s.toCore) (.none,t.toCore)
  cursor : s.Cursor → t.Cursor
  tabled : s.Tabled → t.Tabled

def Touching (p : Key → Prop) (l : Label) : Prop := l = .quiet ∨ ∃ k,p k ∧ l = .entry k

section Ran
variable {s t u : Vm}

lemma Ran.refl (s : Vm) : Ran allow s s := ⟨.refl,id,id⟩
lemma Ran.trans (one : Ran allow s t) (two : Ran allow t u) : Ran allow s u := ⟨one.way.trans two.way,two.cursor ∘ one.cursor,two.tabled ∘ one.tabled⟩
lemma Ran.mono (ran : Ran allow s t) (wider : ∀ l,allow l → more l) : Ran more s t := ⟨ran.way.mono wider,ran.cursor,ran.tabled⟩

lemma Sound.ran (sound : Sound s) (ran : Ran allow s t) : Sound t :=
  ⟨ran.way.law sound.law,ran.way.exclusive sound.law sound.excl,ran.cursor sound.cursor,ran.tabled sound.tabled⟩

lemma Touching.mono (wider : ∀ k,p k → q k) (l : Label) (touching : Touching p l) : Touching q l := touching.imp_right fun ⟨k,low,eq⟩ => ⟨k,wider k low,eq⟩

lemma Still.touching (l : Label) (still : Still l) : Touching p l := .inl still
lemma Around.touching (low : p k) (l : Label) (around : Around k l) : Touching p l := around.imp_right fun eq => ⟨k,low,eq⟩

lemma Ran.view (ran : Ran (Touching p) s t) (sound : Sound s) (out : ¬ p k) : t.view (t.pte k) = s.view (s.pte k) := by
  refine ran.way.view sound.law sound.excl (.inl fun l may => ?_) k fun l may => ?_
  · rcases may with rfl | ⟨j,_,rfl⟩ <;> exact nofun
  rcases may with rfl | ⟨j,low,rfl⟩
  · exact id
  rintro rfl
  exact out low

lemma Beside.ran (near : Beside s t) (way : Way allow (.none,s.toCore) (.none,t.toCore)) : Ran allow s t :=
  ⟨way,near.cursor,fun tabled k some => by
    rw [near.table]
    exact tabled k (near.pte ▸ some)⟩

lemma Wrote.ran (wrote : Wrote k e s t) (way : Way allow (.none,s.toCore) (.none,t.toCore))
    (there : e ≠ .empty → s.table k.1 (k.2 / 512) = true) : Ran allow s t :=
  ⟨way,wrote.cursor,fun tabled j some => by
    rw [wrote.table]
    rw [wrote.pte] at some
    rcases eq_or_ne j k with rfl | ne
    · rw [set_self] at some
      exact there some
    rw [set_ne ne] at some
    exact tabled j some⟩

lemma view_none {s : Core} {e : Pte} : s.view e = none ↔ e = .empty := by cases e <;> simp [Core.view]

end Ran

section Unmap
variable {s : Vm}

def Within (m la n : Nat) (k : Key) : Prop := k.1 = m ∧ la ≤ k.2 ∧ k.2 < la + n

lemma no_idle {s : Core} : Books.none.Idle s := fun _ no => no.elim

lemma unmapRange_run (sound : Sound s) (m la n : Nat) : ∃ t,unmapRange m la n s = .ok () t ∧ Ran (Touching (Within m la n)) s t ∧ t.mmap = s.mmap ∧
      (∀ k,Within m la n k → t.pte k = .empty) ∧ ∀ k,¬ Within m la n k → t.pte k = s.pte k := by
  induction n generalizing la s with
  | zero =>
    refine ⟨s,by rw [unmapRange]; rfl,.refl s,rfl,fun k inside => ?_,fun _ _ => rfl⟩
    obtain ⟨_,low,high⟩ := inside
    omega
  | succ n ih =>
    obtain ⟨t,ran,wrote,_,way⟩ := pageRemovePte_run sound.law no_idle (m,la)
    have one : Ran (Touching (Within m la (n + 1))) s t := (wrote.ran way fun no => absurd rfl no).mono (Around.touching ⟨rfl,by omega,by omega⟩)
    obtain ⟨u,rest,two,mmap,gone,kept⟩ := ih (sound.ran one) (la + 1)
    have widen : ∀ k,Within m (la + 1) n k → Within m la (n + 1) k := fun k inside => ⟨inside.1,by have := inside.2; omega,by have := inside.2; omega⟩
    have split : ∀ k,Within m la (n + 1) k → k = (m,la) ∨ Within m (la + 1) n k := by
      rintro ⟨x,y⟩ ⟨rfl,low,high⟩
      have low : la ≤ y := low
      have high : y < la + (n + 1) := high
      rcases eq_or_ne y la with rfl | ne
      · exact .inl rfl
      exact .inr ⟨rfl,by change la + 1 ≤ y; omega,by change y < la + 1 + n; omega⟩
    refine ⟨u,?_,one.trans (two.mono (Touching.mono widen)),mmap.trans wrote.mmap,fun k inside => ?_,fun k out => ?_⟩
    · rw [unmapRange,bind_run,ran]
      exact rest
    · by_cases later : Within m (la + 1) n k
      · exact gone k later
      rw [kept k later,wrote.pte,(split k inside).resolve_right later,set_self]
    have ne : k ≠ (m,la) := by
      rintro rfl
      exact out ⟨rfl,by omega,by omega⟩
    rw [kept k fun inside => out (widen k inside),wrote.pte,set_ne ne]

end Unmap

section Copy
variable {s : Vm}

lemma Sound.calm (sound : Sound s) (entry : s.pte k = .present f false a d) : s.toCore.Calm f := fun j a' d' writes => by
  have eq := (sound.excl j f a' d' writes).2.entries k (entry ▸ rfl)
  rw [eq,writes] at entry
  cases entry

lemma Sound.slot_calm (sound : Sound s) (entry : s.pte k = .swapped o) : ∀ f,s.swap f = true → s.index f = o → s.toCore.Calm f := by
  rintro f cached rfl j a d writes
  exact (sound.excl j f a d writes).2.slot cached k (entry ▸ rfl)

lemma share_present (sound : Sound s) (entry : s.pte k = .present f false a d) (empty : s.pte j = .empty) (table : s.table j.1 (j.2 / 512) = true) :
    ∃ t,pageInsert f j false false false s = .ok true t ∧ Ran (Around j) s t ∧ Wrote j (.present f false false false) s t ∧ t.data = s.data := by
  have used := sound.law.maps_used (k:=k) (f:=f) (entry ▸ rfl)
  obtain ⟨t,ran,wrote,thins,way⟩ := pageInsert_new (w:=false) (a:=false) (d:=false) sound.law (fun g no => no.elim) table (.inl used) (sound.calm entry)
    (by rw [empty]; exact id) nofun
  rw [show ({Books.none with loose:=Books.none.loose \ {f}} : Books) = Books.none by simp [Books.none]] at way
  exact ⟨t,ran,wrote.ran way fun _ => table,wrote,thins.data⟩

lemma Ran.core (core : t.toCore = s.toCore) (cursor : s.Cursor → t.Cursor) (tables : ∀ m n,s.table m n = true → t.table m n = true) : Ran allow s t := by
  refine ⟨by rw [core]; exact .refl,cursor,fun tabled k some => tables _ _ (tabled k ?_)⟩
  rwa [core] at some

-- copy_range takes the write bit off the entry it copies.
lemma protect_run (sound : Sound s) (entry : s.pte k = .present f w a d) :
    ∃ t,pageInsert f k false a d s = .ok true t ∧ Ran Still s t ∧ Wrote k (.present f false a d) s t ∧ t.data = s.data := by
  have table := sound.tabled k (by rw [entry]; exact nofun)
  have wrote : Wrote k (.present f false a d) s {s with pte:=set s.pte k (.present f false a d)} := ⟨rfl,rfl,rfl,id⟩
  exact ⟨_,pageInsert_same table entry,wrote.ran (.still (.rebit entry nofun .inl)) fun _ => table,wrote,rfl⟩

lemma share_swapped (sound : Sound s) (entry : s.pte k = .swapped o) (empty : s.pte j = .empty) : swapDuplicate o s = .fault .duplicate ∨
    swapDuplicate o s = .ok () {s with memMap:=set s.memMap o (s.memMap o + 1)} ∧
      Way (Around j) (.none,s.toCore) (.none,{s.toCore with memMap:=set s.memMap o (s.memMap o + 1),pte:=set s.pte j (.swapped o)}) := by
  obtain ⟨_,_,_,_,low,high⟩ := sound.law.holds_used (k:=k) (o:=o) (entry ▸ rfl)
  rw [swapDuplicate_run low high]
  by_cases few : s.memMap o < maxSwapRef
  · rw [if_pos few]
    have dup : Move .quiet (.none,s.toCore) _ := .dup few (sound.slot_calm entry)
    have park := Move.park (k:=j) (o:=o) (b:={Books.none with duty:=set Books.none.duty o (Books.none.duty o + 1)})
      (s:={s.toCore with memMap:=set s.memMap o (s.memMap o + 1)}) empty (show 0 < set Books.none.duty o (Books.none.duty o + 1) o by rw [set_self]; omega)
    rw [show ({Books.none with duty:=set Books.none.duty o (Books.none.duty o + 1)} : Books).duty = set Books.none.duty o (Books.none.duty o + 1) from rfl,
      set_back] at park
    exact .inr ⟨rfl,(Way.one dup (.inl rfl)).then park (.inr rfl)⟩
  rw [if_neg few]
  exact .inl rfl

lemma copyPage_run (sound : Sound s) (far : goal ≠ source) (la : Nat) : (copyPage goal source la s).Meets
      (fun _ t => Ran (Around (goal,la)) s t ∧ t.mmap = s.mmap ∧ (∀ k ≠ (goal,la),(t.pte k = .empty ↔ s.pte k = .empty)) ∧
        (s.pte (source,la) ≠ .empty → s.pte (goal,la) = .empty) ∧
        (s.pte (goal,la) = .empty → t.view (t.pte (goal,la)) = s.view (s.pte (source,la))))
      (fun _ t => Ran (Around (goal,la)) s t ∧ t.mmap = s.mmap ∧ ∀ k,t.pte k = s.pte k) Fault.Excused := by
  simp only [copyPage,rules,ite_run]
  by_cases none : s.pte (source,la) = .empty
  · simp only [none,if_true]
    refine ⟨.refl s,rfl,fun _ _ => .rfl,fun no => absurd rfl no,fun empty => ?_⟩
    rw [empty]
  simp only [none,if_false]
  obtain ⟨r,u,got,core,mmap,cursor,tables,made⟩ := getPte_cases (s:=s) (goal,la)
  have found : Ran (Around (goal,la)) s u := .core core cursor tables
  have sound' := sound.ran found
  have pte : u.pte = s.pte := by rw [core]
  have away : (source,la) ≠ (goal,la) := fun eq => far (Prod.mk.inj eq).1.symm
  simp only [got,rules]
  cases r with
  | false =>
    simp only [rules]
    exact ⟨found,mmap,fun k => by rw [pte]⟩
  | true =>
    by_cases empty : s.pte (goal,la) = .empty
    · have empty' : u.pte (goal,la) = .empty := by rw [pte,empty]
      simp only [rules,empty',beq_self_eq_true]
      cases entry : s.pte (source,la) with
      | empty => exact absurd entry none
      | present f w a d =>
        have finish : ∀ v : Vm,Ran Still u v → v.mmap = u.mmap → v.table = u.table → v.data = u.data → v.pte = set u.pte (source,la) (.present f false a d) →
            ∃ t,pageInsert f (goal,la) false false false v = .ok true t ∧ Ran (Around (goal,la)) s t ∧ t.mmap = s.mmap ∧
              (∀ k ≠ (goal,la),(t.pte k = .empty ↔ s.pte k = .empty)) ∧ t.view (t.pte (goal,la)) = s.view (.present f w a d) := by
          intro v one mmap' table data written
          obtain ⟨t,ran,two,wrote,data'⟩ := share_present (k:=(source,la)) (f:=f) (a:=a) (d:=d) (j:=(goal,la)) (sound'.ran one)
            (by rw [written,set_self]) (by rw [written,set_ne away.symm,empty']) (by rw [table]; exact made rfl)
          refine ⟨t,ran,(found.trans (one.mono (Still.around _))).trans two,wrote.mmap.trans (mmap'.trans mmap),fun k ne => ?_,?_⟩
          · rw [wrote.pte,set_ne ne,written]
            rcases eq_or_ne k (source,la) with rfl | off
            · rw [set_self,entry]
              exact ⟨nofun,nofun⟩
            rw [set_ne off,pte]
          rw [wrote.pte,set_self]
          exact congrArg some (by rw [data',data,core])
        have there : u.pte (source,la) = .present f w a d := by rw [pte,entry]
        cases w with
        | true =>
          obtain ⟨v,ran,one,wrote,data⟩ := protect_run sound' there
          obtain ⟨t,ran',all,mmap',eq,shown⟩ := finish v one wrote.mmap wrote.table data wrote.pte
          simp only [rules,ran,ran']
          exact ⟨all,mmap',eq,fun _ => empty,fun _ => shown⟩
        | false =>
          obtain ⟨t,ran',all,mmap',eq,shown⟩ := finish u (.refl u) rfl rfl rfl (by rw [← there,set_same])
          simp only [rules,ran']
          exact ⟨all,mmap',eq,fun _ => empty,fun _ => shown⟩
      | swapped o =>
        have there : u.pte (source,la) = .swapped o := by rw [pte,entry]
        rcases share_swapped sound' there empty' with ran | ⟨ran,way⟩
        · simp only [rules,ran]
          exact fun _ => rfl
        simp only [rules,ran,setPte_run]
        have wrote : Wrote (goal,la) (.swapped o) u {u with memMap:=set u.memMap o (u.memMap o + 1),pte:=set u.pte (goal,la) (.swapped o)} := ⟨rfl,rfl,rfl,id⟩
        refine ⟨found.trans (wrote.ran way fun _ => made rfl),mmap,fun k ne => ?_,fun _ => empty,fun _ => ?_⟩
        · change set u.pte (goal,la) (.swapped o) k = .empty ↔ _
          rw [set_ne ne,pte]
        change Core.view _ (set u.pte (goal,la) (.swapped o) (goal,la)) = _
        rw [set_self]
        refine (view_same _ rfl rfl rfl rfl : _ = u.view (.swapped o)).trans ?_
        rw [core]
    have full : (u.pte (goal,la) == .empty) = false := by
      rw [pte]
      simpa using empty
    simp only [rules,full]
    exact fun no => by cases no

lemma within_step (k : Key) : Within m la (n + 1) k ↔ k = (m,la) ∨ Within m (la + 1) n k := by
  obtain ⟨x,y⟩ := k
  simp only [Within,Prod.mk.injEq]
  omega

structure Copied (target source la n : Nat) (s t : Vm) : Prop where
  ran : Ran (Touching (Within target la n)) s t
  mmap : t.mmap = s.mmap
  same : ∀ k,¬ Within target la n k → (t.pte k = .empty ↔ s.pte k = .empty)

lemma Copied.refl (goal source la n : Nat) (s : Vm) : Copied goal source la n s s := ⟨.refl s,rfl,fun _ _ => .rfl⟩

lemma copyRange_run (sound : Sound s) (far : goal ≠ source) (la n : Nat) : (copyRange goal source la n s).Meets
      (fun _ t => Copied goal source la n s t ∧ ∀ i,la ≤ i → i < la + n → (s.pte (source,i) ≠ .empty → s.pte (goal,i) = .empty) ∧
        (s.pte (goal,i) = .empty → t.view (t.pte (goal,i)) = s.view (s.pte (source,i))))
      (fun _ t => Copied goal source la n s t) Fault.Excused := by
  induction n generalizing la s with
  | zero =>
    rw [copyRange]
    refine ⟨.refl _ _ _ _ s,fun i low high => ?_⟩
    omega
  | succ n ih =>
    have first := copyPage_run sound far la
    rw [copyRange,bind_run]
    revert first
    have widen : ∀ k,Within goal (la + 1) n k → Within goal la (n + 1) k := fun k inside => (within_step k).mpr (.inr inside)
    cases copyPage goal source la s with
    | fault x => exact id
    | err e t =>
      rintro ⟨ran,mmap,eq⟩
      exact ⟨ran.mono (Around.touching ((within_step _).mpr (.inl rfl))),mmap,fun k _ => by rw [eq k]⟩
    | ok _ t =>
      rintro ⟨ran,mmap,eq,alone,shown⟩
      have here : Ran (Touching (Within goal la (n + 1))) s t := ran.mono (Around.touching ((within_step _).mpr (.inl rfl)))
      have copy : ∀ u,Copied goal source (la + 1) n t u → Copied goal source la (n + 1) s u := fun u rest =>
        ⟨here.trans (rest.ran.mono (Touching.mono widen)),rest.mmap.trans mmap,fun k out =>
          (rest.same k fun inside => out (widen k inside)).trans (eq k fun equal => out ((within_step k).mpr (.inl equal)))⟩
      have rest := ih (sound.ran ran) (la + 1)
      simp only [rules]
      revert rest
      cases copyRange goal source (la + 1) n t with
      | fault x => exact id
      | err e u => exact copy u
      | ok _ u =>
        rintro ⟨more,later⟩
        refine ⟨copy u more,fun i low high => ?_⟩
        rcases eq_or_ne i la with rfl | off
        · refine ⟨alone,fun empty => ?_⟩
          rw [← shown empty]
          exact more.ran.view (sound.ran ran) fun inside => by have : i + 1 ≤ i := inside.2.1; omega
        obtain ⟨old,new⟩ := later i (by omega) (by omega)
        have ne : ∀ m,(m,i) ≠ (goal,la) := fun m equal => off (Prod.mk.inj equal).2
        rw [ne_eq,eq (source,i) (ne _),eq (goal,i) (ne _)] at old
        refine ⟨old,fun empty => ?_⟩
        rw [new ((eq _ (ne _)).mpr empty)]
        exact (ran.mono (Around.touching rfl) : Ran (Touching fun k => k = (goal,la)) s t).view sound (ne _)

end Copy

section SwapOut
variable {s : Vm}

def Core.parked (s : Core) (k : Key) (f : Nat) : Core :=
  {s with memMap:=set s.memMap (s.index f) (s.memMap (s.index f) + 1),ref:=set s.ref f (s.ref f - 1),pte:=set s.pte k (.swapped (s.index f))}

lemma set_filled {p : Key → Pte} (old : p k ≠ .empty) (new : e ≠ .empty) (j : Key) : set p k e j = .empty ↔ p j = .empty := by
  rcases eq_or_ne j k with rfl | ne
  · rw [set_self]
    exact ⟨fun h => absurd h new,fun h => absurd h old⟩
  rw [set_ne ne]

lemma swap_entry_way (sound : Sound s) (entry : s.pte k = .present f w a d) (cached : s.swap f = true) (marked : d = true → s.dirty f = true)
    (few : s.memMap (s.index f) < maxSwapRef) :
    Way (Around k) (.none,s.toCore) (.none,s.toCore.parked k f) := by
  have kept : set s.dirty f (s.dirty f || (s.swap f && d)) = s.dirty := by
    cases d with
    | false => rw [Bool.and_false,Bool.or_false,set_same]
    | true => rw [marked rfl,Bool.true_or,← marked rfl,set_same]
  have cleared : Move (.entry k) (.none,s.toCore) _ := .clear entry
  rw [kept] at cleared
  let one : Books := {Books.none with pin:=set Books.none.pin f (Books.none.pin f + 1)}
  let two : Books := {one with duty:=set Books.none.duty (s.index f) (Books.none.duty (s.index f) + 1)}
  have calm : ∀ g,s.swap g = true → s.index g = s.index f → ({s.toCore with pte:=set s.pte k .empty} : Core).Calm g := by
    intro g swap eq j a' d' writes
    have equal : g = f := by
      have here := sound.law.cache.find_of swap
      rw [eq,sound.law.cache.find_of cached] at here
      exact (Option.some.inj here).symm
    subst equal
    obtain ⟨ne,writes⟩ := set_ne_writable writes (by simp)
    exact ne ((sound.excl j g a' d' writes).2.entries k (entry ▸ rfl)).symm
  have dup : Move .quiet (one,{s.toCore with pte:=set s.pte k .empty}) (two,{s.toCore with pte:=set s.pte k .empty,memMap:=set s.memMap (s.index f) (s.memMap (s.index f) + 1)}) := .dup few calm
  have park := Move.park (k:=k) (o:=s.index f) (b:=two)
    (s:={s.toCore with pte:=set s.pte k .empty,memMap:=set s.memMap (s.index f) (s.memMap (s.index f) + 1)}) set_self
    (show 0 < set Books.none.duty (s.index f) (Books.none.duty (s.index f) + 1) (s.index f) by rw [set_self]; omega)
  rw [show two.duty = set Books.none.duty (s.index f) (Books.none.duty (s.index f) + 1) from rfl,set_back,
    show set (set s.pte k .empty) k (.swapped (s.index f)) = set s.pte k (.swapped (s.index f)) from Function.update_idem ..] at park
  have unpin := Move.unpin (f:=f) (b:=one)
    (s:={s.toCore with pte:=set s.pte k (.swapped (s.index f)),memMap:=set s.memMap (s.index f) (s.memMap (s.index f) + 1)})
    (show 0 < set Books.none.pin f (Books.none.pin f + 1) f by rw [set_self]; omega)
  rw [show one.pin = set Books.none.pin f (Books.none.pin f + 1) from rfl,set_back] at unpin
  have settle := Move.settle (f:=f) (b:=⟨insert f ∅,Books.none.pin,Books.none.duty⟩) (s:=s.toCore.parked k f) (.inr cached)
  rw [Set.insert_sdiff_self_of_notMem (Set.notMem_empty f)] at settle
  exact ((((Way.one cleared (.inr rfl)).then dup (.inl rfl)).then park (.inr rfl)).then unpin (.inl rfl)).then settle (.inl rfl)

structure Hidden (k : Key) (s t : Vm) : Prop where
  ran : Ran (Around k) s t
  mmap : t.mmap = s.mmap
  same : ∀ j,t.pte j = .empty ↔ s.pte j = .empty
  view : t.view (t.pte k) = s.view (s.pte k)

lemma Hidden.refl (k : Key) (s : Vm) : Hidden k s s := ⟨.refl s,rfl,fun _ => .rfl,rfl⟩

lemma Hidden.still (ran : Ran Still s t) (sound : Sound s) (pte : t.pte = s.pte) (mmap : t.mmap = s.mmap) (k : Key) : Hidden k s t :=
  ⟨ran.mono (Still.around k),mmap,fun j => by rw [pte],(ran.mono Still.touching : Ran (Touching fun _ => False) s t).view sound id⟩

lemma Hidden.trans (one : Hidden k s t) (two : Hidden k t u) : Hidden k s u :=
  ⟨one.ran.trans two.ran,two.mmap.trans one.mmap,fun j => (two.same j).trans (one.same j),two.view.trans one.view⟩

lemma swap_entry_run (sound : Sound s) (entry : s.pte k = .present f w a d) (cached : s.swap f = true) (marked : d = true → s.dirty f = true) :
    swapDuplicate (s.index f) s = .fault .duplicate ∨
    swapDuplicate (s.index f) s = .ok () {s with memMap:=set s.memMap (s.index f) (s.memMap (s.index f) + 1)} ∧ Hidden k s (s.put (s.toCore.parked k f)) := by
  have seen := sound.law.cache.known f ((sound.law.cache.hashed f).mpr cached)
  obtain ⟨low,high⟩ := sound.law.slots.range _ seen
  rw [swapDuplicate_run low high]
  by_cases few : s.memMap (s.index f) < maxSwapRef
  · rw [if_pos few]
    have wrote : Wrote k (.swapped (s.index f)) s (s.put (s.toCore.parked k f)) := ⟨rfl,rfl,rfl,id⟩
    refine .inr ⟨rfl,wrote.ran (swap_entry_way sound entry cached marked few) fun _ => sound.tabled k (by rw [entry]; exact nofun),rfl,fun j => ?_,?_⟩
    · change set s.pte k _ j = .empty ↔ _
      exact set_filled (by rw [entry]; exact nofun) (by exact nofun) j
    change Core.view _ (set s.pte k _ k) = _
    rw [set_self,entry]
    refine (view_same _ rfl rfl rfl rfl : _ = s.view (.swapped (s.index f))).trans ?_
    simp only [Core.view,sound.law.cache.find_of cached,Option.elim_some]
  rw [if_neg few]
  exact .inl rfl

lemma swapOutPage_run (sound : Sound s) (k : Key) : (swapOutPage k s).Meets (fun _ t => Hidden k s t) (fun _ _ => False) Fault.Excused := by
  simp only [swapOutPage,rules]
  cases entry : s.pte k with
  | empty => exact .refl k s
  | swapped o => exact .refl k s
  | present f w a d =>
    have used := sound.law.maps_used (k:=k) (f:=f) (entry ▸ rfl)
    have there := sound.tabled k (by simp [entry])
    cases a with
    | true =>
      simp only [rules,setPte_run]
      have wrote : Wrote k (.present f w false d) s {s with pte:=set s.pte k (.present f w false d)} := ⟨rfl,rfl,rfl,id⟩
      refine ⟨wrote.ran (Way.one (.rebit entry (fun on off => absurd (on.symm.trans off) (by decide)) .inl) (.inl rfl)) fun _ => there,rfl,fun j => ?_,
        view_bits entry k⟩
      change set s.pte k _ j = .empty ↔ _
      exact set_filled (by simp [entry]) (by simp) j
    | false =>
      have finish : ∀ u : Vm,Hidden k s u → u.pte = s.pte → u.swap f = true → u.ref f = s.ref f → (d = true → u.dirty f = true) →
          ((swapDuplicate (u.index f) u).next fun _ => (do setRef f (s.ref f - 1); setPte k (.swapped (u.index f)); pure true : VmM Bool)).Meets
            (fun _ t => Hidden k s t) (fun _ _ => False) Fault.Excused := by
        intro u old pte cached ref marked
        have there : u.pte k = .present f w false d := by rw [pte,entry]
        rcases swap_entry_run (sound.ran old.ran) there cached marked with ran | ⟨ran,hidden⟩
        · rw [ran]
          exact fun _ => rfl
        rw [ran]
        simp only [rules,setRef_run,setPte_run]
        rw [← ref]
        exact old.trans hidden
      simp only [rules,ite_run]
      cases cached : s.swap f with
      | false =>
        simp only [Bool.not_false,if_true]
        rcases swapPageAdd_new (p:=s.pte) sound.law no_idle sound.cursor cached used with
          ⟨t,ran,near,way⟩ | ⟨u,t,ran,mem,near,ref,swap,dirty,data,way⟩
        · simp only [ran,rules]
          have way : Way Still (.none,s.toCore) (.none,t.toCore.over s.pte) := way
          rw [← near.pte] at way
          exact .still (near.ran way) sound near.pte near.mmap k
        simp only [ran,rules,mem]
        have way : Way Still (.none,s.toCore) (.none,t.toCore.over s.pte) := way
        rw [← near.pte] at way
        exact finish t (.still (near.ran way) sound near.pte near.mmap k) near.pte swap (congrFun ref f) fun _ => dirty
      | true =>
        cases d with
        | false =>
          simp only [Bool.not_true,rules,when_false]
          exact finish s (.refl k s) rfl cached rfl (by simp)
        | true =>
          simp only [Bool.not_true,rules,when_true]
          have soiled : Ran Still s {s with dirty:=set s.dirty f true} := ⟨.still .soil,id,id⟩
          exact finish {s with dirty:=set s.dirty f true} (.still soiled sound rfl rfl k) rfl cached rfl fun _ => set_self

-- No area and nothing that can be read has changed.
structure Unseen (s t : Vm) : Prop where
  ran : Ran (Touching fun _ => True) s t
  mmap : t.mmap = s.mmap
  empty : ∀ j,t.pte j = .empty ↔ s.pte j = .empty
  view : ∀ j,t.view (t.pte j) = s.view (s.pte j)

lemma Unseen.refl (s : Vm) : Unseen s s := ⟨.refl s,rfl,fun _ => .rfl,fun _ => rfl⟩

lemma swapOutLoop_run (sound : Sound s) (m n addr require count : Nat) : (swapOutLoop m n addr require count s).Meets (fun _ t => Unseen s t) (fun _ _ => False) Fault.Excused := by
  induction n generalizing addr require count s with
  | zero =>
    rw [swapOutLoop]
    exact .refl s
  | succ n ih =>
    cases require with
    | zero =>
      rw [swapOutLoop]
      exact .refl s
    | succ require =>
      have page := swapOutPage_run sound (m,addr)
      rw [swapOutLoop,bind_run]
      revert page
      cases swapOutPage (m,addr) s with
      | fault x => exact id
      | err e t => exact False.elim
      | ok r t =>
        intro hidden
        have all : Ran (Touching fun _ => True) s t := hidden.ran.mono (Around.touching trivial)
        have view j : t.view (t.pte j) = s.view (s.pte j) := by
          rcases eq_or_ne j (m,addr) with rfl | ne
          · exact hidden.view
          exact (hidden.ran.mono (Around.touching rfl) : Ran (Touching fun k => k = (m,addr)) s t).view sound ne
        have go addr require count : (swapOutLoop m n addr require count t).Meets (fun _ u => Unseen s u) (fun _ _ => False) Fault.Excused := by
          have rest := ih (sound.ran hidden.ran) addr require count
          revert rest
          cases swapOutLoop m n addr require count t with
          | fault x => exact id
          | err e u => exact False.elim
          | ok c u =>
            rintro ⟨ran,mmap,eq,shown⟩
            exact ⟨all.trans ran,mmap.trans hidden.mmap,fun j => (eq j).trans (hidden.same j),fun j => (shown j).trans (view j)⟩
        simp only [rules]
        cases r with
        | true => exact go _ _ _
        | false => exact go _ _ _

lemma swapOutVma_run (sound : Sound s) (m : Nat) (vma : Vma) (addr require : Nat) : (swapOutVma m vma addr require s).Meets (fun _ t => Unseen s t) (fun _ _ => False) Fault.Excused := by
  rw [swapOutVma,ite_run]
  split
  · exact .refl s
  exact swapOutLoop_run sound m _ _ _ _

end SwapOut
end Ucore.Mm
