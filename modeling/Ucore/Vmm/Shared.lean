import Ucore.Lib.Runs
import Ucore.Vmm.Spaces

-- Runs of the calls of vmm.c over any number of address spaces and shared
-- objects, and what holds of shared areas along them.
namespace Ucore.Vmm
open Outcomes Runs
open Function (update update_eq_self update_of_ne update_self)
variable {τ : Type} {pager : Pager τ}

inductive Event where
  | mmCreate (m : Nat)
  | shmemCreate (o len : Nat)
  | map (m addr len : Nat) (flags : Flags)
  | mapShmem (m addr : Nat) (flags : Flags) (o : Nat)
  | unmap (m addr len : Nat)
  | brk (m addr len : Nat)
  | dup (target source : Nat)
  | destroy (m : Nat)
  | fault (m addr : Nat)

-- The last mm of a process goes by exit_mmap and mm_destroy.
def Event.act (pager : Pager τ) : Event → Act τ Unit
  | .mmCreate m => Vmm.mmCreate pager m
  | .shmemCreate o len => modify fun w => {w with shmem:=update w.shmem o (some ⟨len,0⟩),made:=update w.made o true}
  | .map m addr len flags => do
    let _ ← mmMap m addr len flags
    pure ()
  | .mapShmem m addr flags o => mmMapShmem m addr flags o
  | .unmap m addr len => mmUnmap pager m addr len
  | .brk m addr len => mmBrk pager m addr len
  | .dup target source => dupMmap pager target source
  | .destroy m => do
    exitMmap pager m
    mmDestroy m
  | .fault m addr => doPgfault pager m addr

def Event.Enabled (w : World τ) : Event → Prop
  | .mmCreate m => m ∉ w.live
  | .shmemCreate o len => w.made o = false ∧ len < word
  | .map m addr len _ => m ∈ w.live ∧ addr < word ∧ len < word
  | .mapShmem m addr _ o => m ∈ w.live ∧ addr < word ∧ w.shmem o ≠ none
  | .unmap m addr len => m ∈ w.live ∧ addr < word ∧ len < word
  | .brk m addr len => m ∈ w.live ∧ addr < word ∧ len < word
  | .dup target _ => target ∈ w.live
  | .destroy m => m ∈ w.live
  | .fault m addr => m ∈ w.live ∧ addr < word

instance (w : World τ) (e : Event) : Decidable (e.Enabled w) := by cases e <;> unfold Event.Enabled <;> infer_instance

def Event.Whole (w : World τ) : Event → Prop
  | .unmap m addr len => ¬ Splits (w.areas m) (lowEnd addr) (highEnd addr len)
  | .brk m addr len => ¬ Splits (w.areas m) (lowEnd addr) (highEnd addr len)
  | _ => True

instance (w : World τ) (e : Event) : Decidable (e.Whole w) := by cases e <;> unfold Event.Whole <;> infer_instance

def Moves (pager : Pager τ) (w : World τ) (e : Event) (t : World τ) : Prop :=
  e.Enabled w ∧ (e.act pager w = .ok () t ∨ ∃ x,e.act pager w = .err x t)

def boot (grants : Nat → Bool) (tables : τ) : World τ where
  live := ∅
  shmem := fun _ => none
  made := fun _ => false
  mapped := fun _ => false
  first := fun _ _ => none
  areas := fun _ => []
  grants := grants
  tick := 0
  tables := tables

section Steps
variable {held : τ → Nat → Nat → Prop} {w t : World τ} {m : Nat}

lemma doPgfault_run (tracks : pager.Tracks held) (tidy : Tidy held w) (here : m ∈ w.live) (addr : Nat) :
    (doPgfault pager m addr w).Meets (fun _ t => Paged pager held True w t) (fun _ t => Paged pager held True w t) fun _ => False := by
  unfold doPgfault
  simp only [rules]
  cases got : findVma (w.areas m) addr with
  | none => exact Paged.tick tidy w.tick
  | some vma =>
    dsimp only
    rw [ite_run]
    refine .ite (fun _ => Paged.tick tidy w.tick) fun below => ?_
    obtain ⟨mem,_,-⟩ := findVma_some (tidy.ordered m) got
    have even := ((tidy.ordered m).fits vma mem).startAligned
    refine ⟨⟨tidy.update here (update_eq_self m w.areas).symm rfl (tidy.ordered m) fun j p entry => ?_,fun law _ => law⟩,rfl,.single (.fault here _ _)⟩
    rcases tracks.fault _ _ _ _ _ entry with old | ⟨eq,rfl⟩
    · exact .inl ⟨old,fun eq => eq ▸ tidy.inside j p old⟩
    refine .inr ⟨eq,vma,mem,?_⟩
    unfold Area.Has pgSize
    unfold pgSize at even
    omega

lemma Law.create (law : Law v b) (m : Nat) (new : v m = []) : Law v {b with live:=insert m b.live} := by
  have eq : ∀ o,uses v (insert m b.live) o = uses v b.live o := fun o => by
    by_cases here : m ∈ b.live
    · rw [Finset.insert_eq_of_mem here]
    rw [uses,Finset.sum_insert here,new]
    exact zero_add _
  refine .of_objects (fun j out => law.gone j fun inside => out (Finset.mem_insert_of_mem inside)) (fun j a mem => {law.good j a mem with})
    fun o => ?_
  dsimp only
  rw [eq]
  exact law.object o

lemma Law.make (law : Law v b) (fresh : b.made o = false) (len : Nat) :
    Law v {b with shmem:=update b.shmem o (some ⟨len,0⟩),made:=update b.made o true} := by
  have idle := law.dead o (law.begun o fresh).1
  refine .of_objects law.gone (fun j a mem => {law.good j a mem with}) fun i => ?_
  dsimp only
  rcases eq_or_ne i o with rfl | ne
  · rw [update_self,update_self]
    refine ⟨fun x new => ?_,nofun,fun _ _ mapped => ?_,law.seen i,nofun,nofun⟩
    · cases new
      rw [idle]
      rfl
    rw [(law.begun i fresh).2] at mapped
    cases mapped
  rw [update_of_ne ne,update_of_ne ne]
  exact law.object i

def Event.Inner : Event → Prop
  | .mmCreate _ => False
  | .destroy _ => False
  | _ => True

section
variable (tracks : pager.Tracks held) (tidy : Tidy held w)
include tracks tidy

lemma Event.inner_run (e : Event) (may : e.Enabled w) (inner : e.Inner) :
    (e.act pager w).Meets (fun _ t => Paged pager held (e.Whole w) w t) (fun _ t => Paged pager held (e.Whole w) w t)
      fun x => x = .overlap ∨ ¬ Law w.areas w.toBooks := by
  cases e with
  | mmCreate m => exact inner.elim
  | destroy m => exact inner.elim
  | shmemCreate o len => exact ⟨⟨{tidy with},fun law _ => law.make may.1 len⟩,rfl,.refl⟩
  | map m addr len flags =>
    refine (mmMap_run (tidy.ordered m) addr len flags).next (fun _ t mapped => ?_) (fun _ t eq => ?_) fun _ no => no.elim
    · refine ⟨⟨mapped.tidy tidy may.1,fun law _ => mapped.law (tidy.ordered m) may.1 law⟩,?_,?_⟩ <;> rw [mapped.after]
    obtain ⟨n,rfl⟩ := eq
    exact Paged.tick tidy n
  | mapShmem m addr flags o =>
    refine (mmMapShmem_run tidy may.1 addr flags o).mono (fun _ t kept => kept) (fun _ t eq => ?_) fun _ none => (may.2.2 none).elim
    obtain ⟨n,rfl⟩ := eq
    exact Paged.tick tidy n
  | unmap m addr len =>
    refine (mmUnmap_run (tidy.ordered m) may.1 addr len).mono (fun _ t out => ?_) (fun _ t eq => ?_) fun _ bad => .inr bad
    · obtain ⟨access,bare⟩ := out
      obtain ⟨f,books⟩ := bare.books
      exact ⟨⟨bare.tidy tracks tidy may.1 (userAccess_iff.mp access).2.1,bare.law⟩,by rw [books],bare.steps may.1⟩
    obtain ⟨n,rfl⟩ := eq
    exact Paged.tick tidy n
  | brk m addr len => exact (mmBrk_run tracks tidy may.1 addr len).mono (fun _ _ kept => kept) (fun _ _ kept => kept) fun _ bad => .inr bad
  | dup _ _ => exact dupMmap_run tracks tidy may
  | fault m addr => exact (doPgfault_run tracks tidy may.1 addr).mono (fun _ _ kept => kept) (fun _ _ kept => kept) fun _ no => no.elim

lemma Event.run (e : Event) (may : e.Enabled w) :
    (e.act pager w).Meets (fun _ t => Kept held (e.Whole w) w t) (fun _ t => Kept held (e.Whole w) w t)
      fun x => x = .overlap ∨ ¬ Law w.areas w.toBooks := by
  by_cases inner : e.Inner
  · exact (e.inner_run tracks tidy may inner).mono (fun _ _ paged => paged.toKept) (fun _ _ paged => paged.toKept) fun _ bad => bad
  cases e with
  | mmCreate m =>
    have new := tidy.gone m may
    simp only [Event.act,Vmm.mmCreate,rules,setupPgdir,ite_run]
    refine .ite (fun _ => ?_) fun _ => ⟨⟨tidy.gone,tidy.ordered,fun j p entry => tidy.inside j p (tracks.create _ _ _ _ entry)⟩,fun law _ => law⟩
    exact ⟨⟨fun j out => tidy.gone j fun inside => out (Finset.mem_insert_of_mem inside),tidy.ordered,
      fun j p entry => tidy.inside j p (tracks.create _ _ _ _ entry)⟩,fun law _ => law.create m new⟩
  | destroy m => exact (exit_run tracks tidy may).mono (fun _ _ out => out.1) (fun _ _ no => no.elim) fun _ bad => .inr bad
  | _ => exact (inner trivial).elim

lemma Moves.kept (move : Moves pager w e t) : Kept held (e.Whole w) w t := by
  have run := e.run tracks tidy move.1
  rcases move.2 with ran | ⟨x,ran⟩ <;> rw [ran] at run <;> exact run

end

lemma Moves.tidy_run (tracks : pager.Tracks held) (path : Path (Moves pager) w events t) (tidy : Tidy held w) : Tidy held t :=
  path.invariant (fun _ _ _ tidy move => (move.kept tracks tidy).tidy) tidy

lemma boot_tidy (grants : Nat → Bool) {tables : τ} (empty : ∀ m p,¬ held tables m p) : Tidy held (boot grants tables) :=
  ⟨fun _ _ => rfl,fun _ => ⟨.nil,nofun⟩,fun m p entry => (empty m p entry).elim⟩

lemma boot_law (grants : Nat → Bool) (tables : τ) : Law (boot grants tables).areas (boot grants tables).toBooks :=
  ⟨fun _ _ => rfl,fun _ _ mem => absurd mem List.not_mem_nil,fun _ _ got => (nomatch got),fun _ _ => rfl,fun _ _ got => (nomatch got),
    fun _ some => absurd some (lt_irrefl 0),fun _ _ made => (nomatch made),fun _ _ => ⟨rfl,rfl⟩⟩

lemma Pager.untracked (pager : Pager τ) : pager.Tracks fun _ _ _ => False :=
  ⟨fun _ _ _ _ => id,fun _ _ _ _ _ _ => by simp,fun _ _ _ _ _ _ _ _ _ _ => .inl,fun _ _ _ _ _ => .inl,fun _ _ _ _ _ => id⟩

-- Along runs that unmap no range from the middle of a shared area.
lemma Moves.law_run (path : Path (fun w e t => Moves pager w e t ∧ e.Whole w) (boot grants tables) events t) : Law t.areas t.toBooks := by
  have keeps (u e x) (good : Tidy (fun _ _ _ => False) u ∧ Law u.areas u.toBooks) (move : Moves pager u e x ∧ e.Whole u) :
      Tidy (fun _ _ _ => False) x ∧ Law x.areas x.toBooks := by
    have kept := move.1.kept pager.untracked good.1
    exact ⟨kept.tidy,kept.law good.2 move.2⟩
  exact (path.invariant keeps ⟨boot_tidy grants fun _ _ no => no,boot_law grants tables⟩).2

theorem shared_areas (pager : Pager τ) (grants : Nat → Bool) (tables : τ) (events : List Event) (t : World τ)
    (path : Path (fun w e t => Moves pager w e t ∧ e.Whole w) (boot grants tables) events t) :
    (∀ m,∀ a ∈ t.areas m,isShared a.flags = true → ∃ o obj,a.shmem = some o ∧ t.shmem o = some obj ∧ obj.ref = uses t.areas t.live o ∧
      ∀ addr,a.Has addr → t.first m addr = some (o,addr - a.start + a.off)) ∧
    ∀ o,t.made o = true → (t.shmem o = none ↔ t.mapped o = true ∧ uses t.areas t.live o = 0) := by
  have law := Moves.law_run path
  refine ⟨fun m a member shared => ?_,fun o made => ⟨fun none => ⟨law.ended o none made,law.dead o none⟩,fun gone => ?_⟩⟩
  · obtain ⟨o,same,view⟩ := (law.good m a member).named shared
    obtain ⟨obj,found⟩ := law.alive member same
    exact ⟨o,obj,same,found,law.ref o obj found,view⟩
  cases found : t.shmem o with
  | none => rfl
  | some obj =>
    have := law.used o obj found gone.1
    omega

end Steps

def landed : Outcome Err Fault (World τ) Unit → Option (World τ)
  | .ok _ t => some t
  | .err _ t => some t
  | .fault _ => none

lemma landed_eq (o : Outcome Err Fault (World τ) Unit) (land : landed o = some t) : o = .ok () t ∨ ∃ x,o = .err x t := by
  cases o with
  | ok _ u => exact .inl (congrArg (Outcome.ok ()) (Option.some.inj land))
  | err x u => exact .inr ⟨x,congrArg (Outcome.err x) (Option.some.inj land)⟩
  | fault x => cases land

abbrev runs (pager : Pager τ) (fine : World τ → Event → Prop) [∀ w e,Decidable (fine w e)] : World τ → List Event → Option (World τ) :=
  Runs.runs (fun w e => e.Enabled w ∧ fine w e) fun w e => landed (e.act pager w)

lemma runs_path {fine : World τ → Event → Prop} [∀ w e,Decidable (fine w e)] {w : World τ} (ran : runs pager fine w events = some t) :
    Path (fun w e t => Moves pager w e t ∧ fine w e) w events t :=
  (Runs.runs_path ran).mono fun _ _ _ moved => ⟨⟨moved.1.1,landed_eq _ moved.2⟩,moved.1.2⟩

def idlePager : Pager Unit := ⟨fun _ _ => (true,()),fun _ _ _ _ => (),fun _ _ _ _ _ _ => (true,()),fun _ _ _ => (),fun _ _ _ => ()⟩

-- Three shared pages, copied by fork; the copy loses its first page, the
-- original goes, and what is left keeps the object with its offsets.
theorem shared_areas_fork : ∃ events t,Path (fun w e t => Moves idlePager w e t ∧ e.Whole w) (boot (fun _ => true) ()) events t ∧
    (∀ o,t.made o = true → (t.shmem o = none ↔ t.mapped o = true ∧ uses t.areas t.live o = 0)) ∧
    t.areas 1 = [⟨0x1001000,0x1003000,0x13,some 0,0x1000⟩] ∧ (t.shmem 0).map Shmem.ref = some 1 := by
  have ran : (runs idlePager (fun w e => e.Whole w) (boot (fun _ => true) ()) [.mmCreate 0,.shmemCreate 0 0x3000,.mapShmem 0 0x1000000 3 0,.mmCreate 1,.dup 1 0,.unmap 1 0x1000000 0x1000,
      .destroy 0]).map (fun t => (t.areas 1,(t.shmem 0).map Shmem.ref)) = some ([⟨0x1001000,0x1003000,0x13,some 0,0x1000⟩],some 1) := by decide +kernel
  obtain ⟨t,ran,same⟩ := Option.map_eq_some_iff.mp ran
  obtain ⟨areas,ref⟩ := Prod.mk.injEq .. ▸ same
  have path := runs_path ran
  exact ⟨_,t,path,(shared_areas idlePager _ _ _ t path).2,areas,ref⟩

-- Unmapping the middle page of three leaves a shared area without object.
theorem split_loses_object : ∃ w t : World Unit,(∃ events,Path (fun w e t => Moves idlePager w e t ∧ e.Whole w) (boot (fun _ => true) ()) events w) ∧
    Moves idlePager w (.unmap 0 0x1001000 0x1000) t ∧ ∃ a ∈ t.areas 0,isShared a.flags = true ∧ a.shmem = none := by
  have ran : (runs idlePager (fun w e => e.Whole w) (boot (fun _ => true) ()) [.mmCreate 0,.shmemCreate 0 0x3000,.mapShmem 0 0x1000000 3 0]).map (fun w =>
      decide ((Event.unmap 0 0x1001000 0x1000).Enabled w) && match (Event.unmap 0 0x1001000 0x1000).act idlePager w with
        | .ok _ t => decide (∃ a ∈ t.areas 0,isShared a.flags = true ∧ a.shmem = none)
        | .err .. => false
        | .fault .. => false) = some true := by decide +kernel
  obtain ⟨w,ran,fine⟩ := Option.map_eq_some_iff.mp ran
  obtain ⟨enabled,fine⟩ := (Bool.and_eq_true _ _).mp fine
  cases step : (Event.unmap 0 0x1001000 0x1000).act idlePager w with
  | ok u t =>
    rw [step] at fine
    exact ⟨w,t,⟨_,runs_path ran⟩,⟨of_decide_eq_true enabled,.inl step⟩,of_decide_eq_true fine⟩
  | err x t =>
    rw [step] at fine
    cases fine
  | fault x =>
    rw [step] at fine
    cases fine

end Ucore.Vmm
