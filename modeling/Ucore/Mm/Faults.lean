import Ucore.Mm.Ranges
import Ucore.Mm.Vmm

-- do_pgfault: whatever it does to the page tables, every entry shows what it
-- showed before.
namespace Ucore.Mm
open Bytes Outcomes Tally
variable {s : Vm} {spare : Option Nat}

-- A write fault that would map a page again with fresh bits, although the dirty
-- bit of its entry is the only trace of a store: nothing else refers to the page
-- and the cache holds it as clean.
def Lossy (s : Core) (k : Key) : Prop :=
  ∃ f a,s.pte k = .present f false a true ∧ s.swap f = true ∧ s.dirty f = false ∧ s.ref f + s.memMap (s.index f) ≤ 1

def Faulting (s : Core) (k : Key) (l : Label) : Prop := l = .quiet ∨ l = .entry k ∨ l = .lossy ∧ Lossy s k

lemma Around.faulting {s : Core} (l : Label) (around : Around k l) : Faulting s k l := around.imp_right .inl

def lent (spare : Option Nat) : Books := {Books.none with loose:={f | spare = some f}}

lemma lent_none : lent none = Books.none := by simp [lent,Books.none]

structure Spared (spare : Option Nat) (s t : Vm) : Prop where
  way : Way Still (.none,s.toCore) (lent spare,t.toCore)
  beside : Beside s t
  core : ∃ rest,t.toCore = {s.toCore with free:=rest}
  idle : (lent spare).Idle t.toCore

lemma spareFor_run (sound : Sound s) (cow : Bool) : ∃ spare t,spareFor cow s = .ok spare t ∧ Spared spare s t := by
  have keep : ∀ t : Vm,t.toCore = s.toCore → Beside s t → Spared none s t := fun t core near =>
    ⟨by rw [lent_none,core]; exact .refl,near,⟨s.free,core⟩,fun _ no => by cases no⟩
  cases cow with
  | false => exact ⟨none,s,rfl,keep s rfl (.refl s)⟩
  | true =>
    rcases allocPage_run (p:=s.pte) sound.law with ⟨t,ran,core,near⟩ | ⟨f,rest,t,_,ran,core,near,idle,out,_,way⟩
    · exact ⟨none,t,ran,keep t core near⟩
    have loose : ({Books.none with loose:=insert f Books.none.loose} : Books) = lent (some f) := by simp [lent,Books.none]
    have way : Way Still (.none,s.toCore) (_,t.toCore.over s.pte) := way
    rw [loose,← near.pte] at way
    refine ⟨some f,t,ran,way,near,⟨rest,core⟩,fun g eq => ?_⟩
    cases eq
    rw [core]
    exact ⟨idle,out⟩

lemma lent_used : ({lent (some f) with loose:=(lent (some f)).loose \ {f}} : Books) = Books.none := by simp [lent,Books.none]

lemma freeSpare_run (idle : (lent spare).Idle s.toCore) :
    ∃ t,freeSpare spare s = .ok () t ∧ Beside s t ∧ t.data = s.data ∧ Way Still (lent spare,s.toCore) (.none,t.toCore) := by
  cases spare with
  | none => exact ⟨s,rfl,.refl s,rfl,by rw [lent_none]; exact .refl⟩
  | some f =>
    obtain ⟨unused,out⟩ := idle f rfl
    have freed : Move .quiet (lent (some f),s.toCore) _ := .free rfl unused out
    rw [lent_used] at freed
    exact ⟨_,rfl,.of rfl rfl rfl rfl rfl,rfl,.still freed⟩

lemma lent_keep (ne : ∀ g,spare = some g → g ≠ f) : ({lent spare with loose:=(lent spare).loose \ {f}} : Books) = lent spare := by
  have gone : f ∉ (lent spare).loose := fun eq => ne f eq rfl
  rw [Set.sdiff_singleton_eq_self gone]

lemma Law.sole {b : Books} {s : Core} (law : Law b s) (entry : s.pte k = .present f w a d) (few : s.ref f ≤ 1)
    (slot : s.swap f = true → s.memMap (s.index f) = 0) : b.pin f = 0 ∧ Sole b s k f := by
  have refs := law.refs.refs f
  have maps : (s.pte k).Maps f := by rw [entry]; exact rfl
  have some : 0 < s.mapped f := tally_pos (law.refs.maps_finite f) maps
  refine ⟨by omega,fun j ne => ?_,fun cached j => law.unheld (.inl (slot cached)) j,fun cached => ?_⟩
  · exact tally_le_one (law.refs.maps_finite f) (show s.mapped f ≤ 1 by omega) ne maps
  have counts := law.slots.counts (s.index f)
  have big : 0 < swapUnused := by decide
  rw [slot cached] at counts
  omega

-- A page of the cache that only the swap entry of k refers to.
lemma Law.free_slot {b : Books} {s : Core} (law : Law b s) (entry : s.pte k = .swapped (s.index f))
    (few : s.ref f + s.memMap (s.index f) ≤ 1) : Free b s k f := by
  have holds : (s.pte k).Holds (s.index f) := by rw [entry]; exact rfl
  obtain ⟨_,_,_,_⟩ := law.holds_used holds
  have some := law.holder holds
  have refs := law.refs.refs f
  refine ⟨by omega,law.unmapped (by omega),fun _ j apart ne => apart ?_,fun _ => by omega⟩
  exact tally_le_one (law.refs.holds_finite _) (show s.held (s.index f) ≤ 1 by omega) ne holds

-- A frame still owed is not the one an entry was made for.
lemma idle_after {s t : Core} (law : Law (lent spare) s) (idle : (lent spare).Idle s) (after : Law (lent spare) t)
    (pte : t.pte = set s.pte k (.present f w a d)) (thins : Thins s t) (ne : ∀ g,spare = some g → f ≠ g) : (lent spare).Idle t := by
  intro g eq
  obtain ⟨unused,out⟩ := idle g eq
  constructor
  · have none : t.mapped g = 0 := tally_zero fun j maps => by
      rw [pte] at maps
      rcases eq_or_ne j k with rfl | away
      · rw [set_self] at maps
        exact ne g eq maps
      rw [set_ne away] at maps
      exact law.unmapped unused j maps
    rw [after.refs.refs g,none]
    rfl
  cases cached : t.swap g with
  | false => rfl
  | true => exact absurd ((thins.swap g cached).symm.trans out) (by decide)

lemma map_in (law : Law (lent spare) s.toCore) (excl : Exclusive (lent spare) s.toCore) (idle : (lent spare).Idle s.toCore)
    (table : s.table k.1 (k.2 / 512) = true) (entry : s.pte k = .swapped o) (got : s.find o = some f)
    (alone : w = true → s.ref f + s.memMap o ≤ 1) :
    ∃ u t,pageInsert f k w false false s = .ok true u ∧ freeSpare spare u = .ok () t ∧ Wrote k (.present f w false false) s t ∧ t.data = s.data ∧
      Way (Around k) (lent spare,s.toCore) (.none,t.toCore) := by
  obtain ⟨cached,rfl⟩ := law.cache.find_iff.mp got
  have away g : spare = some g → g ≠ f := by
    rintro eq rfl
    exact absurd ((idle g eq).2.symm.trans cached) (by decide)
  have calm : s.toCore.Calm f := fun j a d writes => (excl j f a d writes).2.slot cached k (entry ▸ rfl)
  obtain ⟨u,ran,wrote,thins,way⟩ := pageInsert_new (w:=w) (a:=false) (d:=false) law (fun g loose _ => idle g loose) table (.inr (.inl cached)) calm
    (by rw [entry]; exact id) fun writable => law.free_slot entry (alone writable)
  rw [lent_keep away] at way
  have idle' := idle_after law idle (way.law law) wrote.pte thins fun g eq => (away g eq).symm
  obtain ⟨t,freed,near,eq,rest⟩ := freeSpare_run idle'
  exact ⟨u,t,ran,freed,⟨near.pte.trans wrote.pte,near.mmap.trans wrote.mmap,near.table.trans wrote.table,near.cursor ∘ wrote.cursor⟩,
    eq.trans thins.data,way.trans (rest.mono (Still.around k))⟩

lemma map_copy (law : Law (lent (some g)) s.toCore) (idle : (lent (some g)).Idle s.toCore) (table : s.table k.1 (k.2 / 512) = true) (v : Buf) (w : Bool) :
    ∃ t,pageInsert g k w false false {s with data:=set s.data g v} = .ok true t ∧ Wrote k (.present g w false false) s t ∧ t.data = set s.data g v ∧
      Way (Around k) (lent (some g),s.toCore) (.none,t.toCore) := by
  obtain ⟨unused,out⟩ := idle g rfl
  have copy : Move .quiet (lent (some g),s.toCore) _ := .copy (v:=v) rfl unused out
  have maps : ∀ j,¬ (s.pte j).Maps g := law.unmapped unused
  obtain ⟨t,ran,wrote,thins,way⟩ := pageInsert_new (s:={s with data:=set s.data g v}) (w:=w) (a:=false) (d:=false) (k:=k) (f:=g) (copy.law law)
    (fun h loose ne => absurd (Option.some.inj loose).symm ne) table (.inr (.inr rfl)) (fun j a d writes => maps j (by rw [show s.pte j = _ from writes]; exact rfl))
    (maps k) fun _ => ⟨rfl,maps,fun cached => absurd (cached.symm.trans out) (by decide),fun cached => absurd (cached.symm.trans out) (by decide)⟩
  rw [lent_used] at way
  exact ⟨t,ran,{wrote with},thins.data,(Way.one copy (.inl rfl)).trans way⟩

lemma pgdirAllocPage_run (sound : Sound s) (table : s.table k.1 (k.2 / 512) = true) (w : Bool) :
    (∃ t,pgdirAllocPage k w s = .ok none t ∧ t.toCore = s.toCore ∧ Beside s t) ∨
    (∃ f t,pgdirAllocPage k w s = .ok (some f) t ∧ Wrote k (.present f w false false) s t ∧ Way (Around k) (.none,s.toCore) (.none,t.toCore)) := by
  obtain ⟨spare,u,ran,spared⟩ := spareFor_run sound true
  have ran : allocPage s = .ok spare u := ran
  cases spare with
  | none =>
    rcases allocPage_run (p:=s.pte) sound.law with ⟨t,got,core,near⟩ | ⟨f,_,t,_,got,_⟩
    · simp only [pgdirAllocPage,rules,got]
      exact .inl ⟨t,rfl,core,near⟩
    rw [ran] at got
    cases got
  | some f =>
    have law := spared.way.law sound.law
    obtain ⟨t,put,wrote,_,way⟩ := map_copy (k:=k) law spared.idle (by rw [spared.beside.table]; exact table) (u.data f) w
    have put : pageInsert f k w false false u = .ok true t := by rwa [set_same] at put
    simp only [pgdirAllocPage,rules,ran,put]
    exact .inr ⟨f,t,rfl,⟨by rw [wrote.pte,spared.beside.pte],wrote.mmap.trans spared.beside.mmap,wrote.table.trans spared.beside.table,
      wrote.cursor ∘ spared.beside.cursor⟩,(spared.way.mono (Still.around k)).trans way⟩

lemma swapPageCount_run (law : Law b s.toCore) (f : Nat) : swapPageCount f s = .ok (if s.swap f then s.memMap (s.index f) else 0) s := by
  simp only [swapPageCount,rules,ite_run]
  split
  next cached =>
    obtain ⟨low,high⟩ := law.slots.range _ (law.cache.known f ((law.cache.hashed f).mpr cached))
    rw [swapOffset_ok low high]
    rfl
  next => rfl

lemma map_again (law : Law (lent spare) s.toCore) (idle : (lent spare).Idle s.toCore) (table : s.table k.1 (k.2 / 512) = true)
    (entry : s.pte k = .present f false a d) (few : s.ref f + (if s.swap f then s.memMap (s.index f) else 0) ≤ 1) :
    ∃ u t,pageInsert f k true false false s = .ok true u ∧ freeSpare spare u = .ok () t ∧ Wrote k (.present f true false false) s t ∧ t.data = s.data ∧
      Way (Faulting s.toCore k) (lent spare,s.toCore) (.none,t.toCore) := by
  have slot : s.swap f = true → s.memMap (s.index f) = 0 := by
    intro cached
    have used := law.maps_used (k:=k) (f:=f) (entry ▸ rfl)
    rw [cached,if_pos rfl] at few
    omega
  have alone : true = true → false = false → (lent spare).pin f = 0 ∧ Sole (lent spare) s.toCore k f := fun _ _ => law.sole entry (by omega) slot
  have way : Way (Faulting s.toCore k) (lent spare,s.toCore) (lent spare,{s.toCore with pte:=set s.pte k (.present f true false false)}) := by
    by_cases lossy : d = true ∧ s.swap f = true ∧ s.dirty f = false
    · obtain ⟨rfl,cached,clean⟩ := lossy
      rw [cached,if_pos rfl] at few
      exact .one (.forget entry alone) (.inr (.inr ⟨rfl,f,a,entry,cached,clean,few⟩))
    refine .one (.rebit entry alone fun on => .inr ?_) (.inl rfl)
    cases cached : s.swap f with
    | false => exact .inl rfl
    | true =>
      cases clean : s.dirty f with
      | true => exact .inr rfl
      | false => exact absurd ⟨on,cached,clean⟩ lossy
  obtain ⟨t,freed,near,eq,rest⟩ := freeSpare_run (s:={s with pte:=set s.pte k (.present f true false false)}) idle
  exact ⟨_,t,pageInsert_same table entry,freed,{near with},eq,way.trans (rest.mono fun l still => .inl still)⟩

def Vm.Covers (s : Vm) (k : Key) : Prop := ∃ vma ∈ s.mmap k.1,vma.start ≤ k.2 ∧ k.2 < vma.stop

structure Faulted (k : Key) (s t : Vm) : Prop where
  ran : Ran (Faulting s.toCore k) s t
  mmap : t.mmap = s.mmap
  same : ∀ j,j ≠ k → t.pte j = s.pte j
  covered : t.pte k ≠ .empty → s.pte k ≠ .empty ∨ s.Covers k
  view : s.pte k ≠ .empty → t.view (t.pte k) = s.view (s.pte k)

section Handler
variable {t u : Vm} {k : Key}

lemma Beside.wrote (near : Beside s u) (wrote : Wrote k e u t) : Wrote k e s t :=
  ⟨by rw [wrote.pte,near.pte],wrote.mmap.trans near.mmap,wrote.table.trans near.table,wrote.cursor ∘ near.cursor⟩

lemma Faulted.wrote (way : Way (Faulting s.toCore k) (.none,s.toCore) (.none,t.toCore)) (wrote : Wrote k (.present f w a d) s t)
    (table : s.table k.1 (k.2 / 512) = true) (area : s.Covers k) (view : s.pte k ≠ .empty → s.view (s.pte k) = some (t.data f)) : Faulted k s t where
  ran := wrote.ran way fun _ => table
  mmap := wrote.mmap
  same j away := by rw [wrote.pte,set_ne away]
  covered _ := .inr area
  view there := by
    rw [view there,wrote.pte,set_self]
    rfl

lemma Faulted.beside (near : Beside s t) (sound : Sound s) (way : Way Still (.none,s.toCore) (.none,t.toCore)) : Faulted k s t where
  ran := near.ran (way.mono fun _ still => .inl still)
  mmap := near.mmap
  same j _ := by rw [near.pte]
  covered there := .inl (by rwa [near.pte] at there)
  view _ := way.view sound.law sound.excl (.inl (by rintro l rfl; exact nofun)) k (by rintro l rfl; exact id)

lemma Faulted.after (core : t.toCore = s.toCore) (mmap : t.mmap = s.mmap) (cursor : s.Cursor → t.Cursor)
    (tables : ∀ m n,s.table m n = true → t.table m n = true) (faulted : Faulted k t u) : Faulted k s u := by
  obtain ⟨ran,areas,eq,covered,view⟩ := faulted
  rw [core] at ran eq covered view
  exact ⟨(Ran.core core cursor tables).trans ran,areas.trans mmap,eq,fun there => (covered there).imp_right fun ⟨vma,area,inside⟩ =>
    ⟨vma,by rwa [mmap] at area,inside⟩,view⟩

def Handled (k : Key) (s : Vm) (r : Outcome Err Fault Vm Unit) : Prop :=
  r.Meets (fun _ t => Faulted k s t) (fun _ t => Faulted k s t) fun _ => False

def Core.users (s : Core) (page : Nat) : Nat := s.ref page + if s.swap page then s.memMap (s.index page) else 0

lemma mapFound_single (law : Law b u.toCore) (few : cow = true → may = true → u.toCore.users page ≤ 1) :
    mapFound k page write cow may spare ret u = (do
      let _ ← pageInsert page k write false false
      freeSpare spare : VmM Unit) u := by
  simp only [mapFound,rules,ite_run,swapPageCount_run law]
  cases cow with
  | false => rfl
  | true =>
    cases may with
    | false => rfl
    | true =>
      have low := few rfl rfl
      have no : decide (u.ref page + (if u.swap page then u.memMap (u.index page) else 0) > 1) = false := decide_eq_false (Nat.not_lt_of_le low)
      simp [no]

lemma mapFound_shared (law : Law b u.toCore) (many : 1 < u.toCore.users page) : mapFound k page write true true spare ret u = (match spare with
    | none => ret
    | some newpage => do
      modify fun s => {s with data:=set s.data newpage (s.data page)}
      let _ ← pageInsert newpage k write false false : VmM Unit) u := by
  have yes : decide (u.ref page + (if u.swap page then u.memMap (u.index page) else 0) > 1) = true := decide_eq_true many
  cases spare with
  | none => simp [mapFound,swapPageCount_run law,yes]
  | some g => simp [mapFound,swapPageCount_run law,yes]

lemma mapFound_handled (sound : Sound s) (way : Way Still (.none,s.toCore) (lent spare,u.toCore)) (near : Beside s u)
    (idle : (lent spare).Idle u.toCore) (table : s.table k.1 (k.2 / 512) = true) (area : s.Covers k) (shown : u.view (u.pte k) = some (u.data page))
    (lone : (cow = true → may = true → u.toCore.users page ≤ 1) → ∃ v t,pageInsert page k write false false u = .ok true v ∧
      freeSpare spare v = .ok () t ∧ Wrote k (.present page write false false) u t ∧ t.data = u.data ∧
      Way (Faulting u.toCore k) (lent spare,u.toCore) (.none,t.toCore))
    (lossy : Lossy u.toCore k → Lossy s.toCore k) (quit : cow = true → may = true → spare = none → ret u = .ok () u ∨ ∃ e,ret u = .err e u) :
    Handled k s (mapFound k page write cow may spare ret u) := by
  have law := way.law sound.law
  have view : s.view (s.pte k) = some (u.data page) := by
    rw [← shown]
    exact (way.view sound.law sound.excl (.inl (by rintro l rfl; exact nofun)) k (by rintro l rfl; exact id)).symm
  have begun : Way (Faulting s.toCore k) (.none,s.toCore) (lent spare,u.toCore) := way.mono fun _ still => .inl still
  by_cases few : cow = true → may = true → u.toCore.users page ≤ 1
  · obtain ⟨v,t,put,freed,wrote,data,rest⟩ := lone few
    rw [mapFound_single law few]
    simp only [rules,put,freed]
    refine .wrote (begun.trans (rest.mono fun l may => may.imp_right (.imp_right (.imp_right lossy)))) (near.wrote wrote) table area fun _ => ?_
    rw [view,data]
  push Not at few
  obtain ⟨rfl,rfl,many⟩ := few
  rw [mapFound_shared law many]
  cases spare with
  | none =>
    rw [lent_none] at way
    rcases quit rfl rfl rfl with eq | ⟨e,eq⟩
    all_goals
      simp only [eq]
      exact .beside near sound way
  | some g =>
    obtain ⟨t,put,wrote,data,rest⟩ := map_copy (k:=k) law idle (by rw [near.table]; exact table) (u.data page) write
    simp only [rules,put]
    refine .wrote (begun.trans (rest.mono Around.faulting)) (near.wrote wrote) table area fun _ => ?_
    rw [view,data,set_self]

def Pte.Raises (e : Pte) (write : Bool) : Prop := e.isPresent = true → write = true ∧ e.isWritable = false

section
variable (sound : Sound s) (table : s.table k.1 (k.2 / 512) = true) (area : s.Covers k)
include sound table area

lemma present_handled (entry : s.pte k = .present f false a d) :
    ∃ spare u,spareFor true s = .ok spare u ∧ Handled k s (mapFound k f true true true spare (fail .eNoMem) u) := by
  obtain ⟨spare,u,ran,spared⟩ := spareFor_run sound true
  obtain ⟨_,core⟩ := spared.core
  have got : u.pte k = .present f false a d := by rw [spared.beside.pte]; exact entry
  refine ⟨spare,u,ran,mapFound_handled sound spared.way spared.beside spared.idle table area (by rw [got]; rfl) (fun few => ?_) (fun lossy => ?_)
    fun _ _ _ => .inr ⟨_,rfl⟩⟩
  · exact map_again (spared.way.law sound.law) spared.idle (by rw [spared.beside.table]; exact table) got (few rfl rfl)
  rw [core] at lossy
  exact lossy

lemma swapped_handled (entry : s.pte k = .swapped o) (cow : Bool) :
    ∃ spare u,spareFor cow s = .ok spare u ∧ (swapInPage o u).Meets
      (fun page v => Handled k s (mapFound k page false cow false spare (pure ()) v) ∧ Handled k s (mapFound k page cow cow true spare (pure ()) v))
      (fun _ v => ∃ t,freeSpare spare v = .ok () t ∧ Faulted k s t) (fun _ => False) := by
  obtain ⟨spare,u,ran,spared⟩ := spareFor_run sound cow
  have law := spared.way.law sound.law
  have held : u.pte k = .swapped o := by rw [spared.beside.pte]; exact entry
  obtain ⟨used,_⟩ := law.holds_used (k:=k) (o:=o) (by rw [held]; exact rfl)
  refine ⟨spare,u,ran,?_⟩
  have met := swapInPage_run (p:=u.pte) law used
  cases got : swapInPage o u with
  | ok page v =>
    rw [got] at met
    obtain ⟨near,found,_,eq,ref,way⟩ := met
    have way : Way Still (lent spare,u.toCore) (lent spare,v.toCore.over u.pte) := way
    rw [← near.pte] at way
    have all : Way Still (.none,s.toCore) (lent spare,v.toCore) := spared.way.trans way
    have beside' := spared.beside.trans near
    have entry' : v.pte k = .swapped o := by rw [beside'.pte]; exact entry
    have idle : (lent spare).Idle v.toCore := fun g loose => by
      rw [ref,eq g (.inr loose)]
      exact spared.idle g loose
    have law' : Law (lent spare) v.toCore := all.law sound.law
    obtain ⟨cached,rfl⟩ := law'.cache.find_iff.mp found
    have shown : v.view (v.pte k) = some (v.data page) := by
      rw [entry']
      show some ((v.find (v.index page)).elim _ _) = _
      rw [found]
      rfl
    have table' : v.table k.1 (k.2 / 512) = true := by rw [beside'.table]; exact table
    have lossy : Lossy v.toCore k → Lossy s.toCore k := fun ⟨f,a,present,_⟩ => by
      rw [entry'] at present
      cases present
    have put w : (w = true → v.toCore.users page ≤ 1) → ∃ x t,pageInsert page k w false false v = .ok true x ∧
        freeSpare spare x = .ok () t ∧ Wrote k (.present page w false false) v t ∧ t.data = v.data ∧
        Way (Faulting v.toCore k) (lent spare,v.toCore) (.none,t.toCore) := by
      intro few
      obtain ⟨x,t,put,freed,wrote,data,rest⟩ := map_in (w:=w) law' (all.exclusive sound.law sound.excl) idle table' entry' found fun writable => by
        have low := few writable
        rwa [Core.users,if_pos cached] at low
      exact ⟨x,t,put,freed,wrote,data,rest.mono Around.faulting⟩
    exact ⟨mapFound_handled sound all beside' idle table area shown (fun _ => put false nofun) lossy nofun,
      mapFound_handled sound all beside' idle table area shown (fun few => put cow fun writable => few writable rfl) lossy fun _ _ _ => .inl rfl⟩
  | err e v =>
    rw [got] at met
    obtain ⟨near,ref,swap,way⟩ := met
    have way : Way Still (lent spare,u.toCore) (lent spare,v.toCore.over u.pte) := way
    rw [← near.pte] at way
    obtain ⟨t,freed,beside',_,rest⟩ := freeSpare_run (show (lent spare).Idle v.toCore from fun g loose => by
      rw [ref,swap]
      exact spared.idle g loose)
    exact ⟨t,freed,.beside ((spared.beside.trans near).trans beside') sound ((spared.way.trans way).trans rest)⟩
  | fault x =>
    rw [got] at met
    exact met

lemma servePte_handled (raises : (s.pte k).Raises write) (may : write = true → vma.write = true) : Handled k s (servePte k write vma s) := by
  simp only [servePte,rules]
  cases entry : s.pte k with
  | empty =>
    rcases pgdirAllocPage_run sound table vma.write with ⟨t,ran,core,near⟩ | ⟨f,t,ran,wrote,way⟩
    · simp only [rules,ran]
      exact .beside near sound (by rw [core]; exact .refl)
    simp only [rules,ran]
    exact .wrote (way.mono Around.faulting) wrote table area fun there => absurd entry there
  | present f w a d =>
    rw [entry] at raises
    obtain ⟨rfl,rfl⟩ : write = true ∧ w = false := raises rfl
    obtain ⟨spare,u,ran,handled⟩ := present_handled sound table area entry
    rw [may rfl]
    simp only [rules,ran,Bool.not_false,Bool.and_true]
    exact handled
  | swapped o =>
    obtain ⟨_,u,ran,met⟩ := swapped_handled sound table area entry vma.write
    simp only [rules,ran]
    cases got : swapInPage o u with
    | ok _ v =>
      rw [got] at met
      simp only [attempt_ok got,rules,ite_run]
      exact iteInduction (fun _ => met.1) fun _ => met.2
    | err e v =>
      rw [got] at met
      obtain ⟨t,freed,faulted⟩ := met
      simp only [attempt_err got,rules,freed]
      exact faulted
    | fault x =>
      rw [got] at met
      exact met.elim

end

lemma findVma_found (got : findVma areas addr = some vma) : vma ∈ areas ∧ addr < vma.stop :=
  ⟨List.mem_of_find?_eq_some got,by simpa using List.find?_some got⟩

lemma doPgfault_run (sound : Sound s) (raises : (s.pte k).Raises write) : Handled k s (doPgfault k (s.pte k).isPresent write s) := by
  have eq : Faulted k s s := .beside (.refl s) sound .refl
  simp only [doPgfault,rules]
  cases found : findVma (s.mmap k.1) k.2 with
  | none => exact eq
  | some vma =>
    obtain ⟨_,below⟩ := findVma_found found
    simp only [ite_run]
    refine .ite (fun _ => eq) fun above => .ite (fun _ => eq) fun _ => .ite (fun _ => eq) fun allowed => ?_
    have may : write = true → vma.write = true := by
      rintro rfl
      simpa [mayAccess] using allowed
    obtain ⟨r,t,got,core,mmap,cursor,tables,there⟩ := getPte_cases (s:=s) k
    have sound' : Sound t := sound.ran (Ran.core core cursor tables : Ran Still s t)
    rw [bind_run,got,next_ok]
    cases r with
    | false => exact .after core mmap cursor tables (.beside (.refl t) sound' .refl)
    | true =>
      exact (servePte_handled sound' (there rfl) ⟨vma,by rwa [mmap],by omega,below⟩ (by rwa [core]) may).mono
        (fun _ _ faulted => .after core mmap cursor tables faulted) (fun _ _ faulted => .after core mmap cursor tables faulted) fun _ => id

end Handler
end Ucore.Mm
