import Ucore.Mm.Faults
import Mathlib.Data.List.TakeWhile

-- mmap, munmap, fork and exit: what they do to the entries of an address space,
-- and that every entry stays inside an area.
namespace Ucore.Mm
open Bytes Outcomes Tally Fault
open List (mem_append mem_cons mem_cons_self mem_map mem_reverse mem_singleton mem_singleton_self)
variable {s t u : Vm} {vma : Vma} {m : Nat} {l : List Vma}

def Vma.Has (vma : Vma) (la : Nat) : Prop := vma.start ≤ la ∧ la < vma.stop

structure Ordered (areas : List Vma) : Prop where
  order : areas.Pairwise fun a b => a.stop ≤ b.start
  solid : ∀ a ∈ areas,a.start < a.stop

structure Kept (s : Vm) : Prop where
  sound : Sound s
  inside : ∀ k,s.pte k ≠ .empty → s.Covers k
  ordered : ∀ m,Ordered (s.mmap m)

namespace Ordered

section Areas
variable {areas : List Vma}

lemma sublist (ordered : Ordered areas) (less : part.Sublist areas) : Ordered part := ⟨ordered.order.sublist less,fun a mem => ordered.solid a (less.subset mem)⟩

lemma below_last (ordered : Ordered areas) (last : areas.getLast? = some prev) : ∀ a ∈ areas,a.stop ≤ prev.stop := by
  obtain ⟨_,rfl⟩ := List.getLast?_eq_some_iff.mp last
  intro a mem
  rcases mem_append.mp mem with old | eq
  · have order := (List.pairwise_append.mp ordered.order).2.2 a old prev (mem_singleton_self prev)
    have solid := ordered.solid prev (List.mem_append_right _ (mem_singleton_self prev))
    omega
  rw [mem_singleton.mp eq]

lemma above_head (ordered : Ordered areas) (head : areas.head? = some next) : ∀ a ∈ areas,next.start ≤ a.start := by
  cases areas with
  | nil => cases head
  | cons _ _ =>
    cases head
    intro a mem
    rcases mem_cons.mp mem with rfl | later
    · rfl
    have order := (List.pairwise_cons.mp ordered.order).1 a later
    have solid := ordered.solid next mem_cons_self
    omega

lemma insert (old : Ordered front) (new : Ordered back) (all : ∀ a ∈ front,∀ b ∈ back,a.stop ≤ b.start) (solid : vma.start < vma.stop)
    (low : ∀ a ∈ front,a.stop ≤ vma.start) (high : ∀ b ∈ back,vma.stop ≤ b.start) : Ordered (front ++ vma :: back) := by
  constructor
  · refine List.pairwise_append.mpr ⟨old.order,List.pairwise_cons.mpr ⟨high,new.order⟩,fun a first b two => ?_⟩
    rcases mem_cons.mp two with rfl | later
    · exact low a first
    exact all a first b later
  intro a mem
  rcases mem_append.mp mem with first | two
  · exact old.solid a first
  rcases mem_cons.mp two with rfl | later
  · exact solid
  exact new.solid a later

end Areas

end Ordered

section Insert
variable {k : Key}

structure Inserted (m : Nat) (vma : Vma) (s t : Vm) : Prop where
  areas : ∃ l,t = {s with mmap:=set s.mmap m l} ∧ (∀ a,a ∈ l ↔ a = vma ∨ a ∈ s.mmap m) ∧ (Ordered (s.mmap m) → Ordered l)

lemma insertVmaStruct_run (m : Nat) (vma : Vma) : (insertVmaStruct m vma s).Meets (fun _ t => Inserted m vma s t) (fun _ _ => False) fun x => x = .overlap := by
  simp only [insertVmaStruct,rules]
  by_cases solid : vma.start < vma.stop
  · simp only [decide_eq_true solid,rules]
    by_cases low : ((s.mmap m).takeWhile fun prev => decide (prev.start ≤ vma.start)).getLast?.all (fun prev => overlapFree prev vma) = true
    · simp only [low,rules]
      by_cases high : ((s.mmap m).dropWhile fun prev => decide (prev.start ≤ vma.start)).head?.all (fun next => overlapFree vma next) = true
      · simp only [high,rules]
        refine ⟨_,rfl,fun a => ?_,fun ordered => ?_⟩
        · have parts : a ∈ s.mmap m ↔ a ∈ (s.mmap m).takeWhile (fun prev => decide (prev.start ≤ vma.start)) ∨
              a ∈ (s.mmap m).dropWhile fun prev => decide (prev.start ≤ vma.start) := by
            rw [← mem_append,List.takeWhile_append_dropWhile]
          rw [parts,mem_append,mem_cons]
          tauto
        have split := List.takeWhile_append_dropWhile (p:=fun prev => decide (prev.start ≤ vma.start)) (l:=s.mmap m)
        have front := ordered.sublist (List.takeWhile_sublist fun prev => decide (prev.start ≤ vma.start))
        have back := ordered.sublist (List.dropWhile_sublist fun prev => decide (prev.start ≤ vma.start))
        have all := ordered.order
        rw [← split] at all
        refine front.insert back (List.pairwise_append.mp all).2.2 solid (fun a mem => ?_) fun b mem => ?_
        · cases last : ((s.mmap m).takeWhile fun prev => decide (prev.start ≤ vma.start)).getLast? with
          | none => rw [List.getLast?_eq_none_iff.mp last] at mem; cases mem
          | some prev =>
            rw [last] at low
            have below := front.below_last last a mem
            simp only [Option.all_some,overlapFree,Bool.and_eq_true,decide_eq_true_eq] at low
            omega
        cases head : ((s.mmap m).dropWhile fun prev => decide (prev.start ≤ vma.start)).head? with
        | none => rw [List.head?_eq_none_iff.mp head] at mem; cases mem
        | some _ =>
          rw [head] at high
          have above := back.above_head head b mem
          simp only [Option.all_some,overlapFree,Bool.and_eq_true,decide_eq_true_eq] at high
          omega
      simp only [high]
      exact rfl
    simp only [low]
    exact rfl
  simp only [decide_eq_false solid]
  exact rfl

lemma Vm.Covers.mono (covers : s.Covers k) (more : ∀ a ∈ s.mmap k.1,a ∈ t.mmap k.1) : Vm.Covers t k := covers.imp fun a ⟨mem,low⟩ => ⟨more a mem,low⟩

namespace Inserted
variable (inserted : Inserted m vma s t)
include inserted

lemma covers (covers : s.Covers k) : t.Covers k := by
  obtain ⟨l,rfl,mem,_⟩ := inserted.areas
  refine covers.mono fun a old => ?_
  show a ∈ set s.mmap m l k.1
  rcases eq_or_ne k.1 m with eq | away
  · rw [eq] at old ⊢
    rw [set_self]
    exact (mem a).mpr (.inr old)
  rw [set_ne away]
  exact old

lemma has (low : vma.Has la) : t.Covers (m,la) := by
  obtain ⟨l,rfl,mem,_⟩ := inserted.areas
  refine ⟨vma,?_,low⟩
  show vma ∈ set s.mmap m l m
  rw [set_self]
  exact (mem vma).mpr (.inl rfl)

lemma ordered (ordered : ∀ m,Ordered (s.mmap m)) (j : Nat) : Ordered (t.mmap j) := by
  obtain ⟨l,rfl,_,keeps⟩ := inserted.areas
  show Ordered (set s.mmap m l j)
  rcases eq_or_ne j m with rfl | away
  · rw [set_self]
    exact keeps (ordered j)
  rw [set_ne away]
  exact ordered j

lemma beside : t.toCore = s.toCore ∧ t.table = s.table ∧ (s.Cursor → t.Cursor) := by
  obtain ⟨l,rfl,_⟩ := inserted.areas
  exact ⟨rfl,rfl,id⟩

lemma ran : Ran allow s t := by
  obtain ⟨core,table,cursor⟩ := inserted.beside
  exact .core core cursor fun m n there => by rwa [table]

lemma kept (kept : Kept s) : Kept t where
  sound := kept.sound.ran (inserted.ran : Ran Still _ _)
  inside k entry := inserted.covers (kept.inside k (by rwa [inserted.beside.1] at entry))
  ordered := inserted.ordered kept.ordered

end Inserted

lemma Kept.tick (kept : Kept s) : Kept {s with tick:=n} := ⟨{kept.sound with},kept.inside,kept.ordered⟩

lemma vmaCreate_run (kept : Kept s) (vma : Vma) :
    (vmaCreate vma s).Meets (fun v t => v = vma ∧ Kept t ∧ Ran Still s t ∧ t.mmap = s.mmap ∧ t.pte = s.pte) (fun _ t => Kept t ∧ Ran Still s t ∧ t.mmap = s.mmap ∧ t.pte = s.pte)
      fun _ => False := by
  have ticked : Ran Still s {s with tick:=s.tick + 1} := .core rfl id fun _ _ => id
  simp only [vmaCreate,rules,granted_run,ite_run]
  exact .ite (fun _ => ⟨rfl,kept.tick,ticked,rfl,rfl⟩) fun _ => ⟨kept.tick,ticked,rfl,rfl⟩

lemma mmMap_run (kept : Kept s) (m : Nat) (vma : Vma) :
    (mmMap m vma s).Meets (fun _ t => Kept t ∧ Ran Still s t) (fun _ t => Kept t ∧ Ran Still s t) fun x => x = .overlap := by
  simp only [mmMap,rules,ite_run]
  refine .ite (fun _ => ⟨kept,.refl s⟩) fun _ => .ite (fun _ => ⟨kept,.refl s⟩) fun _ => ?_
  refine (vmaCreate_run kept vma).next ?_ (fun e t ⟨kept,ran,_⟩ => ⟨kept,ran⟩) nofun
  rintro v t ⟨rfl,kept,ran,_⟩
  exact (insertVmaStruct_run m v).mono (fun _ u inserted => ⟨inserted.kept kept,ran.trans inserted.ran⟩) nofun fun _ => id

end Insert

section Unmap
variable {start stop : Nat}

structure Trimmed (m start stop : Nat) (l : List Vma) (s t : Vm) : Prop where
  ran : Ran (Touching (Within m start (stop - start))) s t
  ordered : (∀ j,Ordered (s.mmap j)) → ∀ j,Ordered (t.mmap j)
  covers : ∀ k,s.Covers k → t.Covers k
  less : ∀ k,t.pte k ≠ .empty → s.pte k ≠ .empty
  done : ∀ a ∈ l,∀ la,a.Has la → t.pte (m,la) ≠ .empty → t.Covers (m,la)

lemma Trimmed.refl (m start stop : Nat) (s : Vm) : Trimmed m start stop [] s s := ⟨.refl s,id,fun _ => id,fun _ => id,nofun⟩

lemma Trimmed.trans (one : Trimmed m start stop [a] s t) (two : Trimmed m start stop l t u) : Trimmed m start stop (a :: l) s u where
  ran := one.ran.trans two.ran
  ordered := two.ordered ∘ one.ordered
  covers k := two.covers k ∘ one.covers k
  less k := one.less k ∘ two.less k
  done b mem la low entry := by
    rcases mem_cons.mp mem with rfl | later
    · exact two.covers _ (one.done b (mem_singleton_self b) la low (two.less _ entry))
    exact two.done b later la low entry

lemma vmaResize_run (vma : Vma) (a b : Nat) :
    (vmaResize vma a b s).Meets (fun v t => t = s ∧ v = {vma with start:=a,stop:=b} ∧ vma.start ≤ a ∧ a < b ∧ b ≤ vma.stop) (fun _ _ => False) fun x => x = .resize := by
  simp only [vmaResize,rules]
  by_cases fits : vma.start ≤ a ∧ a < b ∧ b ≤ vma.stop
  · rw [if_pos (by simp [fits])]
    exact ⟨rfl,rfl,fits⟩
  rw [if_neg (by simpa [and_assoc] using fits)]
  exact rfl

def Fault.ofAreas (x : Fault) : Prop := x = .overlap ∨ x = .resize

lemma unmap_part (sound : Sound s) (m start stop : Nat) (low : start ≤ a) (high : b ≤ stop) :
    ∃ t,unmapRange m a (b - a) s = .ok () t ∧ Ran (Touching (Within m start (stop - start))) s t ∧ t.mmap = s.mmap ∧
      (∀ la,a ≤ la → la < b → t.pte (m,la) = .empty) ∧ ∀ k,t.pte k ≠ .empty → s.pte k ≠ .empty := by
  obtain ⟨t,ran,moved,mmap,gone,eq⟩ := unmapRange_run sound m a (b - a)
  refine ⟨t,ran,moved.mono (Touching.mono fun k ⟨space,least,most⟩ => ⟨space,by omega,by omega⟩),mmap,
    fun la least most => gone _ ⟨rfl,least,by show la < a + (b - a); omega⟩,fun k entry => ?_⟩
  by_cases within : Within m a (b - a) k
  · exact absurd (gone k within) entry
  rwa [← eq k within]

lemma resized (sound : Sound s) (low : start ≤ c) (high : d ≤ stop) (part : ∀ la,vma.Has la → ¬ (a ≤ la ∧ la < b) → c ≤ la ∧ la < d) : ((do
      let kept ← vmaResize vma a b
      insertVmaStruct m kept
      unmapRange m c (d - c) : VmM Unit) s).Meets (fun _ t => Trimmed m start stop [vma] s t) (fun _ _ => False) ofAreas := by
  simp only [rules]
  refine (vmaResize_run vma a b).next ?_ nofun fun _ => .inr
  rintro _ _ ⟨rfl,rfl,_⟩
  refine (insertVmaStruct_run m _).next (fun _ t inserted => ?_) nofun fun _ => .inl
  obtain ⟨u,ran,moved,mmap,gone,less⟩ := unmap_part (sound.ran (inserted.ran : Ran Still _ _)) m start stop low high
  have covers : ∀ k,t.Covers k → u.Covers k := fun k covers => covers.mono fun a mem => by rwa [mmap]
  rw [ran]
  refine ⟨inserted.ran.trans moved,fun ordered j => by rw [mmap]; exact inserted.ordered ordered j,fun k old => covers k (inserted.covers old),
    fun k entry => by rw [← inserted.beside.1]; exact less k entry,fun area mem la inside entry => ?_⟩
  rw [mem_singleton.mp mem] at inside
  by_cases out : a ≤ la ∧ la < b
  · exact covers _ (inserted.has out)
  obtain ⟨least,most⟩ := part la inside out
  exact absurd (gone la least most) entry

lemma unmapVma_run (sound : Sound s) (fits : vma.start < start → vma.stop ≤ stop) :
    (unmapVma m start stop vma s).Meets (fun _ t => Trimmed m start stop [vma] s t) (fun _ _ => False) ofAreas := by
  simp only [unmapVma,ite_run]
  refine .ite (fun early => resized sound le_rfl (fits early) fun la ⟨least,most⟩ out => by omega) fun late =>
    .ite (fun long => resized sound (by omega) le_rfl fun la ⟨least,most⟩ out => by omega) fun short => ?_
  obtain ⟨t,ran,moved,mmap,gone,less⟩ := unmap_part sound m start stop (a:=vma.start) (b:=vma.stop) (by omega) (by omega)
  rw [ran]
  refine ⟨moved,fun ordered j => by rw [mmap]; exact ordered j,fun k covers => covers.mono fun a mem => by rwa [mmap],less,fun a mem la low entry => ?_⟩
  rw [mem_singleton.mp mem] at low
  exact absurd (gone la low.1 low.2) entry

lemma unmap_each (sound : Sound s) (fits : ∀ a ∈ l,a.start < start → a.stop ≤ stop) :
    (eachVma (unmapVma m start stop) l s).Meets (fun _ t => Trimmed m start stop l s t) (fun _ _ => False) ofAreas := by
  induction l generalizing s with
  | nil => exact Trimmed.refl m start stop s
  | cons a l ih =>
    simp only [eachVma,rules]
    refine (unmapVma_run sound (fits a mem_cons_self)).next (fun _ t one => ?_) nofun fun _ => id
    exact (ih (sound.ran one.ran) fun b mem => fits b (List.mem_cons_of_mem a mem)).mono (fun _ u two => one.trans two) nofun fun _ => id

structure Dropped (m : Nat) (l : List Vma) (s t : Vm) : Prop where
  areas : ∃ rest,t = {s with mmap:=set s.mmap m rest} ∧ rest.Sublist (s.mmap m) ∧ ∀ a ∈ s.mmap m,a ∉ l → a ∈ rest

lemma remove_each (l : List Vma) : ∃ t,eachVma (removeVmaStruct m) l s = .ok () t ∧ Dropped m l s t := by
  induction l generalizing s with
  | nil => exact ⟨s,rfl,⟨s.mmap m,by rw [set_same],.refl _,fun _ mem _ => mem⟩⟩
  | cons a l ih =>
    obtain ⟨t,ran,rest,rfl,less,others⟩ := ih (s:={s with mmap:=set s.mmap m ((s.mmap m).erase a)})
    refine ⟨_,ran,rest,?_,?_,fun b mem out => ?_⟩
    · show ({s with mmap:=set (set s.mmap m _) m rest} : Vm) = _
      rw [show set (set s.mmap m _) m rest = set s.mmap m rest from Function.update_idem _ _ _]
    · have less : rest.Sublist (set s.mmap m ((s.mmap m).erase a) m) := less
      rw [set_self] at less
      exact less.trans List.erase_sublist
    refine others b ?_ fun low => out (List.mem_cons_of_mem a low)
    show b ∈ set s.mmap m ((s.mmap m).erase a) m
    rw [set_self]
    exact (List.mem_erase_of_ne fun eq => out (by rw [eq]; exact mem_cons_self)).mpr mem

namespace Dropped
variable (dropped : Dropped m l s t)
include dropped

lemma ordered (ordered : ∀ j,Ordered (s.mmap j)) (j : Nat) : Ordered (t.mmap j) := by
  obtain ⟨rest,rfl,less,_⟩ := dropped.areas
  show Ordered (set s.mmap m rest j)
  rcases eq_or_ne j m with rfl | away
  · rw [set_self]
    exact (ordered j).sublist less
  rw [set_ne away]
  exact ordered j

lemma beside : t.toCore = s.toCore ∧ t.table = s.table ∧ (s.Cursor → t.Cursor) := by
  obtain ⟨_,rfl,_⟩ := dropped.areas
  exact ⟨rfl,rfl,id⟩

lemma ran : Ran allow s t := by
  obtain ⟨core,table,cursor⟩ := dropped.beside
  exact .core core cursor fun m n there => by rwa [table]

lemma covers (covers : s.Covers k) : t.Covers k ∨ k.1 = m ∧ ∃ a ∈ l,a.Has k.2 := by
  obtain ⟨rest,rfl,_,others⟩ := dropped.areas
  obtain ⟨a,mem,low⟩ := covers
  rcases eq_or_ne k.1 m with eq | away
  · by_cases taken : a ∈ l
    · exact .inr ⟨eq,a,taken,low⟩
    refine .inl ⟨a,?_,low⟩
    show a ∈ set s.mmap m rest k.1
    rw [eq,set_self]
    exact others a (eq ▸ mem) taken
  refine .inl ⟨a,?_,low⟩
  show a ∈ set s.mmap m rest k.1
  rw [set_ne away]
  exact mem

end Dropped

lemma taken_fit (ordered : Ordered areas) (got : findVma areas start = some vma) (all : ¬ (vma.start < start ∧ stop < vma.stop)) :
    ∀ a ∈ takenAreas areas start stop,a.start < start → a.stop ≤ stop := by
  intro a mem _
  have mem := (List.takeWhile_sublist _).subset mem
  have head : (areas.dropWhile fun prev => decide (¬ start < prev.stop)).head? = some vma := by
    rw [← got,findVma,List.find?_eq_head?_dropWhile_not]
    congr 2
    funext prev
    exact decide_not
  have below := (findVma_found got).2
  have later := ordered.sublist (List.dropWhile_sublist fun prev => decide (¬ start < prev.stop))
  cases rest : areas.dropWhile fun prev => decide (¬ start < prev.stop) with
  | nil => rw [rest] at head; cases head
  | cons _ _ =>
    rw [rest] at head later mem
    cases head
    rcases mem_cons.mp mem with rfl | ne
    · omega
    have order := (List.pairwise_cons.mp later.order).1 a ne
    omega

lemma Ordered.shrink (ordered : Ordered areas) (low : vma.start ≤ kept.start) (solid : kept.start < kept.stop) (high : kept.stop ≤ vma.stop) :
    Ordered (areas.map fun a => if a = vma then kept else a) := by
  have start : ∀ a : Vma,a.start ≤ (if a = vma then kept else a).start := fun a => by
    split
    next eq => rw [eq]; exact low
    next => exact le_rfl
  have stop : ∀ a : Vma,(if a = vma then kept else a).stop ≤ a.stop := fun a => by
    split
    next eq => rw [eq]; exact high
    next => exact le_rfl
  constructor
  · exact ordered.order.map _ fun a b order => (stop a).trans (order.trans (start b))
  intro b mem
  obtain ⟨a,old,rfl⟩ := mem_map.mp mem
  split
  next => exact solid
  next => exact ordered.solid a old

lemma split_covers (covers : s.Covers k) (got : vma ∈ s.mmap m) (middle : vma.start < start ∧ stop < vma.stop)
    (inserted : Inserted m {vma with stop:=start} {s with mmap:=set s.mmap m ((s.mmap m).map fun a => if a = vma then {vma with start:=stop} else a)} t)
    (out : ¬ Within m start (stop - start) k) (order : start < stop) : t.Covers k := by
  obtain ⟨a,mem,low,high⟩ := covers
  obtain ⟨j,la⟩ := k
  rcases eq_or_ne j m with rfl | away
  · have stays : ∀ b,b ∈ (s.mmap j).map (fun a => if a = vma then {vma with start:=stop} else a) → b.Has la → t.Covers (j,la) := fun b new inside =>
      inserted.covers ⟨b,by show b ∈ set s.mmap j _ j; rw [set_self]; exact new,inside⟩
    by_cases eq : a = vma
    · subst eq
      by_cases left : la < start
      · exact inserted.has ⟨low,left⟩
      refine stays _ (mem_map.mpr ⟨a,got,if_pos rfl⟩) ⟨?_,high⟩
      show stop ≤ la
      have least : start ≤ la := Nat.le_of_not_lt left
      by_contra inside
      exact out ⟨rfl,least,by show la < start + (stop - start); omega⟩
    exact stays a (mem_map.mpr ⟨a,mem,if_neg eq⟩) ⟨low,high⟩
  exact inserted.covers ⟨a,by show a ∈ set s.mmap m _ j; rw [set_ne away]; exact mem,low,high⟩

lemma unmap_middle (kept : Kept s) (got : vma ∈ s.mmap m) (middle : vma.start < start ∧ stop < vma.stop) (order : start < stop) : ((do
      let nvma ← vmaCreate {vma with stop:=start}
      let kept ← vmaResize vma stop vma.stop
      setAreas m ((s.mmap m).map fun a => if a = vma then kept else a)
      insertVmaStruct m nvma
      unmapRange m start (stop - start) : VmM Unit) s).Meets
      (fun _ t => Kept t ∧ Ran (Touching (Within m start (stop - start))) s t) (fun _ t => Kept t ∧ Ran Still s t) ofAreas := by
  simp only [rules]
  refine (vmaCreate_run kept _).next ?_ (fun e t ⟨kept,ran,_⟩ => ⟨kept,ran⟩) nofun
  rintro _ u ⟨rfl,kept,begun,mmap,_⟩
  refine (vmaResize_run vma stop vma.stop).next ?_ nofun fun _ => .inr
  rintro _ v ⟨eq,rfl,fits⟩
  simp only [eq,setAreas,rules]
  rw [← mmap] at got ⊢
  have spread : Ran Still u {u with mmap:=set u.mmap m ((u.mmap m).map fun a => if a = vma then {vma with start:=stop} else a)} := .core rfl id fun _ _ => id
  refine (insertVmaStruct_run m _).next (fun _ t inserted => ?_) nofun fun _ => .inl
  have sound := (kept.sound.ran spread).ran (inserted.ran : Ran Still _ _)
  obtain ⟨v,ran,moved,areas,gone,less⟩ := unmap_part sound m start stop le_rfl le_rfl
  rw [ran]
  have quiet : Ran (Touching (Within m start (stop - start))) _ u := begun.mono Still.touching
  refine ⟨⟨sound.ran moved,fun k entry => ?_,fun j => ?_⟩,quiet.trans ((spread.mono Still.touching).trans (inserted.ran.trans moved))⟩
  · have there : u.pte k ≠ .empty := by
      have old := less k entry
      rwa [inserted.beside.1] at old
    have covers := split_covers (kept.inside k there) got middle inserted (fun within => ?_) order
    · exact covers.mono fun a mem => by rwa [areas]
    obtain ⟨eq,least,most⟩ := within
    obtain ⟨j,la⟩ := k
    cases eq
    exact entry (gone la least (by dsimp only at least most; omega))
  rw [areas]
  refine inserted.ordered (fun i => ?_) j
  show Ordered (set u.mmap m _ i)
  rcases eq_or_ne i m with rfl | away
  · rw [set_self]
    exact (kept.ordered i).shrink (by exact fits.1) (by exact fits.2.1) (by exact fits.2.2)
  rw [set_ne away]
  exact kept.ordered i

lemma mmUnmap_run (kept : Kept s) (m start stop : Nat) :
    (mmUnmap m start stop s).Meets (fun _ t => Kept t ∧ Ran (Touching (Within m start (stop - start))) s t) (fun _ t => Kept t ∧ Ran Still s t)
      ofAreas := by
  simp only [mmUnmap,rules,ite_run]
  refine .ite (fun _ => ⟨kept,.refl s⟩) fun access => ?_
  cases got : findVma (s.mmap m) start with
  | none => exact ⟨kept,.refl s⟩
  | some _ =>
    simp only [rules,ite_run]
    refine .ite (fun _ => ⟨kept,.refl s⟩) fun _ => .ite (fun middle => ?_) fun all => ?_
    · have order : start < stop := by
        simp only [userAccess,Bool.not_eq_true',Bool.not_eq_false,Bool.and_eq_true,decide_eq_true_eq] at access
        omega
      exact unmap_middle kept (findVma_found got).1 middle order
    obtain ⟨t,ran,dropped⟩ := remove_each (m:=m) (s:=s) (takenAreas (s.mmap m) start stop)
    rw [ran]
    have fits := taken_fit (kept.ordered m) got all
    refine (unmap_each (kept.sound.ran (dropped.ran : Ran Still _ _)) fun a mem => fits a (mem_reverse.mp mem)).mono (fun _ u trimmed => ?_) nofun fun _ => id
    refine ⟨⟨?_,fun k entry => ?_,trimmed.ordered (dropped.ordered kept.ordered)⟩,dropped.ran.trans trimmed.ran⟩
    · exact (kept.sound.ran (dropped.ran : Ran Still _ _)).ran trimmed.ran
    have there : s.pte k ≠ .empty := by
      rw [← dropped.beside.1]
      exact trimmed.less k entry
    rcases dropped.covers (kept.inside k there) with covers | ⟨eq,a,mem,low⟩
    · exact trimmed.covers k covers
    obtain ⟨j,la⟩ := k
    cases eq
    exact trimmed.done a (mem_reverse.mpr mem) la low entry

end Unmap

def Inhabits (m : Nat) (k : Key) : Prop := k.1 = m

lemma exit_each (sound : Sound s) (l : List Vma) :
    ∃ t,eachVma (fun vma => unmapRange m vma.start (vma.stop - vma.start)) l s = .ok () t ∧ Ran (Touching (Inhabits m)) s t ∧ t.mmap = s.mmap ∧
      (∀ k,t.pte k ≠ .empty → s.pte k ≠ .empty) ∧ ∀ a ∈ l,∀ la,a.Has la → t.pte (m,la) = .empty := by
  induction l generalizing s with
  | nil => exact ⟨s,rfl,.refl s,rfl,fun _ => id,nofun⟩
  | cons a l ih =>
    obtain ⟨u,ran,moved,mmap,gone,less⟩ := unmap_part sound m a.start a.stop le_rfl le_rfl
    obtain ⟨t,rest,moved',mmap',less',gone'⟩ := ih (sound.ran moved)
    refine ⟨t,by simp only [eachVma,rules,ran,rest],(moved.mono (Touching.mono fun k within => within.1)).trans moved',mmap'.trans mmap,
      fun k => less k ∘ less' k,fun b mem la low => ?_⟩
    rcases mem_cons.mp mem with rfl | later
    · by_contra entry
      exact less' _ entry (gone la low.1 low.2)
    exact gone' b later la low

lemma exitMm_run (kept : Kept s) (m : Nat) : ∃ t,exitMm m s = .ok () t ∧ Kept t ∧ Ran (Touching (Inhabits m)) s t ∧ t.mmap m = [] ∧ ∀ la,t.pte (m,la) = .empty := by
  obtain ⟨u,ran,moved,mmap,less,gone⟩ := exit_each (m:=m) kept.sound (s.mmap m)
  have clear : ∀ la,u.pte (m,la) = .empty := fun la => by
    by_contra entry
    obtain ⟨a,mem,low⟩ := kept.inside (m,la) (less _ entry)
    exact entry (gone a mem la low)
  have ended : Ran (Touching (Inhabits m)) u {u with table:=set u.table m fun _ => false,mmap:=set u.mmap m []} := by
    refine ⟨.refl,id,fun tabled k entry => ?_⟩
    show set u.table m (fun _ => false) k.1 _ = true
    rw [set_ne fun eq => entry (by obtain ⟨j,la⟩ := k; cases eq; exact clear la)]
    exact tabled k entry
  refine ⟨_,by simp only [exitMm,rules,ran,setAreas],⟨(kept.sound.ran moved).ran ended,fun k entry => ?_,fun j => ?_⟩,moved.trans ended,set_self,clear⟩
  · refine (kept.inside k (less k entry)).mono fun a mem => ?_
    show a ∈ set u.mmap m [] k.1
    rw [set_ne fun eq => entry (by obtain ⟨j,la⟩ := k; cases eq; exact clear la),mmap]
    exact mem
  show Ordered (set u.mmap m [] j)
  rcases eq_or_ne j m with rfl | away
  · rw [set_self]
    exact ⟨.nil,by simp⟩
  rw [set_ne away,mmap]
  exact kept.ordered j

section Fork
variable {target source : Nat}

structure Cloned (target source : Nat) (l : List Vma) (s t : Vm) : Prop where
  kept : Kept t
  ran : Ran (Touching (Inhabits target)) s t
  clear : ∀ a ∈ l,∀ la,a.Has la → s.pte (source,la) ≠ .empty → s.pte (target,la) = .empty
  view : ∀ a ∈ l,∀ la,a.Has la → s.pte (target,la) = .empty → t.view (t.pte (target,la)) = s.view (s.pte (source,la))
  rest : ∀ la,(∀ a ∈ l,¬ a.Has la) → t.view (t.pte (target,la)) = s.view (s.pte (target,la))

lemma Vma.within (vma : Vma) : Within m vma.start (vma.stop - vma.start) (m,la) ↔ vma.Has la :=
  ⟨fun ⟨_,low,high⟩ => ⟨low,by dsimp only at low high; omega⟩,fun ⟨low,high⟩ => ⟨rfl,low,by show la < _ + _; omega⟩⟩

lemma Copied.kept (copied : Copied target source vma.start (vma.stop - vma.start) s t) (kept : Kept s) (area : vma ∈ s.mmap target) : Kept t where
  sound := kept.sound.ran copied.ran
  inside k entry := by
    have mono : s.Covers k → t.Covers k := fun covers => covers.mono fun a mem => by rwa [copied.mmap]
    by_cases within : Within target vma.start (vma.stop - vma.start) k
    · obtain ⟨j,_⟩ := k
      cases within.1
      exact mono ⟨vma,area,vma.within.mp within⟩
    exact mono (kept.inside k fun empty => entry ((copied.same k within).mpr empty))
  ordered j := by
    rw [copied.mmap]
    exact kept.ordered j

lemma dupVma_run (kept : Kept s) (ne : target ≠ source) (vma : Vma) :
    (dupVma target source vma s).Meets (fun _ t => Cloned target source [vma] s t) (fun _ t => Kept t ∧ Ran (Touching (Inhabits target)) s t)
      Fault.Excused := by
  simp only [dupVma,rules]
  refine (vmaCreate_run kept vma).next ?_ (fun e t ⟨kept,ran,_⟩ => ⟨kept,ran.mono Still.touching⟩) nofun
  rintro nvma u ⟨rfl,kept',begun,_,pte⟩
  refine (insertVmaStruct_run target nvma).next (fun _ v inserted => ?_) nofun fun x eq swap => by rw [eq] at swap; cases swap
  have ready := inserted.kept kept'
  have area : nvma ∈ v.mmap target := by
    obtain ⟨l,rfl,mem,_⟩ := inserted.areas
    show nvma ∈ set u.mmap target l target
    rw [set_self]
    exact (mem nvma).mpr (.inl rfl)
  have quiet : Ran (Touching fun _ => False) s v := (begun.mono Still.touching).trans inserted.ran
  have one : Ran (Touching (Inhabits target)) s v := quiet.mono (Touching.mono fun _ => False.elim)
  have eq : v.pte = s.pte := by rw [inserted.beside.1,pte]
  have far : ∀ k,v.view (v.pte k) = s.view (s.pte k) := fun k => quiet.view kept.sound id
  have wider : ∀ k,Within target nvma.start (nvma.stop - nvma.start) k → Inhabits target k := fun k within => within.1
  refine (copyRange_run ready.sound ne nvma.start (nvma.stop - nvma.start)).mono ?_ ?_ fun _ => id
  · rintro _ t ⟨copied,each⟩
    have each : ∀ la,nvma.Has la → _ := fun la low => each la low.1 (by obtain ⟨_,_⟩ := low; omega)
    refine ⟨copied.kept ready area,one.trans (copied.ran.mono (Touching.mono wider)),?_,?_,fun la out => ?_⟩
    · intro a mem la low
      rw [mem_singleton.mp mem] at low
      rw [← eq]
      exact (each la low).1
    · intro a mem la low empty
      rw [mem_singleton.mp mem] at low
      rw [← far]
      exact (each la low).2 (by rw [eq]; exact empty)
    rw [← far]
    exact copied.ran.view ready.sound fun within => out nvma (mem_singleton_self nvma) (nvma.within.mp within)
  exact fun _ t copied => ⟨copied.kept ready area,one.trans (copied.ran.mono (Touching.mono wider))⟩

lemma Cloned.trans (first : Cloned target source [a] s t) (two : Cloned target source l t u) (sound : Sound s) (ne : target ≠ source) :
    Cloned target source (a :: l) s u := by
  have far : ∀ la,t.view (t.pte (source,la)) = s.view (s.pte (source,la)) := fun la => first.ran.view sound fun eq => ne eq.symm
  have there : ∀ la,s.pte (source,la) ≠ .empty → t.pte (source,la) ≠ .empty := fun la entry none => entry (by
    have shown := far la
    rw [none] at shown
    exact view_none.mp shown.symm)
  have one := mem_singleton_self a
  -- A page of the first area that was copied is not copied again.
  have twice : ∀ b ∈ l,∀ la,b.Has la → a.Has la → s.pte (source,la) ≠ .empty → False := fun b mem la low inside' entry => by
    have empty := first.view a one la inside' (first.clear a one la inside' entry)
    rw [two.clear b mem la low (there la entry)] at empty
    exact entry (view_none.mp empty.symm)
  refine ⟨two.kept,first.ran.trans two.ran,fun b mem la low entry => ?_,fun b mem la low empty => ?_,fun la out => ?_⟩
  · rcases mem_cons.mp mem with rfl | later
    · exact first.clear b one la low entry
    by_cases inside' : a.Has la
    · exact (twice b later la low inside' entry).elim
    have eq := first.rest la (fun c eq => by rw [mem_singleton.mp eq]; exact inside')
    rw [two.clear b later la low (there la entry)] at eq
    exact view_none.mp eq.symm
  · by_cases later : ∃ c ∈ l,c.Has la
    · obtain ⟨c,later,inside''⟩ := later
      rw [← far]
      refine two.view c later la inside'' ?_
      by_cases inside' : a.Has la
      · by_contra entry
        have shown := first.view a one la inside' empty
        refine twice c later la inside'' inside' fun none => entry ?_
        rw [none] at shown
        exact view_none.mp shown
      have eq := first.rest la (fun c eq => by rw [mem_singleton.mp eq]; exact inside')
      rw [empty] at eq
      exact view_none.mp eq
    rw [two.rest la fun c later' inside' => later ⟨c,later',inside'⟩]
    rcases mem_cons.mp mem with rfl | later'
    · exact first.view b one la low empty
    exact absurd ⟨b,later',low⟩ later
  refine (two.rest la fun c later => out c (List.mem_cons_of_mem a later)).trans (first.rest la fun c eq => ?_)
  rw [mem_singleton.mp eq]
  exact out a mem_cons_self

lemma dup_each (kept : Kept s) (ne : target ≠ source) (l : List Vma) :
    (eachVma (dupVma target source) l s).Meets (fun _ t => Cloned target source l s t) (fun _ t => Kept t ∧ Ran (Touching (Inhabits target)) s t)
      Fault.Excused := by
  induction l generalizing s with
  | nil => exact ⟨kept,.refl s,nofun,nofun,fun _ _ => rfl⟩
  | cons a l ih =>
    simp only [eachVma,rules]
    refine (dupVma_run kept ne a).next (fun _ t one => ?_) (fun _ _ => id) fun _ => id
    exact (ih one.kept).mono (fun _ u two => one.trans two kept.sound ne) (fun e u ⟨kept,ran⟩ => ⟨kept,one.ran.trans ran⟩) fun _ => id

lemma copyMm_run (kept : Kept s) (ne : target ≠ source) (new : s.mmap target = []) : (copyMm target source s).Meets
      (fun _ t => Kept t ∧ Ran (Touching (Inhabits target)) s t ∧ ∀ la,t.view (t.pte (target,la)) = s.view (s.pte (source,la)))
      (fun _ t => Kept t ∧ Ran (Touching (Inhabits target)) s t) Fault.Excused := by
  have clear : ∀ la,s.pte (target,la) = .empty := fun la => by
    by_contra entry
    obtain ⟨a,mem,_⟩ := kept.inside (target,la) entry
    rw [show s.mmap (target,la).1 = [] from new] at mem
    cases mem
  have met := dup_each kept ne (s.mmap source).reverse
  have run : dupMmap target source s = eachVma (dupVma target source) (s.mmap source).reverse s := rfl
  simp only [copyMm,rules]
  rw [← run] at met
  cases ran : dupMmap target source s with
  | ok a t =>
    rw [ran] at met
    rw [attempt_ok ran]
    refine ⟨met.kept,met.ran,fun la => ?_⟩
    by_cases covered : ∃ a ∈ s.mmap source,a.Has la
    · obtain ⟨a,mem,low⟩ := covered
      exact met.view a (mem_reverse.mpr mem) la low (clear la)
    have none : s.pte (source,la) = .empty := by
      by_contra entry
      obtain ⟨a,mem,low⟩ := kept.inside (source,la) entry
      exact covered ⟨a,mem,low⟩
    rw [met.rest la fun a mem low => covered ⟨a,mem_reverse.mp mem,low⟩,clear la,none]
  | err e t =>
    rw [ran] at met
    rw [attempt_err ran]
    obtain ⟨u,ended,kept',moved,_⟩ := exitMm_run met.1 target
    simp only [rules,ended]
    exact ⟨kept',met.2.trans moved⟩
  | fault x =>
    rw [ran] at met
    rw [attempt_fault ran]
    exact met

end Fork
end Ucore.Mm
