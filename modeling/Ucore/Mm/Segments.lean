import Ucore.Mm.Exec

-- The loop of load_icode over the program headers: which pages become writable.
namespace Ucore.Mm
open Bytes Outcomes List
variable {s t : Vm} {m : Nat} {vma : Vma} {seg : Segment} {segs : List Segment} {file : Buf}

def Segment.area (seg : Segment) : Vma := ⟨seg.va / 4096,(seg.va + seg.memsz + 4095) / 4096,seg.read,seg.write,seg.exec,false⟩

-- The headers that are ELF_PT_LOAD. perm is cleared before the loop, not in it.
def loadSegments (m : Nat) (file : Buf) : Bool → List Segment → VmM Unit
  | _,[] => pure ()
  | perm,seg :: rest => do
    let perm := perm || seg.write
    loadSegment m perm file seg
    loadSegments m file perm rest

-- The area found ends above the new one's start; those before it end below.
lemma mmMap_apart (ordered : Ordered (s.mmap m)) (ran : mmMap m vma s = .ok () t) :
    (∀ a ∈ s.mmap m,∀ p,a.Has p → ¬ vma.Has p) ∧ (∀ a,a ∈ t.mmap m ↔ a = vma ∨ a ∈ s.mmap m) ∧ Ordered (t.mmap m) := by
  simp only [mmMap,vmaCreate,rules,ite_run,granted_run] at ran
  split at ran
  · cases ran
  split at ran
  · cases ran
  rename_i clear
  obtain ⟨v,u,made,ran⟩ := next_inv ran
  split at made <;> cases made
  have inserted := insertVmaStruct_run (s:={s with tick:=s.tick + 1}) m vma
  rw [ran] at inserted
  obtain ⟨l,rfl,mem,keeps⟩ := inserted.areas
  refine ⟨fun a there p has new => clear ?_,fun a => by simpa using mem a,by simpa using keeps ordered⟩
  cases got : findVma (s.mmap m) vma.start with
  | none => exact absurd (List.find?_eq_none.mp got a there) (by simp; exact lt_of_le_of_lt new.1 has.2)
  | some old =>
    obtain ⟨_,_,_,split,pre⟩ := List.find?_eq_some_iff_append.mp got
    rw [split] at there ordered
    have solid := ordered.solid old (by simp)
    obtain ⟨_,_⟩ := has
    obtain ⟨_,_⟩ := new
    simp only [Option.any_some,decide_eq_true_eq]
    rcases mem_append.mp there with early | late
    · have := pre a early
      simp at this
      omega
    rcases mem_cons.mp late with rfl | later
    · omega
    have := (pairwise_cons.mp (pairwise_append.mp ordered.order).2.1).1 a later
    omega

lemma loadSegment_maps (ran : loadSegment m w file seg s = .ok () t) : ∃ u,mmMap m seg.area s = .ok () u := by
  simp only [loadSegment,ite_run] at ran
  split at ran
  · cases ran
  obtain ⟨_,u,mapped,_⟩ := next_inv ran
  exact ⟨u,mapped⟩

def Vm.writable (s : Vm) (k : Key) : Option Bool := match s.pte k with
  | .present _ w _ _ => some w
  | _ => none

-- An empty segment may get an area, but no page.
lemma loadSegment_empty (none : seg.memsz = 0) (ran : loadSegment m w file seg s = .ok () t) : t.pte = s.pte := by
  have file : seg.filesz = 0 := by
    by_contra some
    rw [loadSegment,if_pos (by omega)] at ran
    cases ran
  simp only [loadSegment,none,file,Nat.lt_irrefl,if_false,pageLoop,clearRest,Nat.add_zero,rules,gt_iff_lt] at ran
  obtain ⟨_,u,mapped,ran⟩ := next_inv ran
  obtain ⟨core,-⟩ := mmMap_blind m _ s () u mapped
  have still : u = t := by
    have low : ¬ seg.va < 4096 * (seg.va / 4096) := by omega
    simp only [low,if_false,false_and,pageLoop_done le_rfl,rules] at ran
    cases ran
    rfl
  rw [← still,core]

-- What is in the page table for the segments done, each with the perm of its turn.
structure Guarded (m : Nat) (done : List (Segment × Bool)) (s : Vm) : Prop where
  once : s.free.Nodup
  ordered : Ordered (s.mmap m)
  areas : ∀ x ∈ done,x.1.area ∈ s.mmap m
  pages : ∀ p,s.pte (m,p) ≠ .empty → ∃ x ∈ done,x.1.area.Has p
  marks : ∀ x ∈ done,∀ p w,x.1.area.Has p → s.writable (m,p) = some w → w = x.2 ∧ 0 < x.1.memsz
  first : ∀ x ∈ done,0 < x.1.memsz → s.writable (m,x.1.va / 4096) = some x.2

lemma Segment.area_first (some : 0 < seg.memsz) : seg.area.Has (seg.va / 4096) := ⟨le_rfl,by show _ < (seg.va + seg.memsz + 4095) / 4096; omega⟩

lemma Guarded.load {done : List (Segment × Bool)} (guarded : Guarded m done s) (ran : loadSegment m perm file seg s = .ok () t) : Guarded m ((seg,perm) :: done) t := by
  obtain ⟨u,mapped⟩ := loadSegment_maps ran
  obtain ⟨ne,mem,ordered⟩ := mmMap_apart guarded.ordered mapped
  have empty (p : Nat) (has : seg.area.Has p) : s.pte (m,p) = .empty := by
    by_contra busy
    obtain ⟨old,was,inside⟩ := guarded.pages p busy
    exact ne _ (guarded.areas old was) p inside has
  obtain ⟨last,v,fed,_,grew,again,mmap,_⟩ := loadSegment_run guarded.once seg (fun p low high => empty p ⟨low,by show p < (seg.va + seg.memsz + 4095) / 4096; omega⟩) ran
  cases again.symm.trans mapped
  have range (p : Nat) (low : seg.va / 4096 ≤ p) (high : p < last) : seg.area.Has p := ⟨low,by show p < (seg.va + seg.memsz + 4095) / 4096; omega⟩
  have old (x) (was : x ∈ done) (p) (has : x.1.area.Has p) : t.writable (m,p) = s.writable (m,p) := by
    rw [Vm.writable,fed.others _ fun ⟨_,low,high⟩ => ne _ (guarded.areas x was) p has (range p low high)]
    rfl
  refine ⟨by rw [fed.free]; exact guarded.once.sublist (drop_sublist ..),by rw [mmap]; exact ordered,fun x inside => ?_,fun p busy => ?_,fun x inside p w has entry => ?_,
    fun x inside some => ?_⟩
  · rw [mmap,mem]
    exact (mem_cons.mp inside).imp (fun same => by rw [same]) (guarded.areas x)
  · by_cases new : seg.area.Has p
    · exact ⟨_,mem_cons_self,new⟩
    rw [fed.others _ fun ⟨_,low,high⟩ => new (range p low high)] at busy
    obtain ⟨old,was,inside⟩ := guarded.pages p busy
    exact ⟨old,mem_cons_of_mem _ was,inside⟩
  · rcases mem_cons.mp inside with rfl | was
    · have some : 0 < seg.memsz := by
        refine Nat.pos_of_ne_zero fun none => ?_
        rw [Vm.writable,loadSegment_empty none ran,empty p has] at entry
        cases entry
      refine ⟨?_,some⟩
      unfold Vm.writable at entry
      by_cases high : p < last
      · obtain ⟨_,_,there,_⟩ := fed.page p has.1 high
        rw [there] at entry
        cases entry
        rfl
      rw [fed.others _ fun ⟨_,_,below⟩ => high below,empty p has] at entry
      cases entry
    exact guarded.marks x was p w has (old x was p has ▸ entry)
  rcases mem_cons.mp inside with rfl | was
  · obtain ⟨_,_,there,_⟩ := fed.page (seg.va / 4096) le_rfl (grew some)
    rw [Vm.writable,there]
  rw [old x was _ (Segment.area_first some)]
  exact guarded.first x was some

-- perm at each turn
def turns : Bool → List Segment → List (Segment × Bool)
  | _,[] => []
  | perm,seg :: rest => (seg,perm || seg.write) :: turns (perm || seg.write) rest

lemma Guarded.loads {done : List (Segment × Bool)} (guarded : Guarded m done s) (ran : loadSegments m file perm segs s = .ok () t) : Guarded m ((turns perm segs).reverse ++ done) t := by
  induction segs generalizing s done perm with
  | nil =>
    cases ran
    exact guarded
  | cons seg _ ih =>
    simp only [loadSegments,rules] at ran
    obtain ⟨_,u,one,ran⟩ := next_inv ran
    rw [turns,reverse_cons,append_assoc]
    exact ih (guarded.load one) ran

lemma mem_turns (perm : Bool) : seg ∈ segs ↔ ∃ w,(seg,w) ∈ turns perm segs := by
  induction segs generalizing perm with
  | nil => simp [turns]
  | cons head _ ih =>
    rw [mem_cons,ih (perm || head.write)]
    simp [turns,exists_or]

lemma turns_own (perm : Bool) : (∀ x ∈ turns perm segs,0 < x.1.memsz → x.2 = x.1.write) ↔
    (perm = true → ∀ seg ∈ segs,0 < seg.memsz → seg.write = true) ∧ segs.Pairwise fun a b => a.write = true → 0 < b.memsz → b.write = true := by
  induction segs generalizing perm with
  | nil => simp [turns]
  | cons seg _ ih =>
    rw [turns,forall_mem_cons,ih,pairwise_cons,forall_mem_cons]
    cases perm <;> cases seg.write <;> simp
    tauto

def constSegment : Segment := {smallSegment with va:=0x2000064,write:=false}

end Ucore.Mm
