import Mathlib.Tactic
import Ucore.Vmm.Area

-- The areas of an mm are page ranges of user space in ascending order; what
-- insert_vma_struct and mm_unmap make of them.
namespace Ucore.Vmm
open Outcomes
open List hiding next prev
variable {areas : List Area} {vma : Area} {start stop addr : Nat}

structure Area.Fits (a : Area) : Prop where
  solid : a.start < a.stop
  low : userBase ≤ a.start
  high : a.stop ≤ userTop
  startAligned : a.start % pgSize = 0
  stopAligned : a.stop % pgSize = 0

structure Ordered (areas : List Area) : Prop where
  order : areas.Pairwise fun a b => a.stop ≤ b.start
  fits : ∀ a ∈ areas,a.Fits

def Area.Has (a : Area) (addr : Nat) : Prop := a.start ≤ addr ∧ addr < a.stop
def Apart (a b : Area) : Prop := a.stop ≤ b.start ∨ b.stop ≤ a.start

-- Along a list in which p only turns off, the leading part is the filtered one.
lemma leading_filter {l : List α} {p : α → Bool} (shut : l.Pairwise fun a b => p b = true → p a = true) :
    l.takeWhile p = l.filter p ∧ l.dropWhile p = l.filter fun a => !p a := by
  induction l with
  | nil => exact ⟨rfl,rfl⟩
  | cons a l ih =>
    obtain ⟨head,tail⟩ := pairwise_cons.mp shut
    cases holds : p a with
    | true => simp [holds,ih tail]
    | false =>
      have off : ∀ b ∈ l,p b = false := fun b mem => by
        by_contra on
        have := head b mem (by simpa using on)
        rw [holds] at this
        cases this
      have none : l.filter p = [] := filter_eq_nil_iff.mpr fun b mem => by simp [off b mem]
      have all : l.filter (fun a => !p a) = l := filter_eq_self.mpr fun b mem => by simp [off b mem]
      simp [holds,none,all]

section
variable (ordered : Ordered areas)
include ordered

lemma Ordered.sublist (less : part.Sublist areas) : Ordered part := ⟨ordered.order.sublist less,fun a mem => ordered.fits a (less.subset mem)⟩

lemma Ordered.starts (n : Nat) : areas.Pairwise fun a b => decide (b.start ≤ n) = true → decide (a.start ≤ n) = true := by
  refine ordered.order.imp_of_mem fun {a b} one two old low => ?_
  have := (ordered.fits a one).solid
  simp only [decide_eq_true_eq] at low ⊢
  omega

lemma Ordered.stops (n : Nat) : areas.Pairwise fun a b => decide (b.stop ≤ n) = true → decide (a.stop ≤ n) = true := by
  refine ordered.order.imp_of_mem fun {a b} one two old low => ?_
  have := (ordered.fits b two).solid
  simp only [decide_eq_true_eq] at low ⊢
  omega

lemma Ordered.below (n : Nat) : areas.Pairwise fun a b => decide (b.start < n) = true → decide (a.start < n) = true := by
  refine ordered.order.imp_of_mem fun {a b} one two old low => ?_
  have := (ordered.fits a one).solid
  simp only [decide_eq_true_eq] at low ⊢
  omega

lemma Ordered.apart : areas.Pairwise Apart := ordered.order.imp fun old => .inl old

end

instance : Std.Symm Apart := ⟨fun _ _ apart => Or.symm apart⟩

section
variable (ordered : Ordered areas)
include ordered

lemma Ordered.nodup : areas.Nodup := by
  refine ordered.order.imp_of_mem fun {a b} one two old eq => ?_
  have := (ordered.fits a one).solid
  subst eq
  omega

lemma Ordered.unique (one : a ∈ areas) (two : b ∈ areas) (inA : a.Has n) (inB : b.Has n) : a = b := by
  by_contra ne
  have := ordered.apart.forall one two ne
  unfold Apart at this
  unfold Area.Has at inA inB
  omega

lemma Ordered.below_last (last : areas.getLast? = some prev) : ∀ a ∈ areas,a.stop ≤ prev.stop := by
  obtain ⟨_,rfl⟩ := List.getLast?_eq_some_iff.mp last
  intro a mem
  rcases mem_append.mp mem with mem | mem
  · have := (pairwise_append.mp ordered.order).2.2 a mem prev (mem_singleton_self _)
    have := (ordered.fits prev (by simp)).solid
    omega
  rw [mem_singleton.mp mem]

lemma Ordered.above_head (head : areas.head? = some next) : ∀ a ∈ areas,next.start ≤ a.start := by
  obtain ⟨_,rfl⟩ := List.head?_eq_some_iff.mp head
  intro a mem
  rcases mem_cons.mp mem with rfl | mem
  · exact le_refl _
  have := (pairwise_cons.mp ordered.order).1 a mem
  have := (ordered.fits next (by simp)).solid
  omega

lemma insertArea_filter (vma : Area) :
    insertArea areas vma = (areas.filter fun a => a.start ≤ vma.start) ++ vma :: areas.filter fun a => !decide (a.start ≤ vma.start) := by
  obtain ⟨taken,cut⟩ := leading_filter (ordered.starts vma.start)
  rw [insertArea,taken,cut]

lemma insertArea_perm (vma : Area) : (insertArea areas vma).Perm (vma :: areas) := by
  rw [insertArea_filter ordered]
  exact perm_middle.trans (.cons _ (filter_append_perm _ areas))

end

lemma Apart.before (ne : Apart vma a) (solid : vma.start < vma.stop) (low : a.start ≤ vma.start) : a.stop ≤ vma.start := by
  unfold Apart at ne
  omega

lemma Apart.after (ne : Apart vma a) (solid : a.start < a.stop) (high : ¬ a.start ≤ vma.start) : vma.stop ≤ a.start := by
  unfold Apart at ne
  omega

lemma Ordered.insert (ordered : Ordered areas) (fits : vma.Fits) (ne : ∀ a ∈ areas,Apart vma a) : Ordered (insertArea areas vma) := by
  refine ⟨?_,fun a mem => ?_⟩
  · rw [insertArea_filter ordered,pairwise_append,pairwise_cons]
    have front : ∀ a ∈ areas.filter fun a => a.start ≤ vma.start,a.stop ≤ vma.start := fun a mem => by
      obtain ⟨mem,low⟩ := mem_filter.mp mem
      exact (ne a mem).before fits.solid (by simpa using low)
    have back : ∀ b ∈ areas.filter fun a => !decide (a.start ≤ vma.start),vma.stop ≤ b.start := fun b mem => by
      obtain ⟨mem,high⟩ := mem_filter.mp mem
      exact (ne b mem).after (ordered.fits b mem).solid (by simpa using high)
    refine ⟨ordered.order.sublist filter_sublist,⟨back,ordered.order.sublist filter_sublist⟩,fun a first b two => ?_⟩
    have left := front a first
    rcases mem_cons.mp two with rfl | two
    · exact left
    have right := back b two
    have := fits.solid
    omega
  rcases mem_cons.mp ((insertArea_perm ordered vma).mem_iff.mp mem) with rfl | old
  · exact fits
  exact ordered.fits a old

section Insert
variable {τ : Type} {w : World τ} {m : Nat}

-- insert_vma_struct passes its asserts where the area meets none of the others.
lemma insertVmaStruct_ok (ordered : Ordered (w.areas m)) (fits : vma.Fits) (ne : ∀ a ∈ w.areas m,Apart vma a) :
    insertVmaStruct m vma w = .ok () {w with areas:=Function.update w.areas m (insertArea (w.areas m) vma)} := by
  obtain ⟨taken,cut⟩ := leading_filter (ordered.starts vma.start)
  have front : (((w.areas m).takeWhile fun prev => prev.start ≤ vma.start).getLast?.all fun prev => checkVmaOverlap prev vma) = true := by
    rw [Option.all_eq_true]
    intro a last
    have mem := List.mem_of_getLast? last
    rw [taken,mem_filter] at mem
    have old := (ne a mem.1).before fits.solid (by simpa using mem.2)
    have := (ordered.fits a mem.1).solid
    have := fits.solid
    simp only [checkVmaOverlap,Bool.and_eq_true,decide_eq_true_eq]
    omega
  have back : (((w.areas m).dropWhile fun prev => prev.start ≤ vma.start).head?.all fun next => checkVmaOverlap vma next) = true := by
    rw [Option.all_eq_true]
    intro b head
    have mem := List.mem_of_head? head
    rw [cut,mem_filter] at mem
    have after := (ne b mem.1).after (ordered.fits b mem.1).solid (by simpa using mem.2)
    have := (ordered.fits b mem.1).solid
    have := fits.solid
    simp only [checkVmaOverlap,Bool.and_eq_true,decide_eq_true_eq]
    omega
  have solid : decide (vma.start < vma.stop) = true := decide_eq_true fits.solid
  simp [insertVmaStruct,solid,front,back,setAreas]

-- Where the asserts hold, the area meets none of the others.
lemma insertVmaStruct_cases (ordered : Ordered (w.areas m)) (vma : Area) : insertVmaStruct m vma w = .fault .overlap ∨ ∀ a ∈ w.areas m,Apart vma a := by
  obtain ⟨taken,cut⟩ := leading_filter (ordered.starts vma.start)
  simp only [insertVmaStruct,rules]
  by_cases solid : decide (vma.start < vma.stop) = true
  · simp only [solid,rules]
    by_cases front : (((w.areas m).takeWhile fun prev => prev.start ≤ vma.start).getLast?.all fun prev => checkVmaOverlap prev vma) = true
    · simp only [front,rules]
      by_cases back : (((w.areas m).dropWhile fun prev => prev.start ≤ vma.start).head?.all fun next => checkVmaOverlap vma next) = true
      · refine .inr fun a mem => ?_
        by_cases low : a.start ≤ vma.start
        · have inside : a ∈ (w.areas m).takeWhile fun prev => prev.start ≤ vma.start := by rw [taken]; simp [mem,low]
          cases last : ((w.areas m).takeWhile fun prev => prev.start ≤ vma.start).getLast? with
          | none => simp [List.getLast?_eq_none_iff.mp last] at inside
          | some prev =>
            rw [last] at front
            simp only [Option.all_some,checkVmaOverlap,Bool.and_eq_true,decide_eq_true_eq] at front
            have part : Ordered ((w.areas m).takeWhile fun prev => prev.start ≤ vma.start) := ordered.sublist (takeWhile_sublist _)
            have := part.below_last last a inside
            exact .inr (by omega)
        have inside : a ∈ (w.areas m).dropWhile fun prev => prev.start ≤ vma.start := by rw [cut]; simp [mem]; omega
        cases head : ((w.areas m).dropWhile fun prev => prev.start ≤ vma.start).head? with
        | none => simp [List.head?_eq_none_iff.mp head] at inside
        | some _ =>
          rw [head] at back
          simp only [Option.all_some,checkVmaOverlap,Bool.and_eq_true,decide_eq_true_eq] at back
          have part : Ordered ((w.areas m).dropWhile fun prev => prev.start ≤ vma.start) := ordered.sublist (dropWhile_sublist _)
          have := part.above_head head a inside
          exact .inl (by omega)
      exact .inl (by simp [back])
    exact .inl (by simp [front])
  exact .inl (by simp [solid])

def resized (vma : Area) (start stop : Nat) : Area :=
  {vma with start:=start,stop:=stop,off:=if isShared vma.flags then vma.off + (start - vma.start) else vma.off}

lemma vmaResize_ok (evenStart : start % pgSize = 0) (evenStop : stop % pgSize = 0) (low : vma.start ≤ start) (solid : start < stop) (high : stop ≤ vma.stop) :
    vmaResize vma start stop w = .ok (resized vma start stop) w := by
  have even : (decide (start % pgSize = 0) && decide (stop % pgSize = 0)) = true := by simp [evenStart,evenStop]
  have range : (decide (vma.start ≤ start) && decide (start < stop) && decide (stop ≤ vma.stop)) = true := by simp [low,solid,high]
  simp only [vmaResize,rules,even,range]
  rfl

end Insert

def pieces (start stop : Nat) (a : Area) : List Area :=
  if a.stop ≤ start ∨ stop ≤ a.start then [a]
  else if a.start < start ∧ stop < a.stop then [⟨a.start,start,a.flags,none,0⟩,resized a stop a.stop]
  else if a.start < start then [resized a a.start start]
  else if stop < a.stop then [resized a stop a.stop]
  else []

def touched (areas : List Area) (start stop : Nat) : List Area := areas.filter fun a => decide (start < a.stop) && decide (a.start < stop)

section Pieces
variable {a b : Area}

-- A piece is the area itself, the part in front of the range or the part behind it.
lemma pieces_cases (mem : b ∈ pieces start stop a) : b.flags = a.flags ∧
    (b.start = a.start ∧ b.stop = a.stop ∧ (a.stop ≤ start ∨ stop ≤ a.start) ∨ b.start = a.start ∧ b.stop = start ∧ a.start < start ∧ start < a.stop ∨
      b.start = stop ∧ b.stop = a.stop ∧ a.start < stop ∧ stop < a.stop) := by
  unfold pieces at mem
  split_ifs at mem <;> simp only [mem_cons,not_mem_nil,or_false] at mem
  · subst mem
    exact ⟨rfl,by omega⟩
  · rcases mem with rfl | rfl <;> exact ⟨rfl,by dsimp only [resized]; omega⟩
  · subst mem
    exact ⟨rfl,by dsimp only [resized]; omega⟩
  subst mem
  exact ⟨rfl,by dsimp only [resized]; omega⟩

lemma pieces_inside (mem : b ∈ pieces start stop a) : a.start ≤ b.start ∧ b.stop ≤ a.stop := by
  have := (pieces_cases mem).2
  omega

lemma pieces_fits (fits : a.Fits) (evenStart : start % pgSize = 0) (evenStop : stop % pgSize = 0) (mem : b ∈ pieces start stop a) : b.Fits := by
  have ⟨solid,low,high,even,aligned'⟩ := fits
  rcases (pieces_cases mem).2 with ⟨eq,eq',_⟩ | ⟨eq,eq',_⟩ | ⟨eq,eq',_⟩ <;> constructor <;> simp only [eq,eq'] <;> omega

lemma pieces_has (fits : a.Fits) (order : start < stop) (n : Nat) : (∃ b ∈ pieces start stop a,b.Has n) ↔ a.Has n ∧ ¬ (start ≤ n ∧ n < stop) := by
  have solid := fits.solid
  unfold pieces Area.Has
  split_ifs <;> simp only [mem_cons,not_mem_nil,or_false,exists_eq_or_imp,exists_eq_left,resized,false_and,exists_false,false_iff] <;> omega

lemma Apart.piece (ne : Apart a c) (mem : b ∈ pieces start stop a) : Apart b c := by
  have := pieces_inside mem
  unfold Apart at ne ⊢
  omega

lemma pieces_untouched (out : (decide (start < a.stop) && decide (a.start < stop)) = false) : pieces start stop a = [a] := by
  refine if_pos ?_
  simp only [Bool.and_eq_false_iff,decide_eq_false_iff_not] at out
  omega

lemma pieces_perm (areas : List Area) (start stop : Nat) :
    (areas.flatMap (pieces start stop)).Perm ((touched areas start stop).flatMap (pieces start stop) ++
      areas.filter fun a => !(decide (start < a.stop) && decide (a.start < stop))) := by
  have parts := (filter_append_perm (fun a => decide (start < a.stop) && decide (a.start < stop)) areas).symm
  refine (parts.flatMap_right _).trans ?_
  rw [flatMap_append]
  refine .append_left _ (.of_eq ?_)
  have alone : ∀ a ∈ areas.filter fun a => !(decide (start < a.stop) && decide (a.start < stop)),pieces start stop a = [a] := fun a mem =>
    pieces_untouched (by simpa only [Bool.not_eq_true'] using (mem_filter.mp mem).2)
  rw [flatMap_congr alone]
  exact flatMap_singleton' _

lemma taken_touched (ordered : Ordered areas) (start stop : Nat) : takenAreas areas start stop = touched areas start stop := by
  have later := (leading_filter (ordered.stops start)).2
  rw [takenAreas,later]
  have kept : Ordered (areas.filter fun a => !decide (a.stop ≤ start)) := ordered.sublist filter_sublist
  rw [(leading_filter (kept.below stop)).1,filter_filter,touched]
  refine filter_congr fun a _ => ?_
  rw [Bool.and_comm,← decide_not]
  congr 1
  exact decide_eq_decide.mpr not_le

lemma pieces_out (mem : b ∈ pieces start stop a) : b.stop ≤ start ∨ stop ≤ b.start := by
  have := (pieces_cases mem).2
  omega

end Pieces

section Replace
variable {new : Area}

lemma replaceArea_perm (nodup : areas.Nodup) (mem : vma ∈ areas) : (replaceArea areas vma new).Perm (new :: areas.erase vma) := by
  refine ((perm_cons_erase mem).map _).trans ?_
  rw [map_cons,if_pos rfl]
  refine .cons _ (.of_eq ?_)
  refine (map_congr_left fun a low => if_neg fun eq => ?_).trans (map_id' _)
  exact (nodup.mem_erase_iff.mp low).1 eq

lemma Ordered.replace (ordered : Ordered areas) (fits : new.Fits) (low : new.start < vma.stop) (high : vma.start < new.stop)
    (ne : ∀ a ∈ areas,a ≠ vma → Apart new a) : Ordered (replaceArea areas vma new) := by
  refine ⟨?_,fun a mem => ?_⟩
  · rw [replaceArea,pairwise_map]
    refine ordered.order.imp_of_mem fun {a b} one two pre => ?_
    have solidA := (ordered.fits a one).solid
    have solidB := (ordered.fits b two).solid
    by_cases left : a = vma <;> by_cases right : b = vma
    · subst left right
      omega
    · have := ne b two right
      subst left
      simp only [if_pos,if_neg right]
      unfold Apart at this
      omega
    · have := ne a one left
      subst right
      simp only [if_pos,if_neg left]
      unfold Apart at this
      omega
    simpa only [if_neg left,if_neg right] using pre
  obtain ⟨b,old,rfl⟩ := mem_map.mp mem
  split
  · exact fits
  exact ordered.fits b old

lemma Ordered.others (ordered : Ordered areas) (mem : vma ∈ areas) : ∀ a ∈ areas,a ≠ vma → Apart vma a := fun _ low ne =>
  ordered.apart.forall mem low (Ne.symm ne)

end Replace

lemma findVma_none (missing : findVma areas addr = none) : ∀ a ∈ areas,a.stop ≤ addr := fun a mem => by
  have := List.find?_eq_none.mp missing a mem
  simpa using this

-- find_vma gives the lowest area that ends above addr.
lemma findVma_some (ordered : Ordered areas) (got : findVma areas addr = some vma) :
    vma ∈ areas ∧ addr < vma.stop ∧ ∀ a ∈ areas,addr < a.stop → a ≠ vma → vma.stop ≤ a.start := by
  obtain ⟨holds,_,_,rfl,low⟩ := List.find?_eq_some_iff_append.mp got
  refine ⟨by simp,by simpa using holds,fun a mem above ne => ?_⟩
  rcases mem_append.mp mem with mem | mem
  · have := low a mem
    simp at this
    omega
  rcases mem_cons.mp mem with rfl | mem
  · exact (ne rfl).elim
  exact (pairwise_cons.mp (pairwise_append.mp ordered.order).2.1).1 a mem

section Rounding
variable {len : Nat}

lemma lowEnd_aligned (addr : Nat) : lowEnd addr % pgSize = 0 := by
  unfold lowEnd roundDown pgSize
  omega

lemma highEnd_aligned (addr len : Nat) : highEnd addr len % pgSize = 0 := by
  unfold highEnd roundUp roundDown pgSize word
  omega

lemma userAccess_iff : userAccess start stop = true ↔ userBase ≤ start ∧ start < stop ∧ stop ≤ userTop := by simp [userAccess,and_assoc]

lemma ends_fit (access : userAccess (lowEnd addr) (highEnd addr len) = true) (flags : Flags) (shmem : Option Nat) (off : Nat) :
    (⟨lowEnd addr,highEnd addr len,flags,shmem,off⟩ : Area).Fits := by
  obtain ⟨low,solid,high⟩ := userAccess_iff.mp access
  exact ⟨solid,low,high,lowEnd_aligned addr,highEnd_aligned addr len⟩

lemma lowEnd_self (even : start % pgSize = 0) : lowEnd start = start := by
  unfold lowEnd roundDown
  omega

lemma highEnd_self (even : stop % pgSize = 0) (order : start < stop) (high : stop ≤ userTop) : highEnd start (stop - start) = stop := by
  unfold highEnd roundUp roundDown pgSize word
  unfold pgSize at even
  unfold userTop at high
  omega

end Rounding
end Ucore.Vmm
