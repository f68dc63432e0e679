import Ucore.Vmm.Frames

-- Whether every frame allocated for an mm is given back when it ends.
namespace Ucore.Vmm
open Outcomes Runs Tally List
open Function (update update_eq_iff update_idem update_of_ne update_self)
variable {s : Frames} {m : Nat} {live : Finset Nat}

-- A table below level 3 hangs in one of the next level, no table is there
-- twice, and tables belong to an mm that exists.
structure Sane (live : Finset Nat) (s : Frames) : Prop where
  law : FrameLaw none s
  rooted : ∀ t ∈ s.tables,t.level = 1 ∨ t.level = 2 → ∃ u ∈ s.tables,u.Is t.mm (t.level + 1) (t.index / 512)
  keys : s.tables.Pairwise fun t u => ¬ u.Is t.mm t.level t.index
  levels : ∀ t ∈ s.tables,1 ≤ t.level ∧ t.level ≤ 4 ∧ (t.level = 4 → t.index = 0)
  here : ∀ t ∈ s.tables,t.mm ∈ live

lemma allocPage_pte (m : Nat) (s : Frames) : (allocPage m s).2.pte = s.pte := by
  unfold allocPage
  split <;> rfl

lemma getTable_pte (m level index : Nat) (s : Frames) : (getTable m level index s).2.pte = s.pte := by
  unfold getTable
  split
  · rfl
  have eq := allocPage_pte m s
  split <;> simp_all

lemma getPte_pte (m p : Nat) (s : Frames) : (getPte m p s).2.pte = s.pte := by
  unfold getPte
  dsimp only
  split_ifs <;> simp only [getTable_pte]

lemma pageInsert_pte (k : Nat × Nat) (f : Nat) (s : Frames) : (pageInsert k f s).pte = update s.pte k (some f) := by
  by_cases here : s.pte k = some f
  · rw [pageInsert,if_pos here]
    exact (update_eq_iff.mpr ⟨here.symm,fun _ _ => rfl⟩).symm
  rw [pageInsert_eq here]
  dsimp only [addPage]
  rw [pageRemovePte_pte,update_idem]

lemma faultPage_pte (m p : Nat) (s : Frames) (k : Nat × Nat) (ne : k ≠ (m,p)) : (faultPage m p s).pte k = s.pte k := by
  have eq : (allocPage m (getPte m p s).2).2.pte = s.pte := by rw [allocPage_pte,getPte_pte]
  unfold faultPage
  dsimp only
  split
  · split
    · rw [eq]
    · rw [pageInsert_pte,update_of_ne ne,eq]
    split
    · rw [pageInsert_pte,update_of_ne ne,eq]
    exact congrFun eq k
  rw [getPte_pte]

lemma copyFrame_pte (goal source p : Nat) (s : Frames) (k : Nat × Nat) (ne : k ≠ (goal,p)) : (copyFrame goal source p s).2.pte k = s.pte k := by
  unfold copyFrame
  split
  · rfl
  dsimp only
  split
  · dsimp only
    rw [pageInsert_pte,update_of_ne ne,getPte_pte]
  rw [getPte_pte]

lemma copyFrames_pte (goal source p n : Nat) (s : Frames) (k : Nat × Nat) (ne : ¬ (k.1 = goal ∧ p ≤ k.2 ∧ k.2 < p + n)) :
    (copyFrames goal source p n s).2.pte k = s.pte k := by
  induction n generalizing p s with
  | zero => rfl
  | succ n ih =>
    have first : (copyFrame goal source p s).2.pte k = s.pte k := copyFrame_pte _ _ _ _ _ fun eq => ne (by subst eq; dsimp only; omega)
    unfold copyFrames
    dsimp only
    split
    · rw [ih _ _ (by omega),first]
    exact first

lemma unmapFrames_pte (m p n : Nat) (s : Frames) (k : Nat × Nat) :
    (unmapFrames m p n s).pte k = if k.1 = m ∧ p ≤ k.2 ∧ k.2 < p + n then none else s.pte k := by
  induction n generalizing p s with
  | zero => exact (if_neg (by omega)).symm
  | succ n ih =>
    unfold unmapFrames
    rw [ih,pageRemovePte_pte]
    by_cases first : k = (m,p)
    · subst first
      rw [update_self]
      simp
    rw [update_of_ne first]
    have ne : ¬ (k.1 = m ∧ k.2 = p) := fun eq => first (Prod.ext eq.1 eq.2)
    congr 1
    exact propext (by omega)

lemma freeTables_pte (l : List Table) (s : Frames) (step : Frames → Table → Frames) (keep : ∀ s t,(step s t).pte = s.pte) : (l.foldl step s).pte = s.pte := by
  induction l generalizing s with
  | nil => rfl
  | cons t l ih => rw [foldl_cons,ih,keep]

lemma exitRangePud_pte (m i : Nat) (s : Frames) : (exitRangePud m i s).pte = s.pte :=
  freeTables_pte _ _ _ fun s _ => freeTables_pte _ s _ fun _ _ => rfl

lemma exitRangePgd_pte (m i : Nat) (s : Frames) : (exitRangePgd m i s).pte = s.pte := by
  unfold exitRangePgd
  split
  · rfl
  exact exitRangePud_pte m i s

lemma exitSlots_pte (m i n : Nat) (s : Frames) : (exitSlots m i n s).pte = s.pte := by
  induction n generalizing i s with
  | zero => rfl
  | succ n ih =>
    unfold exitSlots
    rw [ih,exitRangePgd_pte]

lemma release_pte (m : Nat) (areas : List Area) (s : Frames) : (framePager.release m areas s).pte = s.pte := by
  have ranges : (areas.foldl (fun s a => exitRange m a.start a.stop s) s).pte = s.pte := by
    induction areas generalizing s with
    | nil => rfl
    | cons a _ ih =>
      rw [foldl_cons,ih]
      exact exitSlots_pte ..
  dsimp only [framePager,putPgdir]
  split
  · exact ranges
  exact ranges

def Frames.held (s : Frames) (m p : Nat) : Prop := s.pte (m,p) ≠ none

lemma framePager_tracks : framePager.Tracks Frames.held := by
  refine ⟨fun m s j p entry => ?_,fun m start stop s j p => ?_,fun goal source start stop share s j p low high entry => ?_,fun m addr s j p entry => ?_,fun m areas s j p entry => ?_⟩
  · have eq := allocPage_pte m s
    unfold Frames.held framePager at entry
    dsimp only at entry
    split at entry <;> simp_all [Frames.held]
  · unfold Frames.held framePager
    dsimp only
    rw [unmapFrames_pte]
    unfold pgSize
    split
    next out => exact ⟨fun no => (no rfl).elim,fun both => (both.2 (by omega)).elim⟩
    next out => exact ⟨fun entry => ⟨entry,by omega⟩,fun both => both.1⟩
  · by_cases out : j = goal ∧ start / pgSize ≤ p ∧ p < start / pgSize + (stop - start) / pgSize
    · refine .inr ⟨out.1,?_⟩
      unfold pgSize at *
      omega
    left
    unfold Frames.held framePager at entry
    dsimp only at entry
    rwa [copyFrames_pte _ _ _ _ _ _ out] at entry
  · by_cases out : j = m ∧ p = addr / pgSize
    · exact .inr out
    left
    unfold Frames.held framePager at entry
    dsimp only at entry
    rwa [faultPage_pte _ _ _ _ fun eq => out (Prod.mk.inj eq)] at entry
  unfold Frames.held at entry
  rwa [release_pte] at entry

section Growing
variable {t : Frames}

lemma Sane.grow (sane : Sane live s) (law : FrameLaw none t) (tables : t.tables = ⟨m,level,index,f⟩ :: s.tables) (inside : m ∈ live)
    (new : ¬ ∃ t ∈ s.tables,t.Is m level index) (range : 1 ≤ level ∧ level ≤ 4 ∧ (level = 4 → index = 0))
    (parent : level = 1 ∨ level = 2 → ∃ u ∈ s.tables,u.Is m (level + 1) (index / 512)) : Sane live t := by
  refine ⟨law,fun t mem low => ?_,?_,fun t mem => ?_,fun t mem => ?_⟩ <;> rw [tables] at *
  · rcases mem_cons.mp mem with rfl | old
    · obtain ⟨u,there,is⟩ := parent low
      exact ⟨u,mem_cons_of_mem _ there,is⟩
    obtain ⟨u,there,is⟩ := sane.rooted t old low
    exact ⟨u,mem_cons_of_mem _ there,is⟩
  · exact pairwise_cons.mpr ⟨fun t mem is => new ⟨t,mem,is⟩,sane.keys⟩
  · rcases mem_cons.mp mem with rfl | old
    · exact range
    exact sane.levels t old
  rcases mem_cons.mp mem with rfl | old
  · exact inside
  exact sane.here t old

lemma Sane.pages (sane : Sane live s) (law : FrameLaw none t) (tables : t.tables = s.tables) : Sane live t :=
  ⟨law,tables ▸ sane.rooted,tables ▸ sane.keys,tables ▸ sane.levels,tables ▸ sane.here⟩

lemma Sane.remove (sane : Sane live s) (k : Nat × Nat) : Sane live (pageRemovePte k s) := sane.pages (sane.law.remove k) (pageRemovePte_tables k s)

lemma pageInsert_tables (k : Nat × Nat) (f : Nat) (s : Frames) : (pageInsert k f s).tables = s.tables := by
  unfold pageInsert
  split
  · rfl
  exact pageRemovePte_tables ..

structure Got (live : Finset Nat) (m level index : Nat) (s : Frames) (r : Bool × Frames) : Prop where
  sane : Sane live r.2
  ref : r.2.ref = s.ref
  found : r.1 = true → ∃ t ∈ r.2.tables,t.Is m level index

section
variable (sane : Sane live s)
include sane

lemma getTable_run (low : m ∈ live) (range : 1 ≤ level ∧ level ≤ 4 ∧ (level = 4 → index = 0))
    (parent : level = 1 ∨ level = 2 → ∃ u ∈ s.tables,u.Is m (level + 1) (index / 512)) : Got live m level index s (getTable m level index s) := by
  unfold getTable
  split
  next there => exact ⟨sane,rfl,fun _ => there⟩
  rename_i fresh
  have run := allocPage_run sane.law m
  cases step : allocPage m s with
  | mk new t =>
    rw [step] at run
    obtain ⟨law,tables,-,ref,owner⟩ := run
    cases new with
    | none => exact ⟨sane.pages law tables,ref,nofun⟩
    | some f =>
      refine ⟨?_,ref,fun _ => ⟨_,mem_cons_self,rfl,rfl,rfl⟩⟩
      refine sane.grow (f := f) (law.table (owner f rfl) level index) ?_ low fresh range parent
      exact congrArg _ tables

lemma getPte_run (low : m ∈ live) (p : Nat) : Sane live (getPte m p s).2 ∧ (getPte m p s).2.ref = s.ref := by
  have pud : Got live m 3 (p / 512 / 512 / 512) s _ := getTable_run sane low (by omega) (by omega)
  unfold getPte
  dsimp only
  split
  next yes =>
    have pmd : Got live m 2 (p / 512 / 512) _ _ := getTable_run pud.sane low (by omega) fun _ => pud.found yes
    split
    next yes =>
      have pt : Got live m 1 (p / 512) _ _ := getTable_run pmd.sane low (by omega) fun _ => pmd.found yes
      exact ⟨pt.sane,by rw [pt.ref,pmd.ref,pud.ref]⟩
    next => exact ⟨pmd.sane,by rw [pmd.ref,pud.ref]⟩
  next => exact ⟨pud.sane,pud.ref⟩

lemma faultPage_run (low : m ∈ live) (p : Nat) : Sane live (faultPage m p s) := by
  obtain ⟨sane,-⟩ := getPte_run sane low p
  obtain ⟨law,tables,-⟩ := allocPage_run sane.law m
  unfold faultPage
  dsimp only
  split
  · split
    next none => exact sane.pages (none ▸ law) tables
    next f _ some => exact sane.pages (law.insert (m,p) (.inl some)) ((pageInsert_tables ..).trans tables)
    next f _ some =>
      split
      · exact sane.pages (law.insert (m,p) (.inl some)) ((pageInsert_tables ..).trans tables)
      exact sane.pages ((some ▸ law : FrameLaw (Option.some f) _).giveBack) tables
  exact sane

lemma copyFrame_run (low : goal ∈ live) (source p : Nat) : Sane live (copyFrame goal source p s).2 := by
  obtain ⟨next,ref⟩ := getPte_run sane low p
  unfold copyFrame
  split
  · exact sane
  rename_i f entry
  dsimp only
  split
  · refine next.pages (next.law.insert (goal,p) (.inr ⟨rfl,?_⟩)) (pageInsert_tables ..)
    rw [ref]
    exact sane.law.mapped entry
  exact next

lemma copyFrames_run (low : goal ∈ live) (source p n : Nat) : Sane live (copyFrames goal source p n s).2 := by
  induction n generalizing p s with
  | zero => exact sane
  | succ n ih =>
    have first := copyFrame_run sane low source p
    unfold copyFrames
    dsimp only
    split
    · exact ih first (p + 1)
    exact first

lemma unmapFrames_run (m p n : Nat) : Sane live (unmapFrames m p n s) := by
  induction n generalizing p s with
  | zero => exact sane
  | succ n ih => exact ih (sane.remove (m,p)) (p + 1)

end

lemma PagerStep.sane (step : PagerStep framePager live s t) (sane : Sane live s) : Sane live t := by
  cases step with
  | unmap here low high => exact unmapFrames_run sane ..
  | copy here _ _ _ _ => exact copyFrames_run sane here ..
  | fault here _ => exact faultPage_run sane here _

lemma steps_sane (steps : Relation.ReflTransGen (PagerStep framePager live) s t) (sane : Sane live s) : Sane live t := by
  induction steps with
  | refl => exact sane
  | tail _ step ih => exact step.sane ih

lemma setupPgdir_run (sane : Sane live s) (fresh : m ∉ live) :
    ((framePager.setupPgdir m s).1 = true → Sane (insert m live) (framePager.setupPgdir m s).2) ∧
      ((framePager.setupPgdir m s).1 = false → Sane live (framePager.setupPgdir m s).2) := by
  have run := allocPage_run sane.law m
  unfold framePager
  dsimp only
  cases step : allocPage m s with
  | mk new t =>
    rw [step] at run
    obtain ⟨law,tables,-,-,owner⟩ := run
    cases new with
    | none => exact ⟨nofun,fun _ => sane.pages law tables⟩
    | some f =>
      refine ⟨fun _ => ?_,nofun⟩
      have wider : Sane (insert m live) s := {sane with here:=fun t mem => Finset.mem_insert_of_mem (sane.here t mem)}
      refine wider.grow (f := f) (law.table (owner f rfl) 4 0) (congrArg _ tables) (Finset.mem_insert_self ..) ?_ (by omega) (by omega)
      rintro ⟨t,mem,rfl,-⟩
      exact fresh (sane.here t mem)

end Growing

section Releasing
variable {t u : Frames}

structure Cleared (p : Table → Prop) (s t : Frames) : Prop where
  law : FrameLaw none t
  tables : ∀ x,x ∈ t.tables ↔ x ∈ s.tables ∧ ¬ p x
  order : t.tables.Sublist s.tables

lemma Cleared.refl (law : FrameLaw none s) (none : ∀ x ∈ s.tables,¬ p x) : Cleared p s s :=
  ⟨law,fun x => ⟨fun mem => ⟨mem,none x mem⟩,fun both => both.1⟩,.refl _⟩

lemma Cleared.trans (one : Cleared p s t) (two : Cleared q t u) : Cleared (fun x => p x ∨ q x) s u where
  law := two.law
  tables x := by rw [two.tables,one.tables,and_assoc,not_or]
  order := two.order.trans one.order

lemma Cleared.congr (cleared : Cleared p s t) (eq : ∀ x ∈ s.tables,(p x ↔ q x)) : Cleared q s t where
  law := cleared.law
  tables x := (cleared.tables x).trans (and_congr_right fun mem => not_congr (eq x mem))
  order := cleared.order

lemma FrameLaw.nodup (law : FrameLaw loose s) : s.tables.Nodup := List.Nodup.of_map _ law.frames

lemma freeTable_run (law : FrameLaw none s) (mem : x ∈ s.tables) : Cleared (fun y => y = x) s (freeTable x s) := by
  have nodup := law.nodup
  have busy : s.busy x.frame = true := (law.busy _).mpr (.inl ⟨x,mem,rfl⟩)
  have left : ∀ y,y ∈ s.tables.erase x ↔ y ∈ s.tables ∧ ¬ y = x := fun y => by rw [nodup.mem_erase_iff]; tauto
  have ne : ∀ y ∈ s.tables.erase x,y.frame ≠ x.frame := fun y low same => by
    obtain ⟨there,differ⟩ := (left y).mp low
    exact differ (inj_on_of_nodup_map law.frames there mem same)
  refine ⟨⟨law.finite,law.count,law.frames.sublist (erase_sublist.map _),fun y low => law.apart y ((left y).mp low).1,fun g => ?_,nofun,
    fun y low => law.owner y ((left y).mp low).1,?_⟩,left,erase_sublist⟩
  · dsimp only [freeTable,freePage]
    rcases eq_or_ne g x.frame with rfl | differ
    · simp only [update_self,Bool.false_eq_true,false_iff]
      rintro (⟨y,low,same⟩ | _ | same)
      · exact ne y low same
      · have := law.apart x mem
        omega
      cases same
    rw [update_of_ne differ,law.busy]
    refine or_congr_left ⟨fun ⟨y,low,same⟩ => ⟨y,(left y).mpr ⟨low,fun eq => differ (by rw [← same,eq])⟩,same⟩,fun ⟨y,low,same⟩ => ⟨y,((left y).mp low).1,same⟩⟩
  dsimp only [freeTable,freePage]
  rw [law.once,busy]
  rfl

lemma free_each {p : Table → Table → Prop} (law : FrameLaw none s) (step : Frames → Table → Frames) (l : List Table) (members : ∀ x ∈ l,x ∈ s.tables) (nodup : l.Nodup)
    (keep : ∀ x ∈ l,∀ y ∈ l,p x y → x = y) (clear : ∀ x ∈ l,∀ u,FrameLaw none u → x ∈ u.tables → Cleared (p x) u (step u x)) :
    Cleared (fun y => ∃ x ∈ l,p x y) s (l.foldl step s) := by
  induction l generalizing s with
  | nil => exact .refl law fun _ _ ⟨_,no,_⟩ => absurd no not_mem_nil
  | cons x l ih =>
    obtain ⟨new,nodup⟩ := nodup_cons.mp nodup
    have one := clear x mem_cons_self s law (members x mem_cons_self)
    have tail : ∀ y ∈ l,y ∈ x :: l := fun y low => mem_cons_of_mem _ low
    have rest := ih one.law (fun y low => (one.tables y).mpr ⟨members y (tail y low),fun hit => ?_⟩) nodup
      (fun y low z inside' => keep y (tail y low) z (tail z inside')) fun y low => clear y (tail y low)
    · exact (one.trans rest).congr fun y _ => by simp
    exact new (keep x mem_cons_self y (tail y low) hit ▸ low)

lemma exitRangePmd_run (law : FrameLaw none s) (m j : Nat) : Cleared (fun t => t.mm = m ∧ t.level = 1 ∧ t.index / 512 = j) s (exitRangePmd m j s) := by
  have all := free_each (p := fun x y => y = x) law (fun s t => freeTable t s) (s.tables.filter fun t => t.mm = m ∧ t.level = 1 ∧ t.index / 512 = j)
    (fun x low => (mem_filter.mp low).1) (law.nodup.filter _) (fun x _ y _ eq => eq.symm) fun x _ u law low => freeTable_run law low
  refine all.congr fun y mem => ?_
  simp [mem]

def Below (m i : Nat) (t : Table) : Prop := t.mm = m ∧ (t.level = 2 ∧ t.index / 512 = i ∨ t.level = 1 ∧ t.index / 512 / 512 = i)

lemma exitRangePud_run (sane : Sane live s) (m i : Nat) : Cleared (Below m i) s (exitRangePud m i s) := by
  have all := free_each (p := fun x y => y = x ∨ y.mm = m ∧ y.level = 1 ∧ y.index / 512 = x.index) sane.law (fun s t => freeTable t (exitRangePmd m t.index s))
    (s.tables.filter fun t => t.mm = m ∧ t.level = 2 ∧ t.index / 512 = i) (fun x inside => (mem_filter.mp inside).1) (sane.law.nodup.filter _)
    (fun x _ y inside hit => ?_) fun x inside u law mem => ?_
  · refine all.congr fun y mem => ?_
    simp only [mem_filter,decide_eq_true_eq,Below]
    constructor
    · rintro ⟨x,⟨there,rfl,level,slot⟩,rfl | ⟨eq,low,hang⟩⟩
      · exact ⟨rfl,.inl ⟨level,slot⟩⟩
      exact ⟨eq,.inr ⟨low,by rw [hang]; exact slot⟩⟩
    rintro ⟨rfl,⟨level,slot⟩ | ⟨level,slot⟩⟩
    · exact ⟨y,⟨mem,rfl,level,slot⟩,.inl rfl⟩
    obtain ⟨x,there,mm,_,index⟩ := sane.rooted y mem (.inl level)
    refine ⟨x,⟨there,mm,by omega,by rw [index]; exact slot⟩,.inr ⟨rfl,level,index.symm⟩⟩
  · rcases hit with eq | ⟨-,low,-⟩
    · exact eq.symm
    simp only [mem_filter,decide_eq_true_eq] at inside
    omega
  simp only [mem_filter,decide_eq_true_eq] at inside
  have one := exitRangePmd_run law m x.index
  have two := freeTable_run one.law ((one.tables x).mpr ⟨mem,fun low => by omega⟩)
  exact (one.trans two).congr fun y _ => or_comm

def InSlot (m i : Nat) (t : Table) : Prop := t.mm = m ∧ (t.level = 3 ∧ t.index = i ∨ t.level = 2 ∧ t.index / 512 = i ∨ t.level = 1 ∧ t.index / 512 / 512 = i)

lemma Sane.unique (sane : Sane live s) (one : x ∈ s.tables) (two : y ∈ s.tables) (same : y.Is x.mm x.level x.index) : x = y := by
  by_contra differ
  have keys : s.tables.Pairwise fun t u => ¬ (t.mm = u.mm ∧ t.level = u.level ∧ t.index = u.index) := sane.keys.imp fun ne eq => ne ⟨eq.1.symm,eq.2.1.symm,eq.2.2.symm⟩
  have symm : Std.Symm fun t u : Table => ¬ (t.mm = u.mm ∧ t.level = u.level ∧ t.index = u.index) := ⟨fun _ _ ne eq => ne ⟨eq.1.symm,eq.2.1.symm,eq.2.2.symm⟩⟩
  exact keys.forall one two differ ⟨same.1.symm,same.2.1.symm,same.2.2.symm⟩

lemma exitRangePgd_run (sane : Sane live s) (m i : Nat) : Cleared (InSlot m i) s (exitRangePgd m i s) := by
  unfold exitRangePgd
  cases got : s.tables.find? fun t => t.Is m 3 i with
  | none =>
    have missing : ∀ x ∈ s.tables,¬ x.Is m 3 i := fun x mem => by simpa using List.find?_eq_none.mp got x mem
    refine .refl sane.law fun x mem => ?_
    rintro ⟨rfl,⟨level,index⟩ | ⟨level,slot⟩ | ⟨level,slot⟩⟩
    · exact missing x mem ⟨rfl,level,index⟩
    · obtain ⟨y,there,mm,up,index⟩ := sane.rooted x mem (.inr level)
      exact missing y there ⟨mm,by omega,by omega⟩
    obtain ⟨y,there,mm,_,index⟩ := sane.rooted x mem (.inl level)
    obtain ⟨z,there',mm',_,index'⟩ := sane.rooted y there (.inr (by omega))
    exact missing z there' ⟨mm'.trans mm,by omega,by rw [index',index]; exact slot⟩
  | some x =>
    have mem := List.mem_of_find?_eq_some got
    have is : x.Is m 3 i := by
      have on := List.find?_some got
      simpa using on
    have one := exitRangePud_run sane m i
    have two := freeTable_run one.law ((one.tables x).mpr ⟨mem,fun low => by unfold Below at low; have := is.2.1; omega⟩)
    refine (one.trans two).congr fun y there => ?_
    unfold Below InSlot
    constructor
    · rintro (⟨mm,low⟩ | rfl)
      · exact ⟨mm,.inr low⟩
      exact ⟨is.1,.inl is.2⟩
    rintro ⟨mm,top | low⟩
    · exact .inr (sane.unique there mem ⟨by rw [is.1,mm],by rw [is.2.1,top.1],by rw [is.2.2,top.2]⟩)
    exact .inl ⟨mm,low⟩

-- Slots are cleared whole, so what is left still hangs together.
lemma Cleared.sane (cleared : Cleared (InSlot m i) s t) (sane : Sane live s) : Sane live t where
  law := cleared.law
  rooted x mem low := by
    obtain ⟨old,out⟩ := (cleared.tables x).mp mem
    obtain ⟨y,there,mm,up,index⟩ := sane.rooted x old low
    refine ⟨y,(cleared.tables y).mpr ⟨there,fun hit => out ?_⟩,mm,up,index⟩
    obtain ⟨mine,slot⟩ := hit
    refine ⟨mm.symm.trans mine,?_⟩
    rw [index] at slot
    rcases low with low | low
    · exact .inr (.inr ⟨low,by omega⟩)
    exact .inr (.inl ⟨low,by omega⟩)
  keys := sane.keys.sublist cleared.order
  levels x mem := sane.levels x ((cleared.tables x).mp mem).1
  here x mem := sane.here x ((cleared.tables x).mp mem).1

lemma exitSlots_run (sane : Sane live s) (m i n : Nat) : Cleared (fun t => ∃ j,i ≤ j ∧ j < i + n ∧ InSlot m j t) s (exitSlots m i n s) ∧ Sane live (exitSlots m i n s) := by
  induction n generalizing i s with
  | zero => exact ⟨.refl sane.law fun _ _ ⟨_,low,high,_⟩ => by omega,sane⟩
  | succ n ih =>
    have one := exitRangePgd_run sane m i
    obtain ⟨rest,last⟩ := ih (one.sane sane) (i + 1)
    refine ⟨(one.trans rest).congr fun y _ => ⟨?_,?_⟩,last⟩
    · rintro (hit | ⟨j,low,high,hit⟩)
      · exact ⟨i,by omega,by omega,hit⟩
      exact ⟨j,by omega,by omega,hit⟩
    rintro ⟨j,_,_,hit⟩
    rcases eq_or_ne j i with rfl | _
    · exact .inl hit
    exact .inr ⟨j,by omega,by omega,hit⟩

def Area.Slot (a : Area) (j : Nat) : Prop := a.start / puSize ≤ j ∧ j * puSize < a.stop

lemma exitAreas_run (sane : Sane live s) (m : Nat) (areas : List Area) :
    Cleared (fun t => ∃ a ∈ areas,∃ j,a.Slot j ∧ InSlot m j t) s (areas.foldl (fun s a => exitRange m a.start a.stop s) s) ∧
      Sane live (areas.foldl (fun s a => exitRange m a.start a.stop s) s) := by
  induction areas generalizing s with
  | nil => exact ⟨.refl sane.law fun _ _ ⟨_,no,_⟩ => absurd no not_mem_nil,sane⟩
  | cons a _ ih =>
    obtain ⟨one,next⟩ := exitSlots_run sane m (a.start / puSize) ((a.stop + (puSize - 1)) / puSize - a.start / puSize)
    obtain ⟨rest,last⟩ := ih next
    refine ⟨(one.trans rest).congr fun y _ => ?_,last⟩
    have range : ∀ j,(a.start / puSize ≤ j ∧ j < a.start / puSize + ((a.stop + (puSize - 1)) / puSize - a.start / puSize)) ↔ a.Slot j := fun j => by
      unfold Area.Slot puSize
      omega
    simp only [exists_mem_cons_iff,← range,and_assoc]

instance (a : Area) (j : Nat) : Decidable (a.Slot j) := by unfold Area.Slot; infer_instance

def Table.slot (t : Table) : Nat := if t.level = 3 then t.index else if t.level = 2 then t.index / 512 else t.index / 512 / 512

def Ready (m : Nat) (areas : List Area) (s : Frames) : Prop := ∀ t ∈ s.tables,t.mm = m → t.level ≤ 3 → ∃ a ∈ areas,a.Slot t.slot

instance (m : Nat) (areas : List Area) (s : Frames) : Decidable (Ready m areas s) := by unfold Ready; infer_instance

lemma release_run (sane : Sane live s) (m : Nat) (areas : List Area) (ready : Ready m areas s) :
    Sane (live.erase m) (framePager.release m areas s) := by
  obtain ⟨cleared,next⟩ := exitAreas_run sane m areas
  have left : ∀ x ∈ (areas.foldl (fun s a => exitRange m a.start a.stop s) s).tables,x.mm = m → x.level = 4 ∧ x.index = 0 := fun x mem mine => by
    obtain ⟨old,out⟩ := (cleared.tables x).mp mem
    obtain ⟨low,_,top⟩ := sane.levels x old
    by_cases four : x.level = 4
    · exact ⟨four,top four⟩
    have hit : InSlot m x.slot x := by
      unfold InSlot Table.slot
      rcases (by omega : x.level = 1 ∨ x.level = 2 ∨ x.level = 3) with level | level | level <;> simp [mine,level]
    obtain ⟨a,inside,slot⟩ := ready x old mine (by omega)
    exact (out ⟨a,inside,_,slot,hit⟩).elim
  have done : ∀ t : Frames,Cleared (fun x => x.Is m 4 0) (areas.foldl (fun s a => exitRange m a.start a.stop s) s) t → Sane (live.erase m) t := fun t last => by
    have rest : ∀ x ∈ t.tables,x.mm ≠ m := fun x mem mine => by
      obtain ⟨old,out⟩ := (last.tables x).mp mem
      obtain ⟨level,index⟩ := left x old mine
      exact out ⟨mine,level,index⟩
    refine ⟨last.law,fun x mem low => ?_,next.keys.sublist last.order,fun x mem => next.levels x ((last.tables x).mp mem).1,fun x mem => ?_⟩
    · obtain ⟨y,there,mm,up,index⟩ := next.rooted x ((last.tables x).mp mem).1 low
      exact ⟨y,(last.tables y).mpr ⟨there,fun is => rest x mem (mm.symm.trans is.1)⟩,mm,up,index⟩
    exact Finset.mem_erase.mpr ⟨rest x mem,next.here x ((last.tables x).mp mem).1⟩
  dsimp only [framePager,putPgdir]
  split
  next got =>
    have missing : ∀ x ∈ (areas.foldl (fun s a => exitRange m a.start a.stop s) s).tables,¬ x.Is m 4 0 := fun x mem => by simpa using List.find?_eq_none.mp got x mem
    exact done _ (.refl next.law missing)
  rename_i x got
  have mem := List.mem_of_find?_eq_some got
  have on := List.find?_some got
  have is : x.Is m 4 0 := by simpa using on
  refine done _ ((freeTable_run next.law mem).congr fun y there => ⟨fun eq => eq ▸ is,fun is' => ?_⟩)
  exact next.unique there mem ⟨is.1.trans is'.1.symm,is.2.1.trans is'.2.1.symm,is.2.2.trans is'.2.2.symm⟩

end Releasing

def Event.Private : Event → Prop
  | .mapShmem _ _ _ _ => False
  | _ => True

def Event.Covered (w : World Frames) : Event → Prop
  | .destroy m => Ready m (w.areas m) w.tables
  | _ => True

instance (e : Event) : Decidable e.Private := by cases_type Event <;> unfold Event.Private <;> infer_instance
instance (w : World Frames) (e : Event) : Decidable (e.Covered w) := by cases_type Event <;> unfold Event.Covered <;> infer_instance

def noFrames (script : Nat → Option Nat) : Frames := ⟨[],fun _ => none,fun _ => 0,fun _ => false,script,0,fun _ => 0,false⟩

section Runs
variable {w t : World Frames}

lemma noFrames_sane (script : Nat → Option Nat) : Sane ∅ (noFrames script) := by
  refine ⟨⟨fun f => ?_,fun f => ?_,.nil,nofun,fun f => ?_,nofun,nofun,rfl⟩,nofun,.nil,nofun,nofun⟩
  · simp [noFrames]
  · exact (tally_zero (f := fun _ : Nat × Nat => (none : Option Nat)) fun _ => nofun).symm
  simp [noFrames]

lemma unmap_all (live : Finset Nat) (m : Nat) (l : List Area) (s : Frames) (sane : Sane live s) :
    Sane live (l.foldl (fun s a => framePager.unmapRange m a.start a.stop s) s) ∧ (l.foldl (fun s a => framePager.unmapRange m a.start a.stop s) s).tables = s.tables := by
  have tables : ∀ p n s,(unmapFrames m p n s).tables = s.tables := fun p n => by
    induction n generalizing p with
    | zero => exact fun _ => rfl
    | succ n ih =>
      intro s
      unfold unmapFrames
      rw [ih,pageRemovePte_tables]
  induction l generalizing s with
  | nil => exact ⟨sane,rfl⟩
  | cons a l ih =>
    obtain ⟨last,eq⟩ := ih _ (unmapFrames_run sane m _ _)
    exact ⟨last,eq.trans (tables _ _ _)⟩

lemma Moves.sane (tidy : Tidy Frames.held w) (sane : Sane w.live w.tables) (move : Moves framePager w e t) (covered : e.Covered w) : Sane t.live t.tables := by
  obtain ⟨may,ran⟩ := move
  by_cases inner : e.Inner
  · have run := e.inner_run framePager_tracks tidy may inner
    have paged : Paged framePager Frames.held (e.Whole w) w t := by rcases ran with ran | ⟨x,ran⟩ <;> rw [ran] at run <;> exact run
    rw [paged.live]
    exact steps_sane paged.steps sane
  cases e with
  | mmCreate m =>
    obtain ⟨made,bad⟩ := setupPgdir_run sane may
    simp only [Event.act,mmCreate,rules,setupPgdir,ite_run] at ran
    cases yes : (framePager.setupPgdir m w.tables).1 with
    | true =>
      rw [if_pos yes] at ran
      rcases ran with ran | ⟨x,ran⟩
      · injection ran with _ eq
        rw [← eq]
        exact made yes
      cases ran
    | false =>
      rw [if_neg (by simp [yes])] at ran
      rcases ran with ran | ⟨x,ran⟩
      · cases ran
      injection ran with _ eq
      rw [← eq]
      exact bad yes
  | destroy m =>
    have run := exit_run framePager_tracks tidy may
    obtain ⟨emptied,tables⟩ := unmap_all w.live m (w.areas m) w.tables sane
    rcases ran with ran | ⟨x,ran⟩ <;> rw [show Event.act framePager (.destroy m) w = (do exitMmap framePager m; mmDestroy m : Act Frames Unit) w from rfl] at ran <;> rw [ran] at run
    · obtain ⟨-,live,new⟩ := run
      rw [live,new]
      exact release_run emptied m (w.areas m) fun x mem => covered x (tables ▸ mem)
    exact run.elim
  | _ => exact (inner trivial).elim

lemma Moves.sane_run (path : Path (fun w e t => Moves framePager w e t ∧ e.Private ∧ e.Covered w) (boot grants (noFrames script)) events t) : Tidy Frames.held t ∧ Sane t.live t.tables := by
  have keeps (u e x) (good : Tidy Frames.held u ∧ Sane u.live u.tables) (move : Moves framePager u e x ∧ e.Private ∧ e.Covered u) :
      Tidy Frames.held x ∧ Sane x.live x.tables :=
    ⟨(move.1.kept framePager_tracks good.1).tidy,move.1.sane good.1 good.2 move.2.2⟩
  have both := path.invariant keeps ⟨boot_tidy grants fun _ _ entry => entry rfl,noFrames_sane script⟩
  exact both

end Runs

theorem teardown_complete (grants : Nat → Bool) (script : Nat → Option Nat) (events : List Event) (t : World Frames)
    (path : Path (fun w e t => Moves framePager w e t ∧ e.Private ∧ e.Covered w) (boot grants (noFrames script)) events t) :
    t.tables.twice = false ∧ ∀ m ∉ t.live,∀ f,t.tables.busy f = true → t.tables.owner f = m → ∃ j p,j ≠ m ∧ t.tables.pte (j,p) = some f := by
  obtain ⟨tidy,sane⟩ := Moves.sane_run path
  refine ⟨sane.law.once,fun m gone f busy own => ?_⟩
  rcases (sane.law.busy f).mp busy with ⟨x,member,rfl⟩ | used | no
  · have := sane.here x member
    rw [← sane.law.owner x member,own] at this
    exact (gone this).elim
  · rw [sane.law.count] at used
    obtain ⟨k,entry⟩ : ∃ k,t.tables.pte k = some f := by
      by_contra none
      rw [tally_zero fun k entry => none ⟨k,entry⟩] at used
      omega
    refine ⟨k.1,k.2,fun same => ?_,entry⟩
    obtain ⟨a,member,-⟩ := tidy.inside k.1 k.2 (by unfold Frames.held; rw [entry]; nofun)
    rw [same,tidy.gone m gone] at member
    cases member
  · cases no

-- A fork, a copy on write in the child, and both end: the nine frames are free.
theorem teardown_complete_fork : ∃ events t,Path (fun w e t => Moves framePager w e t ∧ e.Private ∧ e.Covered w) (boot (fun _ => true) (noFrames fun n => some n)) events t ∧
    t.tables.twice = false ∧ t.live = ∅ ∧ ∀ f < 12,t.tables.busy f = false := by
  have ran : (runs framePager (fun w e => e.Private ∧ e.Covered w) (boot (fun _ => true) (noFrames fun n => some n))
      [.mmCreate 0,.map 0 0x1000000 0x1000 3,.fault 0 0x1000000,.mmCreate 1,.dup 1 0,.fault 1 0x1000000,.destroy 0,.destroy 1]).map
      (fun t => (decide (t.live = ∅),(List.range 12).all fun f => !t.tables.busy f)) = some (true,true) := by decide +kernel
  obtain ⟨t,ran,same⟩ := Option.map_eq_some_iff.mp ran
  obtain ⟨live,free⟩ := Prod.mk.injEq .. ▸ same
  have path := runs_path ran
  exact ⟨_,t,path,(teardown_complete _ _ _ t path).1,of_decide_eq_true live,fun f low => by simpa using all_eq_true.mp free f (mem_range.mpr low)⟩

-- The only area is unmapped before the exit: its three page tables stay.
theorem unmapped_tables_leak : ∃ w t : World Frames,(∃ events,Path (fun w e t => Moves framePager w e t ∧ e.Private ∧ e.Covered w) (boot (fun _ => true) (noFrames fun n => some n)) events w) ∧
    Moves framePager w (.destroy 0) t ∧ 0 ∉ t.live ∧ t.tables.pte (0,0x1000) = none ∧ ∀ f,1 ≤ f → f ≤ 3 → t.tables.busy f = true ∧ t.tables.owner f = 0 ∧ t.tables.ref f = 0 := by
  have ran : (runs framePager (fun w e => e.Private ∧ e.Covered w) (boot (fun _ => true) (noFrames fun n => some n))
      [.mmCreate 0,.map 0 0x1000000 0x1000 3,.fault 0 0x1000000,.unmap 0 0x1000000 0x1000]).map (fun w =>
      decide ((Event.destroy 0).Enabled w) && match (Event.destroy 0).act framePager w with
        | .ok _ t => decide (0 ∉ t.live) && decide (t.tables.pte (0,0x1000) = none) &&
          [1,2,3].all fun f => t.tables.busy f && decide (t.tables.owner f = 0) && decide (t.tables.ref f = 0)
        | .err .. => false
        | .fault .. => false) = some true := by decide +kernel
  obtain ⟨w,ran,fine⟩ := Option.map_eq_some_iff.mp ran
  obtain ⟨enabled,fine⟩ := (Bool.and_eq_true _ _).mp fine
  cases step : (Event.destroy 0).act framePager w with
  | ok u t =>
    rw [step] at fine
    simp only [Bool.and_eq_true,decide_eq_true_eq,all_eq_true] at fine
    refine ⟨w,t,⟨_,runs_path ran⟩,⟨of_decide_eq_true enabled,.inl step⟩,fine.1.1,fine.1.2,fun f low high => ?_⟩
    have member : f ∈ [1,2,3] := by simp only [mem_cons,not_mem_nil,or_false]; omega
    exact and_assoc.mp (fine.2 f member)
  | err x t =>
    rw [step] at fine
    cases fine
  | fault x =>
    rw [step] at fine
    cases fine

end Ucore.Vmm
