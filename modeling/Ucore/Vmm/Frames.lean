import Ucore.Lib.Tally
import Ucore.Vmm.Shared

-- Page frames behind the page tables: the table pages of every level, the user
-- pages with their reference counts, and who gives which of them back. Private
-- mappings without swap.
namespace Ucore.Vmm
open Tally
open Function (update update_comm update_eq_iff update_idem update_of_ne update_self)

-- A page of page-table entries. Level 4 is the page directory, and the table
-- of page p at level n has index p / 512^n.
structure Table where
  mm : Nat
  level : Nat
  index : Nat
  frame : Nat
  deriving DecidableEq

structure Frames where
  tables : List Table
  pte : Nat × Nat → Option Nat
  ref : Nat → Nat
  busy : Nat → Bool
  -- What alloc_page will find.
  script : Nat → Option Nat
  tick : Nat
  -- History the code does not keep: for which mm a frame was last allocated,
  -- and whether a free frame was freed.
  owner : Nat → Nat
  twice : Bool

def allocPage (m : Nat) (s : Frames) : Option Nat × Frames :=
  match (s.script s.tick).filter fun f => !s.busy f with
  | some f => (some f,{s with busy:=update s.busy f true,owner:=update s.owner f m,tick:=s.tick + 1})
  | none => (none,{s with tick:=s.tick + 1})

def freePage (f : Nat) (s : Frames) : Frames := {s with busy:=update s.busy f false,twice:=s.twice || !s.busy f}

def Table.Is (m level index : Nat) (t : Table) : Prop := t.mm = m ∧ t.level = level ∧ t.index = index

instance (m level index : Nat) (t : Table) : Decidable (t.Is m level index) := by unfold Table.Is; infer_instance

def getTable (m level index : Nat) (s : Frames) : Bool × Frames :=
  if ∃ t ∈ s.tables,t.Is m level index then (true,s)
  else match allocPage m s with
    | (some f,s) => (true,{s with tables:=⟨m,level,index,f⟩ :: s.tables})
    | (none,s) => (false,s)

def getPte (m p : Nat) (s : Frames) : Bool × Frames :=
  let pud := getTable m 3 (p / 512 / 512 / 512) s
  if pud.1 then
    let pmd := getTable m 2 (p / 512 / 512) pud.2
    if pmd.1 then getTable m 1 (p / 512) pmd.2 else pmd
  else pud

def dropRef (f : Nat) (s : Frames) : Frames :=
  if s.ref f - 1 = 0 then {freePage f s with ref:=update s.ref f (s.ref f - 1)} else {s with ref:=update s.ref f (s.ref f - 1)}

def pageRemovePte (k : Nat × Nat) (s : Frames) : Frames :=
  match s.pte k with
  | none => s
  | some f => {dropRef f s with pte:=update s.pte k none}

def pageInsert (k : Nat × Nat) (f : Nat) (s : Frames) : Frames :=
  if s.pte k = some f then s
  else
    let s := pageRemovePte k {s with ref:=update s.ref f (s.ref f + 1)}
    {s with pte:=update s.pte k (some f)}

-- do_pgfault: a new page for an empty entry, and for a present one a copy
-- unless it is the only one.
def faultPage (m p : Nat) (s : Frames) : Frames :=
  let r := getPte m p s
  if r.1 then
    let new := allocPage m r.2
    match new.2.pte (m,p),new.1 with
    | _,none => new.2
    | none,some f => pageInsert (m,p) f new.2
    | some old,some f => if 1 < new.2.ref old then pageInsert (m,p) f new.2 else freePage f new.2
  else r.2

def copyFrame (target source p : Nat) (s : Frames) : Bool × Frames :=
  match s.pte (source,p) with
  | none => (true,s)
  | some f =>
    let r := getPte target p s
    if r.1 then (true,pageInsert (target,p) f r.2) else r

def copyFrames (target source p : Nat) : Nat → Frames → Bool × Frames
  | 0,s => (true,s)
  | n + 1,s =>
    let r := copyFrame target source p s
    if r.1 then copyFrames target source (p + 1) n r.2 else r

def unmapFrames (m p : Nat) : Nat → Frames → Frames
  | 0,s => s
  | n + 1,s => unmapFrames m (p + 1) n (pageRemovePte (m,p) s)

def freeTable (t : Table) (s : Frames) : Frames := {freePage t.frame s with tables:=s.tables.erase t}

def exitRangePmd (m j : Nat) (s : Frames) : Frames :=
  (s.tables.filter fun t => t.mm = m ∧ t.level = 1 ∧ t.index / 512 = j).foldl (fun s t => freeTable t s) s

def exitRangePud (m i : Nat) (s : Frames) : Frames :=
  (s.tables.filter fun t => t.mm = m ∧ t.level = 2 ∧ t.index / 512 = i).foldl (fun s t => freeTable t (exitRangePmd m t.index s)) s

def exitRangePgd (m i : Nat) (s : Frames) : Frames :=
  match s.tables.find? fun t => t.Is m 3 i with
  | none => s
  | some t => freeTable t (exitRangePud m i s)

def exitSlots (m i : Nat) : Nat → Frames → Frames
  | 0,s => s
  | n + 1,s => exitSlots m (i + 1) n (exitRangePgd m i s)

abbrev puSize : Nat := 0x8000000000

def exitRange (m start stop : Nat) (s : Frames) : Frames := exitSlots m (start / puSize) ((stop + (puSize - 1)) / puSize - start / puSize) s

def putPgdir (m : Nat) (s : Frames) : Frames :=
  match s.tables.find? fun t => t.Is m 4 0 with
  | none => s
  | some t => freeTable t s

def framePager : Pager Frames where
  setupPgdir m s := match allocPage m s with
    | (some f,s) => (true,{s with tables:=⟨m,4,0,f⟩ :: s.tables})
    | (none,s) => (false,s)
  unmapRange m start stop s := unmapFrames m ((start + (pgSize - 1)) / pgSize) ((stop + (pgSize - 1)) / pgSize - (start + (pgSize - 1)) / pgSize) s
  copyRange target source start stop _ s := copyFrames target source (start / pgSize) ((stop - start) / pgSize) s
  fault m addr s := faultPage m (addr / pgSize) s
  release m areas s := putPgdir m (areas.foldl (fun s a => exitRange m a.start a.stop s) s)

structure FrameLaw (loose : Option Nat) (s : Frames) : Prop where
  finite : ∀ f,{k | s.pte k = some f}.Finite
  count : ∀ f,s.ref f = tally s.pte fun e => e = some f
  frames : (s.tables.map Table.frame).Nodup
  apart : ∀ t ∈ s.tables,s.ref t.frame = 0
  busy : ∀ f,s.busy f = true ↔ (∃ t ∈ s.tables,t.frame = f) ∨ 0 < s.ref f ∨ loose = some f
  spare : ∀ f,loose = some f → (∀ t ∈ s.tables,t.frame ≠ f) ∧ s.ref f = 0
  owner : ∀ t ∈ s.tables,s.owner t.frame = t.mm
  once : s.twice = false

section Pages
variable {s : Frames} {loose : Option Nat} {k : Nat × Nat} {f m : Nat}

section
variable (law : FrameLaw loose s)
include law

lemma FrameLaw.mapped (entry : s.pte k = some f) : 0 < s.ref f := by
  rw [law.count]
  exact tally_pos (law.finite f) entry

lemma FrameLaw.page (used : 0 < s.ref f) : (∀ t ∈ s.tables,t.frame ≠ f) ∧ loose ≠ some f :=
  ⟨fun t mem eq => by have := law.apart t mem; rw [eq] at this; omega,fun eq => by have := (law.spare f eq).2; omega⟩

lemma count_update (k : Nat × Nat) (e : Option Nat) (g : Nat) :
    tally (update s.pte k e) (fun e => e = some g) + one (s.pte k = some g) = s.ref g + one (e = some g) := by
  rw [law.count]
  exact tally_update (law.finite g) k e

lemma FrameLaw.remove (k : Nat × Nat) : FrameLaw loose (pageRemovePte k s) := by
  unfold pageRemovePte
  cases entry : s.pte k with
  | none => exact law
  | some f =>
    have used := law.mapped entry
    obtain ⟨clear,tight⟩ := law.page used
    have busy : s.busy f = true := (law.busy f).mpr (.inr (.inl used))
    have finite : ∀ g,{j | update s.pte k none j = some g}.Finite := fun g => update_finite (q := fun e => e = some g) (law.finite g) k none
    have count : ∀ g,update s.ref f (s.ref f - 1) g = tally (update s.pte k none) fun e => e = some g := fun g => by
      have := count_update law k none g
      rw [one_neg (p := none = some g) nofun] at this
      rcases eq_or_ne g f with rfl | differ
      · rw [update_self]
        rw [one_pos entry] at this
        omega
      rw [update_of_ne differ]
      rw [one_neg (by rw [entry]; simpa using differ.symm)] at this
      omega
    have ne : ∀ t ∈ s.tables,update s.ref f (s.ref f - 1) t.frame = 0 := fun t mem => by
      rw [update_of_ne (clear t mem)]
      exact law.apart t mem
    have spare : ∀ g,loose = some g → (∀ t ∈ s.tables,t.frame ≠ g) ∧ update s.ref f (s.ref f - 1) g = 0 := fun g same => by
      refine ⟨(law.spare g same).1,?_⟩
      have differ : g ≠ f := fun eq => tight (eq ▸ same)
      rw [update_of_ne differ]
      exact (law.spare g same).2
    dsimp only [dropRef]
    split
    next _ =>
      refine ⟨finite,count,law.frames,ne,fun g => ?_,spare,law.owner,?_⟩
      · dsimp only [freePage]
        rcases eq_or_ne g f with rfl | differ
        · simp only [update_self,Bool.false_eq_true,false_iff]
          rintro (⟨t,mem,same⟩ | more | same)
          · exact clear t mem same
          · omega
          exact tight same
        rw [update_of_ne differ,update_of_ne differ]
        exact law.busy g
      dsimp only [freePage]
      rw [law.once,busy]
      rfl
    refine ⟨finite,count,law.frames,ne,fun g => ?_,spare,law.owner,law.once⟩
    dsimp only
    rcases eq_or_ne g f with rfl | differ
    · rw [update_self]
      exact ⟨fun _ => .inr (.inl (by omega)),fun _ => busy⟩
    rw [update_of_ne differ]
    exact law.busy g

end

def addPage (k : Nat × Nat) (f : Nat) (s : Frames) : Frames := {s with ref:=update s.ref f (s.ref f + 1),pte:=update s.pte k (some f)}

lemma pageInsert_eq (differ : s.pte k ≠ some f) : pageInsert k f s = addPage k f (pageRemovePte k s) := by
  unfold pageInsert
  rw [if_neg differ]
  unfold pageRemovePte addPage
  cases entry : s.pte k with
  | none => rfl
  | some g =>
    have apart : g ≠ f := fun eq => differ (by rw [entry,eq])
    have ne : update s.ref f (s.ref f + 1) g = s.ref g := update_of_ne apart ..
    simp only [dropRef,ne]
    split <;> simp only [freePage,update_of_ne apart.symm,update_comm apart,update_idem]

lemma pageRemovePte_pte (k : Nat × Nat) (s : Frames) : (pageRemovePte k s).pte = update s.pte k none := by
  unfold pageRemovePte
  cases entry : s.pte k with
  | none => exact (update_eq_iff.mpr ⟨entry.symm,fun _ _ => rfl⟩).symm
  | some f => rfl

lemma pageRemovePte_ref (differ : s.pte k ≠ some f) : (pageRemovePte k s).ref f = s.ref f := by
  unfold pageRemovePte
  cases entry : s.pte k with
  | none => rfl
  | some g =>
    have ne : f ≠ g := fun eq => differ (by rw [entry,eq])
    dsimp only [dropRef]
    split <;> exact update_of_ne ne ..

lemma pageRemovePte_tables (k : Nat × Nat) (s : Frames) : (pageRemovePte k s).tables = s.tables := by
  unfold pageRemovePte
  split
  · rfl
  dsimp only [dropRef]
  split <;> rfl

lemma FrameLaw.add (law : FrameLaw loose s) (empty : s.pte k = none) (ready : loose = some f ∨ loose = none ∧ 0 < s.ref f) : FrameLaw none (addPage k f s) := by
  have clear : ∀ t ∈ s.tables,t.frame ≠ f := by
    rcases ready with eq | ⟨-,used⟩
    · exact (law.spare f eq).1
    exact (law.page used).1
  refine ⟨fun g => update_finite (q := fun e => e = some g) (law.finite g) k _,fun g => ?_,law.frames,fun t mem => ?_,fun g => ?_,nofun,law.owner,law.once⟩
  · have := count_update law k (some f) g
    rw [one_neg (p := s.pte k = some g) (by rw [empty]; nofun)] at this
    dsimp only [addPage]
    rcases eq_or_ne g f with rfl | ne
    · rw [update_self]
      rw [one_pos rfl] at this
      omega
    rw [update_of_ne ne]
    rw [one_neg (by simpa using ne.symm)] at this
    omega
  · dsimp only [addPage]
    rw [update_of_ne (clear t mem)]
    exact law.apart t mem
  dsimp only [addPage]
  rw [law.busy]
  rcases eq_or_ne g f with rfl | ne
  · rw [update_self]
    refine ⟨fun _ => .inr (.inl (by omega)),fun _ => ?_⟩
    rcases ready with eq | ⟨-,used⟩
    · exact .inr (.inr eq)
    exact .inr (.inl used)
  rw [update_of_ne ne]
  refine or_congr_right (or_congr_right ⟨fun eq => ?_,nofun⟩)
  rcases ready with mine | ⟨none,-⟩
  · exact (ne (Option.mem_unique eq mine)).elim
  rw [none] at eq
  cases eq

lemma FrameLaw.insert (law : FrameLaw loose s) (k : Nat × Nat) (ready : loose = some f ∨ loose = none ∧ 0 < s.ref f) : FrameLaw none (pageInsert k f s) := by
  by_cases here : s.pte k = some f
  · unfold pageInsert
    rw [if_pos here]
    have none : loose = none := by
      rcases ready with eq | ⟨none,-⟩
      · exact ((law.page (law.mapped here)).2 eq).elim
      exact none
    exact none ▸ law
  rw [pageInsert_eq here]
  refine (law.remove k).add ?_ (ready.imp_right fun used => ⟨used.1,by rw [pageRemovePte_ref here]; exact used.2⟩)
  rw [pageRemovePte_pte,update_self]

lemma allocPage_run (law : FrameLaw none s) (m : Nat) :
    FrameLaw (allocPage m s).1 (allocPage m s).2 ∧ (allocPage m s).2.tables = s.tables ∧ (allocPage m s).2.pte = s.pte ∧ (allocPage m s).2.ref = s.ref ∧
      ∀ f,(allocPage m s).1 = some f → (allocPage m s).2.owner f = m := by
  unfold allocPage
  cases got : (s.script s.tick).filter fun f => !s.busy f with
  | none => exact ⟨{law with},rfl,rfl,rfl,nofun⟩
  | some f =>
    have free : s.busy f = false := by simpa using (Option.filter_eq_some_iff.mp got).2
    have idle : ¬ ((∃ t ∈ s.tables,t.frame = f) ∨ 0 < s.ref f ∨ none = some f) := by rw [← law.busy,free]; nofun
    have clear : ∀ t ∈ s.tables,t.frame ≠ f := fun t mem eq => idle (.inl ⟨t,mem,eq⟩)
    refine ⟨{law with busy:=fun g => ?_,spare:=fun g eq => ?_,owner:=fun t mem => ?_},rfl,rfl,rfl,fun g eq => ?_⟩
    · dsimp only
      rcases eq_or_ne g f with rfl | ne
      · simp
      rw [update_of_ne ne,law.busy]
      refine or_congr_right (or_congr_right ⟨nofun,fun eq => (ne (Option.some.inj eq).symm).elim⟩)
    · cases eq
      exact ⟨clear,by by_contra used; exact idle (.inr (.inl (Nat.pos_of_ne_zero used)))⟩
    · dsimp only
      rw [update_of_ne (clear t mem)]
      exact law.owner t mem
    cases eq
    exact update_self ..

lemma FrameLaw.giveBack (law : FrameLaw (some f) s) : FrameLaw none (freePage f s) := by
  have busy : s.busy f = true := (law.busy f).mpr (.inr (.inr rfl))
  obtain ⟨clear,_⟩ := law.spare f rfl
  refine {law with busy:=fun g => ?_,spare:=nofun,once:=by dsimp only [freePage]; rw [law.once,busy]; rfl}
  dsimp only [freePage]
  rcases eq_or_ne g f with rfl | ne
  · simp only [update_self,Bool.false_eq_true,false_iff]
    rintro (⟨t,mem,eq⟩ | _ | eq)
    · exact clear t mem eq
    · omega
    cases eq
  rw [update_of_ne ne,law.busy]
  exact or_congr_right (or_congr_right ⟨fun eq => (ne (Option.some.inj eq).symm).elim,nofun⟩)

lemma FrameLaw.table (law : FrameLaw (some f) s) (own : s.owner f = m) (level index : Nat) : FrameLaw none {s with tables:=⟨m,level,index,f⟩ :: s.tables} := by
  obtain ⟨clear,idle⟩ := law.spare f rfl
  refine ⟨law.finite,law.count,?_,fun t mem => ?_,fun g => ?_,nofun,fun t mem => ?_,law.once⟩
  · refine List.nodup_cons.mpr ⟨fun mem => ?_,law.frames⟩
    obtain ⟨t,mem,eq⟩ := List.mem_map.mp mem
    exact clear t mem eq
  · rcases List.mem_cons.mp mem with rfl | old
    · exact idle
    exact law.apart t old
  · dsimp only
    rw [law.busy]
    constructor
    · rintro (⟨t,mem,eq⟩ | used | eq)
      · exact .inl ⟨t,List.mem_cons_of_mem _ mem,eq⟩
      · exact .inr (.inl used)
      exact .inl ⟨_,List.mem_cons_self,Option.some.inj eq⟩
    rintro (⟨t,mem,eq⟩ | used | eq)
    · rcases List.mem_cons.mp mem with rfl | old
      · exact .inr (.inr (congrArg some eq))
      exact .inl ⟨t,old,eq⟩
    · exact .inr (.inl used)
    cases eq
  rcases List.mem_cons.mp mem with rfl | old
  · exact own
  exact law.owner t old

end Pages
end Ucore.Vmm
