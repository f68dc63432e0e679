import Ucore.Vmm.Unmap

-- The other calls of vmm.c on ordered areas: what they do to the areas, to the
-- shared objects and to where page-table entries can be.
namespace Ucore.Vmm
open Outcomes List
open Function (update update_eq_iff update_eq_self update_idem update_of_ne update_self)
variable {τ : Type} {held : τ → Nat → Nat → Prop} {w t : World τ} {m start stop : Nat} {l : List Area} {pager : Pager τ}

structure Pager.Tracks (pager : Pager τ) (held : τ → Nat → Nat → Prop) : Prop where
  create : ∀ m tab j p,held (pager.setupPgdir m tab).2 j p → held tab j p
  unmap : ∀ m start stop tab j p,held (pager.unmapRange m start stop tab) j p ↔ held tab j p ∧ ¬ (j = m ∧ start ≤ p * pgSize ∧ p * pgSize < stop)
  copy : ∀ target source start stop share tab j p,start % pgSize = 0 → stop % pgSize = 0 → held (pager.copyRange target source start stop share tab).2 j p →
    held tab j p ∨ j = target ∧ start ≤ p * pgSize ∧ p * pgSize < stop
  fault : ∀ m addr tab j p,held (pager.fault m addr tab) j p → held tab j p ∨ j = m ∧ p = addr / pgSize
  release : ∀ m areas tab j p,held (pager.release m areas tab) j p → held tab j p

structure Tidy (held : τ → Nat → Nat → Prop) (w : World τ) : Prop where
  gone : ∀ m ∉ w.live,w.areas m = []
  ordered : ∀ m,Ordered (w.areas m)
  inside : ∀ m p,held w.tables m p → ∃ a ∈ w.areas m,a.Has (p * pgSize)

section Flags

lemma share_cleared (flags : Flags) : isShared (flags &&& ~~~vmShare) = false := by
  have none : flags &&& ~~~vmShare &&& vmShare = 0#32 := by rw [BitVec.and_assoc,show ~~~vmShare &&& vmShare = 0#32 by decide,BitVec.and_zero]
  simp [isShared,none]

lemma share_set (flags : Flags) : isShared (flags ||| vmShare) = true := by
  have eq : (flags ||| vmShare) &&& vmShare = vmShare := by
    ext i
    simp only [BitVec.getElem_and,BitVec.getElem_or]
    cases flags[i] <;> cases vmShare[i] <;> rfl
  rw [isShared,eq]
  decide

lemma share_kept {flags : Flags} : flags &&& ~~~vmShare = flags ↔ isShared flags = false := by
  constructor
  · intro eq
    rw [← eq]
    exact share_cleared flags
  intro plain
  have none : flags &&& vmShare = 0#32 := by simpa [isShared] using plain
  ext i less
  have bit := congrArg (·[i]) none
  simp only [BitVec.getElem_and,BitVec.getElem_not,BitVec.getElem_zero] at bit ⊢
  revert bit
  cases flags[i] <;> cases vmShare[i] <;> simp

end Flags

section
variable (tidy : Tidy held w) (here : m ∈ w.live) (areas : t.areas = Function.update w.areas m l) (live : t.live = w.live) (ordered : Ordered l)
include tidy here areas live ordered

lemma Tidy.update (low : ∀ j p,held t.tables j p → held w.tables j p ∧ (j = m → ∃ a ∈ l,a.Has (p * pgSize)) ∨ j = m ∧ ∃ a ∈ l,a.Has (p * pgSize)) : Tidy held t := by
  refine ⟨fun j out => ?_,fun j => ?_,fun j p entry => ?_⟩
  · rw [live] at out
    have ne : j ≠ m := fun eq => out (eq ▸ here)
    rw [areas,update_of_ne ne]
    exact tidy.gone j out
  · rw [areas]
    rcases eq_or_ne j m with rfl | ne
    · rw [update_self]
      exact ordered
    rw [update_of_ne ne]
    exact tidy.ordered j
  rw [areas]
  rcases eq_or_ne j m with rfl | ne
  · rw [update_self]
    rcases low j p entry with ⟨-,covered⟩ | ⟨-,covered⟩
    · exact covered rfl
    exact covered
  rw [update_of_ne ne]
  rcases low j p entry with ⟨old,-⟩ | ⟨eq,-⟩
  · exact tidy.inside j p old
  exact (ne eq).elim

lemma Tidy.wider (tables : t.tables = w.tables) (wider : ∀ a ∈ w.areas m,∀ n,a.Has n → ∃ b ∈ l,b.Has n) : Tidy held t :=
  tidy.update here areas live ordered fun j p entry => .inl ⟨tables ▸ entry,fun eq => by
    subst eq
    obtain ⟨a,mem,has⟩ := tidy.inside j p (tables ▸ entry)
    exact wider a mem _ has⟩

end

lemma Tidy.tick (tidy : Tidy held w) (n : Nat) : Tidy held {w with tick:=n} := {tidy with}

lemma clear_each (tracks : pager.Tracks held) (l : List Area) (tab : τ) (j p : Nat) : held (l.foldl (clearPart pager m start stop) tab) j p ↔
      held tab j p ∧ ∀ a ∈ l,¬ (j = m ∧ a.Has (p * pgSize) ∧ start ≤ p * pgSize ∧ p * pgSize < stop) := by
  induction l generalizing tab with
  | nil => simp
  | cons a l ih =>
    rw [foldl_cons,ih,clearPart,tracks.unmap]
    simp only [max_le_iff,lt_min_iff,forall_mem_cons,Area.Has]
    tauto

lemma Unmapped.entries (bare : Unmapped pager m start stop w t) (tracks : pager.Tracks held) (tidy : Tidy held w) (j p : Nat) :
    held t.tables j p ↔ held w.tables j p ∧ ¬ (j = m ∧ start ≤ p * pgSize ∧ p * pgSize < stop) := by
  rw [bare.tables,clear_each tracks]
  refine and_congr_right fun entry => ⟨fun clear => ?_,fun out a mem => ?_⟩
  · rintro ⟨rfl,low,high⟩
    obtain ⟨a,mem,has⟩ := tidy.inside j p entry
    refine clear a (mem_reverse.mpr (mem_touched.mpr ⟨mem,?_,?_⟩)) ⟨rfl,has,low,high⟩
    · exact lt_of_le_of_lt low has.2
    exact lt_of_le_of_lt has.1 high
  rintro ⟨rfl,-,range⟩
  exact out ⟨rfl,range⟩

lemma Unmapped.tidy (bare : Unmapped pager m start stop w t) (tracks : pager.Tracks held) (tidy : Tidy held w) (here : m ∈ w.live) (order : start < stop) :
    Tidy held t := by
  obtain ⟨_,areas,perm,ordered⟩ := bare.areas
  obtain ⟨f,books⟩ := bare.books
  refine tidy.update here areas (by rw [books]) ordered fun j p entry => .inl ?_
  obtain ⟨old,out⟩ := (bare.entries tracks tidy j p).mp entry
  refine ⟨old,fun eq => ?_⟩
  subst eq
  obtain ⟨a,mem,has⟩ := tidy.inside j p old
  obtain ⟨b,piece,has⟩ := (pieces_has ((tidy.ordered j).fits a mem) order _).mpr ⟨has,fun range => out ⟨rfl,range⟩⟩
  exact ⟨b,perm.mem_iff.mpr (mem_flatMap.mpr ⟨a,mem,piece⟩),has⟩

section Map
variable {addr len : Nat} {vma : Area} {flags : Flags}

structure Mapped (m addr len : Nat) (flags : Flags) (vma : Area) (w t : World τ) : Prop where
  access : userAccess (lowEnd addr) (highEnd addr len) = true
  area : vma = ⟨lowEnd addr,highEnd addr len,flags &&& ~~~vmShare,none,0⟩
  apart : ∀ a ∈ w.areas m,Apart vma a
  after : t = {w with areas:=update w.areas m (insertArea (w.areas m) vma),tick:=w.tick + 1}

lemma Mapped.fits (mapped : Mapped m addr len flags vma w t) : vma.Fits := by
  rw [mapped.area]
  exact ends_fit mapped.access _ _ _

lemma mmMap_run (ordered : Ordered (w.areas m)) (addr len : Nat) (flags : Flags) :
    (mmMap m addr len flags w).Meets (fun vma t => Mapped m addr len flags vma w t) (fun _ t => ∃ n,t = {w with tick:=n}) fun _ => False := by
  simp only [mmMap,ite_run,rules,vmaCreate,granted]
  cases access : userAccess (lowEnd addr) (highEnd addr len) with
  | false => exact ⟨w.tick,rfl⟩
  | true =>
    simp only [Bool.not_true,Bool.false_eq_true,if_false]
    refine .ite (fun _ => ⟨w.tick,rfl⟩) fun clear => ?_
    cases yes : w.grants w.tick with
    | false => exact ⟨w.tick + 1,rfl⟩
    | true =>
      have fits := ends_fit access (flags &&& ~~~vmShare) none 0
      have ne : ∀ a ∈ w.areas m,Apart ⟨lowEnd addr,highEnd addr len,flags &&& ~~~vmShare,none,0⟩ a := fun a mem => by
        cases got : findVma (w.areas m) (lowEnd addr) with
        | none => exact .inr (findVma_none got a mem)
        | some vma =>
          rw [got] at clear
          simp only [Option.any_some,decide_eq_true_eq,gt_iff_lt,not_lt] at clear
          obtain ⟨low,-,later⟩ := findVma_some ordered got
          by_cases above : lowEnd addr < a.stop
          · rcases eq_or_ne a vma with rfl | differ
            · exact .inl clear
            have := later a mem above differ
            have := (ordered.fits vma low).solid
            exact .inl (by dsimp only; omega)
          exact .inr (by dsimp only; omega)
      simp only [rules]
      rw [insertVmaStruct_ok (w := {w with tick:=w.tick + 1}) ordered fits ne]
      exact ⟨access,rfl,ne,rfl⟩

lemma insertArea_wider (ordered : Ordered areas) (vma : Area) : ∀ a ∈ areas,∀ n,a.Has n → ∃ b ∈ insertArea areas vma,b.Has n := fun a mem _ has =>
  ⟨a,(insertArea_perm ordered vma).mem_iff.mpr (mem_cons_of_mem _ mem),has⟩

lemma Mapped.tidy (mapped : Mapped m addr len flags vma w t) (tidy : Tidy held w) (here : m ∈ w.live) : Tidy held t := by
  have fits := mapped.fits
  obtain ⟨-,-,ne,rfl⟩ := mapped
  exact tidy.wider here rfl rfl ((tidy.ordered m).insert fits ne) rfl (insertArea_wider (tidy.ordered m) vma)

lemma Law.add (law : Law v b) (here : m ∈ b.live) (private_ : isShared vma.flags = false) (none : vma.shmem = none) (perm : l.Perm (vma :: v m)) :
    Law (update v m l) b := by
  refine law.replace here (fun o => ?_) fun a mem => ?_
  · rw [perm.countP_eq]
    exact countP_cons_other (by simp [none])
  rcases mem_cons.mp (perm.mem_iff.mp mem) with rfl | old
  · exact ⟨fun _ => none,fun shared => by rw [private_] at shared; cases shared⟩
  exact law.good m a old

lemma Mapped.law (mapped : Mapped m addr len flags vma w t) (ordered : Ordered (w.areas m)) (here : m ∈ w.live) (law : Law w.areas w.toBooks) :
    Law t.areas t.toBooks := by
  obtain ⟨-,rfl,-,rfl⟩ := mapped
  exact law.add here (share_cleared flags) rfl (insertArea_perm ordered _)

lemma Law.share (law : Law v b) (here : m ∈ b.live) (got : b.shmem o = some obj) (shared : isShared vma.flags = true) (same : vma.shmem = some o)
    (ne : ∀ a ∈ v m,Apart vma a) (first : ∀ addr,vma.Has addr → f m addr = some (o,addr - vma.start + vma.off))
    (frame : ∀ j addr,¬ (j = m ∧ vma.Has addr) → f j addr = b.first j addr) (perm : l.Perm (vma :: v m)) :
    Law (update v m l)
      {b with shmem:=update b.shmem o (some {obj with ref:=obj.ref + 1}),mapped:=update b.mapped o true,first:=f} := by
  have count : ∀ i,uses (update v m l) b.live i + (v m).countP (fun a => a.shmem = some i) =
      uses v b.live i + (vma :: v m).countP fun a => a.shmem = some i := fun i => by
    have := uses_update (v := v) here l i
    rwa [perm.countP_eq] at this
  have mine := count o
  rw [countP_cons_self same] at mine
  have rest : ∀ i ≠ o,uses (update v m l) b.live i = uses v b.live i := fun i differ => by
    have := count i
    rw [countP_cons_other (by rw [same]; simpa using differ.symm)] at this
    omega
  have good : ∀ j a,a ∈ v j → Good b j a → Good {b with shmem:=update b.shmem o (some {obj with ref:=obj.ref + 1}),mapped:=update b.mapped o true,first:=f} j a := fun j a mem good => by
    refine ⟨good.plain,fun shared => ?_⟩
    obtain ⟨i,same,view⟩ := good.named shared
    refine ⟨i,same,fun addr has => ?_⟩
    rw [← view addr has]
    refine frame j addr fun clash => ?_
    obtain ⟨rfl,has'⟩ := clash
    have := ne a mem
    unfold Apart at this
    unfold Area.Has at has has'
    omega
  refine .of_objects (fun j out => ?_) (fun j a mem => ?_) fun i => ?_
  · have ne : j ≠ m := fun eq => out (eq ▸ here)
    rw [update_of_ne ne]
    exact law.gone j out
  · rcases eq_or_ne j m with rfl | differ
    · rw [update_self] at mem
      rcases mem_cons.mp (perm.mem_iff.mp mem) with rfl | old
      · exact ⟨fun private_ => (by rw [shared] at private_; cases private_),fun _ => ⟨o,same,first⟩⟩
      exact good j a old (law.good j a old)
    rw [update_of_ne differ] at mem
    exact good j a mem (law.good j a mem)
  dsimp only
  rcases eq_or_ne i o with rfl | differ
  · have ref := law.ref i obj got
    rw [update_self,update_self]
    refine ⟨fun x kept => ?_,nofun,fun _ _ _ => by omega,fun _ => rfl,nofun,fun unmade => ?_⟩
    · cases kept
      dsimp only
      omega
    have := (law.begun i unmade).1
    rw [got] at this
    cases this
  rw [update_of_ne differ,update_of_ne differ,rest i differ]
  exact law.object i

structure Kept (held : τ → Nat → Nat → Prop) (legal : Prop) (w t : World τ) : Prop where
  tidy : Tidy held t
  law : Law w.areas w.toBooks → legal → Law t.areas t.toBooks

lemma Kept.tick (tidy : Tidy held w) (n : Nat) : Kept held legal w {w with tick:=n} := ⟨tidy.tick n,fun law _ => law⟩

inductive PagerStep (pager : Pager τ) (live : Finset Nat) : τ → τ → Prop where
  | unmap {j : Nat} (here : j ∈ live) (low high : Nat) (tab : τ) : PagerStep pager live tab (pager.unmapRange j low high tab)
  | copy {j : Nat} (here : j ∈ live) (source low high : Nat) (share : Bool) (tab : τ) : PagerStep pager live tab (pager.copyRange j source low high share tab).2
  | fault {j : Nat} (here : j ∈ live) (place : Nat) (tab : τ) : PagerStep pager live tab (pager.fault j place tab)

structure Paged (pager : Pager τ) (held : τ → Nat → Nat → Prop) (legal : Prop) (w t : World τ) : Prop extends Kept held legal w t where
  live : t.live = w.live
  steps : Relation.ReflTransGen (PagerStep pager w.live) w.tables t.tables

lemma Unmapped.steps (bare : Unmapped pager m start stop w t) (here : m ∈ w.live) : Relation.ReflTransGen (PagerStep pager w.live) w.tables t.tables := by
  have each : ∀ (l : List Area) (tab : τ),Relation.ReflTransGen (PagerStep pager w.live) tab (l.foldl (clearPart pager m start stop) tab) := by
    intro l
    induction l with
    | nil => exact fun _ => .refl
    | cons a l ih => exact fun tab => .head (.unmap here _ _ _) (ih _)
  rw [bare.tables]
  exact each _ _

lemma Paged.tick (tidy : Tidy held w) (n : Nat) : Paged pager held legal w {w with tick:=n} := ⟨Kept.tick tidy n,rfl,.refl⟩

lemma inside_has (a : Area) (addr : Nat) : inside a.start a.stop addr = true ↔ a.Has addr := by simp [inside,Area.Has]

lemma mmMapShmem_run (tidy : Tidy held w) (here : m ∈ w.live) (addr : Nat) (flags : Flags) (o : Nat) :
    (mmMapShmem m addr flags o w).Meets (fun _ t => Paged pager held True w t) (fun _ t => ∃ n,t = {w with tick:=n}) fun _ => w.shmem o = none := by
  unfold mmMapShmem
  rw [ite_run]
  refine .ite (fun _ => ⟨w.tick,rfl⟩) fun _ => ?_
  simp only [rules]
  cases got : w.shmem o with
  | none => exact rfl
  | some obj =>
    simp only [rules,shmemRefInc,got]
    refine (mmMap_run (w := {w with shmem:=update w.shmem o (some {obj with ref:=obj.ref + 1})}) (tidy.ordered m) addr obj.len flags).attempt.next
      (fun r t after => ?_) (fun _ _ no => no.elim) fun _ no => no.elim
    cases r with
    | error e =>
      obtain ⟨n,rfl⟩ := after
      simp only [rules,shmemRefDec,update_self,update_idem]
      refine ⟨n,?_⟩
      have eq : update w.shmem o (some ⟨obj.len,obj.ref + 1 - 1⟩) = w.shmem := by
        rw [show (⟨obj.len,obj.ref + 1 - 1⟩ : Shmem) = obj by cases obj; simp,← got]
        exact update_eq_self _ _
      rw [eq]
    | ok vma =>
      have fits := after.fits
      obtain ⟨_,_,ne,rfl⟩ := after
      dsimp only at ne ⊢
      simp only [rules,update_idem,update_self]
      have ordered := (tidy.ordered m).insert fits ne
      have mem : vma ∈ insertArea (w.areas m) vma := (insertArea_perm (tidy.ordered m) vma).mem_iff.mpr mem_cons_self
      have perm : (replaceArea (insertArea (w.areas m) vma) vma {vma with shmem:=some o,off:=0,flags:=vma.flags ||| vmShare}).Perm
          ({vma with shmem:=some o,off:=0,flags:=vma.flags ||| vmShare} :: w.areas m) := by
        refine (replaceArea_perm ordered.nodup mem).trans (.cons _ ?_)
        have := (insertArea_perm (tidy.ordered m) vma).erase vma
        rwa [erase_cons_head] at this
      refine ⟨⟨tidy.wider here rfl rfl ?_ rfl fun a old n has => ⟨a,perm.mem_iff.mpr (mem_cons_of_mem _ old),has⟩,fun law _ => ?_⟩,rfl,.refl⟩
      · exact ordered.replace {fits with} fits.solid fits.solid fun a old differ => ordered.others mem a old differ
      have ne : ∀ a ∈ w.areas m,Apart {vma with shmem:=some o,off:=0,flags:=vma.flags ||| vmShare} a := ne
      refine law.share here got (share_set _) rfl ne (fun addr has => ?_) (fun j addr out => ?_) perm
      · have has : vma.Has addr := has
        simp [(inside_has vma addr).mpr has]
      rcases eq_or_ne j m with rfl | differ
      · have off : inside vma.start vma.stop addr = false := by
          by_contra on
          exact out ⟨rfl,(inside_has vma addr).mp (by simpa using on)⟩
        rw [update_self,off]
        rfl
      rw [update_of_ne differ]

end Map

lemma extend_kept (tidy : Tidy held w) (here : m ∈ w.live) (mem : a ∈ w.areas m) (plain : isShared a.flags = false) (high : a.stop ≤ stop)
    (fits : ({a with stop:=stop} : Area).Fits) (clear : ∀ b ∈ w.areas m,b.stop ≤ a.stop ∨ stop ≤ b.start) :
    Paged pager held True w {w with areas:=update w.areas m (replaceArea (w.areas m) a {a with stop:=stop})} := by
  have ordered := tidy.ordered m
  have solid := (ordered.fits a mem).solid
  have perm : (replaceArea (w.areas m) a {a with stop:=stop}).Perm _ := replaceArea_perm ordered.nodup mem
  refine ⟨⟨tidy.wider here rfl rfl ?_ rfl fun b old n has => ?_,fun law _ => law.replace here (fun o => ?_) fun b low => ?_⟩,rfl,.refl⟩
  · refine ordered.replace fits solid fits.solid fun b old ne => ?_
    have := ordered.others mem b old ne
    have := clear b old
    have := (ordered.fits b old).solid
    unfold Apart at *
    dsimp only
    omega
  · rcases eq_or_ne b a with rfl | ne
    · refine ⟨{b with stop:=stop},perm.mem_iff.mpr mem_cons_self,has.1,?_⟩
      exact lt_of_lt_of_le has.2 high
    exact ⟨b,perm.mem_iff.mpr (mem_cons_of_mem _ (ordered.nodup.mem_erase_iff.mpr ⟨ne,old⟩)),has⟩
  · rw [perm.countP_eq,(perm_cons_erase mem).countP_eq]
    simp [countP_cons]
  rcases mem_cons.mp (perm.mem_iff.mp low) with rfl | old
  · exact ⟨(law.good m a mem).plain,fun shared => by rw [plain] at shared; cases shared⟩
  exact law.good m b (mem_of_mem_erase old)

lemma mmBrk_run (tracks : pager.Tracks held) (tidy : Tidy held w) (here : m ∈ w.live) (addr len : Nat) :
    (mmBrk pager m addr len w).Meets (fun _ t => Paged pager held (¬ Splits (w.areas m) (lowEnd addr) (highEnd addr len)) w t)
      (fun _ t => Paged pager held (¬ Splits (w.areas m) (lowEnd addr) (highEnd addr len)) w t) fun _ => ¬ Law w.areas w.toBooks := by
  have evenStart := lowEnd_aligned addr
  have evenStop := highEnd_aligned addr len
  unfold mmBrk
  generalize lowEnd addr = start at *
  generalize highEnd addr len = stop at *
  simp only [ite_run,rules]
  cases access : userAccess start stop with
  | false => exact Paged.tick tidy w.tick
  | true =>
    simp only [Bool.not_true,Bool.false_eq_true,if_false]
    obtain ⟨low,order,high⟩ := userAccess_iff.mp access
    have unmap : (mmUnmap pager m start (stop - start) w).Meets _ _ _ := mmUnmap_run (tidy.ordered m) here start (stop - start)
    rw [lowEnd_self evenStart,highEnd_self evenStop order high] at unmap
    refine unmap.next (fun _ t bare => ?_) (fun _ t eq => ?_) fun _ bad => bad
    · obtain ⟨-,bare⟩ := bare
      have tidy' := bare.tidy tracks tidy here order
      obtain ⟨_,areas,perm,-⟩ := bare.areas
      obtain ⟨f,books⟩ := bare.books
      have live : t.live = w.live := by rw [books]
      have here' : m ∈ t.live := live ▸ here
      have clear : ∀ b ∈ t.areas m,b.stop ≤ start ∨ stop ≤ b.start := fun b mem => by
        rw [areas,update_self] at mem
        obtain ⟨a,-,piece⟩ := mem_flatMap.mp (perm.mem_iff.mp mem)
        exact pieces_out piece
      have through : ∀ {u},Paged pager held True t u → Paged pager held (¬ Splits (w.areas m) start stop) w u := fun kept =>
        ⟨⟨kept.tidy,fun law all => kept.law (bare.law law all) trivial⟩,kept.live.trans live,(bare.steps here).trans (live ▸ kept.steps)⟩
      simp only [rules]
      cases got : (findVma (t.areas m) (start - 1)).filter fun vma => decide (vma.stop = start) && decide (vma.flags = vmReadWrite) with
      | some vma =>
        obtain ⟨got,fit⟩ := Option.filter_eq_some_iff.mp got
        simp only [Bool.and_eq_true,decide_eq_true_eq] at fit
        have mem := (findVma_some (tidy'.ordered m) got).1
        have fits := (tidy'.ordered m).fits vma mem
        have solid := fits.solid
        refine through (extend_kept tidy' here' mem (by rw [fit.2]; decide) (by omega) ?_ fun b inside => ?_)
        · constructor <;> dsimp only
          · omega
          · exact fits.low
          · exact high
          · exact fits.startAligned
          exact evenStop
        have := clear b inside
        omega
      | none =>
        simp only [vmaCreate,granted,rules,ite_run]
        cases yes : t.grants t.tick with
        | false => exact through (Paged.tick tidy' _)
        | true =>
          have fits : (⟨start,stop,vmReadWrite,none,0⟩ : Area).Fits := ⟨order,low,high,evenStart,evenStop⟩
          have ne : ∀ a ∈ t.areas m,Apart ⟨start,stop,vmReadWrite,none,0⟩ a := fun a mem => (clear a mem).symm
          simp only [rules]
          rw [insertVmaStruct_ok (w := {t with tick:=t.tick + 1}) (tidy'.ordered m) fits ne]
          refine through ⟨⟨tidy'.wider here' rfl rfl ((tidy'.ordered m).insert fits ne) rfl (insertArea_wider (tidy'.ordered m) _),fun law _ => ?_⟩,rfl,.refl⟩
          exact law.add here' (show isShared vmReadWrite = false by decide) rfl (insertArea_perm (tidy'.ordered m) _)
    obtain ⟨n,rfl⟩ := eq
    exact Paged.tick tidy n

section Dup
variable {u : World τ} {target source : Nat} {a : Area}

lemma Law.uses_pos (law : Law v b) (mem : a ∈ v m) (eq : a.shmem = some o) : 0 < uses v b.live o := by
  have here : m ∈ b.live := by
    by_contra out
    rw [law.gone m out] at mem
    cases mem
  have mine : 0 < (v m).countP fun a => a.shmem = some o := countP_pos_iff.mpr ⟨a,mem,by simpa using eq⟩
  exact lt_of_lt_of_le mine (Finset.single_le_sum (f := fun m => (v m).countP fun a => a.shmem = some o) (fun _ _ => Nat.zero_le _) here)

lemma Law.alive (law : Law v b) (mem : a ∈ v m) (eq : a.shmem = some o) : ∃ obj,b.shmem o = some obj := by
  have some := law.uses_pos mem eq
  cases got : b.shmem o with
  | some obj => exact ⟨obj,rfl⟩
  | none =>
    have := law.dead o got
    omega

structure Copied (pager : Pager τ) (held : τ → Nat → Nat → Prop) (target : Nat) (l : List Area) (w t : World τ) : Prop extends Paged pager held True w t where
  others : ∀ j,j ≠ target → t.areas j = w.areas j
  fresh : ∀ c ∈ t.areas target,c ∈ w.areas target ∨ ∃ a ∈ l,c.start = a.start ∧ c.stop = a.stop

lemma Copied.refl (tidy : Tidy held w) : Copied pager held target [] w w := ⟨⟨⟨tidy,fun law _ => law⟩,rfl,.refl⟩,fun _ _ => rfl,fun _ mem => .inl mem⟩

lemma Copied.trans (one : Copied pager held target [a] w t) (two : Copied pager held target l t u) : Copied pager held target (a :: l) w u where
  tidy := two.tidy
  law law _ := two.law (one.law law trivial) trivial
  live := two.live.trans one.live
  steps := one.steps.trans (one.live ▸ two.steps)
  others j ne := (two.others j ne).trans (one.others j ne)
  fresh c mem := by
    rcases two.fresh c mem with old | ⟨a,low,eq⟩
    · rcases one.fresh c old with old | ⟨a,low,eq⟩
      · exact .inl old
      exact .inr ⟨a,mem_cons.mpr (.inl (mem_singleton.mp low)),eq⟩
    exact .inr ⟨a,mem_cons_of_mem _ low,eq⟩

section
variable (tracks : pager.Tracks held) (tidy : Tidy held w) (here : target ∈ w.live)
include tracks tidy here

lemma dup_finish (areas : u.areas = w.areas) (live : u.live = w.live) (tables : u.tables = w.tables)
    (fits : c.Fits) (low : c.start = a.start) (high : c.stop = a.stop)
    (law : (∀ b ∈ w.areas target,Apart a b) → Law w.areas w.toBooks → Law (update w.areas target (insertArea (w.areas target) c)) u.toBooks) (share : Bool) :
    ((do
      insertVmaStruct target c
      if ← copyRange pager target source a.start a.stop share then pure () else fail .eNoMem : Act τ Unit) u).Meets
      (fun _ t => Copied pager held target [a] w t ∧ ∀ b ∈ w.areas target,Apart a b) (fun _ t => Paged pager held True w t) fun x => x = .overlap := by
  have ordered := tidy.ordered target
  have perm := insertArea_perm ordered c
  rcases insertVmaStruct_cases (by rw [areas]; exact ordered) c with hit | ne
  · rw [bind_run,hit]
    exact rfl
  rw [areas] at ne
  have clear : ∀ b ∈ w.areas target,Apart a b := fun b mem => by
    have := ne b mem
    unfold Apart at this ⊢
    omega
  rw [bind_run,insertVmaStruct_ok (by rw [areas]; exact ordered) fits (by rw [areas]; exact ne),next_ok,bind_run,copyRange,next_ok,ite_run]
  dsimp only
  have copy : Copied pager held target [a] w {u with areas:=update u.areas target (insertArea (u.areas target) c),tables:=(pager.copyRange target source a.start a.stop share u.tables).2} := by
    refine ⟨⟨⟨?_,fun pre _ => ?_⟩,live,?_⟩,fun j ne => ?_,fun d mem => ?_⟩
    · refine tidy.update (l := insertArea (w.areas target) c) here (by rw [areas]) live (ordered.insert fits ne) fun j p entry => ?_
      rcases tracks.copy _ _ _ _ _ _ _ _ (low ▸ fits.startAligned) (high ▸ fits.stopAligned) entry with old | ⟨eq,_⟩
      · rw [tables] at old
        refine .inl ⟨old,fun eq => ?_⟩
        subst eq
        obtain ⟨b,mem,has⟩ := tidy.inside j p old
        exact insertArea_wider ordered c b mem _ has
      exact .inr ⟨eq,c,perm.mem_iff.mpr mem_cons_self,by unfold Area.Has; omega⟩
    · rw [areas]
      exact law clear pre
    · rw [← tables]
      exact .single (.copy here _ _ _ _ _)
    · rw [areas]
      exact update_of_ne ne ..
    dsimp only at mem
    rw [areas,update_self] at mem
    rcases mem_cons.mp (perm.mem_iff.mp mem) with rfl | old
    · exact .inr ⟨a,mem_singleton_self a,low,high⟩
    exact .inl old
  cases (pager.copyRange target source a.start a.stop share u.tables).1 with
  | true => exact ⟨copy,clear⟩
  | false => exact copy.toPaged

lemma dupVma_run (mem : a ∈ w.areas source) :
    (dupVma pager target source a w).Meets (fun _ t => Copied pager held target [a] w t ∧ ∀ b ∈ w.areas target,Apart a b) (fun _ t => Paged pager held True w t)
      fun x => x = .overlap ∨ ¬ Law w.areas w.toBooks := by
  have fits := (tidy.ordered source).fits a mem
  have perm := fun c => insertArea_perm (tidy.ordered target) c
  unfold dupVma
  simp only [vmaCreate,granted,rules,ite_run]
  cases yes : w.grants w.tick with
  | false => exact Paged.tick tidy _
  | true =>
    simp only [rules]
    cases shared : isShared a.flags with
    | false =>
      simp only [Bool.false_eq_true,if_false]
      refine (dup_finish (a := a) (u := {w with tick:=w.tick + 1}) (c := ⟨a.start,a.stop,a.flags,none,0⟩) tracks tidy here rfl rfl rfl
        {fits with} rfl rfl (fun _ law => ?_) false).mono (fun _ _ copy => copy) (fun _ _ kept => kept) fun _ hit => .inl hit
      exact law.add here (show isShared (⟨a.start,a.stop,a.flags,none,0⟩ : Area).flags = false from shared) rfl (perm _)
    | true =>
      simp only [if_true]
      cases eq : a.shmem with
      | none =>
        refine .inr fun law => ?_
        obtain ⟨o,named,-⟩ := (law.good source a mem).named shared
        rw [eq] at named
        cases named
      | some o =>
        simp only [shmemRefInc,rules]
        cases got : w.shmem o with
        | none =>
          refine .inr fun law => ?_
          obtain ⟨obj,alive⟩ := law.alive mem eq
          rw [got] at alive
          cases alive
        | some obj =>
          simp only [rules]
          refine (dup_finish (a := a) (c := ⟨a.start,a.stop,a.flags,some o,a.off⟩)
            (u := {w with
                shmem:=update w.shmem o (some {obj with ref:=obj.ref + 1}),tick:=w.tick + 1
                first:=update w.first target fun b => if inside a.start a.stop b then w.first source b else w.first target b}) tracks tidy here rfl rfl rfl
            {fits with} rfl rfl (fun ne law => ?_) true).mono (fun _ _ copy => copy) (fun _ _ kept => kept) fun _ hit => .inl hit
          obtain ⟨i,named,view⟩ := (law.good source a mem).named shared
          obtain rfl : o = i := Option.mem_unique eq named
          have next := law.share (l := insertArea (w.areas target) ⟨a.start,a.stop,a.flags,some o,a.off⟩)
            (f := update w.first target fun b => if inside a.start a.stop b then w.first source b else w.first target b)
            here got (show isShared (⟨a.start,a.stop,a.flags,some o,a.off⟩ : Area).flags = true from shared) rfl ne (fun addr has => ?_) (fun j addr out => ?_) (perm _)
          · have pre : w.mapped o = true := law.seen o (law.uses_pos mem eq)
            have idle : update w.mapped o true = w.mapped := update_eq_iff.mpr ⟨pre.symm,fun _ _ => rfl⟩
            rwa [idle] at next
          · have has : a.Has addr := has
            rw [update_self,(inside_has a addr).mpr has,if_pos rfl]
            exact view addr has
          rcases eq_or_ne j target with rfl | ne
          · have off : inside a.start a.stop addr = false := by
              by_contra on
              exact out ⟨rfl,(inside_has a addr).mp (by simpa using on)⟩
            rw [update_self,off]
            rfl
          rw [update_of_ne ne]

-- The areas of l are still those of the source: a copy of an mm into itself
-- overlaps at once.
lemma dup_each (members : ∀ a ∈ l,a ∈ w.areas source) :
    (each (dupVma pager target source) l w).Meets (fun _ t => Copied pager held target l w t) (fun _ t => Paged pager held True w t)
      fun x => x = .overlap ∨ ¬ Law w.areas w.toBooks := by
  induction l generalizing w with
  | nil => exact Copied.refl tidy
  | cons a l ih =>
    have mine := members a mem_cons_self
    unfold each
    rw [bind_run]
    refine (dupVma_run tracks tidy here mine).next (fun _ t first => ?_) (fun _ _ kept => kept) fun _ bad => bad
    obtain ⟨copy,ne⟩ := first
    have differ : source ≠ target := fun eq => by
      have := ne a (eq ▸ mine)
      have := ((tidy.ordered source).fits a mine).solid
      unfold Apart at *
      omega
    have rest := ih copy.tidy (copy.live ▸ here) fun b low => by rw [copy.others source differ]; exact members b (mem_cons_of_mem _ low)
    exact rest.mono (fun _ u two => copy.trans two)
      (fun _ u kept => ⟨⟨kept.tidy,fun law _ => kept.law (copy.law law trivial) trivial⟩,kept.live.trans copy.live,copy.steps.trans (copy.live ▸ kept.steps)⟩)
      fun _ bad => bad.imp_right fun bad law => bad (copy.law law trivial)

lemma dupMmap_run :
    (dupMmap pager target source w).Meets (fun _ t => Paged pager held True w t) (fun _ t => Paged pager held True w t) fun x => x = .overlap ∨ ¬ Law w.areas w.toBooks := by
  unfold dupMmap
  rw [bind_run,state_run,next_ok]
  exact (dup_each tracks tidy here fun a low => mem_reverse.mp low).mono (fun _ t copy => copy.toPaged) (fun _ _ kept => kept) fun _ bad => bad

end

end Dup

lemma exit_each (tracks : pager.Tracks held) (l : List Area) :
    ∃ tab,each (fun vma => unmapRange pager m vma.start vma.stop) l w = .ok () {w with tables:=tab} ∧
      tab = l.foldl (fun tab a => pager.unmapRange m a.start a.stop tab) w.tables ∧ ∀ j p,held tab j p → held w.tables j p ∧ (j = m → ∀ a ∈ l,¬ a.Has (p * pgSize)) := by
  induction l generalizing w with
  | nil => exact ⟨w.tables,rfl,rfl,fun _ _ entry => ⟨entry,fun _ _ no => nomatch no⟩⟩
  | cons a l ih =>
    obtain ⟨tab,ran,all,entries⟩ := ih (w := {w with tables:=pager.unmapRange m a.start a.stop w.tables})
    refine ⟨tab,?_,all,fun j p entry => ?_⟩
    · unfold each
      simp only [rules,unmapRange]
      exact ran
    obtain ⟨pre,clear⟩ := entries j p entry
    obtain ⟨old,out⟩ := (tracks.unmap _ _ _ _ _ _).mp pre
    refine ⟨old,fun eq b low has => ?_⟩
    rcases mem_cons.mp low with rfl | low
    · exact out ⟨eq,has⟩
    exact clear eq b low has

lemma destroy_each (here : m ∈ w.live) (all : w.areas m = l) : (each (fun vma => do removeVmaStruct m vma; vmaDestroy vma) l w).Meets
      (fun _ t => t.areas = update w.areas m [] ∧ t.tables = w.tables ∧ (∃ f,t.toBooks = {w.toBooks with shmem:=f}) ∧
        (Law w.areas w.toBooks → Law t.areas t.toBooks)) (fun _ _ => False) fun _ => ¬ Law w.areas w.toBooks := by
  induction l generalizing w with
  | nil => exact ⟨by rw [← all,update_eq_self],rfl,⟨w.shmem,rfl⟩,fun law => law⟩
  | cons a l ih =>
    have whole : update w.areas m (a :: l) = w.areas := by rw [← all,update_eq_self]
    unfold each
    simp only [rules,removeVmaStruct,setAreas,all,erase_cons_head]
    have one := vmaDestroy_run (v := w.areas) (a := a) (w := {w with areas:=update w.areas m l}) here l
    refine one.next (fun _ t new => ?_) (fun _ _ no => no) fun _ bad law => bad (by rw [whole]; exact law)
    obtain ⟨⟨f,rfl⟩,kept⟩ := new
    refine (ih (w := {w with areas:=update w.areas m l,shmem:=f}) here (update_self ..)).mono (fun _ u rest => ?_) (fun _ _ no => no)
      fun _ bad law => bad (kept (by rw [whole]; exact law))
    obtain ⟨areas,tables,⟨g,books⟩,law⟩ := rest
    refine ⟨by rw [areas,update_idem],tables,⟨g,books⟩,fun old => law (kept (by rw [whole]; exact old))⟩

lemma Law.leave (law : Law v b) (empty : v m = []) : Law v {b with live:=b.live.erase m} := by
  have eq : ∀ o,uses v (b.live.erase m) o = uses v b.live o := fun o => Finset.sum_erase _ (by rw [empty]; rfl)
  refine .of_objects (fun j out => ?_) (fun j a mem => {law.good j a mem with}) fun o => ?_
  · by_cases here : j ∈ b.live
    · have : j = m := by
        by_contra ne
        exact out (Finset.mem_erase.mpr ⟨ne,here⟩)
      rw [this,empty]
    exact law.gone j here
  dsimp only
  rw [eq]
  exact law.object o

lemma exit_run (tracks : pager.Tracks held) (tidy : Tidy held w) (here : m ∈ w.live) : ((do exitMmap pager m; mmDestroy m : Act τ Unit) w).Meets
      (fun _ t => Kept held True w t ∧ t.live = w.live.erase m ∧
        t.tables = pager.release m (w.areas m) ((w.areas m).foldl (fun tab a => pager.unmapRange m a.start a.stop tab) w.tables))
      (fun _ _ => False) fun _ => ¬ Law w.areas w.toBooks := by
  obtain ⟨tab,ran,all,entries⟩ := exit_each (m := m) (w := w) tracks (w.areas m)
  simp only [rules,exitMmap,ran,mmDestroy]
  refine (destroy_each (w := {w with tables:=pager.release m (w.areas m) tab}) here rfl).next (fun _ t new => ?_) (fun _ _ no => no.elim) fun _ bad => bad
  obtain ⟨areas,tables,⟨f,books⟩,law⟩ := new
  have empty : t.areas m = [] := by rw [areas,update_self]
  have live : t.live = w.live := by rw [books]
  refine ⟨⟨⟨fun j out => ?_,fun j => ?_,fun j p entry => ?_⟩,fun pre _ => (law pre).leave empty⟩,by dsimp only; rw [live],by dsimp only; rw [tables,all]⟩
  · rcases eq_or_ne j m with rfl | ne
    · exact empty
    rw [show t.areas j = w.areas j by rw [areas,update_of_ne ne]]
    exact tidy.gone j fun low => out (Finset.mem_erase.mpr ⟨ne,live ▸ low⟩)
  · rcases eq_or_ne j m with rfl | ne
    · dsimp only
      rw [empty]
      exact ⟨.nil,nofun⟩
    dsimp only
    rw [areas,update_of_ne ne]
    exact tidy.ordered j
  dsimp only at entry ⊢
  rw [tables] at entry
  obtain ⟨old,clear⟩ := entries j p (tracks.release _ _ _ _ _ entry)
  obtain ⟨a,mem,has⟩ := tidy.inside j p old
  rcases eq_or_ne j m with rfl | ne
  · exact (clear rfl a mem has).elim
  rw [areas,update_of_ne ne]
  exact ⟨a,mem,has⟩

end Ucore.Vmm
