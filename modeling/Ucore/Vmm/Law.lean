import Mathlib.Algebra.BigOperators.Group.Finset.Basic
import Ucore.Vmm.Order

-- Shared objects and the areas that use them, and what mm_unmap and vma_destroy
-- do to both.
namespace Ucore.Vmm
open Outcomes
open Function (update update_idem update_of_ne update_self)

def uses (v : Nat → List Area) (live : Finset Nat) (o : Nat) : Nat := ∑ m ∈ live,(v m).countP fun a => a.shmem = some o

-- A shared area names its object and maps each address to the offset it was
-- first mapped to; a private one names none.
structure Good (b : Books) (m : Nat) (a : Area) : Prop where
  plain : isShared a.flags = false → a.shmem = none
  named : isShared a.flags = true → ∃ o,a.shmem = some o ∧ ∀ addr,a.Has addr → b.first m addr = some (o,addr - a.start + a.off)

-- v lists the areas that exist, on the list of their mm or in the hands of the
-- function at work.
structure Law (v : Nat → List Area) (b : Books) : Prop where
  gone : ∀ m ∉ b.live,v m = []
  good : ∀ m,∀ a ∈ v m,Good b m a
  ref : ∀ o obj,b.shmem o = some obj → obj.ref = uses v b.live o
  dead : ∀ o,b.shmem o = none → uses v b.live o = 0
  used : ∀ o obj,b.shmem o = some obj → b.mapped o = true → 0 < uses v b.live o
  seen : ∀ o,0 < uses v b.live o → b.mapped o = true
  ended : ∀ o,b.shmem o = none → b.made o = true → b.mapped o = true
  begun : ∀ o,b.made o = false → b.shmem o = none ∧ b.mapped o = false

structure Object (n : Nat) (obj : Option Shmem) (made mapped : Bool) : Prop where
  ref : ∀ x,obj = some x → x.ref = n
  dead : obj = none → n = 0
  used : ∀ x,obj = some x → mapped = true → 0 < n
  seen : 0 < n → mapped = true
  ended : obj = none → made = true → mapped = true
  begun : made = false → obj = none ∧ mapped = false

lemma Law.object (law : Law v b) (o : Nat) : Object (uses v b.live o) (b.shmem o) (b.made o) (b.mapped o) :=
  ⟨law.ref o,law.dead o,law.used o,law.seen o,law.ended o,law.begun o⟩

lemma Law.of_objects (gone : ∀ m ∉ b.live,v m = []) (good : ∀ m,∀ a ∈ v m,Good b m a)
    (object : ∀ o,Object (uses v b.live o) (b.shmem o) (b.made o) (b.mapped o)) : Law v b :=
  ⟨gone,good,fun o => (object o).ref,fun o => (object o).dead,fun o => (object o).used,fun o => (object o).seen,fun o => (object o).ended,
    fun o => (object o).begun⟩

section Counting
variable {v : Nat → List Area} {b : Books} {m start stop : Nat} {l : List Area}

lemma uses_update (here : m ∈ live) (l : List Area) (o : Nat) :
    uses (update v m l) live o + (v m).countP (fun a => a.shmem = some o) = uses v live o + l.countP fun a => a.shmem = some o := by
  have rest : ∑ j ∈ live.erase m,(update v m l j).countP (fun a => a.shmem = some o) = ∑ j ∈ live.erase m,(v j).countP fun a => a.shmem = some o :=
    Finset.sum_congr rfl fun j inside => by rw [update_of_ne (Finset.mem_erase.mp inside).1]
  unfold uses
  rw [← Finset.add_sum_erase live _ here,← Finset.add_sum_erase live (fun j => (v j).countP _) here,rest,update_self]
  omega

lemma Law.replace (law : Law v b) (here : m ∈ b.live) (counts : ∀ o,l.countP (fun a => a.shmem = some o) = (v m).countP fun a => a.shmem = some o)
    (good : ∀ a ∈ l,Good b m a) : Law (update v m l) b := by
  have same : ∀ o,uses (update v m l) b.live o = uses v b.live o := fun o => by
    have := uses_update (v := v) here l o
    rw [counts] at this
    omega
  refine .of_objects (fun j out => ?_) (fun j a mem => ?_) fun o => ?_
  · have ne : j ≠ m := fun eq => out (eq ▸ here)
    rw [update_of_ne ne]
    exact law.gone j out
  · rcases eq_or_ne j m with rfl | ne
    · rw [update_self] at mem
      exact good a mem
    rw [update_of_ne ne] at mem
    exact law.good j a mem
  rw [same]
  exact law.object o

lemma Law.perm (law : Law (update v m l) b) (here : m ∈ b.live) (perm : l'.Perm l) : Law (update v m l') b := by
  have next := law.replace (l := l') here (fun o => by rw [perm.countP_eq,update_self]) fun a mem =>
    law.good m a (by rw [update_self]; exact perm.mem_iff.mp mem)
  rwa [update_idem] at next

lemma Good.resized (good : Good b m a) (low : a.start ≤ start) (high : stop ≤ a.stop) : Good b m (resized a start stop) where
  plain := good.plain
  named shared := by
    obtain ⟨o,eq,view⟩ := good.named shared
    refine ⟨o,eq,fun addr inside => ?_⟩
    have inside : start ≤ addr ∧ addr < stop := inside
    rw [view addr ⟨by omega,by omega⟩]
    have shared : isShared a.flags = true := shared
    simp only [Vmm.resized,shared,if_true,Option.some.injEq,Prod.mk.injEq,true_and]
    omega

end Counting

section Destroy
variable {τ : Type} {v : Nat → List Area} {w : World τ} {m : Nat} {a : Area} {rest : List Area}

lemma countP_cons_self (eq : a.shmem = some o) : (a :: rest).countP (fun a => a.shmem = some o) = rest.countP (fun a => a.shmem = some o) + 1 :=
  List.countP_cons_of_pos (by simpa using eq)

lemma countP_cons_other (ne : a.shmem ≠ some o) : (a :: rest).countP (fun a => a.shmem = some o) = rest.countP fun a => a.shmem = some o :=
  List.countP_cons_of_neg (by simpa using ne)

lemma Law.drop (law : Law (update v m (a :: rest)) b) (here : m ∈ b.live) (same : a.shmem = some o) (got : b.shmem o = some obj) :
    Law (update v m rest) {b with shmem:=update b.shmem o (if obj.ref - 1 = 0 then none else some {obj with ref:=obj.ref - 1})} := by
  have count : ∀ i,uses (update v m rest) b.live i + (a :: rest).countP (fun a => a.shmem = some i) =
      uses (update v m (a :: rest)) b.live i + rest.countP fun a => a.shmem = some i := fun i => by
    have := uses_update (v := update v m (a :: rest)) here rest i
    rwa [update_idem,update_self] at this
  have mine := count o
  rw [countP_cons_self same] at mine
  have others : ∀ i ≠ o,uses (update v m rest) b.live i = uses (update v m (a :: rest)) b.live i := fun i differ => by
    have := count i
    rw [countP_cons_other (by rw [same]; simpa using differ.symm)] at this
    omega
  have ref := law.ref o obj got
  have made : b.made o = true := by
    by_contra unmade
    have := (law.begun o (by simpa using unmade)).1
    rw [got] at this
    cases this
  refine .of_objects (fun j out => ?_) (fun j c mem => ?_) fun i => ?_
  · have ne : j ≠ m := fun eq => out (eq ▸ here)
    have := law.gone j out
    rwa [update_of_ne ne] at this ⊢
  · refine ⟨(law.good j c ?_).plain,(law.good j c ?_).named⟩ <;>
    · rcases eq_or_ne j m with rfl | ne
      · rw [update_self] at mem ⊢
        exact List.mem_cons_of_mem _ mem
      rwa [update_of_ne ne] at mem ⊢
  dsimp only
  rcases eq_or_ne i o with rfl | differ
  · have seen := law.seen i (by omega)
    have begun : b.made i = false → False := fun unmade => by simp [made] at unmade
    rw [update_self]
    split
    · exact ⟨nofun,fun _ => by omega,nofun,fun _ => seen,fun _ _ => seen,fun unmade => (begun unmade).elim⟩
    refine ⟨fun x kept => ?_,nofun,fun _ _ _ => by omega,fun _ => seen,nofun,fun unmade => (begun unmade).elim⟩
    cases kept
    dsimp only
    omega
  rw [update_of_ne differ,others i differ]
  exact law.object i

lemma vmaDestroy_run (here : m ∈ w.live) (rest : List Area) : (vmaDestroy a w).Meets
      (fun _ t => (∃ f,t = {w with shmem:=f}) ∧ (Law (update v m (a :: rest)) w.toBooks → Law (update v m rest) t.toBooks))
      (fun _ _ => False) fun _ => ¬ Law (update v m (a :: rest)) w.toBooks := by
  have mine : a ∈ update v m (a :: rest) m := by simp
  unfold vmaDestroy
  cases shared : isShared a.flags with
  | false =>
    refine ⟨⟨w.shmem,rfl⟩,fun law => ?_⟩
    have plain := (law.good m a mine).plain shared
    have next := law.replace (l := rest) here (fun o => ?_) fun c mem => law.good m c (by simp [mem])
    · rwa [update_idem] at next
    rw [update_self,countP_cons_other (by simp [plain])]
  | true =>
    simp only [if_true]
    cases eq : a.shmem with
    | none =>
      intro law
      obtain ⟨o,named,-⟩ := (law.good m a mine).named shared
      rw [eq] at named
      cases named
    | some o =>
      simp only [shmemRefDec,rules]
      cases got : w.shmem o with
      | none =>
        intro law
        have zero := law.dead o got
        have count := uses_update (v := update v m (a :: rest)) here rest o
        rw [update_self,countP_cons_self eq] at count
        omega
      | some obj =>
        simp only [rules,ite_run,shmemDestroy]
        have all : (if obj.ref - 1 = 0 then
            Outcome.ok () {w with shmem:=update (update w.shmem o (some {obj with ref:=obj.ref - 1})) o none}
            else Outcome.ok () {w with shmem:=update w.shmem o (some {obj with ref:=obj.ref - 1})} : Outcome Err Fault (World τ) Unit) =
            .ok () {w with shmem:=update w.shmem o (if obj.ref - 1 = 0 then none else some {obj with ref:=obj.ref - 1})} := by
          split <;> simp
        rw [all]
        exact ⟨⟨_,rfl⟩,fun law => law.drop here eq got⟩

end Destroy
end Ucore.Vmm
