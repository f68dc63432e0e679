import Ucore.Sfs.Rename
import Ucore.Sfs.Tree

-- Path lookup: a walk that holds one inode at a time.
namespace Ucore.Sfs
open Bytes Outcomes Ownership Item Ns

section Walk
variable {s t u : SfsFs} {d x : Nat} {r q : Item} {name path : CStr}

lemma Tidy.alive (tidy : Tidy s) (found : s.ns x = some q) : 0 < q.refs ∨ q.nlinks ≠ 0 := by
  obtain ⟨mem,rfl⟩ := ns_some found
  by_cases listed : x ∈ s.inodeList
  · rw [item_listed listed]
    exact .inl (tidy.held listed).refs
  exact .inr ((tidy.fine x mem).linked listed)

lemma Consistent.hold (cons : Consistent s) (went : Went s t (s.ns.alter x incRefs)) : Consistent t := ⟨went.tidy,went.ns ▸ cons.sane.hold x⟩

structure Stands (s t : SfsFs) (d : Nat) (r : Item) : Prop where
  cons : Consistent s
  found : s.ns d = some r
  went : Went s t (s.ns.alter d incRefs)

section
variable (stands : Stands s t d r)
include stands

lemma Stands.here : t.ns d = some r.incRefs := by
  rw [stands.went.ns]
  exact alter_self stands.found _

lemma Stands.type : (t.node d).din.type = r.type := node_type (q:=r.incRefs) stands.here (Nat.succ_pos _)

lemma Stands.opened (dir : r.type = sfsTypeDir) : Open t d r.incRefs := ⟨stands.here,Nat.succ_pos _,dir⟩

lemma Stands.drop (went : Went t u t.ns) : ∃ v,vopRefDec [] d u = .ok () v ∧ Went s v s.ns := by
  have here : u.ns d = some r.incRefs := by
    rw [went.ns]
    exact stands.here
  obtain ⟨v,ran,after,_⟩ := refDec_run went.tidy here [] (stands.cons.drop stands.found [] (by simp))
  rw [went.ns,stands.went.ns,release_hold stands.found (stands.cons.tidy.alive stands.found)] at after
  rw [stands.went.ns] at went
  exact ⟨v,ran,(stands.went.trans went (hold_stays s.ns d)).trans after (hold_stays s.ns d)⟩

lemma Stands.next (goal : s.ns x = some q) (went : Went t u (t.ns.alter x incRefs)) : ∃ v,vopRefDec [] d u = .ok () v ∧ Stands s v x q := by
  have cons := stands.cons
  have here : u.ns d = some (if d = x then r.incRefs.incRefs else r.incRefs) := by
    rw [went.ns]
    exact alter_back stands.here
  have droppable : Droppable (if d = x then r.incRefs.incRefs else r.incRefs) d [] := by
    have opens := cons.tidy.opens stands.found
    have gone : r.removed = true → r.nlinks = 0 := cons.sane.links_removed stands.found
    have root : r.nlinks = 0 → d ≠ sfsBlknRoot := fun none => (cons.sane.unlinked cons.tidy.bounded stands.found none).2.2
    refine ⟨?_,?_,?_,fun _ => by simp⟩
    · split
      · change r.opens < r.refs + 1 + 1
        omega
      exact Nat.lt_succ_of_le opens
    · split <;> exact gone
    split <;> exact fun _ => root
  obtain ⟨v,ran,after,_⟩ := refDec_run went.tidy here _ droppable
  rw [went.ns] at after
  rw [stands.went.ns] at went after
  rw [release_instead stands.found (cons.tidy.alive stands.found)] at after
  exact ⟨v,ran,cons,goal,(stands.went.trans went (hold_stays s.ns d)).trans after fun j live => hold_stays _ x j (hold_stays s.ns d j live)⟩

end

lemma load_live (tidy : Tidy s) (found : s.ns x = some q) : Loads s x q.type := by
  obtain ⟨mem,rfl⟩ := ns_some found
  exact load_run tidy mem

lemma lookupOnce_run (cons : Consistent s) (opened : Open s d r) (short : name.strlen ≤ sfsMaxFnameLen) : (sfsLookupOnce d name s).Meets
      (fun x t => ∃ k q,r.slot k = some (x,name) ∧ s.ns x = some q ∧ Went s t (s.ns.alter x incRefs))
      (fun _ t => Went s t s.ns) (fun f => f = .invalidType) := by
  have tidy := cons.tidy
  refine opened.search tidy short fun a gone seek => ?_
  cases a with
  | noent _ => exact .asked tidy
  | found x k =>
    obtain ⟨q,goal,_,_,cases_⟩ := load_entry cons.asked opened.asked.found seek.2
    rcases cases_ with ⟨_,t,failed,went⟩ | ⟨_,_,failed⟩ | ⟨_,_,t,got,load⟩
    · simp only [failed]
      exact (Went.asked tidy).after went
    · simp only [failed]
      rfl
    simp only [got]
    exact ⟨k,q,seek.2,goal,(Went.asked tidy).after load.went⟩

lemma loadParent_run (cons : Consistent s) (opened : Open s d r) (upheld : s.ns.Upheld) : (sfsLoadParent d s).Meets
      (fun x t => x = r.parent ∧ ∃ q,s.ns x = some q ∧ q.type = sfsTypeDir ∧ q.removed = false ∧ Went s t (s.ns.alter x incRefs))
      (fun e t => e = .eNoMem ∧ Went s t s.ns) (fun _ => False) := by
  obtain ⟨e,seen,present⟩ := upheld d _ (dir_found opened.found opened.dir)
  obtain ⟨q,found,dir,rfl⟩ := dir_some seen
  have parent : (s.node d).din.parent = r.parent := by
    rw [← (listed_of opened.found opened.held).2]
    rfl
  simp only [sfsLoadParent,rules,parent]
  rcases load_live cons.tidy found with ⟨_,t,failed,went⟩ | ⟨_,unknown,_⟩ | ⟨_,_,t,got,load⟩
  · rw [failed]
    exact ⟨rfl,went⟩
  · exact absurd (.inl dir) unknown
  rw [got]
  exact ⟨rfl,q,found,dir,present,load.went⟩

def Straight (path : CStr) : Prop :=
  match _split : sfsLookupSubpath path with
  | (name,none) => name ≠ dotDot
  | (name,some sub) => name ≠ dotDot ∧ Straight sub
termination_by path.1.length
decreasing_by exact lookupSubpath_shorter _split

lemma lookupStep_run (cons : Consistent s) (opened : Open s d r) (way : s.ns.Upheld ∨ name ≠ dotDot) :
    (sfsLookupStep d name s).Meets (fun x t => ∃ q,s.ns x = some q ∧ Went s t (s.ns.alter x incRefs))
      (fun _ t => Went s t s.ns) (fun f => f = .invalidType) := by
  unfold sfsLookupStep
  split
  next up =>
    have done := loadParent_run cons opened (way.resolve_right fun ne => ne up)
    revert done
    cases sfsLoadParent d s with
    | ok x t =>
      rintro ⟨_,q,found,_,_,went⟩
      exact ⟨q,found,went⟩
    | err e t => exact And.right
    | fault f => exact False.elim
  split
  · exact .refl cons.tidy
  rename_i long
  have done := lookupOnce_run cons opened (Nat.le_of_not_lt long)
  revert done
  cases sfsLookupOnce d name s with
  | ok x t =>
    rintro ⟨_,q,_,found,went⟩
    exact ⟨q,found,went⟩
  | err e t => exact id
  | fault f => exact id

lemma lookupNext_run (stands : Stands s t d r) (dir : r.type = sfsTypeDir) (way : s.ns.Upheld ∨ name ≠ dotDot) :
    (sfsLookupNext d name t).Meets (fun x u => ∃ q,Stands s u x q) (fun _ u => Went s u s.ns) (fun f => f = .invalidType) := by
  have way' : t.ns.Upheld ∨ name ≠ dotDot := by
    rw [stands.went.ns]
    simpa only [Ns.Upheld,dir_hold] using way
  have done := lookupStep_run (stands.cons.hold stands.went) (stands.opened dir) way'
  revert done
  simp only [sfsLookupNext,rules]
  cases outcome : sfsLookupStep d name t with
  | ok x u =>
    rintro ⟨q,found,went⟩
    obtain ⟨q',goal⟩ : ∃ q',s.ns x = some q' := by
      rw [stands.went.ns] at found
      obtain ⟨q',old,_⟩ := alter_some found
      exact ⟨q',old⟩
    obtain ⟨v,cut,next⟩ := stands.next goal went
    simp only [attempt_ok outcome,rules,cut]
    exact ⟨q',next⟩
  | err e u =>
    intro went
    obtain ⟨v,cut,after⟩ := stands.drop went
    simp only [attempt_err outcome,rules,cut]
    exact after
  | fault f =>
    intro seen
    simp only [attempt_fault outcome,next_fault]
    exact seen

lemma Straight.here (straight : Straight path) (split : sfsLookupSubpath path = (name,rest)) : name ≠ dotDot := by
  rw [Straight] at straight
  split at straight
  next eq =>
    rw [split] at eq
    obtain ⟨rfl,_⟩ := Prod.mk.inj eq
    exact straight
  next eq =>
    rw [split] at eq
    obtain ⟨rfl,_⟩ := Prod.mk.inj eq
    exact straight.1

lemma Straight.rest (straight : Straight path) (split : sfsLookupSubpath path = (name,some sub)) : Straight sub := by
  rw [Straight] at straight
  split at straight
  next eq =>
    rw [split] at eq
    cases eq
  rename_i eq
  rw [split] at eq
  obtain ⟨_,rest⟩ := Prod.mk.inj eq
  cases rest
  exact straight.2

def walkOn (last : Nat → CStr → SfsM α) (loop : Nat → CStr → SfsM α) (d : Nat) : CStr × Option CStr → SfsM α
  | (name,none) => last d name
  | (name,some sub) => if name = dot then loop d sub else sfsLookupNext d name >>= fun x => loop x sub

def Walks (last loop : Nat → CStr → SfsM α) : Prop :=
  ∀ d path,loop d path = (state >>= fun s =>
    if (s.node d).din.type ≠ sfsTypeDir then (vopRefDec [] d >>= fun _ => fail .eNotdir) else walkOn last loop d (sfsLookupSubpath path))

lemma lookupLoop_walks : Walks (fun d name => if name = dot then pure d else sfsLookupNext d name) sfsLookupLoop := by
  intro d _
  rw [sfsLookupLoop]
  congr 1
  funext s
  congr 1
  split
  all_goals
    rename_i split
    rw [split]
    rfl

lemma lookupParentLoop_walks : Walks (fun d name => pure (d,name)) sfsLookupParentLoop := by
  intro d _
  rw [sfsLookupParentLoop]
  congr 1
  funext s
  congr 1
  split
  all_goals
    rename_i split
    rw [split]
    rfl

lemma Walks.run {last loop : Nat → CStr → SfsM α} (walks : Walks last loop) (good : α → SfsFs → Prop)
    (ends : ∀ {d name t r},Stands s t d r → r.type = sfsTypeDir → (s.ns.Upheld ∨ name ≠ dotDot) →
      (last d name t).Meets good (fun _ u => Went s u s.ns) (fun f => f = .invalidType)) (n : Nat) :
    ∀ (path : CStr) (t : SfsFs) (d : Nat) (r : Item),path.1.length < n → Stands s t d r → (s.ns.Upheld ∨ Straight path) →
    (loop d path t).Meets good (fun _ u => Went s u s.ns) (fun f => f = .invalidType) := by
  induction n with
  | zero => exact fun _ _ _ _ none => absurd none (Nat.not_lt_zero _)
  | succ n ih =>
    intro path t d r _ stands way
    simp only [walks d path,rules,ite_run,stands.type]
    split
    · obtain ⟨v,cut,after⟩ := stands.drop (.refl stands.went.tidy)
      simp only [cut,rules]
      exact after
    rename_i dir
    have dir := not_not.mp dir
    cases split : sfsLookupSubpath path with
    | mk name rest =>
      have way' : s.ns.Upheld ∨ name ≠ dotDot := way.imp_right fun straight => straight.here split
      cases rest with
      | none => exact ends stands dir way'
      | some sub =>
        have less := lookupSubpath_shorter split
        have rest : s.ns.Upheld ∨ Straight sub := way.imp_right fun straight => straight.rest split
        simp only [walkOn,ite_run]
        split
        · exact ih sub t d r (by omega) stands rest
        have done := lookupNext_run stands dir way'
        revert done
        simp only [rules]
        cases sfsLookupNext d name t with
        | ok x u =>
          rintro ⟨q,next⟩
          exact ih sub u x q (by omega) next rest
        | err e u => exact id
        | fault f => exact id

lemma refInc_run (tidy : Tidy s) (found : s.ns x = some q) (held : 0 < q.refs) : ∃ t,vopRefInc x s = .ok () t ∧ Went s t (s.ns.alter x incRefs) :=
  ⟨_,rfl,(refInc_went tidy (listed_of found held).1).1⟩

section
variable (cons : Consistent s) (found : s.ns d = some r) (held : 0 < r.refs) (way : s.ns.Upheld ∨ Straight path)
include cons found held way

lemma sfsLookup_run : (sfsLookup d path s).Meets (fun x t => ∃ q,s.ns x = some q ∧ Went s t (s.ns.alter x incRefs))
      (fun _ t => Went s t s.ns) (fun f => f = .invalidType ∨ f = .lookupPath) := by
  obtain ⟨t,inc,went⟩ := refInc_run cons.tidy found held
  simp only [sfsLookup,rules]
  split
  · have done := lookupLoop_walks.run (fun x u => ∃ q,Stands s u x q) (fun {d name t r} stands dir way => by
      rw [ite_run]
      split
      · exact ⟨r,stands⟩
      exact lookupNext_run stands dir way) (path.1.length + 1) path t d r (Nat.lt_succ_self _) ⟨cons,found,went⟩ way
    revert done
    simp only [rules,inc]
    cases sfsLookupLoop d path t with
    | ok x u =>
      rintro ⟨q,stands⟩
      exact ⟨q,stands.found,stands.went⟩
    | err e u => exact id
    | fault f => exact .inl
  exact .inr rfl

end

end Walk
end Ucore.Sfs
