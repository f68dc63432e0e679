import Ucore.Sfs.Lookup

-- sfs_namefile: the walk from a directory up to the root.
namespace Ucore.Sfs
open Bytes Outcomes Ownership Forest

section Namefile
variable {s t u : SfsFs} {stale : Nat → Prop} {d x k : Nat} {r q : Item} {name : CStr}

lemma findinoLoop_run (sound : Sound s stale) (listed : d ∈ s.inodeList) (dir : (s.node d).din.type = sfsTypeDir)
    (n : Nat) : ∀ i,i + n = (s.node d).din.blocks →
    (∃ k,i ≤ k ∧ ∃ m,s.slot d k = some (x,m)) →
    ∃ entry,sfsDirentFindinoLoop d x n i s = .ok entry s := by
  induction n with
  | zero =>
    rintro i all ⟨k,above,m,held⟩
    rw [slot_beyond sound listed (by omega)] at held
    cases held
  | succ n ih =>
    rintro i _ ⟨k,_,m,held⟩
    simp only [sfsDirentFindinoLoop,rules,direntRead_run sound listed dir (show i < _ by omega),ite_run]
    split
    · exact ⟨_,rfl⟩
    rename_i ne
    refine ih (i + 1) (by omega) ⟨k,?_,m,held⟩
    -- slot i does not hold x
    by_contra here
    obtain rfl : k = i := by omega
    rw [slot_entry sound listed dir (by omega),entryOf] at held
    split at held
    · cases held
    exact ne (congrArg Prod.fst (Option.some.inj held))

lemma findino_run (tidy : Tidy s) (opened : Open s d r) (entry : r.slot k = some (x,name)) : ∃ e,sfsDirentFindinoNolock d x s = .ok e s := by
  simp only [sfsDirentFindinoNolock,rules]
  exact findinoLoop_run tidy opened.listed opened.type _ 0 (by omega) ⟨k,Nat.zero_le k,name,by rw [opened.slot]; exact entry⟩

structure Linked (ns : Ns) (d : Nat) (r : Item) : Prop where
  found : ns d = some r
  dir : r.type = sfsTypeDir
  present : r.removed = false

lemma Linked.parent {ns : Ns} (linked : Linked ns d r) (sane : ns.Sane) (attached : ns.Attached) (ne : d ≠ sfsBlknRoot) :
    ns.above d = some r.parent ∧ ∃ q k n,Linked ns r.parent q ∧ q.slot k = some (d,n) := by
  have seen := Ns.dir_found linked.found linked.dir
  obtain ⟨p,mem⟩ := attached d _ seen linked.present ne
  obtain ⟨parent,q,n,got,held⟩ := sane.home seen mem
  have parent : r.parent = p.1 := parent
  obtain ⟨dir,present,_⟩ := sane.named p.1 q p.2 d n got held
  exact ⟨Ns.above_dir ne seen linked.present,q,p.2,n,⟨parent ▸ got,dir,present⟩,held⟩

lemma Stands.parent (stands : Stands s t d r) (dir : r.type = sfsTypeDir) (goal : s.ns r.parent = some q) (kind : q.type = sfsTypeDir) :
    (sfsLoadParent d t).Meets (fun x u => x = r.parent ∧ Went t u (t.ns.alter r.parent Item.incRefs))
      (fun e u => e = .eNoMem ∧ (∃ n,t.heap n = false) ∧ Went t u t.ns) (fun _ => False) := by
  have opened := stands.opened dir
  have parent : (t.node d).din.parent = r.parent := by
    have eq := (listed_of opened.found opened.held).2
    exact congrArg Item.parent eq
  have live : t.ns r.parent = some (if r.parent = d then q.incRefs else q) := by
    rw [stands.went.ns]
    exact Ns.alter_back goal
  simp only [sfsLoadParent,rules,parent]
  rcases load_live stands.went.tidy live with ⟨fails,u,failed,went⟩ | ⟨_,unknown,_⟩ | ⟨_,_,u,got,load⟩
  · rw [failed]
    exact ⟨rfl,fails.2.elim (fun full => ⟨_,full⟩) fun full => ⟨_,full⟩,went⟩
  · refine absurd (.inl ?_) unknown
    split <;> exact kind
  rw [got]
  exact ⟨rfl,load.went⟩

section
variable (cons : Consistent s) (attached : s.ns.Attached)
include cons attached

lemma namefileLoop_up (stands : Stands s t d r) (linked : Linked s.ns d r) (ne : d ≠ sfsBlknRoot) (apart : r.parent ≠ d) :
    (∃ u,(∃ n,s.heap n = false) ∧ Went s u s.ns ∧ ∀ resid acc,sfsNamefileLoop d resid acc t = .err .eNoMem u) ∨
    (∃ u v w q,∃ name : CStr,Stands s u r.parent q ∧ Linked s.ns r.parent q ∧ Went s v s.ns ∧ w = name.strlen + 1 ∧ ∀ resid acc,
      sfsNamefileLoop d resid acc t = if w > resid then .err .eNoMem v else sfsNamefileLoop r.parent (resid - w) (name.1 ++ [47] ++ acc) u) := by
  obtain ⟨_,q,k,n,above,held⟩ := linked.parent cons.sane attached ne
  have heap : t.heap = s.heap := stands.went.kept.heap
  have step := stands.parent linked.dir above.found above.dir
  revert step
  cases outcome : sfsLoadParent d t with
  | fault f => exact False.elim
  | err e u =>
    rintro ⟨rfl,full,went⟩
    obtain ⟨v,cut,after⟩ := stands.drop went
    refine .inl ⟨v,heap ▸ full,after,fun resid acc => ?_⟩
    rw [sfsNamefileLoop,if_neg ne]
    simp only [rules,attempt_err outcome,cut]
  | ok x u =>
    rintro ⟨rfl,went⟩
    obtain ⟨v,cut,next⟩ := stands.next above.found went
    obtain ⟨w,dropped',after⟩ := next.drop (.refl next.went.tidy)
    have opened := next.opened above.dir
    obtain ⟨entry,got⟩ := findino_run next.went.tidy opened (show q.incRefs.slot k = some (d,n) from held)
    have free : trylockSin [] r.parent v = .ok () v := trylock_free (opened.removed.trans above.present) (by simp)
    have search : attempt (trylockSin [] r.parent >>= fun _ => sfsDirentFindinoNolock r.parent d) v = .ok (.ok entry) v :=
      attempt_ok (by rw [bind_run,free,next_ok,got])
    refine .inr ⟨v,w,_,q,entry.name,next,above,after,rfl,fun resid acc => ?_⟩
    rw [sfsNamefileLoop,if_neg ne]
    simp only [rules,attempt_ok outcome,cut,next.type,above.dir,Ne.symm apart,ne_eq,Bool.and_self]
    rw [search,next_ok]
    dsimp only
    by_cases large : entry.name.strlen + 1 > resid
    · rw [dif_pos large,if_pos large]
      simp only [rules,dropped']
    rw [dif_neg large,if_neg large]

lemma namefileLoop_run (below : Below s.ns.above sfsBlknRoot d) : ∀ t r,Stands s t d r → Linked s.ns d r → ∀ resid acc,
      (sfsNamefileLoop d resid acc t).Meets (fun _ u => Went s u s.ns) (fun e u => e = .eNoMem ∧ Went s u s.ns) (fun _ => False) := by
  have top : s.ns.above sfsBlknRoot = none := by rw [Ns.above,if_pos rfl]
  induction below with
  | self =>
    intro t r stands linked resid acc
    obtain ⟨v,cut,after⟩ := stands.drop (.refl stands.went.tidy)
    rw [sfsNamefileLoop,if_pos rfl]
    simp only [rules,cut]
    exact after
  | @step d p parent rest ih =>
    intro t r stands linked _ _
    obtain ⟨ne,-⟩ := Ns.above_some parent
    have up := (linked.parent cons.sane attached ne).1
    obtain rfl : r.parent = p := Option.mem_unique up parent
    have apart : r.parent ≠ d := fun eq => (Below.step parent rest).not_self top (by rw [up,eq])
    obtain ⟨u,-,went,ran⟩ | ⟨u,v,w,q,_,next,above,went,rfl,ran⟩ := namefileLoop_up cons attached stands linked ne apart
    · rw [ran]
      exact ⟨rfl,went⟩
    rw [ran]
    exact .ite (fun _ => ⟨rfl,went⟩) fun _ => ih u q next above _ _

lemma sfsNamefile_run (linked : Linked s.ns d r) (held : 0 < r.refs) (below : Below s.ns.above sfsBlknRoot d) (resid : Nat) :
    (sfsNamefile d resid s).Meets (fun _ u => Went s u s.ns) (fun e u => e = .eNoMem ∧ Went s u s.ns) (fun _ => False) := by
  unfold sfsNamefile
  rw [ite_run]
  refine .ite (fun _ => ⟨rfl,.refl cons.tidy⟩) fun _ => ?_
  have asked := cons.asked
  obtain ⟨t,inc,went⟩ := refInc_run asked.tidy (x:=d) linked.found held
  have walk := namefileLoop_run asked attached below t r ⟨asked,linked.found,went⟩ linked
  have memory : kmalloc s = .ok (s.heap s.tick) s.asked := rfl
  rw [bind_run,memory,next_ok,ite_run]
  refine .ite (fun _ => ⟨rfl,.asked cons.tidy⟩) fun _ => ?_
  rw [bind_run,inc,next_ok,bind_run]
  refine (walk (resid - 2) []).next (fun a u done => ?_) (fun e u done => ⟨done.1,?_⟩) (fun _ h => h)
  · exact (Went.asked cons.tidy).after done
  exact (Went.asked cons.tidy).after done.2

end

end Namefile
end Ucore.Sfs
