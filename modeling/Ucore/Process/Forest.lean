import Ucore.Process.Tree

-- The loops of do_wait, the tree as a forest, and whole runs.
namespace Ucore.Proc
open Runs Links Ucore.Sync
open List (mem_singleton)

section Loops
variable {s u : Table} {t z pid : Nat}

lemma Law.children (law : Law s) (kin : Family s kids) (p : Nat) : s.children p = kids p := by
  refine (kin.chain p).walk ?_
  have cap := kin.length_le p
  rw [law.count]
  omega

lemma Law.roster (law : Law s) : ∃ set : Finset Nat,(∀ p,s.status p = .live → p ∈ set) ∧ (∀ p ∈ set,s.nextThread p ∈ set) ∧ set.card ≤ s.nrProcess := by
  let set := Finset.range s.lcpuCount ∪ s.procList.toFinset
  have inside (p : Nat) (alive : s.status p = .live) : p ∈ set := by
    rcases lt_or_ge p s.lcpuCount with low | high
    · exact Finset.mem_union_left _ (Finset.mem_range.mpr low)
    exact Finset.mem_union_right _ (List.mem_toFinset.mpr ((law.listed p).mpr ⟨.inl alive,high⟩))
  refine ⟨set,inside,fun p mem => ?_,?_⟩
  · by_cases lone : s.nextThread p = p
    · rw [lone]
      exact mem
    refine inside _ ?_
    by_contra dead
    exact lone (law.wheel.next_inj (law.alone _ dead))
  have union : set.card ≤ _ := Finset.card_union_le (Finset.range s.lcpuCount) s.procList.toFinset
  have list := List.toFinset_card_le s.procList
  rw [Finset.card_range] at union
  rw [law.count]
  omega

lemma Law.threads (law : Law s) (live : s.status t = .live) (together : Together s.nextThread t x) : x ∈ s.threads t := by
  obtain ⟨set,low,shut,small⟩ := law.roster
  exact law.wheel.round_all set shut (low t live) small together

lemma threads_together (mem : p ∈ s.threads t) : Together s.nextThread t p := round_together mem ⟨0,rfl⟩

lemma Law.search (law : Law s) (got : s.search t pid = .found z) :
    z ∈ s.procList ∧ s.status z = .zombie ∧ ∃ p,s.parent z = some p ∧ Together s.nextThread t p := by
  unfold Table.search at got
  split at got
  · split at got
    · cases got
    next child lookup =>
    split at got
    · next group =>
      split at got
      · next zombie =>
        cases got
        obtain ⟨p,mem,parent⟩ := List.any_eq_true.mp group
        unfold Table.findProc at lookup
        split at lookup
        · have hashed := List.mem_of_find?_eq_some lookup
          exact ⟨((law.hashed _ z).mp hashed).1,zombie,p,of_decide_eq_true parent,threads_together mem⟩
        cases lookup
      cases got
    cases got
  dsimp only at got
  split at got
  · next _ lookup =>
    cases got
    have zombie := List.find?_some lookup
    obtain ⟨p,mem,on⟩ := List.mem_flatMap.mp (List.mem_of_find?_eq_some lookup)
    obtain ⟨_,kin⟩ := law.family
    rw [law.children kin] at on
    obtain ⟨low,parent⟩ := (kin.member p z).mp on
    exact ⟨low,of_decide_eq_true zombie,p,parent,threads_together mem⟩
  split at got <;> cases got

lemma kill_rest (s : Table) (pid : Nat) (code : Int) : ∃ procs codes,s.step (.kill pid code) = {s with procs:=procs,exitCode:=codes} := by
  change ∃ procs codes,(s.findProc pid).elim s (s.doKill code) = {s with procs:=procs,exitCode:=codes}
  cases s.findProc pid with
  | none => exact ⟨_,_,rfl⟩
  | some p => exact doKill_rest s code p

-- do_wait reaps a zombie, or only the caller goes on or sleeps.
lemma doWait_cases (s : Table) (t pid : Nat) : (∃ z,s.search t pid = .found z ∧ s.doWait t pid = {s.reap z with mode:=put s.mode t .run}) ∨
    ∃ mode procs,s.doWait t pid = {s with mode:=mode,procs:=procs} ∧ ∀ x c,mode x = .forking c → s.mode x = .forking c := by
  unfold Table.doWait
  cases s.search t pid with
  | found z => exact .inl ⟨z,rfl,rfl⟩
  | busy =>
    refine .inr ⟨_,_,rfl,fun x c forks => ?_⟩
    rcases eq_or_ne x t with rfl | ne
    · rw [put_same] at forks
      cases forks
    rwa [put_other ne] at forks
  | childless => exact .inr ⟨_,_,rfl,fun x c forks => (run_forking t x c forks).1⟩

lemma Law.wait (law : Law s) (t pid : Nat) : Law (s.doWait t pid) := by
  rcases doWait_cases s t pid with ⟨z,got,form⟩ | ⟨_,procs,form,modes⟩
  · obtain ⟨mem,zombie,_⟩ := law.search got
    rw [form]
    exact (law.reap mem zombie).quiet (fun x c forks => (run_forking t x c forks).1) _ _
  rw [form]
  exact law.quiet modes s.exitCode procs

lemma Law.step (law : Law s) (moved : s.Move e u) : Law u := by
  obtain ⟨may,rfl⟩ := moved
  cases e with
  | alloc t c => exact law.alloc may.1.1 may.2.2.2
  | link t c thread pid => exact law.link may.2 thread pid
  | fail t c => exact law.drop may.2
  | exit t how =>
    obtain ⟨⟨live,_⟩,high,idle,_⟩ := may
    refine law.exited (law.exits live high how) live high fun c forks => ?_
    rw [forks] at idle
    cases idle
  | wait t pid => exact law.wait t pid
  | kill pid code =>
    obtain ⟨procs,codes,form⟩ := kill_rest s pid code
    rw [form]
    exact law.quiet (fun _ _ forks => forks) codes procs
  | exec t => exact law.exec t

end Loops

def Table.Forest (s : Table) : Prop := ∃ depth : Nat → Nat,∀ c ∈ s.procList,∀ p,s.parent c = some p → depth p < depth c

def Table.Below (s : Table) (t x : Nat) : Prop := Relation.TransGen (fun c p => c ∈ s.procList ∧ s.parent c = some p) x t

def Table.Fit (s : Table) : Event → Prop
  | .exit t _ => s.nextThread t ≠ t → ¬ s.Below t (s.nextThread t)
  | _ => True

section Forests
variable {s u : Table} {t c : Nat}

lemma Below.cases (below : s.Below t c) : c ∈ s.procList ∧ (s.parent c = some t ∨ ∃ p,s.parent c = some p ∧ s.Below t p) := by
  rcases Relation.TransGen.head'_iff.mp below with ⟨p,⟨mem,parent⟩,rest⟩
  rcases Relation.reflTransGen_iff_eq_or_transGen.mp rest with rfl | further
  · exact ⟨mem,.inl parent⟩
  exact ⟨mem,.inr ⟨p,parent,further⟩⟩

lemma Law.heir_above (law : Law s) (high : s.initproc < t) (fit : s.Fit (.exit t how)) : ¬ s.Below t (s.heir t) := by
  unfold Table.heir
  split
  · intro below
    have low : s.lcpuCount < t := high
    rcases (Below.cases below).2 with parent | ⟨p,parent,further⟩
    · rw [law.init.2] at parent
      have zero := Option.some.inj parent
      omega
    rw [law.init.2] at parent
    cases parent
    have mem := ((law.listed 0).mp (Below.cases further).1).2
    have cpus := law.cpus
    omega
  next group => exact fit group

lemma Table.Forest.mono (forest : s.Forest) (eq : ∀ c ∈ u.procList,c ∈ s.procList ∧ u.parent c = s.parent c) : u.Forest := by
  obtain ⟨depth,deeper⟩ := forest
  refine ⟨depth,fun c mem p parent => ?_⟩
  obtain ⟨was,above⟩ := eq c mem
  exact deeper c was p (above ▸ parent)

lemma Table.Forest.exited (forest : s.Forest) (done : Exited s t u) (above : ¬ s.Below t (s.heir t)) : u.Forest := by
  classical
  obtain ⟨depth,deeper⟩ := forest
  obtain ⟨⟨parent,_,_,_,_,_,_,_,rfl⟩,_,parents,_,_⟩ := done
  refine ⟨fun x => if s.Below t x then depth x + depth (s.heir t) + 1 else depth x,fun c mem p leads => ?_⟩
  have low : c ∈ s.procList := mem
  rw [parents] at leads
  dsimp only
  by_cases orphan : s.parent c = some t
  · rw [if_pos ⟨low,orphan⟩] at leads
    cases leads
    rw [if_neg above,if_pos (.single ⟨low,orphan⟩)]
    omega
  rw [if_neg fun both => orphan both.2] at leads
  have less := deeper c low p leads
  have eq : s.Below t c ↔ s.Below t p := by
    refine ⟨fun below => ?_,fun below => .head ⟨low,leads⟩ below⟩
    rcases (Below.cases below).2 with direct | ⟨q,parent,further⟩
    · exact absurd direct orphan
    rw [leads] at parent
    cases parent
    exact further
  by_cases below : s.Below t p
  · rw [if_pos below,if_pos (eq.mpr below)]
    omega
  rw [if_neg below,if_neg fun also => below (eq.mp also)]
  exact less

lemma Law.forest_step (law : Law s) (forest : s.Forest) (moved : s.Move e u) (fit : s.Fit e) : u.Forest := by
  obtain ⟨may,rfl⟩ := moved
  cases e with
  | alloc t c =>
    refine forest.mono fun x mem => ⟨mem,put_other ?_⟩
    rintro rfl
    exact (law.fresh_outside (.inr may.2.2.2)).1 mem
  | link t c thread pid =>
    obtain ⟨live,new,parent⟩ := law.forking t c may.2
    obtain ⟨out,_,childless⟩ := law.fresh_outside (.inl new)
    obtain ⟨depth,deeper⟩ := forest
    obtain ⟨list,parents,_⟩ := linkProc_frame (law.forking t c may.2).2.2 thread pid
    have away : t ≠ c := ne_of_apply_ne s.status (by simp [live,new])
    refine ⟨put depth c (depth t + 1),fun x mem p above => ?_⟩
    change x ∈ (s.linkProc t c thread pid).procList at mem
    change (s.linkProc t c thread pid).parent x = some p at above
    rw [list] at mem
    rw [parents] at above
    rcases List.mem_cons.mp mem with rfl | old
    · rw [parent] at above
      cases above
      rw [put_same,put_other away]
      omega
    rw [put_other (by rintro rfl; exact childless x old above),put_other (by rintro rfl; exact out old)]
    exact deeper x old p above
  | fail t c => exact forest.mono fun x mem => ⟨mem,rfl⟩
  | exit t how => exact forest.exited (law.exits may.1.1 may.2.1 how) (law.heir_above may.2.1 fit)
  | wait t pid =>
    change (s.doWait t pid).Forest
    rcases doWait_cases s t pid with ⟨z,_,form⟩ | ⟨_,procs,form,_⟩
    · rw [form]
      exact forest.mono fun x mem => ⟨List.mem_of_mem_erase mem,rfl⟩
    rw [form]
    exact forest
  | kill pid code =>
    obtain ⟨_,_,form⟩ := kill_rest s pid code
    rw [form]
    exact forest
  | exec t =>
    obtain ⟨_,_,form⟩ := deThread_rest s t
    change (s.deThread t).Forest
    rw [form]
    exact forest

end Forests

-- The links of a state: the child lists, doubly linked, with every process but the idle
-- ones in that of its live parent and in no other; the lists of all processes.
structure Tree (s : Table) : Prop where
  links : ∃ kids : Nat → List Nat,∀ p,Chain s.optr s.yptr none (s.cptr p) (kids p) ∧ (kids p).Nodup ∧ ∀ c,c ∈ kids p ↔ c ∈ s.procList ∧ s.parent c = some p
  inverse : ∀ x ∈ s.procList,∀ y ∈ s.procList,s.optr x = some y ↔ s.yptr y = some x
  parents : ∀ c ∈ s.procList,∃ p,s.parent c = some p ∧ s.status p = .live
  forest : s.Forest
  listed : s.procList.Nodup ∧ ∀ p,p ∈ s.procList ↔ (s.status p = .live ∨ s.status p = .zombie) ∧ s.lcpuCount ≤ p
  hashed : ∀ b,(s.hashList b).Nodup ∧ ∀ p,p ∈ s.hashList b ↔ p ∈ s.procList ∧ pidHashfn (s.pid p) = b
  count : s.nrProcess = s.procList.length + s.lcpuCount

-- The steps: the children of a process that exits go to a live thread of its group or to
-- initproc; a zombie goes once, in a do_wait of a thread of its parent's group, and only
-- from there.
structure Orderly (s : Table) (e : Event) (u : Table) : Prop where
  orphans : ∀ t how,e = .exit t how → ∀ c ∈ s.procList,s.parent c = some t →
    ∃ heir,u.parent c = some heir ∧ u.status heir = .live ∧ (heir = s.initproc ∨ heir ≠ t ∧ Together s.nextThread t heir)
  reaped : ∀ z,s.status z = .zombie → u.status z = .zombie ∧ z ∈ u.procList ∨
    ∃ t pid p,e = .wait t pid ∧ s.parent z = some p ∧ Together s.nextThread t p ∧ u.status z = .free ∧ u.procList = s.procList.erase z ∧ z ∉ u.procList

lemma Law.tree (law : Law s) (forest : s.Forest) : Tree s := by
  obtain ⟨kids,kin⟩ := law.family
  refine ⟨⟨kids,fun p => ⟨kin.chain p,kin.distinct p,kin.member p⟩⟩,fun x mem y also => ?_,law.parents,forest,⟨law.distinct,law.listed⟩,
    fun b => ⟨law.apart b,law.hashed b⟩,law.count⟩
  obtain ⟨p,parent,_⟩ := law.parents x mem
  obtain ⟨q,above,_⟩ := law.parents y also
  have low : x ∈ kids p := (kin.member p x).mpr ⟨mem,parent⟩
  have there : y ∈ kids q := (kin.member q y).mpr ⟨also,above⟩
  refine ⟨fun leads => ?_,fun leads => ?_⟩
  · have here := (kin.chain p).next_mem low leads
    exact ((kin.chain p).inverse (kin.distinct p) (fun _ _ => by simp) low here).mp leads
  rcases (kin.chain q).prev_mem there leads with here | none
  · exact ((kin.chain q).inverse (kin.distinct q) (fun _ _ => by simp) here there).mpr leads
  cases none

lemma Law.orderly (law : Law s) (moved : s.Move e u) : Orderly s e u := by
  have new := law.step moved
  obtain ⟨may,rfl⟩ := moved
  have stays {u : Table} (law' : Law u) {z : Nat} (zombie : u.status z = .zombie) (high : s.lcpuCount ≤ z) (cpus : u.lcpuCount = s.lcpuCount) :
      u.status z = .zombie ∧ z ∈ u.procList := ⟨zombie,(law'.listed z).mpr ⟨.inr zombie,cpus ▸ high⟩⟩
  have high {z : Nat} (zombie : s.status z = .zombie) : s.lcpuCount ≤ z := by
    by_contra low
    rw [law.idle z (by omega)] at zombie
    cases zombie
  refine ⟨fun t how eq c mem parent => ?_,fun z zombie => ?_⟩
  · subst eq
    obtain ⟨⟨live,_⟩,top,_⟩ := may
    have done := law.exits live top how
    obtain ⟨far,alive⟩ := law.heir top
    refine ⟨s.heir t,?_,?_,?_⟩
    · exact (done.parent c).trans (if_pos ⟨mem,parent⟩)
    · obtain ⟨_,_,_,_,_,_,_,_,form⟩ := done.rest
      change (s.exits t how).status _ = .live
      rw [form]
      exact (put_other far).trans alive
    by_cases lone : s.nextThread t = t
    · exact .inl (if_pos lone)
    exact .inr ⟨far,1,(if_neg lone).symm⟩
  have keeps (same : (s.step e).status z = .zombie) (cpus : (s.step e).lcpuCount = s.lcpuCount) := stays new same (high zombie) cpus
  cases e with
  | alloc t c => exact .inl (keeps (put_kept zombie (may.2.2.2.trans_ne nofun)) rfl)
  | link t c thread pid =>
    obtain ⟨_,fresh,parent⟩ := law.forking t c may.2
    obtain ⟨_,_,cpus,status,_⟩ := linkProc_frame parent thread pid
    exact .inl (keeps ((congrFun status z).trans (put_kept zombie (fresh.trans_ne nofun))) cpus)
  | fail t c =>
    obtain ⟨_,fresh,_⟩ := law.forking t c may.2
    exact .inl (keeps (put_kept zombie (fresh.trans_ne nofun)) rfl)
  | exit t how =>
    obtain ⟨_,_,_,_,_,_,_,_,form⟩ := (law.exits may.1.1 may.2.1 how).rest
    have form : s.step (.exit t how) = _ := form
    refine .inl (keeps ?_ ?_)
    · rw [form]
      change put s.status t .zombie z = .zombie
      exact put_kept zombie (may.1.1.trans_ne nofun)
    rw [form]
  | wait t pid =>
    rcases doWait_cases s t pid with ⟨x,got,form⟩ | ⟨_,procs,form,_⟩
    · have form : s.step (.wait t pid) = _ := form
      rw [form] at keeps ⊢
      rcases eq_or_ne z x with rfl | ne
      · obtain ⟨_,_,p,parent,together⟩ := law.search got
        refine .inr ⟨t,pid,p,rfl,parent,together,put_same ..,rfl,?_⟩
        exact fun inside => (law.distinct.mem_erase_iff.mp inside).1 rfl
      exact .inl (keeps ((put_other ne).trans zombie) rfl)
    have form : s.step (.wait t pid) = _ := form
    rw [form] at keeps ⊢
    exact .inl (keeps zombie rfl)
  | kill pid code =>
    obtain ⟨_,_,form⟩ := kill_rest s pid code
    rw [form] at keeps ⊢
    exact .inl (keeps zombie rfl)
  | exec t =>
    obtain ⟨_,_,same⟩ := deThread_rest s t
    have form : s.step (.exec t) = _ := same
    rw [form] at keeps ⊢
    exact .inl (keeps zombie rfl)

lemma Law.first (cpus : 0 < lcpuCount) : Law (.first lcpuCount) := by
  refine ⟨cpus,fun p low => ?_,⟨?_,?_⟩,fun p => ?_,by simp [Table.first],by simp [Table.first]; omega,fun b p => ?_,fun b => ?_,?_,fun c on => ?_,⟨fun _ => rfl,fun _ => rfl⟩,
    fun _ _ => rfl,fun t c forks => ?_⟩
  · exact if_pos (le_of_lt low)
  · exact if_pos (le_refl _)
  · exact if_pos rfl
  · simp only [Table.first,mem_singleton]
    rcases Nat.lt_trichotomy p lcpuCount with low | rfl | high
    · simp [low.ne,not_le.mpr low]
    · simp
    simp [high.ne',not_le.mpr high]
  · simp only [Table.first,mem_singleton]
    by_cases hit : b = pidHashfn lcpuCount
    · rw [if_pos hit,mem_singleton,hit]
      constructor
      · rintro rfl
        exact ⟨rfl,rfl⟩
      exact And.left
    rw [if_neg hit]
    refine ⟨fun mem => (by cases mem),?_⟩
    rintro ⟨rfl,eq⟩
    exact absurd eq.symm hit
  · simp only [Table.first]
    split <;> simp
  · refine ⟨fun p => if p = 0 then [lcpuCount] else [],fun p => ?_,fun p => ?_,fun p c => ?_⟩
    · simp only [Table.first]
      split
      · exact ⟨rfl,rfl,rfl⟩
      rfl
    · split <;> simp
    simp only [Table.first,mem_singleton]
    split
    · next eq =>
      rw [mem_singleton,eq]
      constructor
      · rintro rfl
        simp
      exact And.left
    next ne =>
    refine ⟨fun mem => (by cases mem),?_⟩
    rintro ⟨rfl,eq⟩
    rw [if_pos rfl] at eq
    exact absurd (Option.some.inj eq).symm ne
  · simp only [Table.first,mem_singleton] at on
    exact ⟨0,if_pos on,by simp [Table.first]⟩
  cases forks

lemma first_forest (cpus : 0 < lcpuCount) : (Table.first lcpuCount).Forest := by
  refine ⟨id,fun c mem p parent => ?_⟩
  simp only [Table.first,mem_singleton] at mem parent
  rw [if_pos mem] at parent
  cases parent
  rw [mem]
  exact cpus

-- A thread makes another one and exits: the new one is next in the group and inherits
-- itself.
theorem thread_own_parent : ∃ s,Path Table.Move (.first 1) [.alloc 1 2,.link 1 2 false 2,.alloc 2 3,.link 2 3 true 3,.exit 2 (.thread 0)] s ∧
    s.parent 3 = some 3 ∧ s.status 3 = .live ∧ ¬ s.Forest := by
  obtain ⟨s,ran,listed,own,live⟩ : ∃ s,exec Table.Enabled Table.step (.first 1) [.alloc 1 2,.link 1 2 false 2,.alloc 2 3,.link 2 3 true 3,.exit 2 (.thread 0)] = some s ∧
      3 ∈ s.procList ∧ s.parent 3 = some 3 ∧ s.status 3 = .live := by
    refine ⟨_,rfl,?_⟩
    decide +kernel
  refine ⟨s,exec_path ran,own,live,?_⟩
  rintro ⟨depth,deeper⟩
  exact Nat.lt_irrefl _ (deeper 3 listed 3 own)

theorem process_tree (cpus : 0 < lcpuCount) (path : Path (fun s e u => Table.Move s e u ∧ s.Fit e) (.first lcpuCount) events s) :
    Tree s ∧ ∀ e u,s.Move e u → Orderly s e u := by
  have keeps (s : Table) (e : Event) (u : Table) (both : Law s ∧ s.Forest) (moved : s.Move e u ∧ s.Fit e) : Law u ∧ u.Forest :=
    ⟨both.1.step moved.1,both.1.forest_step both.2 moved.1 moved.2⟩
  obtain ⟨law,forest⟩ := path.invariant keeps ⟨.first cpus,first_forest cpus⟩
  exact ⟨law.tree forest,fun e u moved => law.orderly moved⟩

def Table.Alone (s : Table) : Event → Prop
  | .exit t _ => s.nextThread t = t
  | _ => True

instance (s : Table) (e : Event) : Decidable (s.Alone e) := by
  cases_type Event <;> unfold Table.Alone <;> infer_instance

lemma Table.Alone.fit {s : Table} (alone : s.Alone e) : s.Fit e := by
  cases e with
  | exit t _ => exact fun group => absurd alone group
  | _ => trivial

-- initproc makes a process, which exits and is waited for.
theorem process_tree_reaping : ∃ s,Path (fun s e u => Table.Move s e u ∧ s.Fit e) (.first 1) [.alloc 1 2,.link 1 2 false 2,.exit 2 (.group 0),.wait 1 0] s ∧
    s.status 2 = .free ∧ Tree s ∧ ∀ e u,s.Move e u → Orderly s e u := by
  obtain ⟨s,ran,reaped⟩ : ∃ s,exec (fun s e => Table.Enabled s e ∧ s.Alone e) Table.step (.first 1) [.alloc 1 2,.link 1 2 false 2,.exit 2 (.group 0),.wait 1 0] = some s ∧
      s.status 2 = .free := by
    refine ⟨_,rfl,?_⟩
    decide +kernel
  have path : Path (fun s e u => Table.Move s e u ∧ s.Fit e) (.first 1) [.alloc 1 2,.link 1 2 false 2,.exit 2 (.group 0),.wait 1 0] s :=
    (exec_path ran).mono fun _ _ _ moved => ⟨⟨moved.1.1,moved.2⟩,moved.1.2.fit⟩
  exact ⟨s,path,reaped,process_tree (by decide) path⟩

end Ucore.Proc
