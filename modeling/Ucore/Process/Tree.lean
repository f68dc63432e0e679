import Ucore.Process.State

-- The process tree over whole runs: the links, the lists and the count, and who
-- inherits and who reaps.
namespace Ucore.Proc
open Runs Links Ucore.Sync
open List (mem_cons nodup_cons)

-- kids p is the child list of p.
structure Family (s : Table) (kids : Nat → List Nat) : Prop where
  chain : ∀ p,Chain s.optr s.yptr none (s.cptr p) (kids p)
  distinct : ∀ p,(kids p).Nodup
  member : ∀ p c,c ∈ kids p ↔ c ∈ s.procList ∧ s.parent c = some p

structure Law (s : Table) : Prop where
  cpus : 0 < s.lcpuCount
  idle : ∀ p < s.lcpuCount,s.status p = .live
  init : s.status s.initproc = .live ∧ s.parent s.initproc = some 0
  listed : ∀ p,p ∈ s.procList ↔ (s.status p = .live ∨ s.status p = .zombie) ∧ s.lcpuCount ≤ p
  distinct : s.procList.Nodup
  count : s.nrProcess = s.procList.length + s.lcpuCount
  hashed : ∀ b p,p ∈ s.hashList b ↔ p ∈ s.procList ∧ pidHashfn (s.pid p) = b
  apart : ∀ b,(s.hashList b).Nodup
  family : ∃ kids,Family s kids
  parents : ∀ c ∈ s.procList,∃ p,s.parent c = some p ∧ s.status p = .live
  wheel : Wheel s.nextThread s.prevThread
  alone : ∀ p,s.status p ≠ .live → s.nextThread p = p
  forking : ∀ t c,s.mode t = .forking c → s.status t = .live ∧ s.status c = .fresh ∧ s.parent c = some t

section Families
variable {s u : Table} {kids : Nat → List Nat} {t c heir p : Nat}

structure Moving (s : Table) (t : Nat) (kids : Nat → List Nat) : Prop where
  chain : ∀ p,p ≠ t → Chain s.optr s.yptr none (s.cptr p) (kids p)
  left : ∃ before,Chain s.optr s.yptr before (s.cptr t) (kids t)
  distinct : ∀ p,(kids p).Nodup
  member : ∀ p c,c ∈ kids p ↔ c ∈ s.procList ∧ s.parent c = some p

lemma one_parent (mem : ∀ p c,c ∈ kids p ↔ c ∈ s.procList ∧ s.parent c = some p) (here : c ∈ kids p) (there : c ∈ kids t) : p = t :=
  Option.some.inj (((mem p c).mp here).2.symm.trans ((mem t c).mp there).2)

lemma Moving.family (moving : Moving s t kids) (empty : kids t = []) : Family s kids := by
  refine ⟨fun p => ?_,moving.distinct,moving.member⟩
  rcases eq_or_ne p t with rfl | ne
  · obtain ⟨_,chain⟩ := moving.left
    rw [empty] at chain ⊢
    exact chain
  exact moving.chain p ne

lemma pushed_yptr {yptr : Nat → Option Nat} {head : Option Nat} (x : Nat) : (match head with
      | none => put yptr c none
      | some o => put (put yptr c none) o (some c)) x = if head = some x then some c else if x = c then none else yptr x := by
  cases head with
  | none => simp [put]
  | some o => simp [put,eq_comm]

lemma Moving.adoptOne (moving : Moving s t kids) (one : kids t = c :: rest) (ne : heir ≠ t) :
    Moving (s.adoptOne t heir c) t (put (put kids t rest) heir (c :: kids heir)) := by
  obtain ⟨_,left⟩ := moving.left
  have own := (moving.member t c).mp (by rw [one]; simp)
  have once := moving.distinct t
  rw [one] at left once
  obtain ⟨new,others⟩ := nodup_cons.mp once
  have head : put s.cptr t (s.optr c) heir = s.cptr heir := put_other ne
  have forth : (s.adoptOne t heir c).optr = put s.optr c (s.cptr heir) := by
    rw [← head]
    rfl
  have back (x : Nat) : (s.adoptOne t heir c).yptr x = if s.cptr heir = some x then some c else if x = c then none else s.yptr x := by
    rw [← pushed_yptr x,← head]
    rfl
  have heads (p : Nat) : (s.adoptOne t heir c).cptr p = if p = heir then some c else if p = t then s.optr c else s.cptr p := rfl
  -- the one child of the heir is nobody else's
  have firstborn {x p : Nat} (low : x ∈ kids p) (away : p ≠ heir) : s.cptr heir ≠ some x :=
    fun eq => away (one_parent moving.member low ((moving.chain heir ne).head_mem eq))
  have notC {x p : Nat} (low : x ∈ kids p) (away : p ≠ t) : x ≠ c := by
    rintro rfl
    exact away (one_parent moving.member low (by rw [one]; simp))
  refine ⟨fun p notT => ?_,?_,fun p => ?_,fun p x => ?_⟩
  · rw [heads,forth]
    rcases eq_or_ne p heir with rfl | away
    · rw [put_same,if_pos rfl]
      refine (moving.chain p ne).push (put_same ..) ?_ (fun y low => put_other (notC low ne)) (fun y eq => ?_) (fun y low past => ?_)
        (moving.distinct p)
      · rw [back,if_neg,if_pos rfl]
        exact firstborn (p := t) (by rw [one]; simp) ne.symm
      · rw [back,if_pos eq]
      rw [back,if_neg past,if_neg (notC low ne)]
    rw [put_other away,put_other notT,if_neg away,if_neg notT]
    refine (moving.chain p notT).frame fun y low => ⟨put_other (notC low notT),?_⟩
    rw [back,if_neg (firstborn low away),if_neg (notC low notT)]
  · rw [heads,forth,put_other ne.symm,put_same,if_neg ne.symm,if_pos rfl]
    refine ⟨some c,left.2.2.frame fun y low => ?_⟩
    have notFirst : y ≠ c := fun eq => new (eq ▸ low)
    refine ⟨put_other notFirst,?_⟩
    rw [back,if_neg (firstborn (p := t) (by rw [one]; exact List.mem_cons_of_mem c low) ne.symm),if_neg notFirst]
  · rcases eq_or_ne p heir with rfl | away
    · rw [put_same]
      exact nodup_cons.mpr ⟨fun low => notC low ne rfl,moving.distinct p⟩
    rw [put_other away]
    rcases eq_or_ne p t with rfl | notT
    · rw [put_same]
      exact others
    rw [put_other notT]
    exact moving.distinct p
  have parent : (s.adoptOne t heir c).parent x = if x = c then some heir else s.parent x := rfl
  have list : (s.adoptOne t heir c).procList = s.procList := rfl
  rw [parent,list]
  rcases eq_or_ne x c with rfl | past
  · rw [if_pos rfl]
    rcases eq_or_ne p heir with rfl | away
    · simp [own.1]
    have left : x ∉ put kids t rest p := by
      rcases eq_or_ne p t with rfl | notT
      · rw [put_same]
        exact new
      rw [put_other notT,moving.member,own.2]
      rintro ⟨_,eq⟩
      exact notT (Option.some.inj eq).symm
    rw [put_other away]
    simp [left,Ne.symm away]
  rw [if_neg past,← moving.member]
  rcases eq_or_ne p heir with rfl | away
  · simp [past]
  rw [put_other away]
  rcases eq_or_ne p t with rfl | notT
  · rw [put_same,one]
    simp [past]
  rw [put_other notT]

structure Adopted (s : Table) (t heir : Nat) (u : Table) : Prop where
  rest : ∃ parent cptr optr yptr procs,u = {s with parent:=parent,cptr:=cptr,optr:=optr,yptr:=yptr,procs:=procs}
  family : ∃ kids,Family u kids
  parent : ∀ c,u.parent c = if c ∈ s.procList ∧ s.parent c = some t then some heir else s.parent c

lemma Moving.adopt (moving : Moving s t kids) (enough : (kids t).length ≤ fuel) (ne : heir ≠ t) : Adopted s t heir (Table.adopt t heir fuel s) := by
  have done {s : Table} {kids : Nat → List Nat} (moving : Moving s t kids) (empty : kids t = []) : Adopted s t heir s := by
    refine ⟨⟨_,_,_,_,_,rfl⟩,⟨kids,moving.family empty⟩,fun c => ?_⟩
    rw [if_neg]
    rw [← moving.member t c,empty]
    simp
  induction fuel generalizing s kids with
  | zero => exact done moving (List.length_eq_zero_iff.mp (Nat.le_zero.mp enough))
  | succ fuel ih =>
    obtain ⟨_,left⟩ := moving.left
    cases list : kids t with
    | nil =>
      rw [list] at left
      have stops : Table.adopt t heir (fuel + 1) s = s := by
        unfold Table.adopt
        rw [show s.cptr t = none from left]
      rw [stops]
      exact done moving list
    | cons c rest =>
      rw [list] at left enough
      have goes : Table.adopt t heir (fuel + 1) s = Table.adopt t heir fuel (s.adoptOne t heir c) := by rw [Table.adopt,left.1]
      have short : (put (put kids t rest) heir (c :: kids heir) t).length ≤ fuel := by
        rw [put_other ne.symm,put_same]
        simpa using enough
      have own := (moving.member t c).mp (by rw [list]; simp)
      obtain ⟨⟨parent,cptr,optr,yptr,procs,eq⟩,kin,parents⟩ := ih (moving.adoptOne list ne) short
      rw [goes]
      refine ⟨⟨parent,cptr,optr,yptr,procs,eq⟩,kin,fun x => ?_⟩
      rw [parents]
      have step : (s.adoptOne t heir c).parent x = if x = c then some heir else s.parent x := rfl
      rw [step,show (s.adoptOne t heir c).procList = s.procList from rfl]
      rcases eq_or_ne x c with rfl | past
      · simp [own,ne]
      rw [if_neg past]

end Families

section Steps
variable {s u : Table} {t c : Nat}

lemma deThread_next (wheel : Wheel s.nextThread s.prevThread) (y : Nat) :
    (s.deThread t).nextThread y = if y = t then t else if y = s.prevThread t then s.nextThread t else s.nextThread y := by
  unfold Table.deThread
  split
  · next lone =>
    have back := wheel.single lone
    rw [back]
    split
    · next eq => rw [eq,lone]
    rfl
  rfl

lemma deThread_prev (wheel : Wheel s.nextThread s.prevThread) (y : Nat) :
    (s.deThread t).prevThread y = if y = t then t else if y = s.nextThread t then s.prevThread t else s.prevThread y := by
  unfold Table.deThread
  split
  · next lone =>
    have back := wheel.single lone
    rw [lone]
    split
    · next eq => rw [eq,back]
    rfl
  rfl

lemma deThread_rest (s : Table) (t : Nat) : ∃ next prev,s.deThread t = {s with nextThread:=next,prevThread:=prev} := by
  unfold Table.deThread
  split
  · exact ⟨_,_,rfl⟩
  exact ⟨_,_,rfl⟩

lemma Law.deThread_wheel (law : Law s) (t : Nat) : Wheel (s.deThread t).nextThread (s.deThread t).prevThread :=
  law.wheel.delete (deThread_next law.wheel) (deThread_prev law.wheel)

lemma Law.deThread_alone (law : Law s) (t : Nat) (lone : s.nextThread p = p) : (s.deThread t).nextThread p = p := by
  rw [deThread_next law.wheel]
  split
  · next eq => exact eq.symm
  next ne =>
  split
  · next last =>
    have same := law.wheel.forth t
    rw [← last,lone] at same
    exact absurd same ne
  exact lone

lemma Law.quiet (law : Law s) (modes : ∀ t c,mode t = .forking c → s.mode t = .forking c) (codes : Nat → Int) (procs : Procs) :
    Law {s with mode:=mode,exitCode:=codes,procs:=procs} := by
  obtain ⟨kids,family⟩ := law.family
  exact {law with family:=⟨kids,family.chain,family.distinct,family.member⟩,forking:=fun t c forks => law.forking t c (modes t c forks)}

lemma run_forking {mode : Nat → Mode} (t : Nat) (x c : Nat) (forks : put mode t .run x = .forking c) : mode x = .forking c ∧ x ≠ t := by
  rcases eq_or_ne x t with rfl | ne
  · rw [put_same] at forks
    cases forks
  rw [put_other ne] at forks
  exact ⟨forks,ne⟩

lemma Law.exec (law : Law s) (t : Nat) : Law (s.deThread t) := by
  have wheel := law.deThread_wheel t
  have alone := fun p => law.deThread_alone (p := p) t
  obtain ⟨_,_,eq⟩ := deThread_rest s t
  obtain ⟨kids,family⟩ := law.family
  rw [eq] at wheel alone ⊢
  exact {law with family:=⟨kids,family.chain,family.distinct,family.member⟩,wheel:=wheel,alone:=fun p dead => alone p (law.alone p dead)}

lemma Law.fresh_outside (law : Law s) (new : s.status c = .fresh ∨ s.status c = .free) : c ∉ s.procList ∧ s.lcpuCount < c ∧ ∀ x ∈ s.procList,s.parent x ≠ some c := by
  refine ⟨fun mem => ?_,?_,fun x mem eq => ?_⟩
  · rcases ((law.listed c).mp mem).1 with live | dead
    · rw [live] at new
      simp at new
    rw [dead] at new
    simp at new
  · by_contra low
    have live : s.status c = .live := by
      rcases Nat.lt_or_eq_of_le (Nat.le_of_not_lt low) with idle | init
      · exact law.idle c idle
      rw [init]
      exact law.init.1
    rw [live] at new
    simp at new
  obtain ⟨p,parent,live⟩ := law.parents x mem
  rw [eq] at parent
  cases parent
  rw [live] at new
  simp at new

lemma Law.alloc (law : Law s) (live : s.status t = .live) (free : s.status c = .free) : Law (s.allocProc t c) := by
  obtain ⟨out,high,childless⟩ := law.fresh_outside (.inr free)
  obtain ⟨kids,kin⟩ := law.family
  have lone : s.nextThread c = c := law.alone c (by simp [free])
  have next : put s.nextThread c c = s.nextThread := put_eq lone
  have prev : put s.prevThread c c = s.prevThread := put_eq (law.wheel.single lone)
  have old : s.status c ≠ .live := by simp [free]
  have notListed {x : Nat} (mem : x ∈ s.procList) : x ≠ c := fun eq => out (eq ▸ mem)
  have away : t ≠ c := ne_of_apply_ne s.status (by simp [live,free])
  refine ⟨law.cpus,fun p low => ?_,⟨?_,?_⟩,fun p => ?_,law.distinct,law.count,law.hashed,law.apart,
    ⟨kids,fun p => ?_,kin.distinct,fun p x => ?_⟩,fun x mem => ?_,?_,fun p dead => ?_,fun x d forks => ?_⟩
  · exact put_kept (law.idle p low) old
  · exact put_kept law.init.1 old
  · exact (put_other high.ne).trans law.init.2
  · refine (law.listed p).trans ?_
    rcases eq_or_ne p c with rfl | ne
    · simp [Table.allocProc,free]
    simp [Table.allocProc,put_other ne]
  · rcases eq_or_ne p c with rfl | ne
    · have empty : kids p = [] := List.eq_nil_iff_forall_not_mem.mpr fun x inside => childless x ((kin.member p x).mp inside).1 ((kin.member p x).mp inside).2
      rw [empty]
      exact put_same ..
    have same : (s.allocProc t c).cptr p = s.cptr p := put_other ne
    rw [same]
    refine (kin.chain p).frame fun x inside => ?_
    have notC := notListed ((kin.member p x).mp inside).1
    exact ⟨put_other notC,put_other notC⟩
  · refine (kin.member p x).trans (and_congr_right fun mem => ?_)
    rw [show (s.allocProc t c).parent x = s.parent x from put_other (notListed mem)]
  · obtain ⟨p,parent,alive⟩ := law.parents x mem
    exact ⟨p,(put_other (notListed mem)).trans parent,put_kept alive old⟩
  · rw [show (s.allocProc t c).nextThread = s.nextThread from next,show (s.allocProc t c).prevThread = s.prevThread from prev]
    exact law.wheel
  · rw [show (s.allocProc t c).nextThread = s.nextThread from next]
    exact law.alone p fun alive => dead (put_kept alive old)
  have mode : (s.allocProc t c).mode x = put (put s.mode c .run) t (.forking c) x := rfl
  rw [mode] at forks
  rcases eq_or_ne x t with rfl | ne
  · rw [put_same] at forks
    cases forks
    exact ⟨(put_other away).trans live,put_same ..,put_same ..⟩
  rw [put_other ne] at forks
  obtain ⟨forks,notC⟩ := run_forking c x d forks
  obtain ⟨alive,new,parent⟩ := law.forking x d forks
  have far : d ≠ c := ne_of_apply_ne s.status (by simp [free,new])
  exact ⟨(put_other notC).trans alive,(put_other far).trans new,(put_other far).trans parent⟩

lemma Law.forking_on (law : Law s) (forks : s.mode t = .forking c) (v : Status) (busy : put s.mode t .run x = .forking d) :
    put s.status c v x = .live ∧ put s.status c v d = .fresh ∧ s.parent d = some x := by
  obtain ⟨_,fresh,parent⟩ := law.forking t c forks
  obtain ⟨busy,notT⟩ := run_forking t x d busy
  obtain ⟨alive,new,above⟩ := law.forking x d busy
  have ne : d ≠ c := by
    rintro rfl
    exact notT (Option.mem_unique above parent)
  exact ⟨put_kept alive (by simp [fresh]),(put_other ne).trans new,above⟩

lemma Law.drop (law : Law s) (forks : s.mode t = .forking c) : Law (s.dropProc t c) := by
  obtain ⟨_,new,_⟩ := law.forking t c forks
  have old : s.status c ≠ .live := by simp [new]
  obtain ⟨kids,kin⟩ := law.family
  refine ⟨law.cpus,fun p low => ?_,⟨?_,law.init.2⟩,fun p => ?_,law.distinct,law.count,law.hashed,law.apart,⟨kids,kin.chain,kin.distinct,kin.member⟩,
    fun x mem => ?_,law.wheel,fun p dead => ?_,fun x d busy => ?_⟩
  · exact put_kept (law.idle p low) old
  · exact put_kept law.init.1 old
  · refine (law.listed p).trans ?_
    rcases eq_or_ne p c with rfl | ne
    · simp [Table.dropProc,new]
    simp [Table.dropProc,put_other ne]
  · obtain ⟨p,above,alive⟩ := law.parents x mem
    exact ⟨p,above,put_kept alive old⟩
  · exact law.alone p fun alive => dead (put_kept alive old)
  exact law.forking_on forks _ busy

lemma setLinks_some (parent : s.parent c = some t) : s.setLinks c = {s with
    procList:=c :: s.procList
    optr:=put s.optr c (s.cptr t)
    yptr:=match s.cptr t with
      | none => put s.yptr c none
      | some o => put (put s.yptr c none) o (some c)
    cptr:=put s.cptr t (some c)
    nrProcess:=s.nrProcess + 1} := by
  unfold Table.setLinks
  generalize s.parent c = above at parent
  subst parent
  rfl

lemma Family.setLinks (kin : Family s kids) (parent : s.parent c = some t) (out : c ∉ s.procList) :
    Family (s.setLinks c) (put kids t (c :: kids t)) := by
  rw [setLinks_some parent]
  have notC {x p : Nat} (low : x ∈ kids p) : x ≠ c := fun eq => out (eq ▸ ((kin.member p x).mp low).1)
  refine ⟨fun p => ?_,fun p => ?_,fun p x => ?_⟩
  · rcases eq_or_ne p t with rfl | ne
    · rw [put_same]
      dsimp only
      rw [put_same]
      refine (kin.chain p).push (put_same ..) ?_ (fun y low => put_other (notC low)) (fun y eq => ?_) (fun y low past => ?_) (kin.distinct p)
      · rw [pushed_yptr,if_neg fun eq => notC ((kin.chain p).head_mem eq) rfl,if_pos rfl]
      · rw [pushed_yptr,if_pos eq]
      rw [pushed_yptr,if_neg past,if_neg (notC low)]
    rw [put_other ne]
    dsimp only
    rw [put_other ne]
    refine (kin.chain p).frame fun y low => ⟨put_other (notC low),?_⟩
    rw [pushed_yptr,if_neg fun eq => ne (one_parent kin.member low ((kin.chain t).head_mem eq)),if_neg (notC low)]
  · rcases eq_or_ne p t with rfl | ne
    · rw [put_same]
      exact nodup_cons.mpr ⟨fun low => notC low rfl,kin.distinct p⟩
    rw [put_other ne]
    exact kin.distinct p
  dsimp only
  rcases eq_or_ne x c with rfl | past
  · rw [parent]
    rcases eq_or_ne p t with rfl | ne
    · simp
    rw [put_other ne,kin.member]
    simp [out,Ne.symm ne]
  rcases eq_or_ne p t with rfl | ne
  · rw [put_same,mem_cons,mem_cons,kin.member]
    simp [past]
  rw [put_other ne,mem_cons,kin.member]
  simp [past]

lemma Law.added (law : Law s) (forks : s.mode t = .forking c) (pid : Nat) :
    Law (({s with pid:=put s.pid c pid,status:=put s.status c .live,mode:=put s.mode t .run}.hashProc c).setLinks c) := by
  obtain ⟨live,new,parent⟩ := law.forking t c forks
  obtain ⟨out,high,_⟩ := law.fresh_outside (.inl new)
  obtain ⟨kids,kin⟩ := law.family
  have pre : s.status c ≠ .live := by simp [new]
  let mid := {s with pid:=put s.pid c pid,status:=put s.status c .live,mode:=put s.mode t .run}.hashProc c
  have done : Family mid kids := {kin with}
  have linked := done.setLinks (c := c) parent out
  have same := setLinks_some (s := mid) (c := c) parent
  change Law (mid.setLinks c)
  rw [same] at linked ⊢
  have buckets (b : Nat) : mid.hashList b = if b = pidHashfn pid then c :: s.hashList b else s.hashList b := by
    have spelled : mid.hashList b = put s.hashList (pidHashfn (put s.pid c pid c)) (c :: s.hashList (pidHashfn (put s.pid c pid c))) b := rfl
    rw [spelled,put_same]
    unfold put
    split
    · next eq => rw [eq]
    rfl
  refine ⟨law.cpus,fun p low => ?_,⟨?_,law.init.2⟩,fun p => ?_,?_,?_,fun b p => ?_,fun b => ?_,⟨_,linked⟩,fun x mem => ?_,law.wheel,fun p dead => ?_,fun x d busy => ?_⟩
  · exact put_kept (law.idle p low) pre
  · exact put_kept law.init.1 pre
  · change p ∈ c :: s.procList ↔ (put s.status c .live p = .live ∨ put s.status c .live p = .zombie) ∧ s.lcpuCount ≤ p
    rcases eq_or_ne p c with rfl | ne
    · simp [high.le]
    rw [put_other ne,mem_cons,← law.listed p]
    simp [ne]
  · exact nodup_cons.mpr ⟨out,law.distinct⟩
  · change s.nrProcess + 1 = (c :: s.procList).length + s.lcpuCount
    rw [law.count,List.length_cons]
    omega
  · change p ∈ mid.hashList b ↔ p ∈ c :: s.procList ∧ pidHashfn (put s.pid c pid p) = b
    rw [buckets]
    rcases eq_or_ne p c with rfl | ne
    · rw [put_same]
      by_cases hit : b = pidHashfn pid
      · simp [hit]
      rw [if_neg hit,law.hashed]
      simp [out,Ne.symm hit]
    rw [put_other ne,mem_cons]
    split
    · rw [mem_cons,law.hashed]
      simp [ne]
    rw [law.hashed]
    simp [ne]
  · change (mid.hashList b).Nodup
    rw [buckets]
    split
    · exact nodup_cons.mpr ⟨fun inside => out ((law.hashed b c).mp inside).1,law.apart b⟩
    exact law.apart b
  · rcases mem_cons.mp mem with rfl | old
    · exact ⟨t,parent,put_kept live pre⟩
    obtain ⟨p,above,alive⟩ := law.parents x old
    exact ⟨p,above,put_kept alive pre⟩
  · exact law.alone p fun alive => dead (put_kept alive pre)
  exact law.forking_on forks _ busy

lemma Law.joinThreads (law : Law s) (live : s.status t = .live) (also : s.status c = .live) (lone : s.nextThread c = c) (ne : c ≠ t) :
    Law (s.joinThreads t c) := by
  obtain ⟨kids,family⟩ := law.family
  have forth (y : Nat) : (s.joinThreads t c).nextThread y = if y = c then t else if y = s.prevThread t then c else s.nextThread y := rfl
  have back (y : Nat) : (s.joinThreads t c).prevThread y = if y = t then c else if y = c then s.prevThread t else s.prevThread y := rfl
  refine {law with family:=⟨kids,family.chain,family.distinct,family.member⟩,wheel:=law.wheel.insert lone ne forth back,alone:=fun p dead => ?_}
  have dead' : s.status p ≠ .live := dead
  have alone := law.alone p dead'
  rw [forth,if_neg (by rintro rfl; exact dead' also),if_neg]
  · exact alone
  intro last
  have eq := law.wheel.forth t
  rw [← last,alone] at eq
  rw [eq] at dead'
  exact dead' live

lemma Law.link (law : Law s) (forks : s.mode t = .forking c) (thread : Bool) (pid : Nat) : Law (s.linkProc t c thread pid) := by
  have added := law.added forks pid
  obtain ⟨live,new,parent⟩ := law.forking t c forks
  unfold Table.linkProc
  dsimp only
  split
  · have away : c ≠ t := ne_of_apply_ne s.status (by simp [live,new])
    have eq := setLinks_some (s := {s with pid:=put s.pid c pid,status:=put s.status c .live,mode:=put s.mode t .run}.hashProc c) (c := c) parent
    rw [eq] at added ⊢
    exact added.joinThreads ((put_other away.symm).trans live) (put_same ..) (law.alone c (by simp [new])) away
  exact added

lemma linkProc_frame {s : Table} (parent : s.parent c = some t) (thread : Bool) (pid : Nat) :
    (s.linkProc t c thread pid).procList = c :: s.procList ∧ (s.linkProc t c thread pid).parent = s.parent ∧
    (s.linkProc t c thread pid).lcpuCount = s.lcpuCount ∧ (s.linkProc t c thread pid).status = put s.status c .live ∧
    (s.linkProc t c thread pid).procs = s.procs ∧ (s.linkProc t c thread pid).nextThread = if thread then (s.joinThreads t c).nextThread else s.nextThread := by
  have eq := setLinks_some (s := {s with pid:=put s.pid c pid,status:=put s.status c .live,mode:=put s.mode t .run}.hashProc c) (c := c) parent
  unfold Table.linkProc
  dsimp only
  rw [eq]
  cases thread <;> exact ⟨rfl,rfl,rfl,rfl,rfl,rfl⟩

lemma Law.heir (law : Law s) (high : s.initproc < t) : s.heir t ≠ t ∧ s.status (s.heir t) = .live := by
  unfold Table.heir
  split
  · exact ⟨high.ne,law.init.1⟩
  next group =>
  refine ⟨group,?_⟩
  by_contra dead
  exact group (law.wheel.next_inj (law.alone _ dead))

lemma Family.length_le (kin : Family s kids) (p : Nat) : (kids p).length ≤ s.procList.length :=
  ((kin.distinct p).subperm fun c low => ((kin.member p c).mp low).1).length_le

structure Exited (s : Table) (t : Nat) (u : Table) : Prop where
  rest : ∃ parent cptr optr yptr procs codes next prev,u = {s with
    status:=put s.status t .zombie
    parent:=parent
    cptr:=cptr
    optr:=optr
    yptr:=yptr
    procs:=procs
    exitCode:=codes
    nextThread:=next
    prevThread:=prev}
  family : ∃ kids,Family u kids
  parent : ∀ c,u.parent c = if c ∈ s.procList ∧ s.parent c = some t then some (s.heir t) else s.parent c
  wheel : Wheel u.nextThread u.prevThread
  alone : ∀ p,p = t ∨ s.nextThread p = p → u.nextThread p = p

lemma Law.doExit (law : Law s) (live : s.status t = .live) (high : s.initproc < t) : Exited s t (s.doExit t) := by
  obtain ⟨kids,kin⟩ := law.family
  have wheel := law.deThread_wheel t
  have alone (p : Nat) (lone : p = t ∨ s.nextThread p = p) : (s.deThread t).nextThread p = p := by
    rcases lone with rfl | lone
    · rw [deThread_next law.wheel,if_pos rfl]
    exact law.deThread_alone t lone
  let woken := {s with
    status:=put s.status t .zombie
    procs:=((s.parent t).elim [] s.threads).foldl wakeupWaiter s.procs}
  have links : (woken.deThread t).nextThread = (s.deThread t).nextThread ∧ (woken.deThread t).prevThread = (s.deThread t).prevThread := by
    unfold Table.deThread
    constructor
    · change (if s.nextThread t = t then woken else _).nextThread = _
      split <;> rfl
    change (if s.nextThread t = t then woken else _).prevThread = _
    split <;> rfl
  rw [← links.1] at alone
  rw [← links.1,← links.2] at wheel
  obtain ⟨next,prev,eq⟩ := deThread_rest woken t
  have moving : Moving (woken.deThread t) t kids := by
    rw [eq]
    exact ⟨fun p _ => kin.chain p,⟨none,kin.chain t⟩,kin.distinct,kin.member⟩
  have enough : (kids t).length ≤ s.nrProcess := by
    have cap := kin.length_le t
    rw [law.count]
    omega
  obtain ⟨⟨parent,cptr,optr,yptr,procs,form⟩,new,parents⟩ := moving.adopt enough (law.heir high).1
  have result : s.doExit t = Table.adopt t (s.heir t) s.nrProcess (woken.deThread t) := rfl
  rw [← result] at form new parents
  rw [eq] at form parents wheel alone
  refine ⟨⟨parent,cptr,optr,yptr,procs,s.exitCode,next,prev,form⟩,new,parents,?_,?_⟩
  · rw [form]
    exact wheel
  rw [form]
  exact alone

lemma Law.exited (law : Law s) (done : Exited s t u) (live : s.status t = .live) (high : s.initproc < t) (idle : ∀ c,s.mode t ≠ .forking c) : Law u := by
  obtain ⟨far,heir⟩ := law.heir high
  obtain ⟨⟨_,_,_,_,_,_,_,_,rfl⟩,kin,parents,wheel,alone⟩ := done
  have low : s.lcpuCount < t := high
  dsimp only at parents
  refine ⟨law.cpus,fun p under => ?_,⟨?_,?_⟩,fun p => ?_,law.distinct,law.count,law.hashed,law.apart,kin,fun c mem => ?_,wheel,fun p dead => ?_,fun x c forks => ?_⟩
  · exact (put_other (lt_trans under low).ne).trans (law.idle p under)
  · exact (put_other low.ne).trans law.init.1
  · refine (parents s.initproc).trans ?_
    rw [if_neg]
    · exact law.init.2
    rw [law.init.2]
    rintro ⟨_,eq⟩
    have zero := Option.some.inj eq
    omega
  · refine (law.listed p).trans ?_
    rcases eq_or_ne p t with rfl | ne
    · simp [live]
    simp [put_other ne]
  · have above := parents c
    have inside : c ∈ s.procList := mem
    by_cases orphan : s.parent c = some t
    · rw [if_pos ⟨inside,orphan⟩] at above
      exact ⟨_,above,(put_other far).trans heir⟩
    rw [if_neg fun both => orphan both.2] at above
    obtain ⟨p,was,alive⟩ := law.parents c inside
    refine ⟨p,above.trans was,(put_other ?_).trans alive⟩
    rintro rfl
    exact orphan was
  · rcases eq_or_ne p t with rfl | ne
    · exact alone p (.inl rfl)
    exact alone p (.inr (law.alone p fun alive => dead ((put_other ne).trans alive)))
  have busy : s.mode x = .forking c := forks
  obtain ⟨alive,new,above⟩ := law.forking x c busy
  refine ⟨(put_other ?_).trans alive,put_kept new (by simp [live]),?_⟩
  · rintro rfl
    exact idle c busy
  refine (parents c).trans ?_
  rw [if_neg fun both => (law.fresh_outside (.inl new)).1 both.1]
  exact above

lemma doKill_rest (s : Table) (code : Int) (p : Nat) : ∃ procs codes,s.doKill code p = {s with procs:=procs,exitCode:=codes} := by
  unfold Table.doKill
  split
  · exact ⟨_,_,rfl⟩
  exact ⟨_,_,rfl⟩

lemma doKills_rest (s : Table) (code : Int) (list : List Nat) :
    ∃ procs codes,list.foldl (fun s p => s.doKill code p) s = {s with procs:=procs,exitCode:=codes} := by
  induction list generalizing s with
  | nil => exact ⟨_,_,rfl⟩
  | cons p _ ih =>
    obtain ⟨_,_,eq⟩ := doKill_rest s code p
    obtain ⟨procs',codes',form⟩ := ih (s.doKill code p)
    refine ⟨procs',codes',?_⟩
    rw [List.foldl_cons,form,eq]

lemma Law.exits (law : Law s) (live : s.status t = .live) (high : s.initproc < t) (how : Exit) : Exited s t (s.exits t how) := by
  have quiet (procs : Procs) (codes : Nat → Int) : Exited s t ({s with procs:=procs,exitCode:=codes}.doExit t) := by
    have done := (law.quiet (fun _ _ forks => forks) codes procs).doExit (t := t) live high
    obtain ⟨⟨parent,cptr,optr,yptr,procs,codes,next,prev,form⟩,kin,parents,wheel,alone⟩ := done
    exact ⟨⟨parent,cptr,optr,yptr,procs,codes,next,prev,form⟩,kin,parents,wheel,alone⟩
  cases how with
  | thread code => exact quiet s.procs _
  | killed => exact law.doExit live high
  | group code =>
    unfold Table.exits
    obtain ⟨procs,_,eq⟩ := doKills_rest s code (s.threads t).tail
    dsimp only
    rw [eq]
    exact quiet procs _

lemma Family.removeLinks (kin : Family s kids) (mem : z ∈ s.procList) (parent : s.parent z = some p) (once : s.procList.Nodup) :
    Family (s.removeLinks z) (put kids p ((kids p).erase z)) := by
  have low : z ∈ kids p := (kin.member p z).mpr ⟨mem,parent⟩
  have chain := kin.chain p
  have forth (y : Nat) : (s.removeLinks z).optr y = if s.yptr z = some y then s.optr z else s.optr y := by
    unfold Table.removeLinks
    dsimp only
    cases s.yptr z <;> simp [put,eq_comm]
  have back (y : Nat) : (s.removeLinks z).yptr y = if s.optr z = some y then s.yptr z else s.yptr y := by
    unfold Table.removeLinks
    dsimp only
    cases s.optr z <;> simp [put,eq_comm]
  have head (q : Nat) : (s.removeLinks z).cptr q = if q = p ∧ s.cptr p = some z then s.optr z else s.cptr q := by
    unfold Table.removeLinks
    dsimp only
    rw [parent]
    have first := chain.first_iff (kin.distinct p) low
    cases younger : s.yptr z with
    | none => simp [put,first.mp younger]
    | some y =>
      rw [younger] at first
      have past : s.cptr p ≠ some z := fun eq => by simpa using first.mpr eq
      simp [past]
  refine ⟨fun q => ?_,fun q => ?_,fun q x => ?_⟩
  · rw [head]
    rcases eq_or_ne q p with rfl | ne
    · rw [put_same]
      have removed := chain.remove (kin.distinct q) (fun _ _ => by simp) low forth back
      simpa using removed
    rw [put_other ne,if_neg fun both => ne both.1]
    have foreign {x : Nat} (here : x ∈ kids p) : x ∉ kids q := fun there => ne (one_parent kin.member there here)
    refine (kin.chain q).frame fun x there => ⟨?_,?_⟩
    · rw [forth,if_neg]
      intro leads
      rcases chain.prev_mem low leads with here | none
      · exact foreign here there
      cases none
    rw [back,if_neg]
    intro leads
    exact foreign (chain.next_mem low leads) there
  · rcases eq_or_ne q p with rfl | ne
    · rw [put_same]
      exact (kin.distinct q).erase z
    rw [put_other ne]
    exact kin.distinct q
  change x ∈ _ ↔ x ∈ s.procList.erase z ∧ s.parent x = some q
  rw [once.mem_erase_iff]
  rcases eq_or_ne q p with rfl | ne
  · rw [put_same,(kin.distinct q).mem_erase_iff,kin.member,and_assoc]
  rw [put_other ne,kin.member]
  refine ⟨fun both => ⟨⟨?_,both.1⟩,both.2⟩,fun both => ⟨both.1.2,both.2⟩⟩
  rintro rfl
  rw [parent] at both
  exact ne (Option.some.inj both.2).symm

lemma Law.reap (law : Law s) (mem : z ∈ s.procList) (zombie : s.status z = .zombie) : Law (s.reap z) := by
  obtain ⟨kids,kin⟩ := law.family
  obtain ⟨p,parent,_⟩ := law.parents z mem
  have done : Family (s.unhashProc z) kids := {kin with}
  have removed := done.removeLinks (z := z) mem parent law.distinct
  have buckets (b : Nat) : (s.reap z).hashList b = if b = pidHashfn (s.pid z) then (s.hashList b).erase z else s.hashList b := by
    change put s.hashList (pidHashfn (s.pid z)) ((s.hashList (pidHashfn (s.pid z))).erase z) b = _
    unfold put
    split
    · next eq => rw [eq]
    rfl
  have old : s.status z ≠ .live := by simp [zombie]
  refine ⟨law.cpus,fun p low => ?_,⟨?_,law.init.2⟩,fun p => ?_,law.distinct.erase z,?_,fun b p => ?_,fun b => ?_,⟨_,removed.chain,removed.distinct,removed.member⟩,
    fun c inside => ?_,law.wheel,fun p dead => ?_,fun x c forks => ?_⟩
  · exact put_kept (law.idle p low) old
  · exact put_kept law.init.1 old
  · change p ∈ s.procList.erase z ↔ (put s.status z .free p = .live ∨ put s.status z .free p = .zombie) ∧ s.lcpuCount ≤ p
    rw [law.distinct.mem_erase_iff,law.listed]
    rcases eq_or_ne p z with rfl | ne
    · simp
    simp [put_other ne,ne]
  · change s.nrProcess - 1 = (s.procList.erase z).length + s.lcpuCount
    have pos := List.length_pos_of_mem mem
    rw [law.count,List.length_erase_of_mem mem]
    omega
  · change _ ↔ p ∈ s.procList.erase z ∧ pidHashfn (s.pid p) = b
    rw [buckets,law.distinct.mem_erase_iff]
    split
    · rw [(law.apart b).mem_erase_iff,law.hashed,and_assoc]
    next miss =>
    rw [law.hashed]
    refine ⟨fun both => ⟨⟨?_,both.1⟩,both.2⟩,fun both => ⟨both.1.2,both.2⟩⟩
    rintro rfl
    exact miss both.2.symm
  · rw [buckets]
    split
    · exact (law.apart b).erase z
    exact law.apart b
  · obtain ⟨p,above,alive⟩ := law.parents c (List.mem_of_mem_erase inside)
    exact ⟨p,above,put_kept alive old⟩
  · exact law.alone p fun alive => dead (put_kept alive old)
  obtain ⟨alive,new,above⟩ := law.forking x c forks
  exact ⟨put_kept alive old,put_kept new (zombie.trans_ne nofun),above⟩

end Steps
end Ucore.Proc
