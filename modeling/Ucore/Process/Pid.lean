import Ucore.Process.State

-- get_pid and its two static variables, over the histories of forks and exits.
namespace Ucore.Proc
open Runs List
variable {lcpu n v : Nat} {list : List Nat} {p q : Pids}

-- last_pid and next_safe; get_pid returns the new last_pid.
structure Pids where
  lastPid : Nat
  nextSafe : Nat

-- The loop over the pids of proc_list; false is goto repeat.
def scan (p : Pids) : List Nat → Pids × Bool
  | [] => (p,true)
  | pid :: rest =>
    if pid = p.lastPid then
      if p.lastPid + 1 ≥ p.nextSafe then (⟨if p.lastPid + 1 ≥ maxPid then 1 else p.lastPid + 1,maxPid⟩,false)
      else scan ⟨p.lastPid + 1,p.nextSafe⟩ rest
    else if pid > p.lastPid ∧ p.nextSafe > pid then scan ⟨p.lastPid,pid⟩ rest
    else scan p rest

def rescan (list : List Nat) : Nat → Pids → Option Pids
  | 0,_ => none
  | turns+1,p =>
    match scan p list with
    | (q,true) => some q
    | (q,false) => rescan list turns q

def getPid (lcpu turns : Nat) (p : Pids) (list : List Nat) : Option Pids :=
  if p.lastPid + 1 ≥ maxPid then rescan list turns ⟨lcpu,maxPid⟩
  else if p.lastPid + 1 ≥ p.nextSafe then rescan list turns ⟨p.lastPid + 1,maxPid⟩
  else some ⟨p.lastPid + 1,p.nextSafe⟩

-- No pid of the list lies from last_pid up to next_safe.
structure Pids.Window (p : Pids) (list : List Nat) : Prop where
  low : 1 ≤ p.lastPid
  order : p.lastPid < p.nextSafe
  high : p.nextSafe ≤ maxPid
  clear : ∀ pid ∈ list,pid < p.lastPid ∨ p.nextSafe ≤ pid

-- last is how far the scan came; the numbers it passed are in the list.
structure Scanned (list : List Nat) (p q : Pids) (ended : Bool) (last : Nat) : Prop where
  up : p.lastPid ≤ last
  passed : ∀ v,p.lastPid ≤ v → v < last → v ∈ list
  done : ended = true → q.lastPid = last ∧ q.nextSafe ≤ p.nextSafe ∧ q.Window list
  again : ended = false → p.lastPid < last ∧ q.nextSafe = maxPid ∧ (last < maxPid ∧ q.lastPid = last ∨ last = maxPid ∧ q.lastPid = 1)

lemma scan_run (list : List Nat) (p : Pids) (low : 1 ≤ p.lastPid) (order : p.lastPid < p.nextSafe) (high : p.nextSafe ≤ maxPid) :
    ∃ last,Scanned list p (scan p list).1 (scan p list).2 last := by
  induction list generalizing p with
  | nil => exact ⟨_,le_rfl,fun v up less => absurd up (by omega),fun _ => ⟨rfl,le_rfl,low,order,high,nofun⟩,nofun⟩
  | cons pid rest ih =>
    rw [scan]
    split
    next here =>
      split
      · refine ⟨p.lastPid + 1,by omega,fun v up less => ?_,nofun,fun _ => ⟨by omega,rfl,by dsimp only; split <;> omega⟩⟩
        rw [show v = pid by omega]
        exact mem_cons_self
      obtain ⟨last,up,passed,done,again⟩ := ih ⟨p.lastPid + 1,p.nextSafe⟩ (by dsimp only; omega) (by dsimp only; omega) high
      dsimp only at up passed
      refine ⟨last,by omega,fun v above less => ?_,fun ended => ?_,fun restart => ⟨by omega,(again restart).2⟩⟩
      · rcases Nat.eq_or_lt_of_le above with rfl | above
        · rw [← here]
          exact mem_cons_self
        exact mem_cons_of_mem _ (passed v above less)
      obtain ⟨same,less,window⟩ := done ended
      exact ⟨same,less,{window with clear:=forall_mem_cons.mpr ⟨.inl (by omega),window.clear⟩}⟩
    -- nextSafe is the head's pid or stays; either way the head is outside
    have step (q : Pids) (same : q.lastPid = p.lastPid) (less : q.nextSafe ≤ p.nextSafe) (order : q.lastPid < q.nextSafe) (out : pid < p.lastPid ∨ q.nextSafe ≤ pid) :
        ∃ last,Scanned (pid :: rest) p (scan q rest).1 (scan q rest).2 last := by
      obtain ⟨last,up,passed,done,again⟩ := ih q (same ▸ low) order (less.trans high)
      rw [same] at up passed again
      refine ⟨last,up,fun v above less => mem_cons_of_mem _ (passed v above less),fun ended => ?_,again⟩
      obtain ⟨eq,fewer,window⟩ := done ended
      exact ⟨eq,fewer.trans less,{window with clear:=forall_mem_cons.mpr ⟨out.imp (fun low => by omega) fewer.trans,window.clear⟩}⟩
    split
    next inside => exact step _ rfl inside.2.le inside.1 (.inr le_rfl)
    next _ => exact step p rfl le_rfl order (by omega)

-- A number v that is not in the list stops the search, before last_pid wraps if it
-- starts at or below v.
lemma rescan_run (low : 1 ≤ p.lastPid) (below : p.lastPid < maxPid) (full : p.nextSafe = maxPid) :
    (∀ q,rescan list n p = some q → q.Window list ∧ ∀ v,p.lastPid ≤ v → v < maxPid → v ∉ list → p.lastPid ≤ q.lastPid) ∧
      ∀ v,1 ≤ v → v < maxPid → v ∉ list → (if p.lastPid ≤ v then v - p.lastPid else maxPid - p.lastPid + v) < n → ∃ q,rescan list n p = some q := by
  induction n generalizing p with
  | zero => exact ⟨nofun,nofun⟩
  | succ n ih =>
    obtain ⟨last,up,passed,done,again⟩ := scan_run list p low (by omega) full.le
    have stops (v : Nat) (out : v ∉ list) (start : p.lastPid ≤ v) : last ≤ v := Nat.le_of_not_lt fun past => out (passed v start past)
    rw [rescan]
    split
    next r eq =>
      rw [eq] at done
      obtain ⟨rfl,_,window⟩ := done rfl
      exact ⟨by rintro _ ⟨⟩; exact ⟨window,fun _ _ _ _ => up⟩,fun _ _ _ _ _ => ⟨r,rfl⟩⟩
    rename_i r eq
    rw [eq] at again
    obtain ⟨_,all,next⟩ := again rfl
    dsimp only at all next
    have one : 1 < maxPid := by decide
    obtain ⟨each,ends⟩ := ih (p:=r) (by omega) (by omega) all
    refine ⟨fun q ran => ⟨(each q ran).1,fun v start high out => ?_⟩,fun v one high out enough => ends v one high out ?_⟩
    · have := stops v out start
      have := (each q ran).2 v (by omega) high out
      omega
    have := stops v out
    split_ifs at enough ⊢ <;> omega

-- The first candidate of the search.
def Pids.first (p : Pids) (lcpu : Nat) : Nat := if p.lastPid + 1 ≥ maxPid then lcpu else p.lastPid + 1

lemma getPid_run (cpus : 1 ≤ lcpu) (few : lcpu < maxPid) (clear : ∀ pid ∈ list,pid ≤ p.lastPid ∨ p.nextSafe ≤ pid) (high : p.nextSafe ≤ maxPid)
    (ran : getPid lcpu n p list = some q) : q.Window list ∧ ∀ v,p.first lcpu ≤ v → v < maxPid → v ∉ list → p.first lcpu ≤ q.lastPid := by
  unfold getPid at ran
  unfold Pids.first
  split at ran
  next wraps =>
    rw [if_pos wraps]
    exact (rescan_run cpus few rfl).1 q ran
  rename_i stays
  rw [if_neg stays]
  split at ran
  · exact (rescan_run (by dsimp only; omega) (by dsimp only; omega) rfl).1 q ran
  cases ran
  exact ⟨⟨by dsimp only; omega,by dsimp only; omega,high,fun pid mem => (clear pid mem).imp_left Nat.lt_succ_of_le⟩,fun _ _ _ _ => le_rfl⟩

lemma getPid_ends (cpus : 1 ≤ lcpu) (few : lcpu < maxPid) (room : list.length < maxProcess) (p : Pids) : ∃ n q,getPid lcpu n p list = some q := by
  obtain ⟨v,small,out⟩ : ∃ v ∈ Finset.Ico 1 maxPid,v ∉ list.toFinset := by
    refine Finset.exists_mem_notMem_of_card_lt_card ?_
    have := list.toFinset_card_le
    rw [Nat.card_Ico]
    exact (this.trans_lt room).trans (by decide)
  have small := Finset.mem_Ico.mp small
  rw [mem_toFinset] at out
  refine ⟨2 * maxPid,?_⟩
  unfold getPid
  split
  · exact (rescan_run cpus few rfl).2 v small.1 small.2 out (by dsimp only; split <;> omega)
  split
  · exact (rescan_run (by dsimp only; omega) (by dsimp only; omega) rfl).2 v small.1 small.2 out (by dsimp only; split <;> omega)
  exact ⟨_,rfl⟩

-- The pids in proc_list. A fork adds the new process to the list; between forks
-- processes may go and the list may be in any order.
structure Pool where
  pids : Pids
  list : List Nat

inductive PidEvent where
  | fork
  | change (list : List Nat)

def Pool.Move (lcpu : Nat) (s : Pool) : PidEvent → Pool → Prop
  | .fork,t => s.list.length < maxProcess ∧ ∃ n q,getPid lcpu n s.pids s.list = some q ∧ t = ⟨q,q.lastPid :: s.list⟩
  | .change list,t => list.Subperm s.list ∧ t = {s with list:=list}

def Pool.first : Pool := ⟨⟨maxPid,maxPid⟩,[]⟩

structure Pool.Law (s : Pool) : Prop where
  high : s.pids.nextSafe ≤ maxPid
  clear : ∀ pid ∈ s.list,pid ≤ s.pids.lastPid ∨ s.pids.nextSafe ≤ pid

section
variable {s t : Pool} {e : PidEvent}

lemma Pool.Law.step (cpus : 1 ≤ lcpu) (few : lcpu < maxPid) (law : s.Law) (moved : s.Move lcpu e t) : t.Law := by
  cases e with
  | fork =>
    obtain ⟨_,n,q,ran,rfl⟩ := moved
    have window := (getPid_run cpus few law.clear law.high ran).1
    exact ⟨window.high,forall_mem_cons.mpr ⟨.inl le_rfl,fun pid mem => (window.clear pid mem).imp_left le_of_lt⟩⟩
  | change _ =>
    obtain ⟨less,rfl⟩ := moved
    exact ⟨law.high,fun pid mem => law.clear pid (less.subset mem)⟩

lemma Pool.Law.first : Pool.first.Law := ⟨le_rfl,nofun⟩

-- The search ends before last_pid wraps inside the loop.
def Pool.Clear (lcpu : Nat) (s : Pool) : Prop := lcpu = 1 ∨ ∃ f,s.pids.first lcpu ≤ f ∧ f < maxPid ∧ f ∉ s.list

def Pool.Calm (lcpu : Nat) (s : Pool) (e : PidEvent) (t : Pool) : Prop := s.Move lcpu e t ∧ (e = .fork → s.Clear lcpu)

-- A fork whose child goes at once moves last_pid by one.
lemma climb (room : list.length < maxProcess) (high : n ≤ maxPid) (out : ∀ pid ∈ list,pid ≤ v ∨ n ≤ pid) (k : Nat) (low : v + k < n) :
    ∃ events,Path (Pool.Calm lcpu) ⟨⟨v,n⟩,list⟩ events ⟨⟨v + k,n⟩,list⟩ := by
  induction k with
  | zero => exact ⟨_,.nil⟩
  | succ k ih =>
    obtain ⟨_,path⟩ := ih (by omega)
    have first : Pids.first ⟨v + k,n⟩ lcpu = v + (k + 1) := if_neg (by dsimp only; omega)
    have next : getPid lcpu 0 ⟨v + k,n⟩ list = some ⟨v + (k + 1),n⟩ := by rw [getPid,if_neg (by dsimp only; omega),if_neg (by dsimp only; omega)]; rfl
    have forks : Pool.Calm lcpu ⟨⟨v + k,n⟩,list⟩ .fork ⟨⟨v + (k + 1),n⟩,(v + (k + 1)) :: list⟩ :=
      ⟨⟨room,0,_,next,rfl⟩,fun _ => .inr ⟨_,first.le,by omega,fun mem => by have := out _ mem; omega⟩⟩
    have goes : Pool.Calm lcpu ⟨⟨v + (k + 1),n⟩,(v + (k + 1)) :: list⟩ (.change list) ⟨⟨v + (k + 1),n⟩,list⟩ := ⟨⟨(sublist_cons_self ..).subperm,rfl⟩,nofun⟩
    exact ⟨_,.step (.step path forks) goes⟩

-- initproc, pid 2 of two CPUs, lives on while the others come and go.
lemma first_round (k : Nat) (low : 2 + k < maxPid) : ∃ events,Path (Pool.Calm 2) .first events ⟨⟨2 + k,maxPid⟩,[2]⟩ := by
  have start : Path (Pool.Calm 2) .first [.fork] ⟨⟨2,maxPid⟩,[2]⟩ := .step .nil ⟨⟨by decide,1,_,rfl,rfl⟩,fun _ => .inr ⟨2,by decide,by decide,nofun⟩⟩
  obtain ⟨_,up⟩ := climb (n:=maxPid) (v:=2) (by decide : [2].length < maxProcess) le_rfl (by simp) k low
  exact ⟨_,start.append up⟩

-- A process with pid 8191 lives on, too.
lemma second_round : ∃ events,Path (Pool.Move 2) .first events ⟨⟨8190,8191⟩,[8191,2]⟩ := by
  obtain ⟨_,up⟩ := first_round 8188 (by decide)
  obtain ⟨_,round⟩ := climb (n:=8191) (v:=3) (by decide : [8191,2].length < maxProcess) (by decide) (by simp) 8187 (by decide)
  have kept : Path (Pool.Move 2) ⟨⟨8190,maxPid⟩,[2]⟩ [.fork,.fork,.change [8191,2]] ⟨⟨3,8191⟩,[8191,2]⟩ :=
    .step (.step (.step .nil ⟨by decide,0,_,rfl,rfl⟩) ⟨by decide,1,_,rfl,rfl⟩) ⟨(sublist_cons_self ..).subperm,rfl⟩
  exact ⟨_,((up.mono fun _ _ _ moved => moved.1).append kept).append (round.mono fun _ _ _ moved => moved.1)⟩

theorem get_pid_unique (cpus : 1 ≤ lcpu) (few : lcpu < maxPid) (path : Path (Pool.Move lcpu) .first events s) (room : s.list.length < maxProcess) :
    (∃ n q,getPid lcpu n s.pids s.list = some q) ∧ ∀ n q,getPid lcpu n s.pids s.list = some q →
      1 ≤ q.lastPid ∧ q.lastPid < maxPid ∧ q.lastPid ∉ s.list ∧ ∀ pid ∈ s.list,¬ (q.lastPid ≤ pid ∧ pid < q.nextSafe) := by
  have law : s.Law := path.invariant (fun _ _ _ law => law.step cpus few) .first
  refine ⟨getPid_ends cpus few room s.pids,fun n q ran => ?_⟩
  have window := (getPid_run cpus few law.clear law.high ran).1
  have out (pid : Nat) (member : pid ∈ s.list) : ¬ (q.lastPid ≤ pid ∧ pid < q.nextSafe) := by
    have := window.clear pid member
    omega
  exact ⟨window.low,window.order.trans_le window.high,fun member => out _ member ⟨le_rfl,window.order⟩,out⟩

theorem get_pid_unique_wrap : ∃ q,getPid 2 2 ⟨8190,8191⟩ [8191,2] = some q ∧ q.lastPid = 1 ∧ q.lastPid ∉ [8191,2] := by
  obtain ⟨_,path⟩ := second_round
  exact ⟨_,rfl,rfl,((get_pid_unique (by decide) (by decide) path (by decide)).2 2 _ rfl).2.2.1⟩

lemma Pool.Law.above (cpus : 1 ≤ lcpu) (few : lcpu < maxPid) (law : s.Law) (last : lcpu ≤ s.pids.lastPid) (clear : s.Clear lcpu)
    (ran : getPid lcpu n s.pids s.list = some q) : lcpu ≤ q.lastPid := by
  obtain ⟨window,least⟩ := getPid_run cpus few law.clear law.high ran
  rcases clear with rfl | ⟨f,start,high,out⟩
  · exact window.low
  have := least f start high out
  unfold Pids.first at this
  split at this <;> omega

theorem idle_pids_reserved (cpus : 1 ≤ lcpu) (few : lcpu < maxPid)
    (path : Path (Pool.Calm lcpu) .first events s) (ends : s.Clear lcpu) :
    (∀ pid ∈ s.list,lcpu ≤ pid) ∧ ∀ n q,getPid lcpu n s.pids s.list = some q → lcpu ≤ q.lastPid := by
  have kept : s.Law ∧ lcpu ≤ s.pids.lastPid ∧ ∀ pid ∈ s.list,lcpu ≤ pid := by
    clear ends
    induction path with
    | nil => exact ⟨.first,few.le,nofun⟩
    | @step _ _ e _ _ moved ih =>
      obtain ⟨law,last,each⟩ := ih
      refine ⟨law.step cpus few moved.1,?_⟩
      cases e with
      | fork =>
        obtain ⟨⟨_,n,q,ran,rfl⟩,clear⟩ := moved
        have above := law.above cpus few last (clear rfl) ran
        exact ⟨above,forall_mem_cons.mpr ⟨above,each⟩⟩
      | change list =>
        obtain ⟨⟨less,rfl⟩,_⟩ := moved
        exact ⟨last,fun pid member => each pid (less.subset member)⟩
  exact ⟨kept.2.2,fun n q ran => kept.1.above cpus few kept.2.1 ends ran⟩

-- After the wrap the search starts at pid 2, which is taken.
theorem idle_pids_reserved_wrap : ∃ q,getPid 2 1 ⟨8191,maxPid⟩ [2] = some q ∧ q.lastPid = 3 ∧ 2 ≤ q.lastPid := by
  obtain ⟨_,path⟩ := first_round 8189 (by decide)
  exact ⟨_,rfl,rfl,(idle_pids_reserved (by decide) (by decide) path (.inr ⟨3,by decide,by decide,by decide⟩)).2 1 _ rfl⟩

theorem idle_pid_returned : ∃ events s q,Path (Pool.Move 2) .first events s ∧ getPid 2 2 s.pids s.list = some q ∧ q.lastPid = 1 := by
  obtain ⟨_,path⟩ := second_round
  exact ⟨_,_,_,path,rfl,rfl⟩

end

end Ucore.Proc
