import Ucore.Lib.Runs
import Ucore.Sync.Wait

-- sem.c: kernel semaphores (down, try_down, up) and user semaphores (ipc_sem_wait with
-- and without a timeout, ipc_sem_post), among processes that can be killed.
namespace Ucore.Sync
open Runs Procs
open Prod (snd)
open List hiding after
variable {kind : Nat → Kind} {v : Nat → Int} {s : Sys}

-- Kernel semaphores wait in WT_KSEM and without timers, user ones in WT_USEM.
inductive Kind where
  | kernel
  | user
  deriving DecidableEq

def Kind.waitState : Kind → Nat
  | .kernel => wtKsem
  | .user => wtUsem

-- Behind value, valid and wait_queue stand counts of the run so far, which the code
-- does not keep: ups, the downs that returned 0 (taken), ups by processes that had not
-- taken (stray), the processes that were handed a token and have not run since, those
-- that have taken and not given back (held), and who queued up and was served, in order.
structure Sem where
  value : Int
  valid : Bool
  queue : List Nat
  ups : Nat
  taken : Nat
  stray : Nat
  handed : List Nat
  held : List Nat
  arrived : List Nat
  served : List Nat

-- inDown: the semaphore whose __down a process is in, past wait_current_set. timeout
-- and saved are the arguments of its call, ret is what its last call returned.
structure Sys where
  procs : Procs
  sems : Nat → Sem
  inDown : Nat → Option Nat
  timeout : Nat → Nat
  saved : Nat → Nat
  ret : Nat → Int

-- value is a C int.
def wrap (n : Int) : Int := Int.bmod n (2^32)

def Sem.take (sem : Sem) (t : Nat) : Sem := {sem with taken:=sem.taken + 1,held:=t :: sem.held}

-- The history of an up by process t.
def Sem.give (sem : Sem) (t : Nat) : Sem :=
  {sem with ups:=sem.ups + 1,stray:=sem.stray + (if t ∈ sem.held then 0 else 1),held:=sem.held.erase t}

section Code
variable (kind : Nat → Kind)

def Sys.up (s : Sys) (t i : Nat) : Except Fault Sys :=
  let sem := s.sems i
  if sem.valid = false then .error .semValid
  else
    match sem.queue with
    | [] => .ok {s with sems:=put s.sems i {sem.give t with value:=wrap (sem.value + 1)}}
    | first :: rest =>
      if s.procs.waitState first = (kind i).waitState then
        .ok {s with
          procs:=s.procs.wakeupWait first (kind i).waitState
          sems:=put s.sems i {sem.give t with queue:=rest,handed:=first :: sem.handed,served:=sem.served ++ [first]}}
      else .error .upState

-- __down up to schedule; a token that is there is taken at once.
def Sys.down (s : Sys) (t i timeout : Nat) : Except Fault Sys :=
  let sem := s.sems i
  if sem.valid = false then .error .semValid
  else if sem.value > 0 then
    .ok {s with sems:=put s.sems i {sem.take t with value:=sem.value - 1},ret:=put s.ret t 0}
  else
    .ok {s with
      procs:=(s.procs.waitCurrentSet t (kind i).waitState).addTimer t timeout
      sems:=put s.sems i {sem with queue:=sem.queue ++ [t],arrived:=sem.arrived ++ [t]}
      inDown:=put s.inDown t (some i)
      timeout:=put s.timeout t timeout
      saved:=put s.saved t s.procs.ticks}

def Sys.tryDown (s : Sys) (t i : Nat) : Sys :=
  let sem := s.sems i
  if sem.value > 0 then {s with sems:=put s.sems i {sem.take t with value:=sem.value - 1},ret:=put s.ret t 1}
  else {s with ret:=put s.ret t 0}

-- The rest of __down, after schedule, and of down and usem_down.
def Sys.resume (s : Sys) (t i : Nat) : Except Fault Sys :=
  let sem := s.sems i
  let flags := s.procs.wakeupFlags t
  let s := {s with procs:=s.procs.delTimer t,inDown:=put s.inDown t none}
  if flags = (kind i).waitState then
    .ok {s with
      sems:=put s.sems i {sem.take t with queue:=sem.queue.erase t,handed:=sem.handed.erase t}
      ret:=put s.ret t 0}
  else
    let s := {s with sems:=put s.sems i {sem with queue:=sem.queue.erase t}}
    match kind i with
    | .kernel => .error .downFlags
    | .user =>
      if flags = wtInterrupted then .ok {s with ret:=put s.ret t (checkTimeout (s.timeout t) (s.saved t) s.procs.ticks)}
      else .error .usemFlags

inductive Event where
  | down (t i timeout : Nat)
  | tryDown (t i : Nat)
  | up (t i : Nat)
  | resume (t : Nat)
  | tick
  | kill (t : Nat)
  deriving DecidableEq

-- A process acts while it is awake and not in the middle of a __down; kernel
-- semaphores are taken without a timeout, and try_down is theirs only.
def Sys.Enabled (s : Sys) : Event → Prop
  | .down t i timeout => s.procs.asleep t = false ∧ s.inDown t = none ∧ (kind i = .kernel → timeout = 0)
  | .tryDown t i => s.procs.asleep t = false ∧ s.inDown t = none ∧ kind i = .kernel
  | .up t _ => s.procs.asleep t = false ∧ s.inDown t = none
  | .resume t => s.procs.asleep t = false ∧ (s.inDown t).isSome
  | .tick => True
  | .kill _ => True

instance (s : Sys) (e : Event) : Decidable (s.Enabled kind e) := by
  cases e <;> unfold Sys.Enabled <;> infer_instance

def Sys.run (s : Sys) : Event → Except Fault Sys
  | .down t i timeout => s.down kind t i timeout
  | .tryDown t i => .ok (s.tryDown t i)
  | .up t i => s.up kind t i
  | .resume t =>
    match s.inDown t with
    | none => .ok s
    | some i => s.resume kind t i
  | .tick => s.procs.runTimerList.map fun procs => {s with procs:=procs}
  | .kill t => .ok {s with procs:=s.procs.doKill t}

def start (v : Nat → Int) : Sys :=
  ⟨⟨fun _ => false,fun _ => 0,fun _ => 0,fun _ => false,[],0⟩,
    fun i => ⟨v i,true,[],0,0,0,[],[],[],[]⟩,fun _ => none,fun _ => 0,fun _ => 0,fun _ => 0⟩

end Code

def Phase (kind : Nat → Kind) (s : Sys) (t : Nat) : Prop :=
  match s.inDown t with
  | none => s.procs.asleep t = false ∧ s.procs.waitState t = 0
  | some i =>
    (t ∈ (s.sems i).queue ∧ t ∉ (s.sems i).handed ∧ s.procs.wakeupFlags t = wtInterrupted ∧
      ((s.procs.asleep t = true ∧ s.procs.waitState t = (kind i).waitState) ∨
        (s.procs.asleep t = false ∧ s.procs.waitState t = 0 ∧ kind i = .user))) ∨
    (t ∉ (s.sems i).queue ∧ t ∈ (s.sems i).handed ∧ s.procs.wakeupFlags t = (kind i).waitState ∧
      s.procs.asleep t = false ∧ s.procs.waitState t = 0)

-- What holds of one semaphore, started with v. Without timeouts and kills those who
-- queued up are served in that order.
structure Tokens (kind : Kind) (v : Int) (sem : Sem) : Prop where
  valid : sem.valid = true
  queue : sem.queue.Nodup
  handed : sem.handed.Nodup
  idle : sem.value > 0 → sem.queue = []
  low : -2^31 ≤ sem.value
  nonneg : 0 ≤ v → 0 ≤ sem.value
  conserved : v + sem.ups = sem.value + sem.taken + sem.handed.length
  given : sem.held.length + sem.ups = sem.taken + sem.stray
  fifo : kind = .kernel → sem.served ++ sem.queue = sem.arrived

structure Inv (kind : Nat → Kind) (v : Nat → Int) (s : Sys) : Prop where
  phase : ∀ t,Phase kind s t
  own : ∀ t i,t ∈ (s.sems i).queue ∨ t ∈ (s.sems i).handed → s.inDown t = some i
  tokens : ∀ i,Tokens (kind i) (v i) (s.sems i)
  armed : Armed s.procs.timers
  timed : ∀ t ∈ s.procs.timers.map snd,∃ i,s.inDown t = some i ∧ kind i = .user

-- The steps the semaphores are good for: no up at INT_MAX, and none on a user semaphore
-- whose first waiter a timer or a kill has already woken.
def Sys.Meets (kind : Nat → Kind) (s : Sys) : Event → Prop
  | .up _ i =>
    match (s.sems i).queue with
    | [] => (s.sems i).value < 2^31 - 1
    | first :: _ => kind i = .user → s.procs.asleep first = true
  | _ => True

lemma wrap_small (low : -2^31 ≤ n) (high : n < 2^31 - 1) : wrap (n + 1) = n + 1 := by
  unfold wrap
  rw [Int.bmod_eq_of_le]
  · norm_num
    omega
  norm_num
  omega

lemma Kind.waitState_ne (kind : Kind) : kind.waitState ≠ wtInterrupted ∧ kind.waitState ≠ 0 := by cases kind <;> decide

lemma Phase.frame {new : Sys} (old : Phase kind s u) (inDown : new.inDown u = s.inDown u)
    (asleep : new.procs.asleep u = s.procs.asleep u) (waitState : new.procs.waitState u = s.procs.waitState u)
    (flags : new.procs.wakeupFlags u = s.procs.wakeupFlags u)
    (queue : ∀ i,u ∈ (new.sems i).queue ↔ u ∈ (s.sems i).queue) (handed : ∀ i,u ∈ (new.sems i).handed ↔ u ∈ (s.sems i).handed) :
    Phase kind new u := by
  unfold Phase at *
  simpa only [inDown,asleep,waitState,flags,queue,handed] using old

-- A process that is woken may be queued on a user semaphore only.
lemma Phase.woken {procs : Procs} (old : Phase kind s u) (woken : Woken s.procs procs u) (flags : procs.wakeupFlags = s.procs.wakeupFlags)
    (may : (procs.asleep u = s.procs.asleep u ∧ procs.waitState u = s.procs.waitState u) ∨ ∀ i,s.inDown u = some i → kind i = .user) :
    Phase kind {s with procs:=procs} u := by
  rcases may with ⟨asleep,state⟩ | user
  · exact old.frame rfl asleep state (congrFun flags u) (fun _ => .rfl) fun _ => .rfl
  rcases woken with ⟨asleep,state⟩ | ⟨slept,awake,state⟩
  · exact old.frame rfl asleep state (congrFun flags u) (fun _ => .rfl) fun _ => .rfl
  unfold Phase at *
  cases spot : s.inDown u with
  | none => simp [spot,slept] at old
  | some i =>
    rw [spot] at old
    dsimp only at old ⊢
    rcases old with ⟨queued,unhanded,flag,_⟩ | ⟨_,_,_,asleep,_⟩
    · rw [flags]
      exact .inl ⟨queued,unhanded,flag,.inr ⟨awake,state,user i spot⟩⟩
    rw [slept] at asleep
    cases asleep

lemma Inv.outside (inv : Inv kind v s) (out : s.inDown t = none) (i : Nat) : t ∉ (s.sems i).queue ∧ t ∉ (s.sems i).handed := by
  constructor
  · intro mem
    simp [inv.own t i (.inl mem)] at out
  intro mem
  simp [inv.own t i (.inr mem)] at out

lemma Inv.move {new : Sys} {sem : Sem} (inv : Inv kind v s) (spot : ∀ j,s.inDown t = some j → j = i) (sems : new.sems = put s.sems i sem)
    (rest : ∀ u ≠ t,new.inDown u = s.inDown u ∧ new.procs.asleep u = s.procs.asleep u ∧
      new.procs.waitState u = s.procs.waitState u ∧ new.procs.wakeupFlags u = s.procs.wakeupFlags u)
    (queue : ∀ u ≠ t,(u ∈ sem.queue ↔ u ∈ (s.sems i).queue)) (handed : ∀ u ≠ t,(u ∈ sem.handed ↔ u ∈ (s.sems i).handed))
    (mine : Phase kind new t) (own : t ∈ sem.queue ∨ t ∈ sem.handed → new.inDown t = some i)
    (tokens : Tokens (kind i) (v i) sem) (armed : Armed new.procs.timers)
    (timed : ∀ u ∈ new.procs.timers.map snd,∃ i,new.inDown u = some i ∧ kind i = .user) : Inv kind v new := by
  have each {P : Nat → Sem → Prop} (here : P i sem) (there : ∀ j ≠ i,P j (s.sems j)) (j : Nat) : P j (new.sems j) := by
    rw [sems]
    exact put_all here there j
  refine ⟨fun u => ?_,fun u => each (P:=fun j sem => u ∈ sem.queue ∨ u ∈ sem.handed → new.inDown u = some j) (fun mem => ?_) fun j eq mem => ?_,
    each tokens fun j _ => inv.tokens j,armed,timed⟩
  · by_cases me : u = t
    · subst me
      exact mine
    obtain ⟨inDown,asleep,waitState,flags⟩ := rest u me
    exact (inv.phase u).frame inDown asleep waitState flags (each (P:=fun j sem => u ∈ sem.queue ↔ u ∈ (s.sems j).queue) (queue u me) fun _ _ => .rfl)
      (each (P:=fun j sem => u ∈ sem.handed ↔ u ∈ (s.sems j).handed) (handed u me) fun _ _ => .rfl)
  · by_cases me : u = t
    · subst me
      exact own mem
    rw [queue u me,handed u me] at mem
    exact (rest u me).1.trans (inv.own u i mem)
  have old := inv.own u j mem
  refine (rest u ?_).1.trans old
  rintro rfl
  exact eq (spot j old)

lemma Inv.count {sem : Sem} {ret : Nat → Int} (inv : Inv kind v s) (queue : sem.queue = (s.sems i).queue) (handed : sem.handed = (s.sems i).handed)
    (tokens : Tokens (kind i) (v i) sem) : Inv kind v {s with sems:=put s.sems i sem,ret:=ret} := by
  have same (j : Nat) : (put s.sems i sem j).queue = (s.sems j).queue ∧ (put s.sems i sem j).handed = (s.sems j).handed ∧
      Tokens (kind j) (v j) (put s.sems i sem j) := by
    by_cases eq : j = i
    · subst eq
      simpa [queue,handed] using tokens
    simpa [put_other eq] using inv.tokens j
  refine ⟨fun t => (inv.phase t).frame rfl rfl rfl rfl (fun j => ?_) fun j => ?_,fun t j mem => inv.own t j ?_,fun j => (same j).2.2,inv.armed,inv.timed⟩
  · rw [(same j).1]
  · rw [(same j).2.1]
  rwa [(same j).1,(same j).2.1] at mem

lemma Tokens.take (old : Tokens k x sem) (token : sem.value > 0) (t : Nat) : Tokens k x {sem.take t with value:=sem.value - 1} := by
  have conserved := old.conserved
  have given := old.given
  have low : (-2^31 : Int) ≤ 0 := by norm_num
  refine ⟨old.valid,old.queue,old.handed,fun more => old.idle token,?_,fun _ => ?_,?_,?_,old.fifo⟩
  · dsimp only
    omega
  · dsimp only
    omega
  · simp only [Sem.take]
    push_cast
    omega
  simp only [Sem.take,length_cons]
  omega

lemma Tokens.given_back (old : Tokens k x sem) (t : Nat) : (sem.give t).held.length + (sem.give t).ups = (sem.give t).taken + (sem.give t).stray := by
  have given := old.given
  simp only [Sem.give]
  by_cases mem : t ∈ sem.held
  · have size := length_erase_of_mem mem
    have some := length_pos_of_mem mem
    simp only [mem,if_true]
    omega
  simp only [mem,if_false,erase_of_not_mem mem]
  omega

namespace Inv
variable (inv : Inv kind v s)
include inv

lemma untimed (out : s.inDown t = none) : t ∉ s.procs.timers.map snd := by
  intro mem
  obtain ⟨j,low,_⟩ := inv.timed t mem
  simp [low] at out

lemma down (out : s.inDown t = none) (plain : kind i = .kernel → late = 0) : ∃ new,s.down kind t i late = .ok new ∧ Inv kind v new := by
  have tokens := inv.tokens i
  unfold Sys.down
  rw [if_neg (by simp [tokens.valid])]
  split
  · exact ⟨_,rfl,inv.count rfl rfl (tokens.take ‹_› t)⟩
  rename_i dry
  refine ⟨_,rfl,?_⟩
  have gone := inv.outside out i
  obtain ⟨asleep,waitState,flags⟩ := addTimer_frame (s.procs.waitCurrentSet t (kind i).waitState) t late
  refine inv.move (i := i) (t := t) (by simp [out]) rfl (fun u me => ?_) (fun u me => by simp [me]) (fun u _ => .rfl) ?_ (fun _ => put_same ..) ?_ ?_ fun u mem => ?_
  · refine ⟨put_other me,?_,?_,?_⟩
    · exact (congrFun asleep u).trans (put_other me)
    · exact (congrFun waitState u).trans (put_other me)
    exact (congrFun flags u).trans (put_other me)
  · unfold Phase
    simp only [put_same,asleep,waitState,flags]
    exact .inl ⟨by simp,gone.2,put_same ..,.inl ⟨put_same ..,put_same ..⟩⟩
  · refine {tokens with queue:=?_,idle:=fun more => absurd more dry,fifo:=fun kernel => ?_}
    · exact tokens.queue.append (by simp) (by simpa using gone.1)
    dsimp only
    rw [← tokens.fifo kernel,append_assoc]
  · dsimp [addTimer]
    split
    · exact inv.armed
    exact inv.armed.insert ‹_› (inv.untimed out)
  dsimp only [addTimer] at mem ⊢
  by_cases me : u = t
  · subst me
    refine ⟨i,put_same ..,?_⟩
    cases k : kind i with
    | user => rfl
    | kernel =>
      rw [if_pos (plain k)] at mem
      exact absurd mem (inv.untimed out)
  rw [put_other me]
  refine inv.timed u ?_
  split at mem
  · exact mem
  have either := (insertTimer_procs late t s.procs.timers).mem_iff.mp mem
  simpa [me] using either

lemma tryDown (t i : Nat) : Inv kind v (s.tryDown t i) := by
  unfold Sys.tryDown
  dsimp only
  split
  · exact inv.count rfl rfl ((inv.tokens i).take ‹_› t)
  exact {inv with}

lemma first_asleep (queue : (s.sems i).queue = first :: rest) (meets : s.Meets kind (.up t i)) :
    s.inDown first = some i ∧ first ∉ (s.sems i).handed ∧ s.procs.asleep first = true ∧ s.procs.waitState first = (kind i).waitState := by
  have mem : first ∈ (s.sems i).queue := by simp [queue]
  have low := inv.own first i (.inl mem)
  have phase := inv.phase first
  simp only [Phase,low] at phase
  simp only [Sys.Meets,queue] at meets
  rcases phase with ⟨_,unhanded,_,⟨asleep,state⟩ | ⟨awake,_,user⟩⟩ | ⟨out,_⟩
  · exact ⟨low,unhanded,asleep,state⟩
  · rw [meets user] at awake
    cases awake
  exact absurd mem out

lemma up (meets : s.Meets kind (.up t i)) : ∃ new,s.up kind t i = .ok new ∧ Inv kind v new := by
  have tokens := inv.tokens i
  have conserved := tokens.conserved
  unfold Sys.up
  rw [if_neg (by simp [tokens.valid])]
  split
  next queue =>
    have room : (s.sems i).value < 2^31 - 1 := by simpa [Sys.Meets,queue] using meets
    have exact := wrap_small tokens.low room
    have low := tokens.low
    refine ⟨_,rfl,inv.count rfl rfl ⟨tokens.valid,tokens.queue,tokens.handed,fun _ => queue,?_,fun start => ?_,?_,tokens.given_back t,tokens.fifo⟩⟩
    · dsimp only
      omega
    · have old := tokens.nonneg start
      dsimp only
      omega
    simp only [exact,Sem.give]
    push_cast
    omega
  rename_i one rest queue
  obtain ⟨inside,unhanded,asleep,state⟩ := inv.first_asleep queue meets
  have nodup := tokens.queue
  rw [queue,nodup_cons] at nodup
  rw [if_pos state]
  refine ⟨_,rfl,?_⟩
  have woken : s.procs.wakeupWait one (kind i).waitState = {s.procs with
      asleep:=put s.procs.asleep one false,waitState:=put s.procs.waitState one 0
      wakeupFlags:=put s.procs.wakeupFlags one (kind i).waitState} := by
    simp [wakeupWait,wakeupProc,asleep]
  rw [woken]
  refine inv.move (i := i) (t := one) (by simp [inside]) rfl (fun u me => ⟨rfl,put_other me,put_other me,put_other me⟩)
    (fun u me => by simp [queue,me]) (fun u me => by simp [me]) ?_ (fun _ => inside) ?_ inv.armed inv.timed
  · unfold Phase
    simp only [inside,put_same]
    exact .inr ⟨nodup.1,by simp,trivial,trivial,trivial⟩
  refine ⟨tokens.valid,nodup.2,nodup_cons.mpr ⟨unhanded,tokens.handed⟩,fun more => ?_,tokens.low,tokens.nonneg,?_,tokens.given_back t,fun kernel => ?_⟩
  · have none := tokens.idle more
    simp [queue] at none
  · simp only [Sem.give,length_cons]
    push_cast
    omega
  have order := tokens.fifo kernel
  rw [queue] at order
  simpa [Sem.give] using order

lemma resume (awake : s.procs.asleep t = false) (low : s.inDown t = some i) : ∃ new,s.resume kind t i = .ok new ∧ Inv kind v new ∧
      (new.ret t ≠ 0 → ∀ j,(new.sems j).value = (s.sems j).value ∧ (new.sems j).taken = (s.sems j).taken ∧
        (new.sems j).handed = (s.sems j).handed) := by
  have tokens := inv.tokens i
  have conserved := tokens.conserved
  have given := tokens.given
  have phase := inv.phase t
  simp only [Phase,low] at phase
  have timed (u : Nat) (mem : u ∈ (removeTimer t s.procs.timers).map snd) : ∃ j,put s.inDown t none u = some j ∧ kind j = .user := by
    rw [removeTimer_procs] at mem
    have me : u ≠ t := by
      rintro rfl
      exact inv.armed.once.not_mem_erase mem
    rw [put_other me]
    exact inv.timed u (mem_of_mem_erase mem)
  rcases phase with ⟨_,unhanded,flags,⟨asleep,_⟩ | ⟨_,state,user⟩⟩ | ⟨unqueued,handed,flags,_,state⟩
  · rw [asleep] at awake
    cases awake
  · have ne : wtInterrupted ≠ Kind.user.waitState := Kind.user.waitState_ne.1.symm
    simp only [Sys.resume,user,flags,if_neg ne,if_true]
    refine ⟨_,rfl,?_,fun _ j => ?_⟩
    · refine inv.move (i := i) (t := t) (by simp [low]) rfl (fun u me => ⟨put_other me,rfl,rfl,rfl⟩)
        (fun u me => mem_erase_of_ne me) (fun u _ => .rfl) ?_ (fun mem => ?_) ?_ (inv.armed.remove t) timed
      · simp only [Phase,put_same]
        exact ⟨awake,state⟩
      · rcases mem with again | again
        · exact absurd again (tokens.queue.not_mem_erase)
        exact absurd again unhanded
      refine ⟨tokens.valid,tokens.queue.erase t,tokens.handed,fun more => ?_,tokens.low,tokens.nonneg,conserved,given,fun kernel => ?_⟩
      · simp [tokens.idle more]
      rw [user] at kernel
      cases kernel
    by_cases eq : j = i
    · subst eq
      simp
    simp [put_other eq]
  simp only [Sys.resume,if_pos flags]
  refine ⟨_,rfl,?_,by simp⟩
  have size := length_erase_of_mem handed
  have some := length_pos_of_mem handed
  refine inv.move (i := i) (t := t) (by simp [low]) rfl (fun u me => ⟨put_other me,rfl,rfl,rfl⟩)
    (fun u me => mem_erase_of_ne me) (fun u me => mem_erase_of_ne me) ?_ (fun mem => ?_) ?_ (inv.armed.remove t) timed
  · simp only [Phase,put_same]
    exact ⟨awake,state⟩
  · rcases mem with again | again
    · exact absurd (mem_of_mem_erase again) unqueued
    exact absurd again tokens.handed.not_mem_erase
  simp only [erase_of_not_mem unqueued]
  refine {tokens with handed:=tokens.handed.erase t,conserved:=?_,given:=?_}
  · simp only [Sem.take]
    push_cast
    omega
  simp only [Sem.take,length_cons]
  omega

lemma waitState_cases (t : Nat) : s.procs.waitState t = 0 ∨ ∃ i,s.inDown t = some i ∧ s.procs.waitState t = (kind i).waitState := by
  have phase := inv.phase t
  unfold Phase at phase
  cases spot : s.inDown t with
  | none =>
    rw [spot] at phase
    exact .inl phase.2
  | some i =>
    rw [spot] at phase
    rcases phase with ⟨_,_,_,⟨_,state⟩ | ⟨_,state,_⟩⟩ | ⟨_,_,_,_,state⟩
    · exact .inr ⟨i,rfl,state⟩
    · exact .inl state
    exact .inl state

lemma tick : ∃ procs,s.procs.runTimerList = .ok procs ∧ Inv kind v {s with procs:=procs} := by
  have may (t : Nat) (mem : t ∈ s.procs.timers.map snd) : s.procs.waitState t = 0 ∨ interruptible (s.procs.waitState t) = true := by
    rcases inv.waitState_cases t with zero | ⟨i,low,state⟩
    · exact .inl zero
    obtain ⟨j,eq,user⟩ := inv.timed t mem
    rw [low] at eq
    cases eq
    rw [state,user]
    exact .inr rfl
  obtain ⟨procs,ran,ticked⟩ := runTimerList_ticked inv.armed may
  refine ⟨procs,ran,fun t => ?_,inv.own,inv.tokens,ticked.armed,fun t mem => inv.timed t (ticked.fewer t mem)⟩
  refine (inv.phase t).woken (ticked.woken t) ticked.flags ?_
  by_cases mem : t ∈ s.procs.timers.map snd
  · right
    intro i low
    obtain ⟨j,eq,user⟩ := inv.timed t mem
    rw [low] at eq
    cases eq
    exact user
  exact .inl (ticked.others t mem)

lemma kill (t : Nat) : Inv kind v {s with procs:=s.procs.doKill t} := by
  have frame := s.procs.doKill_frame t
  refine ⟨fun u => ?_,inv.own,inv.tokens,?_,?_⟩
  · refine (inv.phase u).woken (s.procs.doKill_woken t u) frame.1 ?_
    rcases inv.waitState_cases u with zero | ⟨i,low,state⟩
    · left
      exact s.procs.doKill_kept (by rw [zero]; rfl)
    cases k : kind i with
    | kernel =>
      left
      exact s.procs.doKill_kept (by rw [state,k]; rfl)
    | user =>
      right
      intro j eq
      rw [low] at eq
      cases eq
      exact k
  · dsimp only
    rw [frame.2]
    exact inv.armed
  dsimp only
  rw [frame.2]
  exact inv.timed

lemma run (may : s.Enabled kind e) (meets : s.Meets kind e) : ∃ new,s.run kind e = .ok new ∧ Inv kind v new := by
  cases e with
  | down t i _ => exact inv.down may.2.1 may.2.2
  | tryDown t i => exact ⟨_,rfl,inv.tryDown t i⟩
  | up t i => exact inv.up meets
  | resume t =>
    obtain ⟨i,low⟩ := Option.isSome_iff_exists.mp may.2
    obtain ⟨new,ran,kept,_⟩ := inv.resume may.1 low
    refine ⟨new,?_,kept⟩
    simpa only [Sys.run,low] using ran
  | tick =>
    obtain ⟨_,ran,kept⟩ := inv.tick
    exact ⟨_,by simp only [Sys.run,ran]; rfl,kept⟩
  | kill t => exact ⟨_,rfl,inv.kill t⟩

end Inv

instance (s : Sys) (e : Event) : Decidable (s.Meets kind e) := by
  unfold Sys.Meets
  split
  · split <;> infer_instance
  · infer_instance

def Sys.Room (s : Sys) : Event → Prop
  | .up _ i => (s.sems i).queue = [] → (s.sems i).value < 2^31 - 1
  | _ => True

def Roomy (kind : Nat → Kind) (s : Sys) (e : Event) (t : Sys) : Prop := s.Enabled kind e ∧ s.Room e ∧ s.run kind e = .ok t

def Timely (kind : Nat → Kind) (s : Sys) (e : Event) (t : Sys) : Prop := s.Enabled kind e ∧ s.Meets kind e ∧ s.run kind e = .ok t

def Ints (v : Nat → Int) : Prop := ∀ i,-2^31 ≤ v i ∧ v i < 2^31

lemma start_inv (ints : Ints v) : Inv kind v (start v) := by
  refine ⟨fun _ => ⟨rfl,rfl⟩,fun t i mem => ?_,fun i => ?_,⟨by simp [start],by simp [start]⟩,fun t mem => ?_⟩
  · simp [start] at mem
  · exact ⟨rfl,by simp [start],by simp [start],fun _ => rfl,(ints i).1,id,by simp [start],rfl,fun _ => rfl⟩
  simp [start] at mem

lemma Inv.meets (inv : Inv kind v s) (room : s.Room e) (ran : s.run kind e = .ok new) : s.Meets kind e := by
  cases e with
  | up t i =>
    simp only [Sys.Meets]
    split
    · exact room ‹_›
    rename_i first rest queue
    intro _
    simp only [Sys.run,Sys.up,(inv.tokens i).valid,queue] at ran
    split at ran
    · cases ran
    split at ran
    next state =>
      have low := inv.own first i (.inl (by simp [queue]))
      have phase := inv.phase first
      simp only [Phase,low] at phase
      have busy := (kind i).waitState_ne.2
      rcases phase with ⟨_,_,_,⟨asleep,_⟩ | ⟨_,zero,_⟩⟩ | ⟨_,_,_,_,zero⟩
      · exact asleep
      · rw [zero] at state
        exact absurd state.symm busy
      rw [zero] at state
      exact absurd state.symm busy
    cases ran
  | _ => trivial

lemma Inv.timely (inv : Inv kind v s) (step : Timely kind s e t) : Inv kind v t := by
  obtain ⟨may,meets,ran⟩ := step
  obtain ⟨_,eq,kept⟩ := inv.run may meets
  rw [ran] at eq
  cases eq
  exact kept

lemma Inv.roomy (inv : Inv kind v s) (step : Roomy kind s e t) : Inv kind v t := inv.timely ⟨step.1,inv.meets step.2.1 step.2.2,step.2.2⟩

lemma Inv.handed_iff (inv : Inv kind v s) (t i : Nat) : t ∈ (s.sems i).handed ↔ s.inDown t = some i ∧ t ∉ (s.sems i).queue := by
  constructor
  · intro mem
    have low := inv.own t i (.inr mem)
    have phase := inv.phase t
    simp only [Phase,low] at phase
    rcases phase with ⟨_,unhanded,_⟩ | ⟨out,_⟩
    · exact absurd mem unhanded
    exact ⟨low,out⟩
  rintro ⟨low,out⟩
  have phase := inv.phase t
  simp only [Phase,low] at phase
  rcases phase with ⟨queued,_⟩ | ⟨_,mem,_⟩
  · exact absurd queued out
  exact mem

def Sys.On (s : Sys) (i : Nat) : Event → Prop
  | .down _ j _ | .tryDown _ j | .up _ j => j = i
  | .resume t => s.inDown t = some i
  | _ => True

-- A kernel semaphore started with v, after some run. Who has been handed a token is
-- past the queue and awake; who sleeps is queued and finds no token.
structure Proper (kind : Nat → Kind) (v : Int) (s : Sys) (i : Nat) : Prop where
  nonneg : 0 ≤ (s.sems i).value
  idle : (s.sems i).value > 0 → (s.sems i).queue = []
  conserved : v + (s.sems i).ups = (s.sems i).value + (s.sems i).taken + (s.sems i).handed.length
  handed : ∀ t,t ∈ (s.sems i).handed ↔ s.inDown t = some i ∧ t ∉ (s.sems i).queue
  woken : ∀ t ∈ (s.sems i).handed,s.procs.asleep t = false
  fifo : (s.sems i).served ++ (s.sems i).queue = (s.sems i).arrived
  asleep : ∀ t,s.inDown t = some i → s.procs.asleep t = true → t ∈ (s.sems i).queue ∧ (s.sems i).value = 0
  asserts : ∀ e,s.On i e → s.Enabled kind e → s.Room e → ∃ t,s.run kind e = .ok t
  lock : v = 1 → (s.sems i).stray = 0 → (s.sems i).held.length ≤ 1

lemma Inv.proper (inv : Inv kind v s) (kernel : kind i = .kernel) (start : 0 ≤ v i) : Proper kind (v i) s i := by
  have tokens := inv.tokens i
  have conserved := tokens.conserved
  have given := tokens.given
  have nonneg := tokens.nonneg start
  refine ⟨nonneg,tokens.idle,conserved,fun t => inv.handed_iff t i,fun t mem => ?_,tokens.fifo kernel,fun t low asleep => ?_,fun e on may room => ?_,fun one none => ?_⟩
  · have low := inv.own t i (.inr mem)
    have phase := inv.phase t
    simp only [Phase,low] at phase
    rcases phase with ⟨_,unhanded,_⟩ | ⟨_,_,_,awake,_⟩
    · exact absurd mem unhanded
    exact awake
  · have phase := inv.phase t
    simp only [Phase,low] at phase
    rcases phase with ⟨queued,_⟩ | ⟨_,_,_,awake,_⟩
    · refine ⟨queued,?_⟩
      by_contra some
      have empty := tokens.idle (by omega)
      simp [empty] at queued
    rw [asleep] at awake
    cases awake
  · have meets : s.Meets kind e := by
      cases e with
      | up t j =>
        cases on
        simp only [Sys.Meets]
        split
        · exact room ‹_›
        simp [kernel]
      | _ => trivial
    obtain ⟨new,ran,_⟩ := inv.run may meets
    exact ⟨new,ran⟩
  omega

-- In every run without an up at INT_MAX every kernel semaphore is proper.
theorem kernel_semaphores (ints : Ints v) (path : Path (Roomy kind) (start v) events s) (kernel : kind i = .kernel) (positive : 0 ≤ v i) :
    Proper kind (v i) s i := by
  have inv := path.invariant (fun _ _ _ inv step => inv.roomy step) (start_inv ints)
  exact inv.proper kernel positive

abbrev Sys.runs (kind : Nat → Kind) : Sys → List Event → Option Sys :=
  Runs.runs (fun s e => s.Enabled kind e ∧ s.Meets kind e) fun s e => (s.run kind e).toOption

lemma Sys.runs_path {s : Sys} (ran : s.runs kind events = some t) : Path (Timely kind) s events t :=
  (runs_path_ok ran).mono fun _ _ _ moved => ⟨moved.1.1,moved.1.2,moved.2⟩

lemma Timely.roomy (step : Timely kind s e t) : Roomy kind s e t := by
  obtain ⟨may,meets,ran⟩ := step
  refine ⟨may,?_,ran⟩
  cases e with
  | up t i =>
    intro empty
    simpa [Sys.Meets,empty] using meets
  | _ => trivial

-- Thread 0 takes the only token, 1 waits, 0 gives it back and 1 goes on with it.
theorem kernel_semaphores_lock : ∃ s,Path (Roomy fun _ => .kernel) (start fun _ => 1) [.down 0 0 0,.down 1 0 0,.up 0 0,.resume 1] s ∧
    (s.sems 0).held = [1] ∧ Proper (fun _ => .kernel) 1 s 0 := by
  have ran : ((start fun _ => 1).runs (fun _ => .kernel) [.down 0 0 0,.down 1 0 0,.up 0 0,.resume 1]).map (fun s => (s.sems 0).held) = some [1] := by
    decide +kernel
  obtain ⟨s,last,held⟩ := Option.map_eq_some_iff.mp ran
  have path := (Sys.runs_path last).mono fun _ _ _ step => step.roomy
  exact ⟨s,path,held,kernel_semaphores (fun _ => by norm_num) path rfl (by norm_num)⟩

-- An up at INT_MAX makes the value negative.
theorem up_overflows : Ints (fun _ => 2^31 - 1) ∧ ∃ s,(start fun _ => 2^31 - 1).Enabled (fun _ => .kernel) (.up 0 0) ∧
    (start fun _ => 2^31 - 1).run (fun _ => .kernel) (.up 0 0) = .ok s ∧ (s.sems 0).value < 0 := by
  refine ⟨fun _ => by norm_num,_,⟨rfl,rfl⟩,rfl,?_⟩
  decide +kernel

-- The user semaphores after some run: the tokens are all there, no assert is next, and
-- a wait that fails has taken none.
structure Conserved (kind : Nat → Kind) (v : Nat → Int) (s : Sys) : Prop where
  tokens : ∀ i,kind i = .user → v i + (s.sems i).ups = (s.sems i).value + (s.sems i).taken + (s.sems i).handed.length
  handed : ∀ t i,t ∈ (s.sems i).handed ↔ s.inDown t = some i ∧ t ∉ (s.sems i).queue
  asserts : ∀ e,s.Enabled kind e → s.Meets kind e → ∃ t,s.run kind e = .ok t
  failed : ∀ t after,s.Enabled kind (.resume t) → s.run kind (.resume t) = .ok after → after.ret t ≠ 0 →
    ∀ i,(after.sems i).value = (s.sems i).value ∧ (after.sems i).taken = (s.sems i).taken ∧ (after.sems i).handed = (s.sems i).handed

-- In every run in which no post finds its first waiter already woken by a timer or a
-- kill, and none comes at INT_MAX, the tokens are conserved.
theorem user_semaphores (ints : Ints v) (path : Path (Timely kind) (start v) events s) : Conserved kind v s := by
  have inv := path.invariant (fun _ _ _ inv step => inv.timely step) (start_inv ints)
  refine ⟨fun i _ => (inv.tokens i).conserved,fun t i => inv.handed_iff t i,fun e enabled meets => ?_,fun t after enabled ran failed => ?_⟩
  · obtain ⟨after,ran,_⟩ := inv.run enabled meets
    exact ⟨after,ran⟩
  obtain ⟨i,inside⟩ := Option.isSome_iff_exists.mp enabled.2
  obtain ⟨next,done,_,kept⟩ := inv.resume enabled.1 inside
  simp only [Sys.run,inside,done] at ran
  cases ran
  exact kept failed

-- A timed wait that a post ends in time, and one that the timer ends.
theorem user_semaphores_timeout : ∃ s,Path (Timely fun _ => .user) (start fun _ => 0)
    [.down 0 0 2,.up 1 0,.resume 0,.down 0 0 1,.tick,.resume 0] s ∧ s.ret 0 = -11 ∧ Conserved (fun _ => .user) (fun _ => 0) s := by
  have ran : ((start fun _ => 0).runs (fun _ => .user) [.down 0 0 2,.up 1 0,.resume 0,.down 0 0 1,.tick,.resume 0]).map (fun s => s.ret 0) = some (-11) := by
    decide +kernel
  obtain ⟨s,last,ret⟩ := Option.map_eq_some_iff.mp ran
  have path := Sys.runs_path last
  exact ⟨s,path,ret,user_semaphores (fun _ => by norm_num) path⟩

-- A waiter whose timer ran out is still the first of the queue when the post comes.
theorem post_after_timeout : ∃ s,Path (Timely fun _ => .user) (start fun _ => 0) [.down 0 0 1,.tick] s ∧
    s.Enabled (fun _ => .user) (.up 1 0) ∧ s.run (fun _ => .user) (.up 1 0) = .error .upState := by
  have ran : ((start fun _ => 0).runs (fun _ => .user) [.down 0 0 1,.tick]).map
      (fun s => decide (s.Enabled (fun _ => .user) (.up 1 0)) && match s.run (fun _ => .user) (.up 1 0) with
        | .error f => decide (f = .upState)
        | .ok _ => false) = some true := by
    decide +kernel
  obtain ⟨s,last,checked⟩ := Option.map_eq_some_iff.mp ran
  have path := Sys.runs_path last
  simp only [Bool.and_eq_true,decide_eq_true_eq] at checked
  refine ⟨s,path,checked.1,?_⟩
  have stuck := checked.2
  split at stuck
  · rename_i f eq
    rw [eq,of_decide_eq_true stuck]
  · cases stuck

end Ucore.Sync
