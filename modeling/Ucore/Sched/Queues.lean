import Ucore.Lib.Runs
import Ucore.Sync.Wait

-- The run queues of sched.c with the MLFQ and RR classes, on lcpu CPUs that
-- share the kernel lock. Processes are their pids; process c < lcpu is the
-- idle process of CPU c. need_resched is left out: schedule may be called
-- wherever the lock is held.
namespace Ucore.Sched
open Sync Option
open List hiding next

inductive PState where
  | none
  | uninit
  | sleeping
  | runnable
  | zombie
  deriving DecidableEq

-- sched_info_pid, sched_info_times, sched_info_head[8] and sched_slices[8][21].
structure Info where
  pid : Nat → Nat
  times : Nat → Nat
  head : Nat → Nat
  slices : Nat → Nat → Nat

structure Cpus where
  state : Nat → PState
  rq : Nat → Option (Fin 4)
  slice : Nat → Nat
  queue : Fin 4 → List Nat
  procNum : Fin 4 → Nat
  current : Nat → Nat
  lock : Option Nat
  info : Info

def Cpus.setState (s : Cpus) (p : Nat) (v : PState) : Cpus := {s with state:=put s.state p v}

def maxTimeSlice (k : Fin 4) : Nat := 8 * 2^k.val

-- list_empty(&(proc->run_link)) fails
def Cpus.linked (s : Cpus) (p : Nat) : Bool := (finRange 4).any fun k => p ∈ s.queue k

def Cpus.append (s : Cpus) (k : Fin 4) (p : Nat) : Cpus :=
  {s with
    queue:=fun j => if j = k then s.queue k ++ [p] else s.queue j
    slice:=put s.slice p (if s.slice p = 0 ∨ maxTimeSlice k < s.slice p then maxTimeSlice k else s.slice p)
    rq:=put s.rq p (some k)
    procNum:=fun j => if j = k then s.procNum k + 1 else s.procNum j}
def rrEnqueue (s : Cpus) (k : Fin 4) (p : Nat) : Option Cpus := if s.linked p then .none else some (s.append k p)

def Cpus.unlink (s : Cpus) (k : Fin 4) (p : Nat) : Cpus :=
  {s with queue:=fun j => (s.queue j).erase p,procNum:=fun j => if j = k then s.procNum k - 1 else s.procNum j}
def rrDequeue (s : Cpus) (k : Fin 4) (p : Nat) : Option Cpus :=
  if s.linked p ∧ s.rq p = some k then some (s.unlink k p) else .none

def Cpus.nrq (s : Cpus) (p : Nat) : Fin 4 :=
  match s.rq p with
  | some k => if s.slice p = 0 then (if k + 1 = 0 then k else k + 1) else 0
  | .none => 0

def mlfqEnqueue (s : Cpus) (p : Nat) : Option Cpus := if s.linked p then .none else rrEnqueue s (s.nrq p) p

def mlfqDequeue (s : Cpus) (p : Nat) : Option Cpus := if s.linked p then (s.rq p).bind fun k => rrDequeue s k p else .none

def mlfqPickNext (s : Cpus) : Option Nat := (finRange 4).findSome? fun k => (s.queue k).head?

section Cpus
variable (lcpu : Nat)

def wakeupProc (s : Cpus) (c p : Nat) : Option Cpus :=
  if s.state p = .runnable then some s
  else if p = s.current c then some (s.setState p .runnable)
  else if lcpu ≤ p then mlfqEnqueue (s.setState p .runnable) p else .none

def requeue (s : Cpus) (c : Nat) : Option Cpus :=
  if s.state (s.current c) = .runnable ∧ lcpu ≤ s.current c then mlfqEnqueue s (s.current c) else some s

def takeNext (s : Cpus) (c : Nat) : Option Cpus := do
  let s ← requeue lcpu s c
  match mlfqPickNext s with
  | some next => (mlfqDequeue s next).map fun s => {s with current:=put s.current c next}
  | .none => some {s with current:=put s.current c c}

-- The part under sched_collect_info; none is an access outside one of the tables.
def Info.collect (f : Info) (c next : Nat) : Option Info :=
  if 8 ≤ c ∨ 2048 ≤ f.head c * lcpu + c then .none
  else if next = f.pid (f.head c * lcpu + c) then
    some {f with times:=put f.times (f.head c * lcpu + c) ((f.times (f.head c * lcpu + c) + 1) % 2^16)}
  else
    let loc := if f.head c + 1 ≥ 2048 / lcpu then 0 else f.head c + 1
    let slot := loc * lcpu + c
    if 2048 ≤ slot then .none
    else some {
      pid:=put f.pid slot (next % 2^16)
      times:=put f.times slot 1
      head:=put f.head c loc
      slices:=if 0 < f.times slot ∧ lcpu + 2 ≤ f.pid slot
        then put f.slices c (put (f.slices c) (f.pid slot % 21) ((f.slices c (f.pid slot % 21) + f.times slot) % 2^32)) else f.slices}

def schedule (s : Cpus) (c : Nat) : Option Cpus := do
  let s ← takeNext lcpu s c
  let info ← s.info.collect lcpu c (s.current c)
  some {s with info:=info}

inductive Turn where
  | enter (c : Nat)
  | leave (c : Nat)
  | fork (c p : Nat)
  | free (c p : Nat)
  | wakeup (c p : Nat)
  | sleep (c : Nat)
  | exit (c : Nat)
  | tick (c : Nat)
  | schedule (c : Nat)

-- Every step is made by a CPU that holds the lock. It is given up only on the
-- way to user mode or to the idle loop, with current runnable again.
def Turn.enabled (s : Cpus) : Turn → Prop
  | .enter c => c < lcpu ∧ s.lock = .none
  | .leave c => c < lcpu ∧ s.lock = some c ∧ s.state (s.current c) = .runnable
  | .fork c p => c < lcpu ∧ s.lock = some c ∧ lcpu ≤ p ∧ s.state p = .none
  | .free c p => c < lcpu ∧ s.lock = some c ∧ p ≠ s.current c ∧ (s.state p = .uninit ∨ s.state p = .zombie)
  | .wakeup c p => c < lcpu ∧ s.lock = some c ∧ s.state p ≠ .none ∧ s.state p ≠ .zombie
  | .sleep c => c < lcpu ∧ s.lock = some c ∧ lcpu ≤ s.current c ∧ s.state (s.current c) = .runnable
  | .exit c => c < lcpu ∧ s.lock = some c ∧ lcpu ≤ s.current c
  | .tick c => c < lcpu ∧ s.lock = some c
  | .schedule c => c < lcpu ∧ s.lock = some c

def Turn.exec (s : Cpus) : Turn → Option Cpus
  | .enter c => some {s with lock:=some c}
  | .leave _ => some {s with lock:=.none}
  | .fork c p =>
    let half := s.slice (s.current c) / 2
    some {s with
      state:=put s.state p .uninit
      rq:=put s.rq p .none
      slice:=put (put s.slice (s.current c) (s.slice (s.current c) - half)) p half}
  | .free _ p => some (s.setState p .none)
  | .wakeup c p => wakeupProc lcpu s c p
  | .sleep c => some (s.setState (s.current c) .sleeping)
  | .exit c => some (s.setState (s.current c) .zombie)
  | .tick c => if s.current c = c then some s else some {s with slice:=put s.slice (s.current c) (s.slice (s.current c) - 1)}
  | .schedule c => Ucore.Sched.schedule lcpu s c

def Cpus.Step (s : Cpus) (op : Turn) (t : Cpus) : Prop := op.enabled lcpu s ∧ op.exec lcpu s = some t

def Cpus.first : Cpus :=
  ⟨fun p => if p < lcpu then .runnable else .none,fun _ => .none,fun _ => 0,fun _ => [],fun _ => 0,fun c => c,.none,⟨fun _ => 0,fun _ => 0,fun _ => 0,fun _ _ => 0⟩⟩

-- The queues against the processes some CPU has: exactly the other runnable
-- ones are linked, once, in their rq.
structure Queues (s : Cpus) (busy : Nat → Prop) : Prop where
  linked : ∀ p,(∃ k,p ∈ s.queue k) ↔ lcpu ≤ p ∧ s.state p = .runnable ∧ ¬ busy p
  place : ∀ k p,p ∈ s.queue k → s.rq p = some k ∧ 0 < s.slice p ∧ s.slice p ≤ maxTimeSlice k
  nodup : ∀ k,(s.queue k).Nodup
  count : ∀ k,s.procNum k = (s.queue k).length

def Cpus.runs (s : Cpus) (p : Nat) : Prop := ∃ c,c < lcpu ∧ s.current c = p

-- What the CPUs have: each its own idle process or an ordinary one that no
-- other CPU has, runnable unless the CPU is in the kernel.
structure Owners (state : Nat → PState) (current : Nat → Nat) (lock : Option Nat) : Prop where
  idle : ∀ c,c < lcpu → state c = .runnable
  own : ∀ c,c < lcpu → current c = c ∨ lcpu ≤ current c
  single : ∀ c d,c < lcpu → d < lcpu → current c = current d → c = d
  awake : ∀ c,c < lcpu → lock ≠ some c → state (current c) = .runnable

structure Fair (s : Cpus) : Prop where
  queues : Queues lcpu s (s.runs lcpu)
  owners : Owners lcpu s.state s.current s.lock

-- Row head of the tables lies inside them.
def Info.Inside (f : Info) : Prop := ∀ c < lcpu,f.head c < 2048 / lcpu

variable {lcpu}

lemma Info.collect_run (inside : Info.Inside lcpu f) (few : lcpu ≤ 8) (less : c < lcpu) (next : Nat) : ∃ g,f.collect lcpu c next = some g ∧ Info.Inside lcpu g := by
  have row (loc : Nat) (low : loc < 2048 / lcpu) : loc * lcpu + c < 2048 := by
    have := (Nat.le_div_iff_mul_le (by omega)).mp low
    rw [Nat.succ_mul] at this
    omega
  have rows : 0 < 2048 / lcpu := Nat.div_pos (by omega) (by omega)
  have here := row _ (inside c less)
  have there : (if f.head c + 1 ≥ 2048 / lcpu then 0 else f.head c + 1) < 2048 / lcpu := by split <;> omega
  unfold Info.collect
  rw [if_neg (by omega)]
  split
  · exact ⟨_,rfl,inside⟩
  rw [if_neg (by have := row _ there; omega)]
  exact ⟨_,rfl,put_all (P:=fun d n => d < lcpu → n < 2048 / lcpu) (fun _ => there) fun d _ => inside d⟩

lemma mem_linked (s : Cpus) (p : Nat) : s.linked p = true ↔ ∃ k,p ∈ s.queue k := by simp [Cpus.linked]

lemma Queues.append (queues : Queues lcpu s busy) (ordinary : lcpu ≤ p) (out : ∀ j,p ∉ s.queue j) (k : Fin 4) :
    s.linked p = false ∧ Queues lcpu ((s.setState p .runnable).append k p) (fun q => busy q ∧ q ≠ p) := by
  have members j q : q ∈ ((s.setState p .runnable).append k p).queue j ↔ q ∈ s.queue j ∨ j = k ∧ q = p := by by_cases here : j = k <;> simp [Cpus.append,Cpus.setState,here]
  refine ⟨by rw [← Bool.not_eq_true,mem_linked]; exact fun ⟨j,low⟩ => out j low,fun q => ?_,fun j q mem => ?_,fun j => ?_,fun j => ?_⟩
  · have state : ((s.setState p .runnable).append k p).state q = put s.state p .runnable q := rfl
    simp only [members,state]
    by_cases eq : q = p
    · subst q
      simp [ordinary,put_same]
    simpa [eq,put_other eq] using queues.linked q
  · rcases (members j q).mp mem with old | ⟨rfl,rfl⟩
    · have eq : q ≠ p := fun equal => out j (equal ▸ old)
      simp only [Cpus.append,put_other eq]
      exact queues.place j q old
    have room : 0 < maxTimeSlice j := Nat.mul_pos (by decide) (Nat.two_pow_pos _)
    simp only [Cpus.append,put_same]
    refine ⟨trivial,?_⟩
    split <;> omega
  · by_cases here : j = k
    · have ne : List.Disjoint (s.queue k) [p] := disjoint_singleton.mpr (out k)
      simpa [Cpus.append,Cpus.setState,here] using List.Nodup.append (queues.nodup k) (nodup_singleton p) ne
    simpa [Cpus.append,Cpus.setState,here] using queues.nodup j
  by_cases here : j = k <;> simp [Cpus.append,Cpus.setState,here,queues.count]

lemma Queues.unlink (queues : Queues lcpu s busy) (mem : p ∈ s.queue k) : mlfqDequeue s p = some (s.unlink k p) ∧ Queues lcpu (s.unlink k p) (fun q => busy q ∨ q = p) := by
  have inside : s.linked p = true := (mem_linked s p).mpr ⟨k,mem⟩
  have place := (queues.place k p mem).1
  refine ⟨by simp [mlfqDequeue,rrDequeue,inside,place],?_,fun j q kept => ?_,fun j => (queues.nodup j).erase p,fun j => ?_⟩
  · intro q
    constructor
    · rintro ⟨j,kept⟩
      obtain ⟨ne,old⟩ := (queues.nodup j).mem_erase_iff.mp kept
      obtain ⟨low,ready,free⟩ := (queues.linked q).mp ⟨j,old⟩
      exact ⟨low,ready,fun either => either.elim free ne⟩
    rintro ⟨low,ready,free⟩
    obtain ⟨j,old⟩ := (queues.linked q).mpr ⟨low,ready,fun here => free (.inl here)⟩
    exact ⟨j,(queues.nodup j).mem_erase_iff.mpr ⟨fun eq => free (.inr eq),old⟩⟩
  · exact queues.place j q (mem_of_mem_erase kept)
  by_cases here : j = k
  · simp [Cpus.unlink,here,queues.count,length_erase_of_mem mem]
  have out : p ∉ s.queue j := fun there => here (mem_unique (queues.place j p there).1 place)
  simp [Cpus.unlink,here,queues.count,erase_of_not_mem out]

lemma Queues.mono (queues : Queues lcpu s busy) (eq : ∀ p,lcpu ≤ p → s.state p = .runnable → (busy p ↔ ne p)) : Queues lcpu s ne :=
  {queues with
    linked:=fun p => (queues.linked p).trans (and_congr_right fun low => and_congr_right fun ready => not_congr (eq p low ready))}

lemma pick_some (pick : mlfqPickNext s = some p) : ∃ k rest,(∀ j < k,s.queue j = []) ∧ s.queue k = p :: rest := by
  obtain ⟨old,k,new,order,head,none⟩ := List.findSome?_eq_some_iff.mp pick
  obtain ⟨rest,queue⟩ := List.head?_eq_some_iff.mp head
  refine ⟨k,rest,fun j less => ?_,queue⟩
  have sorted : (old ++ k :: new).Pairwise (· < ·) := order ▸ pairwise_lt_finRange 4
  have mem : j ∈ old ++ k :: new := order ▸ mem_finRange j
  rcases mem_append.mp mem with early | late
  · exact List.head?_eq_none_iff.mp (none j early)
  rcases mem_cons.mp late with rfl | late
  · exact (lt_irrefl _ less).elim
  exact (lt_asymm less (rel_of_pairwise_cons (pairwise_append.mp sorted).2.1 late)).elim

lemma pick_none (pick : mlfqPickNext s = .none) (k : Fin 4) : s.queue k = [] := List.head?_eq_none_iff.mp (List.findSome?_eq_none_iff.mp pick k (mem_finRange k))

lemma Fair.out (fair : Fair lcpu s) (either : s.state p ≠ .runnable ∨ s.runs lcpu p) (k : Fin 4) : p ∉ s.queue k := by
  intro mem
  obtain ⟨_,ready,free⟩ := (fair.queues.linked p).mp ⟨k,mem⟩
  exact either.elim (fun off => off ready) free

lemma Owners.take (owners : Owners lcpu state current lock) (held : lock = some c) (kind : next = c ∨ lcpu ≤ next)
    (ne : ∀ d < lcpu,d ≠ c → current d ≠ next) : Owners lcpu state (put current c next) lock := by
  refine ⟨owners.idle,put_all (P:=fun d p => d < lcpu → p = d ∨ lcpu ≤ p) (fun _ => kind) fun d _ => owners.own d,fun d e one two eq => ?_,fun d cap free => ?_⟩
  · by_cases here : d = c
    · by_cases there : e = c
      · rw [here,there]
      rw [here,put_same,put_other there] at eq
      exact (ne e two there eq.symm).elim
    by_cases there : e = c
    · rw [there,put_same,put_other here] at eq
      exact (ne d one here eq).elim
    rw [put_other here,put_other there] at eq
    exact owners.single d e one two eq
  have here : d ≠ c := fun eq => free (by rw [held,eq])
  rw [put_other here]
  exact owners.awake d cap free

lemma Owners.change (owners : Owners lcpu state current lock)
    (place : state p ≠ .runnable ∨ lcpu ≤ p ∧ ∃ c,c < lcpu ∧ lock = some c ∧ current c = p) (v : PState) : Owners lcpu (put state p v) current lock := by
  refine {owners with idle:=fun d cap => (put_other ?_).trans (owners.idle d cap),awake:=fun d cap free => (put_other ?_).trans (owners.awake d cap free)}
  · rintro rfl
    exact place.elim (fun off => off (owners.idle d cap)) (by omega)
  rintro rfl
  rcases place with off | ⟨_,c,less,holds,has⟩
  · exact off (owners.awake d cap free)
  exact free (by rw [holds,owners.single c d less cap has])

lemma Cpus.setState_same {s : Cpus} (state : s.state p = v) : s.setState p v = s := by rw [Cpus.setState,put_eq state]

section
variable (fair : Fair lcpu s)
include fair

lemma Fair.takeNext (less : c < lcpu) (lock : s.lock = some c) : ∃ mid t,requeue lcpu s c = some mid ∧ Ucore.Sched.takeNext lcpu s c = some t ∧ (Fair lcpu t ∧ t.info = s.info) ∧
      ((∃ k,(∀ j < k,mid.queue j = []) ∧ mid.queue k = t.current c :: t.queue k) ∨ (∀ k,mid.queue k = []) ∧ t.current c = c) := by
  have given : ∃ mid,requeue lcpu s c = some mid ∧ Queues lcpu mid (fun q => s.runs lcpu q ∧ q ≠ s.current c) ∧
      mid.state = s.state ∧ mid.current = s.current ∧ mid.lock = s.lock ∧ mid.info = s.info := by
    by_cases both : s.state (s.current c) = .runnable ∧ lcpu ≤ s.current c
    · obtain ⟨out,new⟩ := fair.queues.append both.2 (fair.out (.inr ⟨c,less,rfl⟩)) (s.nrq (s.current c))
      rw [Cpus.setState_same both.1] at new
      exact ⟨_,by simp [requeue,both,mlfqEnqueue,rrEnqueue,out],new,rfl,rfl,rfl,rfl⟩
    refine ⟨s,by rw [requeue,if_neg both],fair.queues.mono fun q low ready => ?_,rfl,rfl,rfl,rfl⟩
    exact ⟨fun here => ⟨here,fun eq => both (eq ▸ ⟨ready,low⟩)⟩,fun here => here.1⟩
  obtain ⟨mid,ran,queues,state,current,held,info⟩ := given
  have rest : ∀ d < lcpu,d ≠ c → s.current d ≠ s.current c := fun d cap differ eq => differ (fair.owners.single d c cap less eq)
  -- what the other CPUs have stays theirs, whatever c takes
  have build : ∀ u next,Queues lcpu u (fun q => (s.runs lcpu q ∧ q ≠ s.current c) ∨ q = next) → u.state = s.state → u.current = s.current →
      u.lock = s.lock → (next = c ∨ lcpu ≤ next) → (∀ d < lcpu,d ≠ c → s.current d ≠ next) →
      Fair lcpu {u with current:=put u.current c next} := by
    intro u next queues state current held kind far
    refine ⟨Queues.mono (s := {u with current:=put u.current c next}) {queues with} fun q low ready => ⟨?_,?_⟩,?_⟩
    · rintro (⟨⟨d,cap,rfl⟩,differ⟩ | rfl)
      · exact ⟨d,cap,by rw [current]; exact put_other fun eq => differ (eq ▸ rfl)⟩
      exact ⟨c,less,put_same ..⟩
    · rintro ⟨d,cap,eq⟩
      by_cases here : d = c
      · exact .inr (by rw [← eq,here]; exact put_same ..)
      have : s.current d = q := by rw [← eq,current]; exact (put_other here).symm
      exact .inl ⟨⟨d,cap,this⟩,fun equal => rest d cap here (this.trans equal)⟩
    rw [state,current,held]
    exact fair.owners.take lock kind far
  cases pick : mlfqPickNext mid with
  | none =>
    refine ⟨mid,_,ran,by simp only [Ucore.Sched.takeNext,ran,bind_eq_bind,bind_some,pick]; rfl,⟨?_,by exact info⟩,.inr ⟨pick_none pick,put_same ..⟩⟩
    apply build mid c (queues.mono fun q low _ => ?_) state current held (.inl rfl)
    · intro d cap differ eq
      rcases fair.owners.own d cap with own | _
      · exact differ (own.symm.trans eq)
      omega
    exact ⟨.inl,fun either => either.elim id fun eq => by omega⟩
  | some next =>
    obtain ⟨k,_,one,queue⟩ := pick_some pick
    have mem : next ∈ mid.queue k := by rw [queue]; exact mem_cons_self
    obtain ⟨low,_,free⟩ := (queues.linked next).mp ⟨k,mem⟩
    obtain ⟨took,new⟩ := queues.unlink mem
    refine ⟨mid,_,ran,by simp only [Ucore.Sched.takeNext,ran,bind_eq_bind,bind_some,pick,took,map_some]; rfl,⟨?_,by exact info⟩,.inl ⟨k,one,?_⟩⟩
    · apply build _ next new state current held (.inr low)
      intro d cap differ eq
      exact free ⟨⟨d,cap,eq⟩,fun equal => rest d cap differ (eq.trans equal)⟩
    change mid.queue k = put mid.current c next c :: (mid.queue k).erase next
    rw [put_same,queue,erase_cons_head]

lemma Fair.schedule (inside : s.info.Inside lcpu) (few : lcpu ≤ 8) (less : c < lcpu) (lock : s.lock = some c) :
    ∃ mid t,requeue lcpu s c = some mid ∧ Ucore.Sched.schedule lcpu s c = some t ∧ (Fair lcpu t ∧ t.info.Inside lcpu) ∧
      ((∃ k,(∀ j < k,mid.queue j = []) ∧ mid.queue k = t.current c :: t.queue k) ∨ (∀ k,mid.queue k = []) ∧ t.current c = c) := by
  obtain ⟨mid,t,given,ran,⟨new,info⟩,picks⟩ := fair.takeNext less lock
  obtain ⟨g,got,kept⟩ := Info.collect_run (info ▸ inside) few less (t.current c)
  exact ⟨mid,{t with info:=g},given,by simp only [Ucore.Sched.schedule,ran,bind_eq_bind,bind_some,got],⟨⟨{new.queues with},new.owners⟩,kept⟩,picks⟩

section
variable (v : PState) (place : s.state p ≠ .runnable ∨ lcpu ≤ p ∧ ∃ c,c < lcpu ∧ s.lock = some c ∧ s.current c = p) (quiet : v = .runnable → s.runs lcpu p)
include v place quiet

lemma Fair.change (rq : ∀ q ≠ p,r q = s.rq q) (slice : ∀ q k,q ≠ p → q ∈ s.queue k → l q = s.slice q) : Fair lcpu {s with state:=put s.state p v,rq:=r,slice:=l} := by
  have out := fair.out (place.imp id fun ⟨_,c,less,_,has⟩ => ⟨c,less,has⟩)
  refine ⟨{fair.queues with linked:=fun q => ?_,place:=fun k q mem => ?_},fair.owners.change place v⟩
  · dsimp only
    by_cases eq : q = p
    · subst q
      rw [put_same]
      exact ⟨fun ⟨k,mem⟩ => (out k mem).elim,fun ⟨_,ready,free⟩ => (free (quiet ready)).elim⟩
    rw [put_other eq]
    exact fair.queues.linked q
  have eq : q ≠ p := fun equal => out k (equal ▸ mem)
  dsimp only
  rw [rq q eq,slice q k eq mem]
  exact fair.queues.place k q mem

lemma Fair.setState : Fair lcpu (s.setState p v) := fair.change v place quiet (fun _ _ => rfl) (fun _ _ _ _ => rfl)

end

lemma Fair.wakeup (less : c < lcpu) (lock : s.lock = some c) (p : Nat) : ∃ t,wakeupProc lcpu s c p = some t ∧ Fair lcpu t ∧ t.info = s.info := by
  by_cases off : s.state p = .runnable
  · exact ⟨s,by rw [wakeupProc,if_pos off],fair,rfl⟩
  by_cases here : p = s.current c
  · exact ⟨_,by rw [wakeupProc,if_neg off,if_pos here],fair.setState .runnable (.inl off) fun _ => ⟨c,less,here.symm⟩,rfl⟩
  have low : lcpu ≤ p := Nat.le_of_not_lt fun idle => off (fair.owners.idle p idle)
  have free : ¬ s.runs lcpu p := by
    rintro ⟨d,cap,rfl⟩
    exact off (fair.owners.awake d cap fun held => here (by rw [mem_unique lock held]))
  obtain ⟨clear,new⟩ := fair.queues.append low (fair.out (.inl off)) ((s.setState p .runnable).nrq p)
  have clear' : (s.setState p .runnable).linked p = false := clear
  exact ⟨_,by simp [wakeupProc,off,here,low,mlfqEnqueue,rrEnqueue,clear'],
    ⟨new.mono fun q _ _ => ⟨fun both => both.1,fun runs => ⟨runs,fun eq => free (eq ▸ runs)⟩⟩,fair.owners.change (.inl off) .runnable⟩,rfl⟩

lemma Fair.step (inside : s.info.Inside lcpu) (few : lcpu ≤ 8) (turn : Turn) (may : turn.enabled lcpu s) :
    ∃ t,turn.exec lcpu s = some t ∧ Fair lcpu t ∧ t.info.Inside lcpu := by
  have mine : ∀ c < lcpu,∀ q k,q ∈ s.queue k → q ≠ s.current c := fun c less q k mem eq => fair.out (.inr ⟨c,less,eq.symm⟩) k mem
  cases turn with
  | enter c =>
    refine ⟨_,rfl,⟨{fair.queues with},{fair.owners with awake:=fun d cap _ => fair.owners.awake d cap ?_}⟩,inside⟩
    rw [may.2]
    simp
  | leave c =>
    obtain ⟨_,lock,ready⟩ := may
    refine ⟨_,rfl,⟨{fair.queues with},{fair.owners with awake:=fun d cap _ => ?_}⟩,inside⟩
    by_cases here : d = c
    · rw [here]; exact ready
    exact fair.owners.awake d cap (by rw [lock]; simpa using fun eq => here eq.symm)
  | fork c p =>
    obtain ⟨less,_,_,none⟩ := may
    refine ⟨_,rfl,fair.change .uninit (.inl (by rw [none]; decide)) nofun (fun q ne => put_other ne) fun q k ne mem => ?_,inside⟩
    exact (put_other ne).trans (put_other (mine c less q k mem))
  | free c p =>
    have off : s.state p ≠ .runnable := by rcases may.2.2.2 with state | state <;> rw [state] <;> decide
    exact ⟨_,rfl,fair.setState .none (.inl off) nofun,inside⟩
  | wakeup c p =>
    obtain ⟨t,ran,new,info⟩ := fair.wakeup may.1 may.2.1 p
    exact ⟨t,ran,new,info ▸ inside⟩
  | sleep c =>
    obtain ⟨less,lock,low,_⟩ := may
    exact ⟨_,rfl,fair.setState .sleeping (.inr ⟨low,c,less,lock,rfl⟩) nofun,inside⟩
  | exit c =>
    obtain ⟨less,lock,low⟩ := may
    exact ⟨_,rfl,fair.setState .zombie (.inr ⟨low,c,less,lock,rfl⟩) nofun,inside⟩
  | tick c =>
    obtain ⟨less,lock⟩ := may
    simp only [Turn.exec]
    split
    · exact ⟨s,rfl,fair,inside⟩
    next ordinary =>
    have low := (fair.owners.own c less).resolve_left ordinary
    have new := fair.change (r := s.rq) (l := put s.slice (s.current c) (s.slice (s.current c) - 1)) (s.state (s.current c))
      (.inr ⟨low,c,less,lock,rfl⟩) (fun _ => ⟨c,less,rfl⟩) (fun _ _ => rfl) fun q k _ mem => put_other (mine c less q k mem)
    have eq := congrArg Cpus.state (Cpus.setState_same (s := s) (p := s.current c) rfl)
    dsimp only [Cpus.setState] at eq
    rw [eq] at new
    exact ⟨_,rfl,new,inside⟩
  | schedule c =>
    obtain ⟨_,t,_,ran,new,_⟩ := fair.schedule inside few may.1 may.2
    exact ⟨t,ran,new⟩

end

lemma first_fair (lcpu : Nat) : Fair lcpu (Cpus.first lcpu) := by
  refine ⟨⟨fun p => ?_,by simp [Cpus.first],by simp [Cpus.first],by simp [Cpus.first]⟩,fun c less => if_pos less,fun c _ => .inl rfl,
    fun c d _ _ eq => eq,fun c less _ => if_pos less⟩
  have none : lcpu ≤ p → ¬ p < lcpu := fun low => by omega
  simp +contextual [Cpus.first,none]

lemma demoted (enqueued : mlfqEnqueue s p = some t) (queue : s.rq p = some k) (used : s.slice p = 0) : t.rq p = some (if k = 3 then 3 else k + 1) := by
  unfold mlfqEnqueue rrEnqueue at enqueued
  split at enqueued
  · cases enqueued
  cases enqueued
  refine (put_same ..).trans ?_
  have ring : ∀ k : Fin 4,(if k + 1 = 0 then k else k + 1) = if k = 3 then 3 else k + 1 := by decide
  simp only [Cpus.nrq,queue,used,if_true,ring]

-- Two CPUs; two processes are forked on CPU 0, which picks the first; it goes to the
-- second queue when its slice is used up, and the second one is picked.
def ticks : List Turn := [.enter 0,.fork 0 2,.wakeup 0 2,.fork 0 3,.wakeup 0 3,.schedule 0] ++ List.replicate 8 (.tick 0) ++ [.schedule 0]

instance (s : Cpus) : (turn : Turn) → Decidable (turn.enabled lcpu s)
  | .enter _ | .leave _ | .fork .. | .free .. | .wakeup .. | .sleep _ | .exit _ | .tick _ | .schedule _ => inferInstanceAs (Decidable (_ ∧ _))

end Cpus
end Ucore.Sched
