import Mathlib.Tactic

-- wait.c, sched.c and proc.c: processes that sleep and are woken, the list of timers
-- and do_kill. Processes switch only in schedule, so what stands between two calls of
-- it is one step.
namespace Ucore.Sync
open Prod (snd)

inductive Fault where
  | semValid
  | upState
  | downFlags
  | usemFlags
  | timerAdd
  | timerExpires
  | timerState
  | mboxOpened
  | mboxSlots
  | mboxClosing
  | mboxFree
  | mboxFlags
  deriving DecidableEq

def wtInterrupted : Nat := 0x80000000
def wtKsem : Nat := 0x100
def wtUsem : Nat := 0x80000101
def wtMboxSend : Nat := 0x80000120
def wtMboxRecv : Nat := 0x80000121

-- wait_state & WT_INTERRUPTED
def interruptible (waitState : Nat) : Bool := waitState.testBit 31

def put (f : Nat → α) (k : Nat) (v : α) : Nat → α := fun j => if j = k then v else f j

@[simp] lemma put_same (f : Nat → α) (k : Nat) (v : α) : put f k v k = v := by simp [put]

lemma put_other {f : Nat → α} {k j : Nat} {v : α} (ne : j ≠ k) : put f k v j = f j := by simp [put,ne]

lemma put_all {f : Nat → α} {P : Nat → α → Prop} (here : P k v) (rest : ∀ j ≠ k,P j (f j)) (j : Nat) : P j (put f k v j) := by
  by_cases eq : j = k
  · subst eq
    rw [put_same]
    exact here
  rw [put_other eq]
  exact rest j eq

lemma put_eq {f : Nat → α} (eq : f k = v) : put f k v = f := funext (put_all (P:=fun j x => x = f j) eq.symm fun _ _ => rfl)

lemma put_kept {f : Nat → α} (kept : f j = x) (ne : f k ≠ x) : put f k v j = x := (put_other (by rintro rfl; exact ne kept)).trans kept

section
variable {f : Nat → α} {P : α → Prop}

lemma put_on (on : P v) (j : Nat) : P (put f k v j) ↔ (j ≠ k ∧ P (f j)) ∨ j = k := by
  by_cases here : j = k
  · simp [here,on]
  simp [put_other here,here]

lemma put_off (off : ¬ P v) (j : Nat) : P (put f k v j) ↔ j ≠ k ∧ P (f j) := by
  by_cases here : j = k
  · simp [here,off]
  simp [put_other here,here]

lemma put_old (now : put f k v j = x) (new : v ≠ x) : j ≠ k ∧ f j = x := (put_off (P:=(· = x)) new j).mp now

lemma out_of (out : ¬ P (f k)) (j : Nat) : j ≠ k ∧ P (f j) ↔ P (f j) := and_iff_right_of_imp fun here eq => out (eq ▸ here)

end

-- asleep is state = PROC_SLEEPING; wakeupFlags is that of the wait_t a process has on
-- its stack while it waits. A timer is its expires, counted from the timer before it,
-- and its process.
structure Procs where
  asleep : Nat → Bool
  waitState : Nat → Nat
  wakeupFlags : Nat → Nat
  exiting : Nat → Bool
  timers : List (Nat × Nat)
  ticks : Nat

def Procs.wakeupProc (p : Procs) (t : Nat) : Procs :=
  if p.asleep t then {p with asleep:=put p.asleep t false,waitState:=put p.waitState t 0} else p

def Procs.wakeupWait (p : Procs) (t flags : Nat) : Procs :=
  {p with wakeupFlags:=put p.wakeupFlags t flags}.wakeupProc t

def Procs.waitCurrentSet (p : Procs) (t waitState : Nat) : Procs :=
  {p with
    asleep:=put p.asleep t true
    waitState:=put p.waitState t waitState
    wakeupFlags:=put p.wakeupFlags t wtInterrupted}

def insertTimer (expires t : Nat) : List (Nat × Nat) → List (Nat × Nat)
  | [] => [(expires,t)]
  | (next,u) :: rest =>
    if expires < next then (expires,t) :: (next - expires,u) :: rest
    else (next,u) :: insertTimer (expires - next) t rest

def removeTimer (t : Nat) : List (Nat × Nat) → List (Nat × Nat)
  | [] => []
  | (expires,u) :: rest =>
    if u = t then
      match rest with
      | [] => []
      | (next,v) :: rest => (next + expires,v) :: rest
    else (expires,u) :: removeTimer t rest

namespace Procs

def addTimer (p : Procs) (t timeout : Nat) : Procs :=
  if timeout = 0 then p else {p with timers:=insertTimer timeout t p.timers}

def delTimer (p : Procs) (t : Nat) : Procs := {p with timers:=removeTimer t p.timers}

def expire (p : Procs) : List (Nat × Nat) → Except Fault Procs
  | (0,t) :: rest =>
    if p.waitState t = 0 ∨ interruptible (p.waitState t) = true then (p.wakeupProc t).expire rest
    else .error .timerState
  | rest => .ok {p with timers:=rest}

def runTimerList (p : Procs) : Except Fault Procs :=
  match p.timers with
  | [] => .ok {p with ticks:=p.ticks + 1}
  | (expires,t) :: rest =>
    if expires = 0 then .error .timerExpires
    else {p with ticks:=p.ticks + 1}.expire ((expires - 1,t) :: rest)

def doKill (p : Procs) (t : Nat) : Procs :=
  if p.exiting t then p
  else
    let p := {p with exiting:=put p.exiting t true}
    if interruptible (p.waitState t) then p.wakeupProc t else p

end Procs

def checkTimeout (timeout saved ticks : Nat) : Int :=
  if timeout ≠ 0 ∧ (ticks + 2^64 - saved % 2^64) % 2^64 ≥ timeout then -11 else -1

def Woken (p q : Procs) (t : Nat) : Prop :=
  (q.asleep t = p.asleep t ∧ q.waitState t = p.waitState t) ∨
    (p.asleep t = true ∧ q.asleep t = false ∧ q.waitState t = 0)

lemma Woken.refl (p : Procs) (t : Nat) : Woken p p t := .inl ⟨rfl,rfl⟩

lemma Woken.trans (one : Woken p q t) (two : Woken q r t) : Woken p r t := by
  unfold Woken at *
  rcases one with ⟨eq,state⟩ | ⟨slept,woke,state⟩
  · rw [← eq,← state]
    exact two
  rcases two with ⟨eq,kept⟩ | ⟨again,_,_⟩
  · exact .inr ⟨slept,eq.trans woke,kept.trans state⟩
  rw [woke] at again
  cases again

namespace Procs

section
variable (p : Procs)
include p

lemma wakeupProc_woken (t u : Nat) : Woken p (p.wakeupProc t) u := by
  unfold wakeupProc
  split
  · by_cases eq : u = t
    · subst eq
      exact .inr ⟨‹_›,by simp,by simp⟩
    exact .inl ⟨put_other eq,put_other eq⟩
  exact .refl p u

lemma wakeupProc_other (ne : u ≠ t) : (p.wakeupProc t).asleep u = p.asleep u ∧ (p.wakeupProc t).waitState u = p.waitState u := by
  unfold wakeupProc
  split
  · exact ⟨put_other ne,put_other ne⟩
  exact ⟨rfl,rfl⟩

lemma wakeupProc_self (t : Nat) : (p.wakeupProc t).asleep t = false := by
  unfold wakeupProc
  split
  · simp
  next awake => simpa using awake

lemma wakeupProc_exiting (t : Nat) : (p.wakeupProc t).exiting = p.exiting := by
  unfold wakeupProc
  split <;> rfl

lemma wakeupProc_frame (t : Nat) : (p.wakeupProc t).wakeupFlags = p.wakeupFlags ∧ (p.wakeupProc t).timers = p.timers ∧ (p.wakeupProc t).ticks = p.ticks := by
  unfold wakeupProc
  split <;> exact ⟨rfl,rfl,rfl⟩

lemma doKill_woken (t u : Nat) : Woken p (p.doKill t) u := by
  unfold doKill
  split
  · exact .refl p u
  dsimp only
  split
  · exact wakeupProc_woken {p with exiting:=put p.exiting t true} t u
  exact .inl ⟨rfl,rfl⟩

-- do_kill wakes only a process that may be interrupted.
lemma doKill_kept (firm : interruptible (p.waitState u) = false) : (p.doKill t).asleep u = p.asleep u ∧ (p.doKill t).waitState u = p.waitState u := by
  unfold doKill
  split
  · exact ⟨rfl,rfl⟩
  dsimp only
  split
  · refine wakeupProc_other {p with exiting:=put p.exiting t true} ?_
    rintro rfl
    simp_all
  exact ⟨rfl,rfl⟩

lemma doKill_frame (t : Nat) : (p.doKill t).wakeupFlags = p.wakeupFlags ∧ (p.doKill t).timers = p.timers := by
  unfold doKill
  split
  · exact ⟨rfl,rfl⟩
  dsimp only
  split
  · have frame := wakeupProc_frame {p with exiting:=put p.exiting t true} t
    exact ⟨frame.1,frame.2.1⟩
  exact ⟨rfl,rfl⟩

end

-- wakeup_queue with del: everybody is taken out of the queue and woken.
def wakeupQueue (p : Procs) (flags : Nat) : List Nat → Procs
  | [] => p
  | t :: rest => (p.wakeupWait t flags).wakeupQueue flags rest

lemma wakeupWait_self (p : Procs) (t flags : Nat) : (p.wakeupWait t flags).wakeupFlags t = flags ∧ (p.wakeupWait t flags).asleep t = false := by
  refine ⟨?_,wakeupProc_self _ t⟩
  unfold wakeupWait
  rw [(wakeupProc_frame {p with wakeupFlags:=put p.wakeupFlags t flags} t).1]
  exact put_same ..

lemma wakeupWait_other (p : Procs) (flags : Nat) (ne : u ≠ t) :
    (p.wakeupWait t flags).wakeupFlags u = p.wakeupFlags u ∧ (p.wakeupWait t flags).asleep u = p.asleep u := by
  unfold wakeupWait
  have frame := wakeupProc_frame {p with wakeupFlags:=put p.wakeupFlags t flags} t
  have kept := wakeupProc_other {p with wakeupFlags:=put p.wakeupFlags t flags} ne
  exact ⟨by rw [frame.1]; exact put_other ne,kept.1⟩

lemma wakeupWait_woken (p : Procs) (t flags u : Nat) : Woken p (p.wakeupWait t flags) u := wakeupProc_woken {p with wakeupFlags:=put p.wakeupFlags t flags} t u

lemma wakeupQueue_woken (p : Procs) (flags : Nat) (line : List Nat) (u : Nat) : Woken p (p.wakeupQueue flags line) u := by
  induction line generalizing p with
  | nil => exact .refl p u
  | cons head _ ih => exact (p.wakeupWait_woken head flags u).trans (ih (p.wakeupWait head flags))

lemma wakeupQueue_other (p : Procs) (flags : Nat) {line : List Nat} (out : x ∉ line) :
    (p.wakeupQueue flags line).asleep x = p.asleep x ∧ (p.wakeupQueue flags line).wakeupFlags x = p.wakeupFlags x := by
  induction line generalizing p with
  | nil => exact ⟨rfl,rfl⟩
  | cons head _ ih =>
    have ne := p.wakeupWait_other flags (List.ne_of_not_mem_cons out)
    have after := ih (p.wakeupWait head flags) (List.not_mem_of_not_mem_cons out)
    exact ⟨after.1.trans ne.2,after.2.trans ne.1⟩

lemma wakeupQueue_member (p : Procs) (flags : Nat) {line : List Nat} (inside : x ∈ line) :
    (p.wakeupQueue flags line).asleep x = false ∧ (p.wakeupQueue flags line).wakeupFlags x = flags := by
  induction line generalizing p with
  | nil => cases inside
  | cons head rest ih =>
    by_cases later : x ∈ rest
    · exact ih (p.wakeupWait head flags) later
    have eq : x = head := (List.mem_cons.mp inside).resolve_right later
    subst eq
    have self := p.wakeupWait_self x flags
    have kept := (p.wakeupWait x flags).wakeupQueue_other flags later
    exact ⟨kept.1.trans self.2,kept.2.trans self.1⟩

end Procs

lemma Woken.slept (woken : Woken p q t) (sleeps : q.asleep t = true) : p.asleep t = true := by
  rcases woken with ⟨eq,_⟩ | ⟨slept,_,_⟩
  · exact eq ▸ sleeps
  exact slept

section Timers

structure Armed (timers : List (Nat × Nat)) : Prop where
  ahead : ∀ first ∈ timers.head?,first.1 ≠ 0
  once : (timers.map snd).Nodup

lemma insertTimer_procs (expires t : Nat) (timers : List (Nat × Nat)) : ((insertTimer expires t timers).map snd).Perm (t :: timers.map snd) := by
  induction timers generalizing expires with
  | nil => exact .refl _
  | cons head _ ih =>
    obtain ⟨next,u⟩ := head
    unfold insertTimer
    split
    · exact .refl _
    exact ((ih (expires - next)).cons u).trans (.swap t u _)

lemma removeTimer_procs (t : Nat) (timers : List (Nat × Nat)) : (removeTimer t timers).map snd = (timers.map snd).erase t := by
  induction timers with
  | nil => rfl
  | cons head rest ih =>
    obtain ⟨_,u⟩ := head
    unfold removeTimer
    by_cases eq : u = t
    · subst eq
      cases rest with
      | nil => simp
      | cons _ _ => simp
    simp [eq,ih]

lemma Armed.insert (armed : Armed timers) (pos : expires ≠ 0) (new : t ∉ timers.map snd) : Armed (insertTimer expires t timers) := by
  refine ⟨?_,(insertTimer_procs expires t timers).nodup_iff.mpr (List.nodup_cons.mpr ⟨new,armed.once⟩)⟩
  cases timers with
  | nil => simpa [insertTimer] using pos
  | cons _ _ =>
    unfold insertTimer
    split
    · simpa using pos
    simpa using armed.ahead

lemma Armed.remove (armed : Armed timers) (t : Nat) : Armed (removeTimer t timers) := by
  refine ⟨?_,by rw [removeTimer_procs]; exact armed.once.erase t⟩
  cases timers with
  | nil => simp [removeTimer]
  | cons head rest =>
    obtain ⟨expires,u⟩ := head
    have left : expires ≠ 0 := armed.ahead (expires,u) rfl
    unfold removeTimer
    split
    · cases rest with
      | nil => simp
      | cons _ _ =>
        simp only [List.head?_cons,Option.mem_def,Option.some.injEq,forall_eq']
        omega
    simpa using left

structure Ticked (p q : Procs) : Prop where
  woken : ∀ t,Woken p q t
  others : ∀ t,t ∉ p.timers.map snd → q.asleep t = p.asleep t ∧ q.waitState t = p.waitState t
  flags : q.wakeupFlags = p.wakeupFlags
  armed : Armed q.timers
  fewer : ∀ t,t ∈ q.timers.map snd → t ∈ p.timers.map snd

namespace Procs

lemma expire_ticked {p : Procs} {timers : List (Nat × Nat)} (once : (timers.map snd).Nodup)
    (may : ∀ t ∈ timers.map snd,p.waitState t = 0 ∨ interruptible (p.waitState t) = true) :
    ∃ q,p.expire timers = .ok q ∧ (∀ t,Woken p q t) ∧ (∀ t,t ∉ timers.map snd → q.asleep t = p.asleep t ∧ q.waitState t = p.waitState t) ∧
      q.wakeupFlags = p.wakeupFlags ∧ Armed q.timers ∧ ∀ t,t ∈ q.timers.map snd → t ∈ timers.map snd := by
  induction timers generalizing p with
  | nil => exact ⟨_,rfl,fun t => .inl ⟨rfl,rfl⟩,fun _ _ => ⟨rfl,rfl⟩,rfl,⟨by simp,by simp⟩,fun _ mem => mem⟩
  | cons head rest ih =>
    obtain ⟨expires,t⟩ := head
    have parts := List.nodup_cons.mp once
    cases expires with
    | succ n => exact ⟨_,rfl,fun u => .inl ⟨rfl,rfl⟩,fun _ _ => ⟨rfl,rfl⟩,rfl,⟨by simp,once⟩,fun _ mem => mem⟩
    | zero =>
      -- the process of this timer is woken, the others are as pre
      have calm (u : Nat) (mem : u ∈ rest.map snd) : (p.wakeupProc t).waitState u = 0 ∨ interruptible ((p.wakeupProc t).waitState u) = true := by
        have ne : u ≠ t := by
          rintro rfl
          exact parts.1 mem
        rw [(p.wakeupProc_other ne).2]
        exact may u (List.mem_cons_of_mem _ mem)
      obtain ⟨q,ran,woken,others,flags,armed,fewer⟩ := ih parts.2 calm
      refine ⟨q,?_,fun u => (p.wakeupProc_woken t u).trans (woken u),fun u gone => ?_,?_,armed,fun u mem => List.mem_cons_of_mem _ (fewer u mem)⟩
      · have unfolded : p.expire ((0,t) :: rest) = (p.wakeupProc t).expire rest := if_pos (may t (List.mem_cons_self ..))
        rw [unfolded]
        exact ran
      · have parts : u ≠ t ∧ u ∉ rest.map snd := by simpa using gone
        have kept := others u parts.2
        have pre := p.wakeupProc_other parts.1
        exact ⟨kept.1.trans pre.1,kept.2.trans pre.2⟩
      exact flags.trans (p.wakeupProc_frame t).1

lemma runTimerList_ticked {p : Procs} (armed : Armed p.timers)
    (may : ∀ t ∈ p.timers.map snd,p.waitState t = 0 ∨ interruptible (p.waitState t) = true) :
    ∃ q,p.runTimerList = .ok q ∧ Ticked p q := by
  unfold runTimerList
  split
  next _ => exact ⟨_,rfl,fun t => .inl ⟨rfl,rfl⟩,fun _ _ => ⟨rfl,rfl⟩,rfl,armed,fun _ mem => mem⟩
  rename_i expires t rest eq
  have left : expires ≠ 0 := armed.ahead (expires,t) (by rw [eq]; rfl)
  have procs : p.timers.map snd = ((expires - 1,t) :: rest).map snd := by rw [eq]; rfl
  have once := armed.once
  rw [procs] at once may
  rw [if_neg left]
  have calm : ∀ u ∈ ((expires - 1,t) :: rest).map snd,
      {p with ticks:=p.ticks + 1}.waitState u = 0 ∨ interruptible ({p with ticks:=p.ticks + 1}.waitState u) = true := may
  obtain ⟨q,ran,woken,others,flags,ready,fewer⟩ := expire_ticked once calm
  refine ⟨q,ran,woken,fun u gone => others u (by rwa [procs] at gone),flags,ready,fun u mem => ?_⟩
  rw [procs]
  exact fewer u mem

lemma addTimer_frame (p : Procs) (t late : Nat) : (p.addTimer t late).asleep = p.asleep ∧
    (p.addTimer t late).waitState = p.waitState ∧ (p.addTimer t late).wakeupFlags = p.wakeupFlags := by
  unfold addTimer
  split <;> exact ⟨rfl,rfl,rfl⟩

lemma expire_due (p : Procs) (t : Nat) (rest : List (Nat × Nat)) : p.expire ((0,t) :: rest) =
    if p.waitState t = 0 ∨ interruptible (p.waitState t) = true then (p.wakeupProc t).expire rest else .error .timerState := rfl

-- Whatever the timers are, a tick only wakes.
lemma expire_woken {p q : Procs} {timers : List (Nat × Nat)} (ran : p.expire timers = .ok q) : (∀ x,Woken p q x) ∧ q.wakeupFlags = p.wakeupFlags := by
  induction timers generalizing p with
  | nil =>
    cases ran
    exact ⟨fun _ => .inl ⟨rfl,rfl⟩,rfl⟩
  | cons head _ ih =>
    obtain ⟨expires,t⟩ := head
    cases expires with
    | succ n =>
      cases ran
      exact ⟨fun _ => .inl ⟨rfl,rfl⟩,rfl⟩
    | zero =>
      rw [expire_due] at ran
      split at ran
      · have after := ih ran
        exact ⟨fun x => (p.wakeupProc_woken t x).trans (after.1 x),after.2.trans (p.wakeupProc_frame t).1⟩
      cases ran

lemma runTimerList_woken {p q : Procs} (ran : p.runTimerList = .ok q) : (∀ x,Woken p q x) ∧ q.wakeupFlags = p.wakeupFlags := by
  unfold runTimerList at ran
  split at ran
  · cases ran
    exact ⟨fun _ => .inl ⟨rfl,rfl⟩,rfl⟩
  split at ran
  · cases ran
  have after := expire_woken ran
  exact ⟨after.1,after.2⟩

lemma expire_fault {p : Procs} {timers : List (Nat × Nat)} (ran : p.expire timers = .error f) : f = .timerState := by
  induction timers generalizing p with
  | nil => cases ran
  | cons head _ ih =>
    obtain ⟨expires,t⟩ := head
    cases expires with
    | succ n => cases ran
    | zero =>
      rw [expire_due] at ran
      split at ran
      · exact ih ran
      cases ran
      rfl

lemma runTimerList_fault {p : Procs} (ran : p.runTimerList = .error f) : f = .timerExpires ∨ f = .timerState := by
  unfold runTimerList at ran
  split at ran
  · cases ran
  split at ran
  · cases ran
    exact .inl rfl
  exact .inr (expire_fault ran)

end Procs

end Timers

end Ucore.Sync
