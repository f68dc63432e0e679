import Ucore.Sync.Event

-- proc.c and trap.c: what becomes of a thread after __do_kill. A thread runs in user
-- mode or is somewhere in a system call at a schedule; the code between two schedules
-- runs under the kernel lock and is one step.
namespace Ucore.Sync.Kills
open Runs

def wtChild : Nat := 0x80000001
def wtTimer : Nat := 0x80000002
def wtPipe : Nat := 0x80000200

-- The system calls that sleep: do_wait, do_sleep, ipc_sem_wait, ipc_mbox_send and
-- ipc_mbox_recv, ipc_event_send and ipc_event_recv, and sysfile_read and sysfile_write
-- on a pipe.
inductive Call where
  | wait
  | sleep
  | sem
  | mboxSend
  | mboxRecv
  | eventSend
  | eventRecv
  | pipe
  deriving DecidableEq

-- The schedules in them: the wait the call is for; a kernel semaphore on the way to it
-- (sem_queue's, lock_mm, lock_state); and lock_mm on the way back.
inductive Site where
  | main (c : Call)
  | before (c : Call)
  | after
  deriving DecidableEq

def Call.waitState : Call → Nat
  | .wait => wtChild
  | .sleep => wtTimer
  | .sem => wtUsem
  | .mboxSend => wtMboxSend
  | .mboxRecv => wtMboxRecv
  | .eventSend => Events.wtEventSend
  | .eventRecv => Events.wtEventRecv
  | .pipe => wtPipe

def Site.waitState : Site → Nat
  | .main c => c.waitState
  | .before _ => wtKsem
  | .after => wtKsem

inductive Next where
  | done
  | sleep (site : Site)
  deriving DecidableEq

def Call.starts : Call → List Next
  | .wait => [.done,.sleep (.main .wait),.sleep .after]
  | .sleep => [.done,.sleep (.main .sleep)]
  | .sem => [.done,.sleep (.before .sem),.sleep (.main .sem)]
  | .mboxSend => [.done,.sleep (.before .mboxSend),.sleep (.main .mboxSend)]
  | .mboxRecv => [.done,.sleep (.before .mboxRecv),.sleep (.main .mboxRecv),.sleep .after]
  | .eventSend => [.done,.sleep (.main .eventSend)]
  | .eventRecv => [.done,.sleep (.main .eventRecv),.sleep .after]
  | .pipe => [.done,.sleep (.before .pipe),.sleep (.main .pipe)]

-- After the wait of the call; told is whether the wakeup_flags are those of the wait.
-- send_msg and recv_msg go round their loop, and so do the loops over a pipe, which
-- sysfile_read and sysfile_write enter again when something was moved before.
def Call.resumes (told : Bool) : Call → List Next
  | .wait => [.done,.sleep (.main .wait),.sleep .after]
  | .sleep => [.done]
  | .sem => [.done]
  | .mboxSend => if told then [.done,.sleep (.main .mboxSend)] else [.done]
  | .mboxRecv => if told then [.done,.sleep (.main .mboxRecv),.sleep .after] else [.done]
  | .eventSend => [.done]
  | .eventRecv => [.done,.sleep .after]
  | .pipe => [.done,.sleep (.before .pipe),.sleep (.main .pipe)]

def Site.resumes (told : Bool) : Site → List Next
  | .main c => c.resumes told
  | .before c => c.starts
  | .after => [.done]

inductive Mode where
  | user
  | at (site : Site)
  | dead
  deriving DecidableEq

structure Threads where
  procs : Procs
  mode : Nat → Mode

def Threads.leave (s : Threads) (t : Nat) : Threads :=
  {s with mode:=put s.mode t (if s.procs.exiting t then .dead else .user)}

def Threads.goOn (s : Threads) (t : Nat) : Next → Threads
  | .done => s.leave t
  | .sleep site => {procs:=s.procs.waitCurrentSet t site.waitState,mode:=put s.mode t (.at site)}

def Threads.resume (s : Threads) (t : Nat) (site : Site) (next : Next) : Threads :=
  if site = .main .wait ∧ s.procs.exiting t = true then s.leave t else s.goOn t next

def Threads.told (s : Threads) (t : Nat) (site : Site) : Bool := s.procs.wakeupFlags t = site.waitState

-- trap: an interrupt or a system call that does not sleep. signal: wakeup_wait with the
-- flags of the wait; cancel: with WT_INTERRUPTED; rouse: wakeup_proc alone, as of a timer.
inductive Event where
  | trap (t : Nat)
  | call (t : Nat) (c : Call) (next : Next)
  | run (t : Nat) (next : Next)
  | signal (t : Nat)
  | cancel (t : Nat)
  | rouse (t : Nat)
  | kill (t : Nat)
  deriving DecidableEq

def Mode.site : Mode → Option Site
  | .at site => some site
  | _ => none

def Threads.Enabled (s : Threads) : Event → Prop
  | .trap t => s.mode t = .user
  | .call t c next => s.mode t = .user ∧ next ∈ c.starts
  | .run t next => s.procs.asleep t = false ∧ ∃ site ∈ (s.mode t).site,next ∈ site.resumes (s.told t site)
  | .signal t => (s.mode t).site.isSome = true
  | .cancel t => (s.mode t).site.isSome = true ∧ interruptible (s.procs.waitState t) = true
  | .rouse t => (s.mode t).site.isSome = true ∧ interruptible (s.procs.waitState t) = true
  | .kill t => s.mode t ≠ .dead

instance (s : Threads) (e : Event) : Decidable (s.Enabled e) := by
  cases e <;> unfold Threads.Enabled <;> infer_instance

def Threads.step (s : Threads) : Event → Threads
  | .trap t => s.leave t
  | .call t _ next => s.goOn t next
  | .run t next =>
    match (s.mode t).site with
    | none => s
    | some site => s.resume t site next
  | .signal t =>
    match (s.mode t).site with
    | none => s
    | some site => {s with procs:=s.procs.wakeupWait t site.waitState}
  | .cancel t => {s with procs:=s.procs.wakeupWait t wtInterrupted}
  | .rouse t => {s with procs:=s.procs.wakeupProc t}
  | .kill t => {s with procs:=s.procs.doKill t}

def Threads.Move (s : Threads) (e : Event) (u : Threads) : Prop := s.Enabled e ∧ u = s.step e

def Threads.first : Threads := ⟨⟨fun _ => false,fun _ => 0,fun _ => 0,fun _ => false,[],0⟩,fun _ => .user⟩

def Threads.Stuck (s : Threads) (t : Nat) : Prop :=
  s.procs.exiting t = true ∧ s.procs.asleep t = true ∧ interruptible (s.procs.waitState t) = true

instance (s : Threads) (t : Nat) : Decidable (s.Stuck t) := by unfold Threads.Stuck; infer_instance

-- A thread in user mode is killed and then sleeps for a while.
theorem kill_before_sleep : ∃ s,Path Threads.Move Threads.first [.kill 0,.call 0 .sleep (.sleep (.main .sleep))] s ∧ s.Stuck 0 := by
  have killed : Threads.first.Move (.kill 0) (Threads.first.step (.kill 0)) := ⟨by decide,rfl⟩
  have called : (Threads.first.step (.kill 0)).Move (.call 0 .sleep (.sleep (.main .sleep)))
      ((Threads.first.step (.kill 0)).step (.call 0 .sleep (.sleep (.main .sleep)))) := ⟨by decide,rfl⟩
  exact ⟨_,.step (.step .nil killed) called,by decide⟩

-- A thread at this site, once it is awake, goes back without another wait that a kill
-- should end. told: the wait has ended with what it waits for.
def Site.leaves (told : Bool) : Site → Bool
  | .main .pipe => false
  | .main .mboxSend => !told
  | .main .mboxRecv => !told
  | .main _ => true
  | .before _ => false
  | .after => true

def Mode.leaves (told : Site → Bool) : Mode → Bool
  | .at site => site.leaves (told site)
  | _ => true

-- A victim is in user mode, or in a call that leaves; whoever has been killed makes no
-- system call that sleeps, and is sent no message that it goes on for.
def Threads.Fit (s : Threads) : Event → Prop
  | .kill t => s.procs.exiting t = true ∨ (s.mode t).leaves (s.told t) = true
  | .call t _ _ => s.procs.exiting t = false
  | .signal t => s.procs.exiting t = false ∨ (s.mode t).leaves (fun _ => true) = true
  | _ => True

instance (s : Threads) (e : Event) : Decidable (s.Fit e) := by
  cases e <;> unfold Threads.Fit <;> infer_instance

structure Law (s : Threads) : Prop where
  asleep : ∀ t,s.procs.asleep t = true → ∃ site,s.mode t = .at site ∧ s.procs.waitState t = site.waitState
  doomed : ∀ t,s.procs.exiting t = true → (s.mode t).leaves (s.told t) = true ∧ (s.procs.asleep t = true → s.procs.waitState t = wtKsem)

section Steps
variable {s u : Threads}

lemma wtKsem_firm : interruptible wtKsem = false := by decide

lemma site_at {mode : Mode} (stage : mode.site = some site) : mode = .at site := by
  cases mode with
  | user => cases stage
  | dead => cases stage
  | «at» ne =>
    cases stage
    rfl

lemma leaves_at (told : Site → Bool) (site : Site) : Mode.leaves told (.at site) = site.leaves (told site) := rfl

lemma told_same (flags : u.procs.wakeupFlags t = s.procs.wakeupFlags t) : u.told t = s.told t := by
  funext site
  unfold Threads.told
  rw [flags]

structure Only (s u : Threads) (t : Nat) : Prop where
  mode : ∀ x,x ≠ t → u.mode x = s.mode x
  asleep : ∀ x,x ≠ t → u.procs.asleep x = s.procs.asleep x
  waits : ∀ x,x ≠ t → u.procs.waitState x = s.procs.waitState x
  flags : ∀ x,x ≠ t → u.procs.wakeupFlags x = s.procs.wakeupFlags x
  exiting : ∀ x,x ≠ t → u.procs.exiting x = s.procs.exiting x

lemma Law.only (law : Law s) (only : Only s u t) (asleep : u.procs.asleep t = true → ∃ site,u.mode t = .at site ∧ u.procs.waitState t = site.waitState)
    (doomed : u.procs.exiting t = true → (u.mode t).leaves (u.told t) = true ∧ (u.procs.asleep t = true → u.procs.waitState t = wtKsem)) : Law u := by
  refine ⟨fun x sleeps => ?_,fun x killed => ?_⟩
  · rcases eq_or_ne x t with rfl | ne
    · exact asleep sleeps
    rw [only.mode x ne,only.waits x ne]
    exact law.asleep x (only.asleep x ne ▸ sleeps)
  rcases eq_or_ne x t with rfl | ne
  · exact doomed killed
  rw [only.mode x ne,only.asleep x ne,only.waits x ne,told_same (only.flags x ne)]
  exact law.doomed x (only.exiting x ne ▸ killed)

lemma Law.leave (law : Law s) (awake : s.procs.asleep t = false) : Law (s.leave t) := by
  have here : (s.leave t).mode t = if s.procs.exiting t then .dead else .user := put_same ..
  refine law.only (t := t) ⟨fun x ne => put_other ne,fun _ _ => rfl,fun _ _ => rfl,fun _ _ => rfl,fun _ _ => rfl⟩ (fun sleeps => ?_) fun killed => ?_
  · rw [show (s.leave t).procs.asleep t = s.procs.asleep t from rfl,awake] at sleeps
    cases sleeps
  rw [here]
  refine ⟨by split <;> rfl,fun sleeps => ?_⟩
  rw [show (s.leave t).procs.asleep t = s.procs.asleep t from rfl,awake] at sleeps
  cases sleeps

lemma Law.sleeps (law : Law s) (back : s.procs.exiting t = true → site = .after) : Law (s.goOn t (.sleep site)) := by
  have here : (s.goOn t (.sleep site)).mode t = .at site := put_same ..
  have waits : (s.goOn t (.sleep site)).procs.waitState t = site.waitState := put_same ..
  refine law.only (t := t) ⟨fun x ne => put_other ne,fun x ne => put_other ne,fun x ne => put_other ne,fun x ne => put_other ne,fun _ _ => rfl⟩
    (fun _ => ⟨site,here,waits⟩) fun killed => ?_
  rw [here,waits]
  obtain rfl := back killed
  exact ⟨rfl,fun _ => rfl⟩

lemma Law.goOn (law : Law s) (awake : s.procs.asleep t = false) (back : s.procs.exiting t = true → next = .done ∨ next = .sleep .after) :
    Law (s.goOn t next) := by
  cases next with
  | done => exact law.leave awake
  | sleep _ =>
    refine law.sleeps fun killed => ?_
    rcases back killed with eq | eq
    · cases eq
    cases eq
    rfl

-- A killed thread that leaves goes on to user mode, or to lock_mm before it.
lemma leaves_next (leaves : Site.leaves told site = true) (fits : next ∈ site.resumes told) :
    next = .done ∨ next = .sleep .after ∨ site = .main .wait := by
  cases site with
  | before c => cases leaves
  | after => exact .inl (by simpa [Site.resumes] using fits)
  | main c => cases c <;> cases told <;> simp_all [Site.leaves,Site.resumes,Call.resumes]

lemma Law.run (law : Law s) (awake : s.procs.asleep t = false) (stage : s.mode t = .at site) (fits : next ∈ site.resumes (s.told t site)) :
    Law (s.resume t site next) := by
  unfold Threads.resume
  split
  · exact law.leave awake
  rename_i goes
  refine law.goOn awake fun killed => ?_
  have leaves := (law.doomed t killed).1
  rw [stage] at leaves
  rcases leaves_next leaves fits with eq | eq | eq
  · exact .inl eq
  · exact .inr eq
  exact absurd ⟨eq,killed⟩ goes

lemma Law.woken (law : Law s) (only : Only s u t) (woken : Woken s.procs u.procs t) (mode : u.mode t = s.mode t)
    (leaves : u.procs.exiting t = true → (u.mode t).leaves (u.told t) = true)
    (firm : u.procs.exiting t = true → s.procs.exiting t = false → interruptible (s.procs.waitState t) = true → u.procs.asleep t = false) : Law u := by
  have before (sleeps : u.procs.asleep t = true) : s.procs.asleep t = true ∧ u.procs.waitState t = s.procs.waitState t := by
    rcases woken with ⟨eq,waits⟩ | ⟨_,awake,_⟩
    · exact ⟨eq ▸ sleeps,waits⟩
    rw [awake] at sleeps
    cases sleeps
  refine law.only only (fun sleeps => ?_) fun killed => ⟨leaves killed,fun sleeps => ?_⟩
  · obtain ⟨slept,waits⟩ := before sleeps
    rw [mode,waits]
    exact law.asleep t slept
  obtain ⟨slept,waits⟩ := before sleeps
  rw [waits]
  cases exiting : s.procs.exiting t with
  | true => exact (law.doomed t exiting).2 slept
  | false =>
    obtain ⟨site,stage,state⟩ := law.asleep t slept
    -- a thread killed in a wait of its own would have been woken
    have soft : interruptible (s.procs.waitState t) = false := by
      by_contra soft
      rw [firm killed exiting (by simpa using soft)] at sleeps
      cases sleeps
    rw [state] at soft ⊢
    have leaves := leaves killed
    rw [mode,stage] at leaves
    cases site with
    | before c => rfl
    | after => rfl
    | main c =>
      exfalso
      revert soft
      cases c <;> decide

lemma wakeupWait_only (s : Threads) (t flags : Nat) : Only s {s with procs:=s.procs.wakeupWait t flags} t := by
  refine ⟨fun _ _ => rfl,fun x ne => (s.procs.wakeupWait_other flags ne).2,fun x ne => ?_,fun x ne => (s.procs.wakeupWait_other flags ne).1,fun x ne => ?_⟩
  · exact (Procs.wakeupProc_other {s.procs with wakeupFlags:=put s.procs.wakeupFlags t flags} ne).2
  dsimp only [Procs.wakeupWait]
  unfold Procs.wakeupProc
  split <;> rfl

lemma doKill_parts (p : Procs) (t : Nat) : (p.doKill t).exiting = put p.exiting t true ∧
    (p.exiting t = false → interruptible (p.waitState t) = true → (p.doKill t).asleep t = false) := by
  unfold Procs.doKill
  split
  next already =>
    refine ⟨funext fun x => ?_,fun new => ?_⟩
    · rcases eq_or_ne x t with rfl | ne
      · rw [put_same]
        exact already
      rw [put_other ne]
    rw [already] at new
    cases new
  dsimp only
  split
  · exact ⟨Procs.wakeupProc_exiting _ t,fun _ _ => Procs.wakeupProc_self _ t⟩
  next firm => exact ⟨rfl,fun _ soft => absurd soft firm⟩

-- WT_INTERRUPTED is the flag of no wait.
lemma leaves_untold {s u : Threads} {t : Nat} (leaves : (s.mode t).leaves (s.told t) = true) (flags : u.procs.wakeupFlags t = wtInterrupted) :
    (s.mode t).leaves (u.told t) = true := by
  cases stated : s.mode t with
  | user => rfl
  | dead => rfl
  | «at» site =>
    rw [stated,leaves_at] at leaves
    have untold : u.told t site = false := by
      refine decide_eq_false ?_
      rw [flags]
      cases site with
      | before c => cases c <;> decide
      | after => decide
      | main c => cases c <;> decide
    rw [leaves_at,untold]
    cases site with
    | before c => cases leaves
    | after => rfl
    | main c => cases c <;> first | rfl | exact leaves

lemma Law.step (law : Law s) (moved : s.Move e u) (fit : s.Fit e) : Law u := by
  obtain ⟨may,rfl⟩ := moved
  have awake {t : Nat} (user : s.mode t = .user) : s.procs.asleep t = false := by
    cases sleeps : s.procs.asleep t with
    | false => rfl
    | true =>
      obtain ⟨site,stage,_⟩ := law.asleep t sleeps
      rw [user] at stage
      cases stage
  cases e with
  | trap t => exact law.leave (awake may)
  | call t c next =>
    refine law.goOn (awake may.1) fun killed => ?_
    rw [show s.procs.exiting t = false from fit] at killed
    cases killed
  | run t _ =>
    obtain ⟨up,site,stage,fits⟩ := may
    have mode := site_at stage
    simp only [Threads.step,mode,Mode.site]
    exact law.run up mode fits
  | signal t =>
    obtain ⟨site,stage⟩ := Option.isSome_iff_exists.mp may
    have mode := site_at stage
    simp only [Threads.step,mode,Mode.site]
    have self := s.procs.wakeupWait_self t site.waitState
    refine law.woken (wakeupWait_only s t _) (s.procs.wakeupWait_woken t _ t) rfl (fun killed => ?_) fun _ _ _ => self.2
    have eq : s.procs.exiting t = true := by
      rw [← Procs.wakeupProc_exiting {s.procs with wakeupFlags:=put s.procs.wakeupFlags t site.waitState} t]
      exact killed
    have leaves := fit.resolve_left (by simp [eq])
    rw [mode] at leaves ⊢
    have told : Threads.told {s with procs:=s.procs.wakeupWait t site.waitState} t site = true := decide_eq_true self.1
    rw [leaves_at,told]
    exact leaves
  | cancel t =>
    have self := s.procs.wakeupWait_self t wtInterrupted
    refine law.woken (wakeupWait_only s t _) (s.procs.wakeupWait_woken t _ t) rfl (fun killed => ?_) fun _ _ _ => self.2
    have eq : s.procs.exiting t = true := by
      rw [← Procs.wakeupProc_exiting {s.procs with wakeupFlags:=put s.procs.wakeupFlags t wtInterrupted} t]
      exact killed
    exact leaves_untold (s := s) (u := s.step (.cancel t)) (law.doomed t eq).1 self.1
  | rouse t =>
    refine law.woken ⟨fun _ _ => rfl,fun x ne => (s.procs.wakeupProc_other ne).1,fun x ne => (s.procs.wakeupProc_other ne).2,
      fun x _ => congrFun (s.procs.wakeupProc_frame t).1 x,fun x _ => congrFun (Procs.wakeupProc_exiting s.procs t) x⟩ (s.procs.wakeupProc_woken t t) rfl
      (fun killed => ?_) fun _ _ _ => s.procs.wakeupProc_self t
    have eq : s.procs.exiting t = true := (congrFun (Procs.wakeupProc_exiting s.procs t) t) ▸ killed
    have told : Threads.told (s.step (.rouse t)) t = s.told t := told_same (congrFun (s.procs.wakeupProc_frame t).1 t)
    rw [told]
    exact (law.doomed t eq).1
  | kill t =>
    have frame := s.procs.doKill_frame t
    have parts := doKill_parts s.procs t
    have told : Threads.told (s.step (.kill t)) t = s.told t := told_same (congrFun frame.1 t)
    refine law.woken ⟨fun _ _ => rfl,fun x ne => ?_,fun x ne => ?_,fun x _ => congrFun frame.1 x,fun x ne => ?_⟩ (s.procs.doKill_woken t t) rfl
      (fun _ => ?_) fun _ new soft => parts.2 new soft
    · unfold Threads.step Procs.doKill
      dsimp only
      split
      · rfl
      split
      · exact (Procs.wakeupProc_other _ ne).1
      rfl
    · unfold Threads.step Procs.doKill
      dsimp only
      split
      · rfl
      split
      · exact (Procs.wakeupProc_other _ ne).2
      rfl
    · exact (congrFun parts.1 x).trans (put_other ne)
    rw [told]
    rcases fit with already | leaves
    · exact (law.doomed t already).1
    exact leaves

end Steps

-- A thread that __do_kill returned 0 for sleeps in no wait a kill should end; when it is
-- awake, its next step takes it to __do_exit or to a kernel semaphore it holds nothing
-- up for.
structure Killed (s : Threads) (t : Nat) : Prop where
  awake : ¬ s.Stuck t
  trap : s.mode t = .user → ((s.step (.trap t)).mode t = .dead)
  run : ∀ next,s.Enabled (.run t next) → (s.step (.run t next)).mode t = .dead ∨
    (s.step (.run t next)).mode t = .at .after ∧ (s.step (.run t next)).procs.waitState t = wtKsem

theorem kills_take_effect (path : Path (fun s e u => Threads.Move s e u ∧ s.Fit e) Threads.first events s) (killed : s.procs.exiting t = true) : Killed s t := by
  have law : Law s := by
    have first : Law Threads.first := ⟨fun _ sleeps => (by cases sleeps),fun _ exits => (by cases exits)⟩
    exact path.invariant (fun _ _ _ law moved => law.step moved.1 moved.2) first
  have doomed := law.doomed t killed
  have dies : (s.leave t).mode t = .dead := by
    have here : (s.leave t).mode t = if s.procs.exiting t then .dead else .user := put_same ..
    rw [here,killed]
    rfl
  refine ⟨fun stuck => ?_,fun _ => dies,fun next enabled => ?_⟩
  · have firm := wtKsem_firm
    rw [← doomed.2 stuck.2.1,stuck.2.2] at firm
    cases firm
  obtain ⟨_,site,stage,fits⟩ := enabled
  have mode := site_at stage
  have leaves := doomed.1
  rw [mode] at leaves
  simp only [Threads.step,mode,Mode.site,Threads.resume]
  split
  · exact .inl dies
  next goes =>
    rcases leaves_next leaves fits with rfl | rfl | eq
    · exact .inl dies
    · exact .inr ⟨put_same ..,put_same ..⟩
    · exact absurd ⟨eq,killed⟩ goes

-- A thread is killed in ipc_sem_wait.
theorem kills_take_effect_waiting : ∃ s,Path (fun s e u => Threads.Move s e u ∧ s.Fit e) Threads.first
    [.call 0 .sem (.sleep (.main .sem)),.kill 0] s ∧ s.procs.exiting 0 = true ∧ Killed s 0 := by
  let waiting := Threads.first.step (.call 0 .sem (.sleep (.main .sem)))
  have called : Threads.first.Move (.call 0 .sem (.sleep (.main .sem))) waiting ∧ Threads.first.Fit (.call 0 .sem (.sleep (.main .sem))) :=
    ⟨⟨by decide,rfl⟩,by decide⟩
  have killed : waiting.Move (.kill 0) (waiting.step (.kill 0)) ∧ waiting.Fit (.kill 0) := ⟨⟨by decide,rfl⟩,by decide⟩
  have path : Path (fun s e u => Threads.Move s e u ∧ s.Fit e) Threads.first [.call 0 .sem (.sleep (.main .sem)),.kill 0] (waiting.step (.kill 0)) :=
    .step (.step .nil called) killed
  exact ⟨_,path,by decide,kills_take_effect path (by decide)⟩

end Ucore.Sync.Kills
