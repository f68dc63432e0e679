import Ucore.Lib.Line
import Ucore.Lib.Runs
import Ucore.Sync.Wait

-- event.c: a process sends a number to another and sleeps in its event box until the
-- other takes it.
namespace Ucore.Sync.Events
open Runs

def wtEventSend : Nat := 0x80000110
def wtEventRecv : Nat := 0x80000111

def eInval : Int := -3

inductive Status where
  | unborn
  | live
  | zombie
  | gone
  deriving DecidableEq

-- In send_event of a process's box, in recv_event, or with a pid and an event to copy
-- to the user. A send call is numbered; the code has no such number.
inductive Stage where
  | idle
  | sending (target number : Nat)
  | receiving
  | received (pid : Nat) (event : Int)
  deriving DecidableEq

structure Call where
  sender : Nat
  target : Nat
  value : Int
  number : Nat
  deriving DecidableEq

structure Meeting where
  receiver : Nat
  call : Nat
  pid : Nat
  event : Int
  deriving DecidableEq

-- queue and event are the event_box of each process; special are idleproc, initproc and
-- kswapd. The history after ret: the calls of send_event, what ipc_event_send returned,
-- and the meetings, newest first.
structure World where
  procs : Procs
  status : Nat → Status
  pid : Nat → Nat
  special : Nat → Bool
  queue : Nat → List Nat
  event : Nat → Int
  stage : Nat → Stage
  timeout : Nat → Nat
  saved : Nat → Nat
  ret : Nat → Int
  serial : Nat
  calls : List Call
  returned : List (Nat × Int)
  met : List Meeting

inductive Fault where
  | flags
  | timer (f : Sync.Fault)
  deriving DecidableEq

-- ipc_timer_init and ipc_add_timer; the timeout is not 0 there, so add_timer's assert holds.
def World.arm (s : World) (t timeout : Nat) : World :=
  {s with
    procs:=s.procs.addTimer t timeout
    timeout:=put s.timeout t timeout
    saved:=put s.saved t s.procs.ticks}

def World.checked (s : World) (t : Nat) : Int := checkTimeout (s.timeout t) (s.saved t) s.procs.ticks

-- ipc_event_send up to the schedule of send_event; target is what find_proc found.
def World.send (s : World) (t : Nat) (target : Option Nat) (value : Int) (timeout : Nat) : World :=
  let refused : World := {s with ret:=put s.ret t eInval,serial:=s.serial + 1,returned:=(s.serial,eInval) :: s.returned}
  match target with
  | none => refused
  | some r =>
    if s.status r = .zombie ∨ r = t ∨ s.special r = true then refused
    else
      let procs := if s.procs.waitState r = wtEventRecv then s.procs.wakeupProc r else s.procs
      {s with
        procs:=procs.waitCurrentSet t wtEventSend
        event:=put s.event t value
        queue:=put s.queue r (s.queue r ++ [t])
        stage:=put s.stage t (.sending r s.serial)
        serial:=s.serial + 1
        calls:=⟨t,r,value,s.serial⟩ :: s.calls}.arm t timeout

-- The rest of it.
def World.resumeSend (s : World) (t r number : Nat) : Except Fault World :=
  let flags := s.procs.wakeupFlags t
  let s := {s with procs:=s.procs.delTimer t,queue:=put s.queue r ((s.queue r).erase t),stage:=put s.stage t .idle}
  if flags = wtEventSend then .ok {s with ret:=put s.ret t 0,returned:=(number,0) :: s.returned}
  else if flags = wtInterrupted then .ok {s with ret:=put s.ret t (s.checked t),returned:=(number,s.checked t) :: s.returned}
  else .error .flags

def Stage.number : Stage → Nat
  | .sending _ number => number
  | _ => 0

-- recv_event after its wait
def World.take (s : World) (t : Nat) : World :=
  match s.queue t with
  | [] => {s with stage:=put s.stage t .idle,ret:=put s.ret t (s.checked t)}
  | first :: rest =>
    {s with
      procs:=s.procs.wakeupWait first wtEventSend
      queue:=put s.queue t rest
      stage:=put s.stage t (.received (s.pid first) (s.event first))
      met:=⟨t,(s.stage first).number,s.pid first,s.event first⟩ :: s.met}

-- recv_event sets the state of the process itself, without a wait_t.
def World.recv (s : World) (t timeout : Nat) : World :=
  let s := {s with timeout:=put s.timeout t timeout,saved:=put s.saved t s.procs.ticks}
  if s.queue t = [] then
    let procs := {s.procs with asleep:=put s.procs.asleep t true,waitState:=put s.procs.waitState t wtEventRecv}
    {s with procs:=procs.addTimer t timeout,stage:=put s.stage t .receiving}
  else s.take t

def World.resumeRecv (s : World) (t : Nat) : World := {s with procs:=s.procs.delTimer t}.take t

-- ipc_event_recv copies to the user; stored is whether copy_to_user did.
def World.store (s : World) (t : Nat) (stored : Bool) : World :=
  {s with stage:=put s.stage t .idle,ret:=put s.ret t (if stored then 0 else eInval)}

-- __do_exit: first a zombie, then its senders are sent away.
def World.exit (s : World) (t : Nat) : World :=
  {s with
    procs:=s.procs.wakeupQueue wtInterrupted (s.queue t)
    status:=put s.status t .zombie
    queue:=put s.queue t []}

inductive Event where
  | born (t : Nat)
  | send (t : Nat) (target : Option Nat) (value : Int) (timeout : Nat)
  | recv (t timeout : Nat)
  | run (t : Nat)
  | store (t : Nat) (stored : Bool)
  | exit (t : Nat)
  | reap (t : Nat)
  | tick
  | kill (t : Nat)
  deriving DecidableEq

def World.Ready (s : World) (t : Nat) : Prop := s.status t = .live ∧ s.procs.asleep t = false ∧ s.stage t = .idle

instance (s : World) (t : Nat) : Decidable (s.Ready t) := by unfold World.Ready; infer_instance

def Stage.waits : Stage → Bool
  | .sending _ _ => true
  | .receiving => true
  | _ => false

def World.Enabled (s : World) : Event → Prop
  | .born t => s.status t = .unborn
  | .send t target _ _ => s.Ready t ∧ ∀ r ∈ target,s.status r = .live ∨ s.status r = .zombie
  | .recv t _ => s.Ready t
  | .run t => s.procs.asleep t = false ∧ (s.stage t).waits = true
  | .store t _ => s.procs.asleep t = false ∧ s.stage t ≠ .idle ∧ (s.stage t).waits = false
  | .exit t => s.Ready t
  | .reap t => s.status t = .zombie
  | .tick => True
  | .kill _ => True

instance (s : World) (e : Event) : Decidable (s.Enabled e) := by
  cases e <;> unfold World.Enabled <;> infer_instance

def World.step (s : World) : Event → Except Fault World
  | .born t => .ok {s with status:=put s.status t .live}
  | .send t target value timeout => .ok (s.send t target value timeout)
  | .recv t timeout => .ok (s.recv t timeout)
  | .run t =>
    match s.stage t with
    | .sending r number => s.resumeSend t r number
    | .receiving => .ok (s.resumeRecv t)
    | _ => .ok s
  | .store t stored => .ok (s.store t stored)
  | .exit t => .ok (s.exit t)
  | .reap t => .ok {s with status:=put s.status t .gone}
  | .tick =>
    match s.procs.runTimerList with
    | .ok procs => .ok {s with procs:=procs}
    | .error f => .error (.timer f)
  | .kill t => .ok {s with procs:=s.procs.doKill t}

def World.Move (s : World) (e : Event) (u : World) : Prop := s.Enabled e ∧ s.step e = .ok u

def World.first (pid : Nat → Nat) (special : Nat → Bool) : World :=
  ⟨⟨fun _ => false,fun _ => 0,fun _ => 0,fun _ => false,[],0⟩,fun _ => .unborn,pid,special,fun _ => [],fun _ => 0,fun _ => .idle,fun _ => 0,fun _ => 0,
    fun _ => 0,0,[],[],[]⟩

end Ucore.Sync.Events
