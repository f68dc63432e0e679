import Ucore.Lib.Chain
import Ucore.Lib.Runs
import Ucore.Sync.Wait

-- proc.c: the table of processes with its links, and do_fork, __do_exit, do_wait and
-- do_kill over it. A process keeps the kernel lock from one schedule to the next; what
-- it does between the two is one step.
namespace Ucore.Proc
open Runs Links Ucore.Sync

def maxProcess : Nat := 4096
def maxPid : Nat := maxProcess * 2
def wtChild : Nat := 0x80000001

-- hash32(x, HASH_SHIFT)
def pidHashfn (pid : Nat) : Nat := pid * 0x9e370001 % 2^32 / 2^22

-- A proc_struct: not allocated; from alloc_proc and without links; in the tree; and
-- PROC_ZOMBIE.
inductive Status where
  | free
  | fresh
  | live
  | zombie
  deriving DecidableEq

inductive Mode where
  | run
  | forking (child : Nat)
  | waiting (pid : Nat)
  deriving DecidableEq

-- The numbers below lcpuCount are the idle processes and lcpuCount is initproc.
-- nextThread and prevThread are the links of thread_group.
structure Table where
  status : Nat → Status
  mode : Nat → Mode
  parent : Nat → Option Nat
  cptr : Nat → Option Nat
  optr : Nat → Option Nat
  yptr : Nat → Option Nat
  nextThread : Nat → Nat
  prevThread : Nat → Nat
  pid : Nat → Nat
  exitCode : Nat → Int
  procList : List Nat
  hashList : Nat → List Nat
  nrProcess : Nat
  procs : Procs
  lcpuCount : Nat

namespace Table

def initproc (s : Table) : Nat := s.lcpuCount

-- The loops over a thread group and over a child list; nrProcess bounds both.
def threads (s : Table) (t : Nat) : List Nat := round s.nextThread t s.nrProcess t

def children (s : Table) (p : Nat) : List Nat := walk s.optr s.nrProcess (s.cptr p)

-- A process in procList has a parent.
def setLinks (s : Table) (c : Nat) : Table :=
  match s.parent c with
  | none => s
  | some p =>
    let yptr := put s.yptr c none
    {s with
      procList:=c :: s.procList
      optr:=put s.optr c (s.cptr p)
      yptr:=match s.cptr p with
        | none => yptr
        | some o => put yptr o (some c)
      cptr:=put s.cptr p (some c)
      nrProcess:=s.nrProcess + 1}

def removeLinks (s : Table) (c : Nat) : Table :=
  {s with
    procList:=s.procList.erase c
    yptr:=match s.optr c with
      | none => s.yptr
      | some o => put s.yptr o (s.yptr c)
    optr:=match s.yptr c with
      | none => s.optr
      | some y => put s.optr y (s.optr c)
    cptr:=match s.yptr c,s.parent c with
      | none,some p => put s.cptr p (s.optr c)
      | _,_ => s.cptr
    nrProcess:=s.nrProcess - 1}

def hashProc (s : Table) (c : Nat) : Table :=
  let b := pidHashfn (s.pid c)
  {s with hashList:=put s.hashList b (c :: s.hashList b)}

def unhashProc (s : Table) (c : Nat) : Table :=
  let b := pidHashfn (s.pid c)
  {s with hashList:=put s.hashList b ((s.hashList b).erase c)}

def findProc (s : Table) (pid : Nat) : Option Nat :=
  if 0 < pid ∧ pid < maxPid then (s.hashList (pidHashfn pid)).find? (fun p => s.pid p = pid) else none

def joinThreads (s : Table) (t c : Nat) : Table :=
  let last := s.prevThread t
  {s with
    nextThread:=put (put s.nextThread last c) c t
    prevThread:=put (put s.prevThread c last) t c}

def deThread (s : Table) (t : Nat) : Table :=
  if s.nextThread t = t then s
  else
    let last := s.prevThread t
    let next := s.nextThread t
    {s with
      nextThread:=put (put s.nextThread last next) t t
      prevThread:=put (put s.prevThread next last) t t}

def allocProc (s : Table) (t c : Nat) : Table :=
  {s with
    status:=put s.status c .fresh
    mode:=put (put s.mode c .run) t (.forking c)
    parent:=put s.parent c (some t)
    cptr:=put s.cptr c none
    optr:=put s.optr c none
    yptr:=put s.yptr c none
    nextThread:=put s.nextThread c c
    prevThread:=put s.prevThread c c
    procs:={s.procs with
      asleep:=put s.procs.asleep c false
      waitState:=put s.procs.waitState c 0
      exiting:=put s.procs.exiting c false}}

def linkProc (s : Table) (t c : Nat) (thread : Bool) (pid : Nat) : Table :=
  let s := ({s with pid:=put s.pid c pid,status:=put s.status c .live,mode:=put s.mode t .run}.hashProc c).setLinks c
  if thread then s.joinThreads t c else s

-- kfree at bad_fork_cleanup_proc.
def dropProc (s : Table) (t c : Nat) : Table :=
  {s with
    status:=put s.status c .free
    mode:=put s.mode t .run}

-- __do_kill
def doKill (s : Table) (code : Int) (p : Nat) : Table :=
  if s.procs.exiting p then s
  else {s with
    procs:=s.procs.doKill p
    exitCode:=put s.exitCode p code}

end Table

def wakeupWaiter (procs : Procs) (p : Nat) : Procs := if procs.waitState p = wtChild then procs.wakeupProc p else procs

namespace Table

def adoptOne (s : Table) (t heir c : Nat) : Table :=
  let cptr := put s.cptr t (s.optr c)
  let yptr := put s.yptr c none
  {s with
    optr:=put s.optr c (cptr heir)
    yptr:=match cptr heir with
      | none => yptr
      | some o => put yptr o (some c)
    parent:=put s.parent c (some heir)
    cptr:=put cptr heir (some c)
    procs:=if s.status c = .zombie then wakeupWaiter s.procs heir else s.procs}

def adopt (t heir : Nat) : Nat → Table → Table
  | 0,s => s
  | fuel + 1,s =>
    match s.cptr t with
    | none => s
    | some c => adopt t heir fuel (s.adoptOne t heir c)

def heir (s : Table) (t : Nat) : Nat := if s.nextThread t = t then s.initproc else s.nextThread t

-- __do_exit from state = PROC_ZOMBIE on; wakeup_queue of the event box is in
-- Sync.Event.
def doExit (s : Table) (t : Nat) : Table :=
  let heir := s.heir t
  let s := {s with
    status:=put s.status t .zombie
    procs:=((s.parent t).elim [] s.threads).foldl wakeupWaiter s.procs}
  adopt t heir s.nrProcess (s.deThread t)

end Table

inductive Exit where
  | thread (code : Int)
  | group (code : Int)
  | killed
  deriving DecidableEq

def Table.exits (s : Table) (t : Nat) : Exit → Table
  | .thread code => {s with exitCode:=put s.exitCode t code}.doExit t
  | .group code =>
    let s := (s.threads t).tail.foldl (fun s p => s.doKill code p) s
    {s with exitCode:=put s.exitCode t code}.doExit t
  | .killed => s.doExit t

inductive Search where
  | found (z : Nat)
  | busy
  | childless
  deriving DecidableEq

def Table.search (s : Table) (t pid : Nat) : Search :=
  if pid ≠ 0 then
    match s.findProc pid with
    | none => .childless
    | some z =>
      if (s.threads t).any (fun c => s.parent z = some c) then
        if s.status z = .zombie then .found z else .busy
      else .childless
  else
    let kids := (s.threads t).flatMap s.children
    match kids.find? (fun z => s.status z = .zombie) with
    | some z => .found z
    | none => if kids.isEmpty then .childless else .busy

def Table.reap (s : Table) (z : Nat) : Table :=
  let s := (s.unhashProc z).removeLinks z
  {s with status:=put s.status z .free}

def Table.doWait (s : Table) (t pid : Nat) : Table :=
  match s.search t pid with
  | .found z => {s.reap z with mode:=put s.mode t .run}
  | .busy => {s with
    mode:=put s.mode t (.waiting pid)
    procs:={s.procs with
      asleep:=put s.procs.asleep t true
      waitState:=put s.procs.waitState t wtChild}}
  | .childless => {s with mode:=put s.mode t .run}

-- exec is the de_thread of do_execve.
inductive Event where
  | alloc (t c : Nat)
  | link (t c : Nat) (thread : Bool) (pid : Nat)
  | fail (t c : Nat)
  | exit (t : Nat) (how : Exit)
  | wait (t pid : Nat)
  | kill (pid : Nat) (code : Int)
  | exec (t : Nat)
  deriving DecidableEq

def Table.Acts (s : Table) (t : Nat) : Prop := s.status t = .live ∧ s.procs.asleep t = false

instance (s : Table) (t : Nat) : Decidable (s.Acts t) := by unfold Table.Acts; infer_instance

def Mode.mayExit (how : Exit) : Mode → Bool
  | .run => true
  | .forking _ => false
  | .waiting _ => how = .killed

def Table.Enabled (s : Table) : Event → Prop
  | .alloc t c => s.Acts t ∧ s.mode t = .run ∧ s.nrProcess < maxProcess ∧ s.status c = .free
  | .link t c _ _ => s.Acts t ∧ s.mode t = .forking c
  | .fail t c => s.Acts t ∧ s.mode t = .forking c
  | .exit t how => s.Acts t ∧ s.initproc < t ∧ (s.mode t).mayExit how = true ∧ (how = .killed → s.procs.exiting t = true)
  | .wait t pid => s.Acts t ∧ (s.mode t = .run ∨ s.mode t = .waiting pid ∧ s.procs.exiting t = false)
  | .kill pid _ => (s.findProc pid).isSome = true
  | .exec t => s.Acts t ∧ s.mode t = .run

instance (s : Table) (e : Event) : Decidable (s.Enabled e) := by
  cases e <;> unfold Table.Enabled <;> infer_instance

def Table.step (s : Table) : Event → Table
  | .alloc t c => s.allocProc t c
  | .link t c thread pid => s.linkProc t c thread pid
  | .fail t c => s.dropProc t c
  | .exit t how => s.exits t how
  | .wait t pid => s.doWait t pid
  | .kill pid code => (s.findProc pid).elim s (s.doKill code)
  | .exec t => s.deThread t

def Table.Move (s : Table) (e : Event) (u : Table) : Prop := s.Enabled e ∧ u = s.step e

def Table.first (lcpuCount : Nat) : Table where
  status p := if p ≤ lcpuCount then .live else .free
  mode _ := .run
  parent p := if p = lcpuCount then some 0 else none
  cptr p := if p = 0 then some lcpuCount else none
  optr _ := none
  yptr _ := none
  nextThread p := p
  prevThread p := p
  pid p := p
  exitCode _ := 0
  procList := [lcpuCount]
  hashList b := if b = pidHashfn lcpuCount then [lcpuCount] else []
  nrProcess := lcpuCount + 1
  procs := ⟨fun _ => false,fun _ => 0,fun _ => 0,fun _ => false,[],0⟩
  lcpuCount := lcpuCount

end Ucore.Proc
