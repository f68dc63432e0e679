import Ucore.Lib.Line
import Ucore.Lib.Runs
import Ucore.Sync.Wait

-- pipe_state.c: one pipe, its readers and its writers.
namespace Ucore.Pipes
open Runs Sync

def wtPipe : Nat := 0x80000200

-- PIPE_BUFSIZE, a page less the 96 bytes of a struct pipe_state
abbrev bufSize : Nat := 4000

-- The positions are off_t, of which we keep the 64 bits. locked is whether sem is taken;
-- reader_queue and writer_queue are readers and writers.
structure Pipe where
  rpos : Nat
  wpos : Nat
  buf : Nat → UInt8
  isclosed : Bool
  locked : Bool
  readers : List Nat
  writers : List Nat

def Pipe.isEmpty (p : Pipe) : Bool := p.rpos = p.wpos

-- p_wpos - p_rpos, as a size_t
def Pipe.size (p : Pipe) : Nat := (p.wpos + 2^64 - p.rpos) % 2^64

def Pipe.isFull (p : Pipe) : Bool := bufSize ≤ p.size

def Pipe.fill (p : Pipe) : List UInt8 → Pipe × Nat
  | [] => (p,0)
  | b :: rest =>
    if p.isFull then (p,0)
    else
      let next := {p with buf:=put p.buf (p.wpos % bufSize) b,wpos:=(p.wpos + 1) % 2^64}.fill rest
      (next.1,next.2 + 1)

def Pipe.drain (p : Pipe) : Nat → Pipe × List UInt8
  | 0 => (p,[])
  | n+1 =>
    if p.isEmpty then (p,[])
    else
      let next := {p with rpos:=(p.rpos + 1) % 2^64}.drain n
      (next.1,p.buf (p.rpos % bufSize) :: next.2)

inductive Stage where
  | idle
  | reading (n : Nat)
  | writing (data : List UInt8) (moved : Nat)
  deriving DecidableEq

structure Read where
  reader : Nat
  bytes : List UInt8
  ret : Nat
  deriving DecidableEq

structure Write where
  writer : Nat
  data : List UInt8
  ret : Nat
  deriving DecidableEq

-- The history, oldest first: the bytes put into the buffer, each with its writer, and
-- the calls that have returned.
structure System where
  procs : Procs
  pipe : Pipe
  stage : Nat → Stage
  accepted : List (Nat × UInt8)
  reads : List Read
  writes : List Write

namespace System

def wakeupReader (s : System) : System :=
  {s with procs:=s.procs.wakeupQueue wtPipe s.pipe.readers,pipe:={s.pipe with readers:=[]}}

def wakeupWriter (s : System) : System :=
  {s with procs:=s.procs.wakeupQueue wtPipe s.pipe.writers,pipe:={s.pipe with writers:=[]}}

def readDone (s : System) (t : Nat) (bytes : List UInt8) : System :=
  {s with stage:=put s.stage t .idle,reads:=s.reads ++ [⟨t,bytes,bytes.length⟩]}

def writeDone (s : System) (t : Nat) (data : List UInt8) (moved : Nat) : System :=
  {s with stage:=put s.stage t .idle,writes:=s.writes ++ [⟨t,data,moved⟩]}

def lock (s : System) : System := {s with pipe:={s.pipe with locked:=true}}

def unlock (s : System) : System := {s with pipe:={s.pipe with locked:=false}}

-- pipe_state_wait on the queue of the readers, up to its schedule
def waitWriter (s : System) (t n : Nat) : System :=
  {s with
    procs:=s.procs.waitCurrentSet t wtPipe
    pipe:={s.pipe with readers:=s.pipe.readers ++ [t]}
    stage:=put s.stage t (.reading n)}

def waitReader (s : System) (t : Nat) (data : List UInt8) (moved : Nat) : System :=
  {s with
    procs:=s.procs.waitCurrentSet t wtPipe
    pipe:={s.pipe with writers:=s.pipe.writers ++ [t]}
    stage:=put s.stage t (.writing data moved)}

-- pipe_state_read from try_again on; a read that has moved something returns.
def read (s : System) (t n : Nat) : System :=
  let s := s.lock
  if s.pipe.isEmpty then
    if s.pipe.isclosed then s.unlock.readDone t []
    else s.unlock.waitWriter t n
  else
    let next := s.pipe.drain n
    let s := {s with pipe:=next.1}
    let s := if next.2 = [] then s else s.wakeupWriter
    s.unlock.readDone t next.2

-- pipe_state_write from try_again on, with moved bytes written before
def write (s : System) (t : Nat) (data : List UInt8) (moved : Nat) : System :=
  let s := s.lock
  if s.pipe.isclosed then s.unlock.writeDone t data moved
  else
    let next := s.pipe.fill (data.drop moved)
    let s := {s with pipe:=next.1,accepted:=s.accepted ++ ((data.drop moved).take next.2).map (t,·)}
    if moved + next.2 < data.length then s.wakeupReader.unlock.waitReader t data (moved + next.2)
    else
      let s := if next.2 = 0 then s else s.wakeupReader
      s.unlock.writeDone t data (moved + next.2)

def resume (s : System) (t : Nat) : System :=
  let flags := s.procs.wakeupFlags t
  match s.stage t with
  | .idle => s
  | .reading n =>
    let s := {s with pipe:={s.pipe with readers:=s.pipe.readers.erase t}}
    if flags = wtPipe then s.read t n else s.readDone t []
  | .writing data moved =>
    let s := {s with pipe:={s.pipe with writers:=s.pipe.writers.erase t}}
    if flags = wtPipe then s.write t data moved else s.writeDone t data moved

def close (s : System) : System :=
  ({s with pipe:={s.pipe with isclosed:=true}}.wakeupReader).wakeupWriter

end System

inductive Event where
  | read (t n : Nat)
  | write (t : Nat) (data : List UInt8)
  | run (t : Nat)
  | close
  | kill (t : Nat)
  deriving DecidableEq

def System.Enabled (s : System) : Event → Prop
  | .read t _ => s.pipe.locked = false ∧ s.procs.asleep t = false ∧ s.stage t = .idle
  | .write t _ => s.pipe.locked = false ∧ s.procs.asleep t = false ∧ s.stage t = .idle
  | .run t => s.pipe.locked = false ∧ s.procs.asleep t = false ∧ s.stage t ≠ .idle
  | .close => True
  | .kill _ => True

instance (s : System) (e : Event) : Decidable (s.Enabled e) := by
  cases e <;> unfold System.Enabled <;> infer_instance

def System.step (s : System) : Event → System
  | .read t n => s.read t n
  | .write t data => s.write t data 0
  | .run t => s.resume t
  | .close => s.close
  | .kill t => {s with procs:=s.procs.doKill t}

def System.Move (s : System) (e : Event) (u : System) : Prop := s.Enabled e ∧ u = s.step e

def System.pending (s : System) : Event → Nat
  | .write _ data => data.length
  | .run t =>
    match s.stage t with
    | .writing data moved => data.length - moved
    | _ => 0
  | _ => 0

def System.Small (s : System) (e : Event) : Prop := s.accepted.length + s.pending e < 2^63

-- pipe_state_create
def System.first : System :=
  ⟨⟨fun _ => false,fun _ => 0,fun _ => 0,fun _ => false,[],0⟩,⟨0,0,fun _ => 0,false,false,[],[]⟩,fun _ => .idle,[],[],[]⟩

end Ucore.Pipes
