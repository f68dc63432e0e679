import Ucore.Lib.Runs
import Ucore.Sync.Wait

-- mbox.c: mailboxes with bounded queues of messages, and the calls that send to them,
-- receive from them, open and free them.
namespace Ucore.Sync.Mail
open Runs

def maxMsgSlots : Nat := 0x1000
def maxMsgBytes : Nat := 0x10000

-- MAX_MSG_DATALEN, 512 less the 32 bytes of a struct msg_msg
def maxMsgDatalen : Nat := 480

def eInval : Int := -3
def eNoMem : Int := -4
def eTooBig : Int := -12

inductive State where
  | closed
  | opened
  | closing
  deriving DecidableEq

-- segs is the data behind msg_msg and behind each msg_seg. What the sender asked to
-- send (data) and the number of the send call (serial) are not in the code's message.
structure Msg where
  pid : Nat
  bytes : Nat
  segs : List (List UInt8)
  data : List UInt8
  serial : Nat
  deriving DecidableEq

-- The copy loop of load_msg; fuel is at least the length of the data.
def loadSegs : Nat → List UInt8 → List (List UInt8)
  | 0,_ => []
  | fuel+1,data =>
    data.take maxMsgDatalen :: if data.length ≤ maxMsgDatalen then [] else loadSegs fuel (data.drop maxMsgDatalen)

def loadMsg (pid serial : Nat) (data : List UInt8) : Msg := ⟨pid,data.length,loadSegs data.length data,data,serial⟩

def storeSegs : Nat → List (List UInt8) → Option (List UInt8)
  | _,[] => none
  | len,seg :: rest =>
    if len ≤ maxMsgDatalen then some (seg.take len)
    else (storeSegs (len - maxMsgDatalen) rest).map fun data => seg.take maxMsgDatalen ++ data

-- After the fields of msg_mbox the history since the box was opened: what was put in,
-- taken out by receivers and thrown away by ipc_mbox_free.
structure Mbox where
  state : State
  inuse : Nat
  maxSlots : Nat
  slots : Nat
  msgs : List Msg
  senders : List Nat
  receivers : List Nat
  enqueued : List Msg
  taken : List Msg
  discarded : List Msg

-- Where a process is between two schedules: with a loaded message before send_msg, in
-- the loop of send_msg, before and in the loop of recv_msg, or with a message to store.
inductive Stage where
  | idle
  | loaded (i : Nat) (m : Msg) (timeout : Nat)
  | sending (i : Nat) (m : Msg)
  | asking (i size timeout : Nat)
  | receiving (i size : Nat)
  | got (m : Msg)
  deriving DecidableEq

structure Delivery where
  receiver : Nat
  sender : Nat
  data : List UInt8
  msg : Msg
  deriving DecidableEq

-- left is the expires field of a process's timer while it is not in the list. The lists
-- at the end record the run: messages put into any box, messages of sends that failed
-- and that returned 0, messages taken out of any box, and the deliveries.
structure Post where
  procs : Procs
  boxes : Nat → Mbox
  stage : Nat → Stage
  timeout : Nat → Nat
  saved : Nat → Nat
  left : Nat → Nat
  ret : Nat → Int
  serial : Nat
  ever : List Msg
  failed : List Msg
  sent : List Msg
  everTaken : List Msg
  delivered : List Delivery

def timerLeft (t : Nat) : List (Nat × Nat) → Nat
  | [] => 0
  | (expires,u) :: rest => if u = t then expires else timerLeft t rest

namespace Post

def box (s : Post) (i : Nat) (b : Mbox) : Post := {s with boxes:=put s.boxes i b}

-- get_mbox
def isOpen (s : Post) (i : Nat) : Bool := i < 8192 && (s.boxes i).state = .opened

def arm (s : Post) (t timeout : Nat) : Post :=
  {s with timeout:=put s.timeout t timeout,saved:=put s.saved t s.procs.ticks,left:=put s.left t timeout}

-- wait_current_set and ipc_add_timer, whose assert wants time on the timer.
def sleep (s : Post) (t waitState : Nat) : Except Fault Post :=
  let procs := s.procs.waitCurrentSet t waitState
  if s.timeout t = 0 then .ok {s with procs:=procs}
  else if s.left t = 0 then .error .timerAdd
  else .ok {s with procs:={procs with timers:=insertTimer (s.left t) t procs.timers}}

-- ipc_del_timer after schedule
def disarm (s : Post) (t : Nat) : Post :=
  {s with procs:=s.procs.delTimer t,left:=put s.left t (timerLeft t s.procs.timers)}

def wakeupReceiver (s : Post) (i : Nat) : Post :=
  match (s.boxes i).receivers with
  | [] => s
  | first :: rest => {s.box i {s.boxes i with receivers:=rest} with procs:=s.procs.wakeupWait first wtMboxRecv}

def wakeupSender (s : Post) (i : Nat) : Post :=
  match (s.boxes i).senders with
  | [] => s
  | first :: rest => {s.box i {s.boxes i with senders:=rest} with procs:=s.procs.wakeupWait first wtMboxSend}

def mboxFree (s : Post) (i : Nat) : Except Fault Post :=
  let b := s.boxes i
  if b.state = .closing ∧ b.inuse = 0 ∧ b.msgs = [] ∧ b.senders = [] ∧ b.receivers = [] then
    .ok (s.box i {b with state:=.closed,maxSlots:=0,slots:=0})
  else .error .mboxFree

-- add_msg at the end of the list
def addMsg (s : Post) (i : Nat) (m : Msg) : Except Fault Post :=
  let b := s.boxes i
  if b.state = .opened then
    .ok ({s.box i {b with slots:=b.slots + 1,msgs:=b.msgs ++ [m],enqueued:=b.enqueued ++ [m]} with
      ever:=s.ever ++ [m]}.wakeupReceiver i)
  else .error .mboxOpened

def pickMsg (s : Post) (i maxBytes : Nat) : Except Fault (Option Msg × Post) :=
  let b := s.boxes i
  if b.state = .opened ∧ b.slots > 0 then
    match b.msgs with
    | [] => .error .mboxSlots
    | m :: rest =>
      if maxBytes < m.bytes then .ok (none,s)
      else .ok (some m,{s.box i {b with slots:=b.slots - 1,msgs:=rest,taken:=b.taken ++ [m]} with
        everTaken:=s.everTaken ++ [m]}.wakeupSender i)
  else .error .mboxOpened

def leave (s : Post) (i : Nat) (zero : Bool) : Except Fault Post :=
  let b := {s.boxes i with inuse:=(s.boxes i).inuse - 1}
  let s := s.box i b
  if b.state = .opened then .ok s
  else if zero = false ∧ b.state = .closing then
    if b.inuse = 0 then s.mboxFree i else .ok s
  else .error .mboxClosing

def sendLoop (s : Post) (t i : Nat) (m : Msg) : Except Fault Post :=
  let b := s.boxes i
  if b.state ≠ .opened then .error .mboxOpened
  else if b.maxSlots ≤ b.slots then
    {s.box i {b with senders:=b.senders ++ [t]} with stage:=put s.stage t (.sending i m)}.sleep t wtMboxSend
  else do
    let s ← s.addMsg i m
    let s ← s.leave i true
    .ok {s with stage:=put s.stage t .idle,ret:=put s.ret t 0,sent:=m :: s.sent}

-- free_msg and an error return
def sendFails (s : Post) (t : Nat) (m : Msg) (ret : Int) : Post :=
  {s with stage:=put s.stage t .idle,ret:=put s.ret t ret,failed:=m :: s.failed}

def send (s : Post) (t i : Nat) (m : Msg) (timeout : Nat) : Except Fault Post :=
  if s.isOpen i then
    ((s.arm t timeout).box i {s.boxes i with inuse:=(s.boxes i).inuse + 1}).sendLoop t i m
  else .ok (s.sendFails t m eInval)

def resumeSend (s : Post) (t i : Nat) (m : Msg) : Except Fault Post :=
  let flags := s.procs.wakeupFlags t
  let s := (s.disarm t).box i {s.boxes i with senders:=(s.boxes i).senders.erase t}
  if (s.boxes i).state ≠ .opened ∨ flags ≠ wtMboxSend then do
    let s ← s.leave i false
    if flags = wtMboxSend ∨ flags = wtInterrupted then
      .ok (s.sendFails t m (checkTimeout (s.timeout t) (s.saved t) s.procs.ticks))
    else .error .mboxFlags
  else s.sendLoop t i m

def recvFails (s : Post) (t : Nat) (ret : Int) : Post := {s with stage:=put s.stage t .idle,ret:=put s.ret t ret}

def recvLoop (s : Post) (t i size : Nat) : Except Fault Post :=
  let b := s.boxes i
  if b.state ≠ .opened then .error .mboxOpened
  else if b.slots = 0 then
    {s.box i {b with receivers:=b.receivers ++ [t]} with stage:=put s.stage t (.receiving i size)}.sleep t wtMboxRecv
  else do
    let picked ← s.pickMsg i size
    match picked with
    | (none,s) => do
      let s ← (s.wakeupReceiver i).leave i false
      .ok (s.recvFails t eTooBig)
    | (some m,s) => do
      let s ← s.leave i true
      .ok {s with stage:=put s.stage t (.got m)}

def recv (s : Post) (t i size timeout : Nat) : Except Fault Post :=
  if s.isOpen i then
    ((s.arm t timeout).box i {s.boxes i with inuse:=(s.boxes i).inuse + 1}).recvLoop t i size
  else .ok (s.recvFails t eInval)

def resumeRecv (s : Post) (t i size : Nat) : Except Fault Post :=
  let flags := s.procs.wakeupFlags t
  let s := (s.disarm t).box i {s.boxes i with receivers:=(s.boxes i).receivers.erase t}
  if (s.boxes i).state ≠ .opened ∨ flags ≠ wtMboxRecv then do
    let s ← s.leave i false
    .ok (s.recvFails t (checkTimeout (s.timeout t) (s.saved t) s.procs.ticks))
  else s.recvLoop t i size

-- The end of ipc_mbox_recv: the buffers are mapped, so the message is stored.
def store (s : Post) (t : Nat) (m : Msg) : Except Fault Post :=
  match storeSegs m.bytes m.segs with
  | none => .error .mboxSlots
  | some data =>
    .ok {s with stage:=put s.stage t .idle,ret:=put s.ret t 0,delivered:=⟨t,m.pid,data,m⟩ :: s.delivered}

end Post

def wakeupAll (p : Procs) : List Nat → Procs
  | [] => p
  | t :: rest => wakeupAll (p.wakeupWait t wtInterrupted) rest

def Post.free (s : Post) (t i : Nat) : Except Fault Post :=
  if s.isOpen i then do
    let b := s.boxes i
    let procs := wakeupAll (wakeupAll s.procs b.senders) b.receivers
    let b := {b with state:=.closing,msgs:=[],discarded:=b.msgs,senders:=[],receivers:=[]}
    let s := {s.box i b with procs:=procs,ret:=put s.ret t 0}
    if b.inuse = 0 then s.mboxFree i else .ok s
  else .ok {s with ret:=put s.ret t eInval}

def Post.init (s : Post) (t maxSlots : Nat) (found : Option Nat) : Except Fault Post :=
  if maxSlots = 0 ∨ maxSlots > maxMsgSlots then .ok {s with ret:=put s.ret t eInval}
  else
    match found with
    | none => .ok {s with ret:=put s.ret t eNoMem}
    | some i =>
      .ok {s.box i {s.boxes i with state:=.opened,maxSlots:=maxSlots,enqueued:=[],taken:=[],discarded:=[]} with
        ret:=put s.ret t i}

inductive Event where
  | init (t maxSlots : Nat) (found : Option Nat)
  | free (t i : Nat)
  | load (t i : Nat) (data : List UInt8) (timeout : Nat)
  | ask (t i size timeout : Nat)
  | run (t : Nat)
  | tick
  | kill (t : Nat)
  deriving DecidableEq

-- load and ask are the first halves of the calls, up to their second get_mbox; run goes
-- on with a call after a schedule.
def Post.Enabled (s : Post) : Event → Prop
  | .init t _ found => s.procs.asleep t = false ∧ s.stage t = .idle ∧ ∀ i ∈ found,i < 8192 ∧ (s.boxes i).state = .closed
  | .free t _ => s.procs.asleep t = false ∧ s.stage t = .idle
  | .load t i data _ => s.procs.asleep t = false ∧ s.stage t = .idle ∧ s.isOpen i ∧ 0 < data.length ∧ data.length ≤ maxMsgBytes
  | .ask t i size _ => s.procs.asleep t = false ∧ s.stage t = .idle ∧ s.isOpen i ∧ 0 < size
  | .run t => s.procs.asleep t = false ∧ s.stage t ≠ .idle
  | .tick => True
  | .kill _ => True

instance (s : Post) (e : Event) : Decidable (s.Enabled e) := by
  cases e <;> unfold Post.Enabled <;> infer_instance

def Post.run (s : Post) (t : Nat) : Except Fault Post :=
  match s.stage t with
  | .idle => .ok s
  | .loaded i m timeout => s.send t i m timeout
  | .sending i m => s.resumeSend t i m
  | .asking i size timeout => s.recv t i size timeout
  | .receiving i size => s.resumeRecv t i size
  | .got m => s.store t m

def Post.step (s : Post) : Event → Except Fault Post
  | .init t maxSlots found => s.init t maxSlots found
  | .free t i => s.free t i
  | .load t i data timeout =>
    .ok {s with stage:=put s.stage t (.loaded i (loadMsg t s.serial data) timeout),serial:=s.serial + 1}
  | .ask t i size timeout => .ok {s with stage:=put s.stage t (.asking i size timeout)}
  | .run t => s.run t
  | .tick => s.procs.runTimerList.map fun procs => {s with procs:=procs}
  | .kill t => .ok {s with procs:=s.procs.doKill t}

def Post.Move (s : Post) (e : Event) (t : Post) : Prop := s.Enabled e ∧ s.step e = .ok t

def first : Post :=
  ⟨⟨fun _ => false,fun _ => 0,fun _ => 0,fun _ => false,[],0⟩,fun _ => ⟨.closed,0,0,0,[],[],[],[],[],[]⟩,
    fun _ => .idle,fun _ => 0,fun _ => 0,fun _ => 0,fun _ => 0,0,[],[],[],[],[]⟩

end Ucore.Sync.Mail
