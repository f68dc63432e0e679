import Ucore.Lib.Line
import Ucore.Sync.Fifo

-- mbox.c as a whole: the boxes with their free list, and receivers whose buffer is gone
-- when the message is to be stored, who put it back.
namespace Ucore.Sync.Mail
open Runs

-- MBOX_P_PAGE, a page over the 72 bytes of a msg_mbox, and MAX_MBOX_PAGES
def mboxPerPage : Nat := 56
def maxMboxPages : Nat := 147

-- free_mbox_list; how many entries of mbox_map are set; for each process the id it gave
-- to ipc_mbox_recv; and who is in new_mbox, waiting in alloc_page with sem_mbox_map. The
-- counts of openings and of returns to the free list are not in the code.
structure Desk where
  post : Post
  free : List Nat
  pages : Nat
  id : Nat → Nat
  opening : Option (Nat × Nat)
  openings : Nat → Nat
  returns : Nat → Nat

-- add_msg at the front of the list
def Post.putBack (s : Post) (i : Nat) (m : Msg) : Except Fault Post :=
  let b := s.boxes i
  if b.state = .opened then .ok ((s.box i {b with slots:=b.slots + 1,msgs:=m :: b.msgs}).wakeupReceiver i)
  else .error .mboxOpened

-- The end of ipc_mbox_recv where the buffers are not mapped any more.
def Post.refuse (s : Post) (t id : Nat) (m : Msg) : Except Fault Post :=
  let s := s.recvFails t eInval
  if s.isOpen id then s.putBack id m else .ok s

-- new_mbox from its assert on: the first of the free list is opened.
def Desk.takeFirst (d : Desk) (t maxSlots : Nat) : Desk :=
  match d.free with
  | [] => {d with post:={d.post with ret:=put d.post.ret t eNoMem},opening:=none}
  | i :: rest =>
    let b := d.post.boxes i
    {d with
      post:={d.post.box i {b with state:=.opened,maxSlots:=maxSlots,enqueued:=[],taken:=[],discarded:=[]} with
        ret:=put d.post.ret t i}
      free:=rest
      opening:=none
      openings:=put d.openings i (d.openings i + 1)}

def Desk.init (d : Desk) (t maxSlots : Nat) : Desk :=
  if maxSlots = 0 ∨ maxSlots > maxMsgSlots then {d with post:={d.post with ret:=put d.post.ret t eInval}}
  else if d.free = [] then
    if d.pages = maxMboxPages then {d with post:={d.post with ret:=put d.post.ret t eNoMem}}
    else {d with opening:=some (t,maxSlots)}
  else d.takeFirst t maxSlots

-- The rest of it: the boxes of a new page go to the end of the free list.
def Desk.page (d : Desk) (t maxSlots : Nat) (got : Bool) : Desk :=
  if got then {d with
    pages:=d.pages + 1
    free:=d.free ++ List.range' (d.pages * mboxPerPage) mboxPerPage}.takeFirst t maxSlots
  else d.takeFirst t maxSlots

def Desk.shelve (d : Desk) (i : Nat) (post : Post) : Desk :=
  if (d.post.boxes i).state ≠ .closed ∧ (post.boxes i).state = .closed then
    {d with post:=post,free:=d.free ++ [i],returns:=put d.returns i (d.returns i + 1)}
  else {d with post:=post}

def Stage.at : Stage → Option Nat
  | .idle => none
  | .loaded i _ _ => some i
  | .sending i _ => some i
  | .asking i _ _ => some i
  | .receiving i _ => some i
  | .got _ => none

inductive Task where
  | init (t maxSlots : Nat)
  | page (got : Bool)
  | free (t i : Nat)
  | load (t i : Nat) (data : List UInt8) (timeout : Nat)
  | ask (t i size timeout : Nat)
  | run (t : Nat)
  | refuse (t : Nat)
  | tick
  | kill (t : Nat)
  deriving DecidableEq

def Desk.Ready (d : Desk) (t : Nat) : Prop :=
  d.post.procs.asleep t = false ∧ d.post.stage t = .idle ∧ d.opening.map Prod.fst ≠ some t

instance (d : Desk) (t : Nat) : Decidable (d.Ready t) := by unfold Desk.Ready; infer_instance

def Desk.Enabled (d : Desk) : Task → Prop
  | .init t _ => d.Ready t ∧ d.opening = none
  | .page _ => d.opening.isSome = true
  | .free t _ => d.Ready t
  | .load t i data _ => d.Ready t ∧ d.post.isOpen i = true ∧ 0 < data.length ∧ data.length ≤ maxMsgBytes
  | .ask t i size _ => d.Ready t ∧ d.post.isOpen i = true ∧ 0 < size
  | .run t => d.post.procs.asleep t = false ∧ d.post.stage t ≠ .idle
  | .refuse t => d.post.procs.asleep t = false ∧ (d.post.stage t).holds.isSome = true
  | .tick => True
  | .kill _ => True

instance (d : Desk) (e : Task) : Decidable (d.Enabled e) := by
  cases e <;> unfold Desk.Enabled <;> infer_instance

def Desk.step (d : Desk) : Task → Except Fault Desk
  | .init t maxSlots => .ok (d.init t maxSlots)
  | .page got =>
    match d.opening with
    | none => .ok d
    | some (t,maxSlots) => .ok (d.page t maxSlots got)
  | .free t i => (d.post.free t i).map (d.shelve i)
  | .load t i data timeout => (d.post.step (.load t i data timeout)).map fun post => {d with post:=post}
  | .ask t i size timeout => (d.post.step (.ask t i size timeout)).map fun post => {d with post:=post,id:=put d.id t i}
  | .run t =>
    match (d.post.stage t).at with
    | none => (d.post.run t).map fun post => {d with post:=post}
    | some i => (d.post.run t).map (d.shelve i)
  | .refuse t =>
    match (d.post.stage t).holds with
    | none => .ok d
    | some m => (d.post.refuse t (d.id t) m).map fun post => {d with post:=post}
  | .tick => (d.post.step .tick).map fun post => {d with post:=post}
  | .kill t => (d.post.step (.kill t)).map fun post => {d with post:=post}

def Desk.Move (d : Desk) (e : Task) (u : Desk) : Prop := d.Enabled e ∧ d.step e = .ok u

def Desk.fresh : Desk := ⟨first,[],0,fun _ => 0,none,fun _ => 0,fun _ => 0⟩

end Ucore.Sync.Mail
