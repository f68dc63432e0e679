import Ucore.Lib.Runs
import Ucore.Lib.Waits

-- sfs_inode.c, sfs_fs.c, sfs_io.c and vfs/inode.c once more, for many threads: what each
-- call does to the semaphores and to the counters of in-memory inodes, step by step.
-- Names, slots and disk contents are left to a free choice of the run, so every order
-- the code can take is among the runs.
namespace Ucore.Sfs.Threads
open Runs Waits

inductive Sem where
  | mutex
  | inode (node : Nat)
  | fs
  | io
  deriving DecidableEq

structure Sin where
  dir : Bool
  nlinks : Nat
  dirty : Bool
  removed : Bool
  deriving DecidableEq

-- The rest of a thread's call. pick is a choice the data makes: the answer of kmalloc,
-- of a transfer or of a comparison.
inductive Code where
  | done
  | down (sem : Sem) (rest : Code)
  | up (sem : Sem) (rest : Code)
  | pick (next : Nat → Code)
  | look (node : Nat) (next : Sin → Code)
  | set (node : Nat) (change : Sin → Sin) (rest : Code)
  | refInc (node : Nat) (rest : Code)
  | refDec (node : Nat) (rest : Code)
  | lookup (next : Nat → Code)
  | createInode (sin : Sin) (next : Nat → Code)
  | setLinks (node : Nat) (rest : Code)
  | reclaimDec (node : Nat) (next : Bool → Code)
  | removeLinks (node : Nat) (rest : Code)
  | inodeList (next : List Nat → Code)

-- kmalloc may sleep and may fail.
def kmalloc (next : Bool → Code) : Code := .pick fun c => next (decide (c ≠ 0))

-- sfs_rbuf, sfs_wbuf, sfs_rblock, sfs_wblock, sfs_clear_block and sfs_sync_super: one
-- stretch under io_sem.
def sfsIoLock (rest : Code) : Code := .down .io (.up .io rest)

def transfers : Nat → Code → Code
  | 0,rest => rest
  | n+1,rest => sfsIoLock (transfers n rest)

def disk (next : Bool → Code) : Code := .pick fun n => transfers n (.pick fun c => next (decide (c ≠ 0)))

def trylockSin (node : Nat) (next : Bool → Code) : Code :=
  .look node fun sin =>
    if sin.removed then next false
    else .down (.inode node) (.look node fun sin =>
      if sin.removed then .up (.inode node) (next false) else next true)

def unlockSin (node : Nat) (rest : Code) : Code := .up (.inode node) rest

-- The disk inode sfs_load_inode reads; its nlinks is asserted not to be zero.
def loaded (c : Nat) : Sin := ⟨c % 2 = 0,c / 2 + 1,false,false⟩

def sfsLoadInode (next : Option Nat → Code) : Code :=
  .down .fs (.pick fun hit =>
    if hit = 0 then .lookup fun node => .up .fs (next (some node))
    else kmalloc fun ok =>
      if ok then sfsIoLock (.pick fun c =>
        if c = 0 then .up .fs (next none)
        else kmalloc fun ok =>
          if ok then .createInode (loaded c) fun node => .setLinks node (.up .fs (next (some node)))
          else .up .fs (next none))
      else .up .fs (next none))

def sfsFsync (node : Nat) (next : Bool → Code) : Code :=
  .look node fun sin =>
    if sin.nlinks = 0 ∨ sin.dirty = false then next true
    else trylockSin node fun ok =>
      if ok then .look node fun sin =>
        if sin.dirty then .set node (fun sin => {sin with dirty:=false}) (sfsIoLock (.pick fun c =>
          if c = 0 then .set node (fun sin => {sin with dirty:=true}) (unlockSin node (next false))
          else unlockSin node (next true)))
        else unlockSin node (next true)
      else next false

def sfsReclaim (node : Nat) (rest : Code) : Code :=
  .down .fs (.reclaimDec node fun last =>
    if last then .look node fun sin =>
      if sin.nlinks = 0 then disk fun _ => .removeLinks node (.up .fs (disk fun _ => rest))
      else if sin.dirty then sfsFsync node fun ok =>
        if ok then .removeLinks node (.up .fs rest) else .up .fs rest
      else .removeLinks node (.up .fs rest)
    else .up .fs rest)

inductive Search where
  | found
  | noent
  | failed
  deriving DecidableEq

def Search.of : Nat → Search
  | 0 => .noent
  | 1 => .found
  | _ => .failed

def sfsDirentSearch (next : Search → Code) : Code :=
  kmalloc fun ok =>
    if ok then .pick fun n => transfers n (.pick fun c => next (.of c)) else next .failed

def sfsDirentWrite (next : Bool → Code) : Code :=
  kmalloc fun ok => if ok then disk next else next false

def sfsNlinksInc (node : Nat) (rest : Code) : Code :=
  .set node (fun sin => {sin with nlinks:=sin.nlinks + 1,dirty:=true}) rest

def sfsNlinksDec (node : Nat) (rest : Code) : Code :=
  .set node (fun sin => {sin with nlinks:=sin.nlinks - 1,dirty:=true}) rest

def markDirty (node : Nat) (rest : Code) : Code := .set node (fun sin => {sin with dirty:=true}) rest

def sfsDirentLink (node link : Nat) (next : Bool → Code) : Code :=
  sfsDirentWrite fun ok => if ok then markDirty node (sfsNlinksInc link (next true)) else next false

def sfsDirentUnlink (node link : Nat) (next : Bool → Code) : Code :=
  sfsDirentWrite fun ok => if ok then markDirty node (sfsNlinksDec link (next true)) else next false

def sfsDirentCreateInode (dir : Bool) (next : Option Nat → Code) : Code :=
  kmalloc fun ok =>
    if ok then disk fun ok =>
      if ok then kmalloc fun ok =>
        if ok then .createInode ⟨dir,0,false,false⟩ fun node =>
          .down .fs (.setLinks node (.up .fs (next (some node))))
        else next none
      else next none
    else next none

def sfsLookupOnce (node : Nat) (next : Option Nat → Code) : Code :=
  trylockSin node fun ok =>
    if ok then sfsDirentSearch fun r =>
      unlockSin node (if r = .found then sfsLoadInode next else next none)
    else next none

-- One round for each name on the path; ".." is loaded without the directory's lock.
def sfsLookupLoop : Nat → Nat → Code
  | 0,_ => .done
  | n+1,node => .look node fun sin =>
    if sin.dir = false then .refDec node .done
    else .pick fun c =>
      match c with
      | 0 => .refDec node .done
      | 1 => sfsLoadInode fun sub => .refDec node (match sub with
        | none => .done
        | some sub => sfsLookupLoop n sub)
      | _ => sfsLookupOnce node fun sub => .refDec node (match sub with
        | none => .done
        | some sub => sfsLookupLoop n sub)

def sfsCreate (node : Nat) (excl : Bool) : Code :=
  trylockSin node fun ok =>
    if ok then sfsDirentSearch fun r =>
      match r with
      | .failed => unlockSin node .done
      | .found =>
        if excl then unlockSin node .done
        else sfsLoadInode fun link => match link with
          | none => unlockSin node .done
          | some link => .look link fun sin =>
            if sin.dir = false then unlockSin node .done else .refDec link (unlockSin node .done)
      | .noent => sfsDirentCreateInode false fun link => match link with
        | none => unlockSin node .done
        | some link => sfsDirentLink node link fun ok =>
          if ok then unlockSin node .done else .refDec link (unlockSin node .done)
    else .done

def sfsMkdir (node : Nat) : Code :=
  trylockSin node fun ok =>
    if ok then sfsDirentSearch fun r =>
      if r = .noent then sfsDirentCreateInode true fun link => match link with
        | none => unlockSin node .done
        | some link => sfsDirentLink node link fun ok =>
          if ok then markDirty link (sfsNlinksInc link (sfsNlinksInc node (.refDec link (unlockSin node .done))))
          else .refDec link (unlockSin node .done)
      else unlockSin node .done
    else .done

def sfsLink (node link : Nat) : Code :=
  .look link fun sin =>
    if sin.dir then .done
    else trylockSin node fun ok =>
      if ok then sfsDirentSearch fun r =>
        if r = .noent then sfsDirentLink node link fun _ => unlockSin node .done else unlockSin node .done
      else .done

def unlinkOut (node link : Nat) : Code := .refDec link (unlockSin node (.up .mutex .done))

def sfsUnlinkDir (node link : Nat) : Code :=
  trylockSin link fun ok =>
    if ok then .pick fun slots =>
      if slots ≠ 0 then unlockSin link (unlinkOut node link)
      else sfsDirentUnlink node link fun ok =>
        if ok then .set link (fun sin => {sin with removed:=true})
          (sfsNlinksDec link (sfsNlinksDec node (unlockSin link (unlinkOut node link))))
        else unlockSin link (unlinkOut node link)
    else unlinkOut node link

def sfsUnlink (node : Nat) : Code :=
  .down .mutex (trylockSin node fun ok =>
    if ok then sfsDirentSearch fun r =>
      if r = .found then sfsLoadInode fun link => match link with
        | none => unlockSin node (.up .mutex .done)
        | some link => .look link fun sin =>
          if sin.dir then sfsUnlinkDir node link else sfsDirentUnlink node link fun _ => unlinkOut node link
      else unlockSin node (.up .mutex .done)
    else .up .mutex .done)

def sfsRename1 (rest : Code) : Code :=
  sfsDirentSearch fun r =>
    if r = .found then sfsDirentSearch fun r =>
      if r = .noent then sfsDirentWrite fun _ => rest else rest
    else rest

def sfsRename2Link (node newNode link : Nat) (isdir : Bool) (rest : Code) : Code :=
  sfsDirentLink newNode link fun ok =>
    if ok then if isdir then sfsNlinksInc newNode (markDirty link (.refDec link rest)) else .refDec link rest
    else sfsDirentLink node link fun ok =>
      if ok ∧ isdir then sfsNlinksInc node (.refDec link rest) else .refDec link rest

def sfsRename2 (node newNode : Nat) (rest : Code) : Code :=
  sfsDirentSearch fun r =>
    if r = .found then sfsDirentSearch fun r =>
      if r = .noent then sfsLoadInode fun link => match link with
        | none => rest
        | some link => sfsDirentUnlink node link fun ok =>
          if ok then .look link fun sin =>
            if sin.dir then sfsNlinksDec node (sfsRename2Link node newNode link true rest)
            else sfsRename2Link node newNode link false rest
          else .refDec link rest
      else rest
    else rest

def sfsRename (node newNode : Nat) : Code :=
  .down .mutex (trylockSin node fun ok =>
    if ok then
      if node = newNode then sfsRename1 (unlockSin node (.up .mutex .done))
      else trylockSin newNode fun ok =>
        if ok then sfsRename2 node newNode (unlockSin newNode (unlockSin node (.up .mutex .done)))
        else unlockSin node (.up .mutex .done)
    else .up .mutex .done)

def sfsNamefileLoop : Nat → Nat → Code
  | 0,node => .refDec node .done
  | n+1,node => sfsLoadInode fun parent => match parent with
    | none => .refDec node .done
    | some parent => .refDec node (trylockSin parent fun ok =>
      if ok then disk fun ok => unlockSin parent (if ok then sfsNamefileLoop n parent else .refDec parent .done)
      else .refDec parent .done)

def sfsIo (node : Nat) : Code :=
  trylockSin node fun ok =>
    if ok then disk fun grown => if grown then markDirty node (unlockSin node .done) else unlockSin node .done
    else .done

def sfsGetdirentry (node : Nat) : Code :=
  kmalloc fun ok =>
    if ok then trylockSin node fun ok => if ok then disk fun _ => unlockSin node .done else .done
    else .done

def sfsTruncfile (node : Nat) : Code :=
  .pick fun same => if same = 0 then .done else sfsIo node

def sfsSyncInodes : List Nat → Code → Code
  | [],rest => rest
  | node :: nodes,rest => sfsFsync node fun _ => sfsSyncInodes nodes rest

def sfsSync : Code := .down .fs (.inodeList fun nodes => sfsSyncInodes nodes (.up .fs (disk fun _ => .done)))

-- The calls a thread makes, on inodes it holds references to. A call's result is
-- a reference more for the thread; drop gives one back.
inductive Op where
  | lookup (node names : Nat)
  | create (node : Nat) (excl : Bool)
  | mkdir (node : Nat)
  | link (node target : Nat)
  | unlink (node : Nat)
  | rename (node newNode : Nat)
  | io (node : Nat)
  | truncate (node : Nat)
  | fsync (node : Nat)
  | getdirentry (node : Nat)
  | namefile (node depth : Nat)
  | close (node : Nat)
  | drop (node : Nat)
  | sync
  deriving DecidableEq

def Op.args : Op → List Nat
  | .lookup node _ | .create node _ | .mkdir node | .unlink node | .io node | .truncate node
  | .fsync node | .getdirentry node | .namefile node _ | .close node | .drop node => [node]
  | .link node target => [node,target]
  | .rename node newNode => [node,newNode]
  | .sync => []

def Op.code : Op → Code
  | .lookup node names => .refInc node (sfsLookupLoop names node)
  | .create node excl => sfsCreate node excl
  | .mkdir node => sfsMkdir node
  | .link node target => sfsLink node target
  | .unlink node => sfsUnlink node
  | .rename node newNode => sfsRename node newNode
  | .io node => sfsIo node
  | .truncate node => sfsTruncfile node
  | .fsync node => sfsFsync node fun _ => .done
  | .getdirentry node => sfsGetdirentry node
  | .namefile node depth => kmalloc fun ok => if ok then .refInc node (sfsNamefileLoop depth node) else .done
  | .close node => sfsFsync node fun _ => .refDec node .done
  | .drop node => .refDec node .done
  | .sync => sfsSync

-- What a thread has: semaphores, references, a reclaim it owes after dropping a last
-- reference, and the inode it is taking out of memory.
structure Hold where
  sems : Sem → Bool
  refs : List Nat
  due : Option Nat
  dying : Option Nat

def Hold.lock (h : Hold) (s : Sem) : Hold := {h with sems:=fun q => if q = s then true else h.sems q}

def Hold.unlock (h : Hold) (s : Sem) : Hold :=
  {h with sems:=fun q => if q = s then false else h.sems q,dying:=if s = .fs then none else h.dying}

def Hold.gain (h : Hold) (node : Nat) : Hold := {h with refs:=node :: h.refs}

def Hold.lose (h : Hold) (node : Nat) : Hold := {h with refs:=h.refs.erase node}

-- ref_count is the length of owners, which names the thread of each reference. pending
-- names the threads on their way into sfs_reclaim; the code has no such list.
structure World where
  code : Nat → Code
  hold : Nat → Hold
  holder : Sem → Option Nat
  owners : Nat → List Nat
  pending : Nat → List Nat
  reclaims : Nat → Nat
  sins : Nat → Sin
  listed : List Nat
  fresh : Nat

def put (f : Nat → α) (k : Nat) (v : α) : Nat → α := fun j => if j = k then v else f j

def World.resume (w : World) (t : Nat) (code : Code) : World := {w with code:=put w.code t code}

def World.lock (w : World) (t : Nat) (s : Sem) : World :=
  {w with holder:=fun q => if q = s then some t else w.holder q,hold:=put w.hold t ((w.hold t).lock s)}

-- __up hands a contended semaphore to the first waiter; here it is free for a moment
-- and any waiter may be next, so the runs of the code are among these.
def World.unlock (w : World) (t : Nat) (s : Sem) : World :=
  {w with holder:=fun q => if q = s then none else w.holder q,hold:=put w.hold t ((w.hold t).unlock s)}

-- vop_ref_inc; lookup_sfs_nolock counts one reclaim more for a first reference.
def World.gain (w : World) (t node : Nat) : World :=
  {w with
    owners:=put w.owners node (t :: w.owners node)
    reclaims:=put w.reclaims node (w.reclaims node + if w.owners node = [] then 1 else 0)
    hold:=put w.hold t ((w.hold t).gain node)}

def World.lose (w : World) (t node : Nat) : World :=
  {w with owners:=put w.owners node ((w.owners node).erase t),hold:=put w.hold t ((w.hold t).lose node)}

def World.owe (w : World) (t node : Nat) : World :=
  {w with pending:=put w.pending node (t :: w.pending node),hold:=put w.hold t {w.hold t with due:=some node}}

def World.settle (w : World) (t node : Nat) : World :=
  {w with
    reclaims:=put w.reclaims node (w.reclaims node - 1)
    pending:=put w.pending node ((w.pending node).erase t)
    hold:=put w.hold t {w.hold t with due:=none,dying:=if w.reclaims node - 1 = 0 then some node else none}}

def World.run (w : World) (t c : Nat) : Option World :=
  match w.code t with
  | .done => none
  | .down s rest => if w.holder s = none then some ((w.lock t s).resume t rest) else none
  | .up s rest => some ((w.unlock t s).resume t rest)
  | .pick next => some (w.resume t (next c))
  | .look node next => some (w.resume t (next (w.sins node)))
  | .set node change rest => some ({w with sins:=put w.sins node (change (w.sins node))}.resume t rest)
  | .refInc node rest => some ((w.gain t node).resume t rest)
  | .refDec node rest =>
    if (w.lose t node).owners node = [] then some (((w.lose t node).owe t node).resume t (sfsReclaim node rest))
    else some ((w.lose t node).resume t rest)
  | .lookup next =>
    match w.listed[c]? with
    | none => none
    | some node => some ((w.gain t node).resume t (next node))
  | .createInode sin next =>
    some (({w with fresh:=w.fresh + 1,sins:=put w.sins w.fresh sin}.gain t w.fresh).resume t (next w.fresh))
  | .setLinks node rest => some ({w with listed:=node :: w.listed}.resume t rest)
  | .reclaimDec node next => some ((w.settle t node).resume t (next (decide (w.reclaims node - 1 = 0))))
  | .removeLinks node rest => some ({w with listed:=w.listed.erase node}.resume t rest)
  | .inodeList next => some (w.resume t (next w.listed))

-- A thread steps, enters a call between two calls, or passes a reference on to a
-- thread between two calls (fork shares files and the working directory).
inductive Label where
  | run (t c : Nat)
  | enter (t : Nat) (op : Op)
  | share (t u node : Nat)
  deriving DecidableEq

def Code.isDone : Code → Bool
  | .done => true
  | _ => false

def World.apply (w : World) : Label → Option World
  | .run t c => w.run t c
  | .enter t op =>
    if (w.code t).isDone ∧ ∀ node ∈ op.args,node ∈ (w.hold t).refs then some (w.resume t op.code) else none
  | .share t u node =>
    if node ∈ (w.hold t).refs ∧ (w.code u).isDone then some (w.gain u node) else none

def move (w : World) (l : Label) (v : World) : Prop := w.apply l = some v

def World.waits (w : World) (t u : Nat) : Prop := ∃ s rest,w.code t = .down s rest ∧ w.holder s = some u

structure Idle (w : World) : Prop where
  code : ∀ t,w.code t = .done
  sems : ∀ t s,(w.hold t).sems s = false
  due : ∀ t,(w.hold t).due = none
  dying : ∀ t,(w.hold t).dying = none
  holder : ∀ s,w.holder s = none
  owners : ∀ node t,(w.owners node).count t = (w.hold t).refs.count node
  pending : ∀ node,w.pending node = []
  reclaims : ∀ node,w.reclaims node = if w.owners node = [] then 0 else 1
  unborn : ∀ node,w.fresh ≤ node → w.owners node = []
  listed : ∀ node ∈ w.listed,node < w.fresh

end Ucore.Sfs.Threads
