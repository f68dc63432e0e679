import Ucore.Lib.Bytes
import Ucore.Lib.Outcome
import Mathlib.Logic.Function.Basic

-- The page frames, page tables and the swap manager: swap.c, the page-table
-- functions of glue-ucore/pmm.c.
namespace Ucore.Mm
open Bytes Outcomes

inductive Err where
  | eNoMem
  | eInval
  | eSwapFault
  | eInvalElf
  | eIo
deriving DecidableEq

inductive Fault where
  | badEntry
  | listAdd
  | listDel
  | pageAdd
  | addUnused
  | pageDel
  | freePage
  | stealPage
  | removeEntry
  | duplicate
  | inactiveList
  | activeList
  | overlap
  | resize
  | pgfault
  | copyEntry
  | copyInsert
  | loadIcode
deriving DecidableEq

def Fault.inSwap : Fault → Bool
  | .overlap | .resize | .pgfault | .copyEntry | .copyInsert | .loadIcode => false
  | _ => true

-- A page-table entry of a user page: PTE_U is always set. The swap entry of
-- offset o is o << 8.
inductive Pte where
  | empty
  | present (page : Nat) (write accessed dirty : Bool)
  | swapped (offset : Nat)
deriving DecidableEq

abbrev Key := Nat × Nat

structure Vma where
  start : Nat
  stop : Nat
  read : Bool
  write : Bool
  exec : Bool
  stack : Bool
deriving DecidableEq

-- What the counting laws are about. The hash lists are kept as one: the bucket
-- of a page is a function of its index. frames is the number of page frames that
-- can hold user pages.
structure Core where
  pte : Key → Pte
  frames : Nat
  free : List Nat
  ref : Nat → Nat
  swap : Nat → Bool
  active : Nat → Bool
  dirty : Nat → Bool
  index : Nat → Nat
  data : Nat → Buf
  hash : List Nat
  activeList : List Nat
  nrActive : Nat
  inactiveList : List Nat
  nrInactive : Nat
  memMap : Nat → Nat
  maxSwapOffset : Nat
  disk : Nat → Buf

-- table (mm, la / 512): the page-table page of la exists. mem answers in turn
-- the requests that may fail: allocations and swapfs transfers.
structure Vm extends Core where
  next : Nat
  table : Nat → Nat → Bool
  mmap : Nat → List Vma
  mem : Nat → Bool
  tick : Nat

def Vm.put (s : Vm) (c : Core) : Vm := ⟨c,s.next,s.table,s.mmap,s.mem,s.tick⟩

abbrev VmM := Action Err Fault Vm

def swapUnused : Nat := 0xFFFF
def maxSwapRef : Nat := 0xFFFE

abbrev set [DecidableEq κ] (f : κ → β) (k : κ) (b : β) : κ → β := Function.update f k b

lemma set_self [DecidableEq κ] {f : κ → β} {k : κ} {b : β} : set f k b k = b := Function.update_self k b f
lemma set_same [DecidableEq κ] {f : κ → β} {k : κ} : set f k (f k) = f := Function.update_eq_self k f
lemma set_ne [DecidableEq κ] {f : κ → β} {j k : κ} {b : β} (ne : j ≠ k) : set f k b j = f j := Function.update_of_ne ne b f

def granted : VmM Bool := fun s => .ok (s.mem s.tick) {s with tick:=s.tick + 1}

def allocPage : VmM (Option Nat) := do
  if ← granted then
    let s ← state
    match s.free with
    | [] => pure none
    | page :: rest => do
      modify fun s => {s with free:=rest}
      pure (some page)
  else pure none

-- free_page: the allocator clears the reference count and the flags.
def Core.freed (s : Core) (page : Nat) : Core :=
  {s with free:=page :: s.free,ref:=set s.ref page 0,swap:=set s.swap page false,active:=set s.active page false,dirty:=set s.dirty page false}

def freePage (page : Nat) : VmM Unit := modify fun s => s.put (s.toCore.freed page)

def getPte (k : Key) : VmM Bool := do
  let s ← state
  if s.table k.1 (k.2 / 512) then pure true
  else if ← granted then
    modify fun s => {s with table:=set s.table k.1 (set (s.table k.1) (k.2 / 512) true)}
    pure true
  else pure false

section Swap

def swapOffset (entry : Nat) : VmM Unit := do
  let s ← state
  check (0 < entry && entry < s.maxSwapOffset) .badEntry

def Core.activated (s : Core) (page : Nat) : Core :=
  {s with active:=set s.active page true,nrActive:=s.nrActive + 1,activeList:=s.activeList ++ [page]}

def Core.inactivated (s : Core) (page : Nat) : Core :=
  {s with active:=set s.active page false,nrInactive:=s.nrInactive + 1,inactiveList:=s.inactiveList ++ [page]}

def Core.unlisted (s : Core) (page : Nat) : Core :=
  if s.active page then {s with nrActive:=s.nrActive - 1,activeList:=s.activeList.erase page}
  else {s with nrInactive:=s.nrInactive - 1,inactiveList:=s.inactiveList.erase page}

def swapActiveListAdd (page : Nat) : VmM Unit := do
  check ((← state).swap page) .listAdd
  modify fun s => s.put (s.toCore.activated page)

def swapInactiveListAdd (page : Nat) : VmM Unit := do
  check ((← state).swap page) .listAdd
  modify fun s => s.put (s.toCore.inactivated page)

def swapListDel (page : Nat) : VmM Unit := do
  check ((← state).swap page) .listDel
  modify fun s => s.put (s.toCore.unlisted page)

def Core.find (s : Core) (entry : Nat) : Option Nat := s.hash.find? fun page => s.index page = entry

def Core.unhashed (s : Core) (page : Nat) : Core :=
  {s with swap:=set s.swap page false,hash:=s.hash.erase page}

def swapPageDel (page : Nat) : VmM Unit := do
  check ((← state).swap page) .pageDel
  modify fun s => s.put (s.toCore.unhashed page)

def swapFreePage (page : Nat) : VmM Unit := do
  let s ← state
  check (s.swap page && s.ref page == 0) .freePage
  swapPageDel page
  freePage page

-- The scan of mem_map: the unused offset it stops at (0 if there is none), the
-- first offset of count 0 and where the cursor is left.
def scanEntries (memMap : Nat → Nat) (top stop : Nat) : Nat → Nat → Nat → Nat × Nat × Nat
  | 0,next,unheld => (0,unheld,next)
  | fuel+1,next,unheld =>
    let empty := if memMap next = swapUnused then next else 0
    let unheld := if memMap next = 0 ∧ unheld = 0 then next else unheld
    let next := if next + 1 = top then 1 else next + 1
    if empty = 0 ∧ next ≠ stop then scanEntries memMap top stop fuel next unheld else (empty,unheld,next)

def setCount (entry count : Nat) : VmM Unit := modify fun s => {s with memMap:=set s.memMap entry count}

def tryAllocSwapEntry : VmM Nat := do
  let s ← state
  let (empty,unheld,next) := scanEntries s.memMap s.maxSwapOffset s.next s.maxSwapOffset s.next 0
  modify fun s => {s with next:=next}
  if empty ≠ 0 then pure empty
  else if unheld ≠ 0 then
    match s.find unheld with
    | none => stop .stealPage
    | some page => do
      check (s.swap page) .stealPage
      swapListDel page
      if s.ref page = 0 then swapFreePage page else swapPageDel page
      setCount unheld swapUnused
      pure unheld
  else pure 0

def Core.hashed (s : Core) (page entry : Nat) : Core :=
  {s with swap:=set s.swap page true,index:=set s.index page entry,hash:=page :: s.hash}

def swapPageAdd (page entry : Nat) : VmM Bool := do
  check (!(← state).swap page) .pageAdd
  if entry = 0 then
    let entry ← tryAllocSwapEntry
    if entry = 0 then pure false
    else
      swapOffset entry
      check ((← state).memMap entry == swapUnused) .addUnused
      setCount entry 0
      modify fun s => {s with dirty:=set s.dirty page true}
      modify fun s => s.put (s.toCore.hashed page entry)
      pure true
  else
    modify fun s => s.put (s.toCore.hashed page entry)
    pure true

def swapRemoveEntry (entry : Nat) : VmM Unit := do
  swapOffset entry
  let s ← state
  check (0 < s.memMap entry) .removeEntry
  setCount entry (s.memMap entry - 1)
  if s.memMap entry = 1 then
    match s.find entry with
    | none => setCount entry swapUnused
    | some page =>
      if s.ref page ≠ 0 then pure ()
      else do
        swapListDel page
        swapFreePage page
        setCount entry swapUnused
  else pure ()

def swapPageCount (page : Nat) : VmM Nat := do
  let s ← state
  if s.swap page then
    swapOffset (s.index page)
    pure (s.memMap (s.index page))
  else pure 0

def swapDuplicate (entry : Nat) : VmM Unit := do
  swapOffset entry
  let s ← state
  check (s.memMap entry < maxSwapRef) .duplicate
  setCount entry (s.memMap entry + 1)

-- swapfs_read and swapfs_write move one page when the transfer succeeds.
def swapfsRead (entry page : Nat) : VmM Bool := do
  if ← granted then
    modify fun s => {s with data:=set s.data page (s.disk entry)}
    pure true
  else pure false

def swapfsWrite (entry page : Nat) : VmM Bool := do
  if ← granted then
    modify fun s => {s with disk:=set s.disk entry (s.data page)}
    pure true
  else pure false

def swapInPage (entry : Nat) : VmM Nat := do
  swapOffset entry
  let s ← state
  match s.find entry with
  | some page => pure page
  | none =>
    match ← allocPage with
    | none => fail .eNoMem
    | some page =>
      if ← swapfsRead entry page then
        let _ ← swapPageAdd page entry
        swapActiveListAdd page
        pure page
      else
        freePage page
        fail .eSwapFault

def tryFreeSwapEntry (entry : Nat) : VmM Bool := do
  swapOffset entry
  if (← state).memMap entry = 0 then
    setCount entry swapUnused
    pure true
  else pure false

-- One page of page_launder, already off its list and with no mapping: true
-- when its frame has been freed.
def launderPage (page : Nat) : VmM Bool := do
  let entry := (← state).index page
  if ← tryFreeSwapEntry entry then
    swapFreePage page
    pure true
  else if (← state).dirty page then
    modify fun s => {s with dirty:=set s.dirty page false}
    swapDuplicate entry
    let wrote ← swapfsWrite entry page
    when (!wrote) (modify fun s => {s with dirty:=set s.dirty page true})
    setCount entry ((← state).memMap entry - 1)
    if (← state).ref page ≠ 0 then
      swapActiveListAdd page
      pure false
    else if (← state).dirty page then
      swapInactiveListAdd page
      pure false
    else
      let _ ← tryFreeSwapEntry entry
      swapFreePage page
      pure true
  else
    swapFreePage page
    pure true

-- The loop of page_launder: rest is what follows le on the inactive list, and a
-- page put back there comes last.
def pageLaunderLoop : Nat → List Nat → Nat → VmM Nat
  | 0,_,count => pure count
  | _+1,[],count => pure count
  | maxscan+1,page :: rest,count => do
    let s ← state
    check (s.swap page && !s.active page) .inactiveList
    swapListDel page
    if s.ref page ≠ 0 then
      swapActiveListAdd page
      pageLaunderLoop maxscan rest count
    else if ← launderPage page then pageLaunderLoop maxscan rest (count + 1)
    else if (← state).active page then pageLaunderLoop maxscan rest count
    else pageLaunderLoop maxscan (rest ++ [page]) count

def pageLaunder : VmM Nat := do
  let s ← state
  pageLaunderLoop s.nrInactive s.inactiveList 0

def refillInactiveLoop : Nat → List Nat → VmM Unit
  | 0,_ => pure ()
  | _+1,[] => pure ()
  | maxscan+1,page :: rest => do
    let s ← state
    check (s.swap page && s.active page) .activeList
    if s.ref page = 0 then
      swapListDel page
      swapInactiveListAdd page
      refillInactiveLoop maxscan rest
    else refillInactiveLoop maxscan rest

def refillInactiveScan : VmM Unit := do
  let s ← state
  refillInactiveLoop s.nrActive s.activeList

end Swap

section Tables

def setPte (k : Key) (e : Pte) : VmM Unit := modify fun s => {s with pte:=set s.pte k e}
def setRef (page count : Nat) : VmM Unit := modify fun s => {s with ref:=set s.ref page count}

def pageRemovePte (k : Key) : VmM Unit := do
  let s ← state
  match s.pte k with
  | .empty => pure ()
  | .present page _ _ dirty => do
    if !s.swap page then
      setRef page (s.ref page - 1)
      when (s.ref page - 1 == 0) (freePage page)
    else
      when dirty (modify fun s => {s with dirty:=set s.dirty page true})
      setRef page (s.ref page - 1)
    setPte k .empty
  | .swapped entry => do
    swapRemoveEntry entry
    setPte k .empty

-- page_insert; perm is the bits the new entry gets. False when no page-table
-- page could be had.
def pageInsert (page : Nat) (k : Key) (write accessed dirty : Bool) : VmM Bool := do
  if ← getPte k then
    let s ← state
    setRef page (s.ref page + 1)
    match s.pte k with
    | .empty => pure ()
    | .present old _ _ _ => if old = page then setRef page (s.ref page) else pageRemovePte k
    | .swapped _ => pageRemovePte k
    setPte k (.present page write accessed dirty)
    pure true
  else pure false

def pgdirAllocPage (k : Key) (write : Bool) : VmM (Option Nat) := do
  match ← allocPage with
  | none => pure none
  | some page =>
    if ← pageInsert page k write false false then pure (some page)
    else
      freePage page
      pure none

-- unmap_range over n pages from la.
def unmapRange (m : Nat) : Nat → Nat → VmM Unit
  | _,0 => pure ()
  | la,n+1 => do
    pageRemovePte (m,la)
    unmapRange m (la + 1) n

-- One page of copy_range (share = 0).
def copyPage (target source la : Nat) : VmM Unit := do
  let e := (← state).pte (source,la)
  if e = .empty then pure ()
  else if ← getPte (target,la) then
    check ((← state).pte (target,la) == .empty) .copyEntry
    match e with
    | .empty => pure ()
    | .present page write accessed dirty => do
      if write then let _ ← pageInsert page (source,la) false accessed dirty
      let inserted ← pageInsert page (target,la) false false false
      check inserted .copyInsert
    | .swapped entry => do
      swapDuplicate entry
      setPte (target,la) (.swapped entry)
  else fail .eNoMem

def copyRange (target source : Nat) : Nat → Nat → VmM Unit
  | _,0 => pure ()
  | la,n+1 => do
    copyPage target source la
    copyRange target source (la + 1) n

-- One page of swap_out_vma: true when its entry was swapped out.
def swapOutPage (k : Key) : VmM Bool := do
  let s ← state
  match s.pte k with
  | .present page write accessed dirty =>
    if accessed then
      setPte k (.present page write false dirty)
      pure false
    else do
      let added ← if !s.swap page then do
          if ← swapPageAdd page 0 then
            swapActiveListAdd page
            pure true
          else pure false
        else do
          when dirty (modify fun s => {s with dirty:=set s.dirty page true})
          pure true
      if added then
        let entry := (← state).index page
        swapDuplicate entry
        setRef page (s.ref page - 1)
        setPte k (.swapped entry)
        pure true
      else pure false
  | _ => pure false

-- The loop of swap_out_vma over n pages from addr.
def swapOutLoop (m : Nat) : Nat → Nat → Nat → Nat → VmM Nat
  | 0,_,_,count => pure count
  | _+1,_,0,count => pure count
  | n+1,addr,require+1,count => do
    if ← swapOutPage (m,addr) then swapOutLoop m n (addr + 1) require (count + 1)
    else swapOutLoop m n (addr + 1) (require + 1) count

def swapOutVma (m : Nat) (vma : Vma) (addr require : Nat) : VmM Nat :=
  if require = 0 ∨ ¬ (vma.start ≤ addr ∧ addr < vma.stop) then pure 0 else swapOutLoop m (vma.stop - addr) addr require 0

end Tables
end Ucore.Mm
