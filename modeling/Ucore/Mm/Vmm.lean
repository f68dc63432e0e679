import Ucore.Mm.State

-- Address spaces: the areas of an mm, mapping, unmapping, fork and the page
-- fault handler of vmm.c, for private areas. Addresses are page numbers.
namespace Ucore.Mm
open Bytes Outcomes

-- find_vma: the first area that ends above addr.
def findVma (areas : List Vma) (addr : Nat) : Option Vma := areas.find? fun vma => addr < vma.stop

def userAccess (start stop : Nat) : Bool := 0x1000 ≤ start && start < stop && stop ≤ 0x100000000

def overlapFree (prev next : Vma) : Bool := prev.start < prev.stop && prev.stop ≤ next.start && next.start < next.stop

def setAreas (m : Nat) (areas : List Vma) : VmM Unit := modify fun s => {s with mmap:=set s.mmap m areas}

def insertVmaStruct (m : Nat) (vma : Vma) : VmM Unit := do
  check (vma.start < vma.stop) .overlap
  let areas := (← state).mmap m
  let before := areas.takeWhile fun prev => prev.start ≤ vma.start
  let after := areas.dropWhile fun prev => prev.start ≤ vma.start
  check (before.getLast?.all fun prev => overlapFree prev vma) .overlap
  check (after.head?.all fun next => overlapFree vma next) .overlap
  setAreas m (before ++ vma :: after)

def removeVmaStruct (m : Nat) (vma : Vma) : VmM Unit := do
  setAreas m (((← state).mmap m).erase vma)

-- vma_create fails when kmalloc does.
def vmaCreate (vma : Vma) : VmM Vma := do
  if ← granted then pure vma else fail .eNoMem

def mmMap (m : Nat) (vma : Vma) : VmM Unit := do
  if !userAccess vma.start vma.stop then fail .eInval
  else if (findVma ((← state).mmap m) vma.start).any fun old => vma.stop > old.start then fail .eInval
  else do
    let vma ← vmaCreate vma
    insertVmaStruct m vma

def vmaResize (vma : Vma) (start stop : Nat) : VmM Vma := do
  check (vma.start ≤ start && start < stop && stop ≤ vma.stop) .resize
  pure {vma with start:=start,stop:=stop}

-- One area of the free list of mm_unmap: what lies outside start..stop goes
-- back, the rest is unmapped.
def unmapVma (m start stop : Nat) (vma : Vma) : VmM Unit := do
  if vma.start < start then
    let kept ← vmaResize vma vma.start start
    insertVmaStruct m kept
    unmapRange m start (vma.stop - start)
  else if stop < vma.stop then
    let kept ← vmaResize vma stop vma.stop
    insertVmaStruct m kept
    unmapRange m vma.start (stop - vma.start)
  else unmapRange m vma.start (vma.stop - vma.start)

def eachVma (act : Vma → VmM Unit) : List Vma → VmM Unit
  | [] => pure ()
  | vma :: rest => do
    act vma
    eachVma act rest

def takenAreas (areas : List Vma) (start stop : Nat) : List Vma :=
  (areas.dropWhile fun prev => ¬ start < prev.stop).takeWhile fun next => next.start < stop

def mmUnmap (m start stop : Nat) : VmM Unit := do
  if !userAccess start stop then fail .eInval
  else
    let areas := (← state).mmap m
    match findVma areas start with
    | none => pure ()
    | some vma =>
      if stop ≤ vma.start then pure ()
      else if vma.start < start ∧ stop < vma.stop then do
        let nvma ← vmaCreate {vma with stop:=start}
        let kept ← vmaResize vma stop vma.stop
        setAreas m (areas.map fun a => if a = vma then kept else a)
        insertVmaStruct m nvma
        unmapRange m start (stop - start)
      else do
        let taken := takenAreas areas start stop
        eachVma (removeVmaStruct m) taken
        eachVma (unmapVma m start stop) taken.reverse

-- One area of dup_mmap.
def dupVma (target source : Nat) (vma : Vma) : VmM Unit := do
  let nvma ← vmaCreate vma
  insertVmaStruct target nvma
  copyRange target source vma.start (vma.stop - vma.start)

def dupMmap (target source : Nat) : VmM Unit := do
  eachVma (dupVma target source) ((← state).mmap source).reverse

def exitMm (m : Nat) : VmM Unit := do
  eachVma (fun vma => unmapRange m vma.start (vma.stop - vma.start)) ((← state).mmap m)
  modify fun s => {s with table:=set s.table m fun _ => false}
  setAreas m []

def copyMm (target source : Nat) : VmM Unit := do
  match ← attempt (dupMmap target source) with
  | .ok _ => pure ()
  | .error e => do
    exitMm target
    fail e

section Fault

def Pte.isPresent : Pte → Bool
  | .present _ _ _ _ => true
  | _ => false

def Pte.isWritable : Pte → Bool
  | .present _ write _ _ => write
  | _ => false

-- The switch on error_code & 3.
def mayAccess (vma : Vma) (present write : Bool) : Bool :=
  if write then vma.write else !present && (vma.read || vma.exec)

def freeSpare : Option Nat → VmM Unit
  | none => pure ()
  | some page => freePage page

-- The end of do_pgfault for an entry that is not empty: the page found is
-- mapped, or a copy of it when others refer to it. A missing copy ends with ret.
def mapFound (k : Key) (page : Nat) (write cow mayCopy : Bool) (spare : Option Nat) (ret : VmM Unit) : VmM Unit := do
  let copied ← if cow && mayCopy then do
      let s ← state
      pure (s.ref page + (← swapPageCount page) > 1 : Bool)
    else pure false
  if copied then
    match spare with
    | none => ret
    | some newpage => do
      modify fun s => {s with data:=set s.data newpage (s.data page)}
      let _ ← pageInsert newpage k write false false
  else
    let _ ← pageInsert page k write false false
    freeSpare spare

def spareFor (cow : Bool) : VmM (Option Nat) := if cow then allocPage else pure none

def servePte (k : Key) (write : Bool) (vma : Vma) : VmM Unit := do
  let e := (← state).pte k
  match e with
  | .empty =>
    match ← pgdirAllocPage k vma.write with
    | none => fail .eNoMem
    | some _ => pure ()
  | .present page w _ _ => do
    check (write && !w && vma.write) .pgfault
    let spare ← spareFor vma.write
    mapFound k page vma.write vma.write true spare (fail .eNoMem)
  | .swapped entry => do
    let spare ← spareFor vma.write
    match ← attempt (swapInPage entry) with
    | .error err => do
      freeSpare spare
      fail err
    | .ok page =>
      if !write && vma.write then mapFound k page false vma.write false spare (pure ())
      else mapFound k page vma.write vma.write true spare (pure ())

def doPgfault (k : Key) (present write : Bool) : VmM Unit := do
  match findVma ((← state).mmap k.1) k.2 with
  | none => fail .eInval
  | some vma =>
    if vma.start > k.2 then fail .eInval
    else if vma.stack && k.2 < vma.start + 1 then fail .eInval
    else if !mayAccess vma present write then fail .eInval
    else if ← getPte k then servePte k write vma
    else fail .eNoMem

end Fault
end Ucore.Mm
