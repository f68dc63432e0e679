import Mathlib.Data.Finset.Basic
import Mathlib.Logic.Function.Basic
import Ucore.Lib.Outcome

-- Areas of address spaces: vmm.c for private and shared areas, in bytes and
-- with the 64-bit rounding of its arguments. What the page tables hold is left
-- to a pager.
namespace Ucore.Vmm
open Outcomes
open Function (update)

abbrev pgSize : Nat := 4096
abbrev word : Nat := 0x10000000000000000
abbrev userBase : Nat := 0x1000000
abbrev userTop : Nat := 0x100000000000

def roundDown (a : Nat) : Nat := a - a % pgSize

-- ROUNDUP adds in a size_t.
def roundUp (a : Nat) : Nat := roundDown ((a + (pgSize - 1)) % word)

def lowEnd (addr : Nat) : Nat := roundDown addr
def highEnd (addr len : Nat) : Nat := roundUp ((addr + len) % word)

def userAccess (start stop : Nat) : Bool := userBase ≤ start && start < stop && stop ≤ userTop

abbrev Flags := BitVec 32

def vmShare : Flags := 0x10
def vmReadWrite : Flags := 0x3

def isShared (flags : Flags) : Bool := flags &&& vmShare != 0

structure Area where
  start : Nat
  stop : Nat
  flags : Flags
  shmem : Option Nat
  off : Nat
  deriving DecidableEq

structure Shmem where
  len : Nat
  ref : Int
  deriving DecidableEq

-- setup_pgdir, unmap_range, copy_range, the page fault, and what gives back the
-- page tables at the end: exit_range for each area and put_pgdir. Ranges are in
-- bytes, and false stands for -E_NO_MEM.
structure Pager (τ : Type) where
  setupPgdir : Nat → τ → Bool × τ
  unmapRange : Nat → Nat → Nat → τ → τ
  copyRange : Nat → Nat → Nat → Nat → Bool → τ → Bool × τ
  fault : Nat → Nat → τ → τ
  release : Nat → List Area → τ → τ

inductive Err where
  | eInval
  | eNoMem
  deriving DecidableEq

inductive Fault where
  | overlap
  | resize
  | shmem
  deriving DecidableEq

-- The objects and who may use them. The last three fields are history the
-- code does not keep: the objects created and those mapped so far, and the
-- object and offset under which an address was first mapped.
structure Books where
  live : Finset Nat
  shmem : Nat → Option Shmem
  made : Nat → Bool
  mapped : Nat → Bool
  first : Nat → Nat → Option (Nat × Nat)

structure World (τ : Type) extends Books where
  areas : Nat → List Area
  -- Answers of kmalloc to come.
  grants : Nat → Bool
  tick : Nat
  tables : τ

abbrev Act (τ α : Type) := Action Err Fault (World τ) α

section Acts
variable {τ : Type}

def setAreas (m : Nat) (areas : List Area) : Act τ Unit := modify fun w => {w with areas:=update w.areas m areas}

def granted : Act τ Bool := fun w => .ok (w.grants w.tick) {w with tick:=w.tick + 1}

def vmaCreate (start stop : Nat) (flags : Flags) : Act τ Area := do
  if ← granted then pure ⟨start,stop,flags,none,0⟩ else fail .eNoMem

def findVma (areas : List Area) (addr : Nat) : Option Area := areas.find? fun vma => addr < vma.stop

def checkVmaOverlap (prev next : Area) : Bool := prev.start < prev.stop && prev.stop ≤ next.start && next.start < next.stop

def insertArea (areas : List Area) (vma : Area) : List Area :=
  (areas.takeWhile fun prev => prev.start ≤ vma.start) ++ vma :: areas.dropWhile fun prev => prev.start ≤ vma.start

def insertVmaStruct (m : Nat) (vma : Area) : Act τ Unit := do
  check (vma.start < vma.stop) .overlap
  let areas := (← state).areas m
  check ((areas.takeWhile fun prev => prev.start ≤ vma.start).getLast?.all fun prev => checkVmaOverlap prev vma) .overlap
  check ((areas.dropWhile fun prev => prev.start ≤ vma.start).head?.all fun next => checkVmaOverlap vma next) .overlap
  setAreas m (insertArea areas vma)

def replaceArea (areas : List Area) (vma new : Area) : List Area := areas.map fun a => if a = vma then new else a

def removeVmaStruct (m : Nat) (vma : Area) : Act τ Unit := do
  setAreas m (((← state).areas m).erase vma)

def shmemRefInc (o : Nat) : Act τ Unit := do
  match (← state).shmem o with
  | none => stop .shmem
  | some obj => modify fun w => {w with shmem:=update w.shmem o (some {obj with ref:=obj.ref + 1})}

def shmemRefDec (o : Nat) : Act τ Int := do
  match (← state).shmem o with
  | none => stop .shmem
  | some obj => do
    modify fun w => {w with shmem:=update w.shmem o (some {obj with ref:=obj.ref - 1})}
    pure (obj.ref - 1)

def shmemDestroy (o : Nat) : Act τ Unit := modify fun w => {w with shmem:=update w.shmem o none}

def vmaDestroy (vma : Area) : Act τ Unit := do
  if isShared vma.flags then
    match vma.shmem with
    | none => stop .shmem
    | some o => do
      let ref ← shmemRefDec o
      if ref = 0 then shmemDestroy o else pure ()
  else pure ()

def mmMap (m addr len : Nat) (flags : Flags) : Act τ Area := do
  let start := lowEnd addr
  let stop := highEnd addr len
  if !userAccess start stop then fail .eInval
  else if (findVma ((← state).areas m) start).any fun vma => stop > vma.start then fail .eInval
  else do
    let vma ← vmaCreate start stop (flags &&& ~~~vmShare)
    insertVmaStruct m vma
    pure vma

def inside (start stop a : Nat) : Bool := start ≤ a && a < stop

def mmMapShmem (m addr : Nat) (flags : Flags) (o : Nat) : Act τ Unit := do
  if addr % pgSize ≠ 0 then fail .eInval
  else match (← state).shmem o with
  | none => stop .shmem
  | some obj => do
    shmemRefInc o
    match ← attempt (mmMap m addr obj.len flags) with
    | .error e => do
      let _ ← shmemRefDec o
      fail e
    | .ok vma => modify fun w => {w with
        areas:=update w.areas m (replaceArea (w.areas m) vma {vma with shmem:=some o,off:=0,flags:=vma.flags ||| vmShare}),
        mapped:=update w.mapped o true,
        first:=update w.first m fun a => if inside vma.start vma.stop a then some (o,a - vma.start) else w.first m a}

def vmaResize (vma : Area) (start stop : Nat) : Act τ Area := do
  check (start % pgSize = 0 && stop % pgSize = 0) .resize
  check (vma.start ≤ start && start < stop && stop ≤ vma.stop) .resize
  pure {vma with start:=start,stop:=stop,off:=if isShared vma.flags then vma.off + (start - vma.start) else vma.off}

def each (act : Area → Act τ Unit) : List Area → Act τ Unit
  | [] => pure ()
  | vma :: rest => do
    act vma
    each act rest

variable (pager : Pager τ)

def unmapRange (m start stop : Nat) : Act τ Unit := modify fun w => {w with tables:=pager.unmapRange m start stop w.tables}

def unmapVma (m start stop : Nat) (vma : Area) : Act τ Unit := do
  if vma.start < start then do
    let kept ← vmaResize vma vma.start start
    insertVmaStruct m kept
    unmapRange pager m start vma.stop
  else if stop < vma.stop then do
    let kept ← vmaResize vma stop vma.stop
    insertVmaStruct m kept
    unmapRange pager m vma.start stop
  else do
    vmaDestroy vma
    unmapRange pager m vma.start vma.stop

-- The areas mm_unmap takes off the list: from the one find_vma gave, up to
-- the first that starts at stop or above.
def takenAreas (areas : List Area) (start stop : Nat) : List Area :=
  (areas.dropWhile fun vma => vma.stop ≤ start).takeWhile fun vma => vma.start < stop

def mmUnmap (m addr len : Nat) : Act τ Unit := do
  let start := lowEnd addr
  let stop := highEnd addr len
  if !userAccess start stop then fail .eInval
  else do
    let areas := (← state).areas m
    match findVma areas start with
    | none => pure ()
    | some vma =>
      if stop ≤ vma.start then pure ()
      else if vma.start < start && stop < vma.stop then do
        let nvma ← vmaCreate vma.start start vma.flags
        let kept ← vmaResize vma stop vma.stop
        setAreas m (replaceArea areas vma kept)
        insertVmaStruct m nvma
        unmapRange pager m start stop
      else do
        -- list_add puts each area in front of the ones taken before it.
        each (removeVmaStruct m) (takenAreas areas start stop)
        each (unmapVma pager m start stop) (takenAreas areas start stop).reverse

def mmBrk (m addr len : Nat) : Act τ Unit := do
  let start := lowEnd addr
  let stop := highEnd addr len
  if !userAccess start stop then fail .eInval
  else do
    mmUnmap pager m start (stop - start)
    let areas := (← state).areas m
    match (findVma areas (start - 1)).filter fun vma => vma.stop = start && vma.flags = vmReadWrite with
    | some vma => setAreas m (replaceArea areas vma {vma with stop:=stop})
    | none => do
      let vma ← vmaCreate start stop vmReadWrite
      insertVmaStruct m vma

def copyRange (target source start stop : Nat) (share : Bool) : Act τ Bool := fun w =>
  .ok (pager.copyRange target source start stop share w.tables).1 {w with tables:=(pager.copyRange target source start stop share w.tables).2}

-- One turn of dup_mmap. What an address of the copy was first mapped to is
-- what the parent's address was.
def dupVma (target source : Nat) (vma : Area) : Act τ Unit := do
  let nvma ← vmaCreate vma.start vma.stop vma.flags
  let nvma ← if isShared vma.flags then
      match vma.shmem with
      | none => stop .shmem
      | some o => do
        shmemRefInc o
        modify fun w => {w with first:=update w.first target fun a => if inside vma.start vma.stop a then w.first source a else w.first target a}
        pure {nvma with shmem:=some o,off:=vma.off}
    else pure nvma
  insertVmaStruct target nvma
  if ← copyRange pager target source vma.start vma.stop (isShared vma.flags) then pure () else fail .eNoMem

def dupMmap (target source : Nat) : Act τ Unit := do
  each (dupVma pager target source) ((← state).areas source).reverse

def setupPgdir (m : Nat) : Act τ Bool := fun w => .ok (pager.setupPgdir m w.tables).1 {w with tables:=(pager.setupPgdir m w.tables).2}

def mmCreate (m : Nat) : Act τ Unit := do
  if ← setupPgdir pager m then modify fun w => {w with live:=insert m w.live} else fail .eNoMem

def exitMmap (m : Nat) : Act τ Unit := do
  each (fun vma => unmapRange pager m vma.start vma.stop) ((← state).areas m)
  modify fun w => {w with tables:=pager.release m (w.areas m) w.tables}

def mmDestroy (m : Nat) : Act τ Unit := do
  each (fun vma => do removeVmaStruct m vma; vmaDestroy vma) ((← state).areas m)
  modify fun w => {w with live:=w.live.erase m}

def doPgfault (m addr : Nat) : Act τ Unit := do
  match findVma ((← state).areas m) addr with
  | none => fail .eInval
  | some vma =>
    if vma.start > addr then fail .eInval
    else modify fun w => {w with tables:=pager.fault m addr w.tables}

end Acts
end Ucore.Vmm
