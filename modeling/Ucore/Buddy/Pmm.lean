import Mathlib.Tactic

-- The buddy page allocator of supervisor/mm/buddy_pmm.c. Pages are named by
-- their index in the pages array.
namespace Ucore.Buddy

def maxOrder : Nat := 16
def maxZoneNum : Nat := 10

structure Page where
  ref : Int
  pgReserved : Bool
  pgProperty : Bool
  property : Nat
  zoneNum : Nat
deriving DecidableEq

-- zoneNum is the static counter of buddy_init_memmap, memBase the zones array
-- and freeList/nrFree the free_area array.
structure Pmm where
  npage : Nat
  page : Nat → Page
  memBase : Nat → Nat
  zoneNum : Nat
  freeList : Nat → List Nat
  nrFree : Nat → Nat

inductive Fault where
  | initCount | initReserved | getorder | allocCount | allocOrder
  | freeCount | freeAlign | freePage | freeOrder
deriving DecidableEq

def Pmm.setPage (s : Pmm) (p : Nat) (value : Page) : Pmm :=
  {s with page:=fun q => if q = p then value else s.page q}
def Pmm.clearPageProperty (s : Pmm) (p : Nat) : Pmm :=
  s.setPage p {s.page p with pgProperty:=false}

-- nr_free is an unsigned int.
def Pmm.setNrFree (s : Pmm) (order value : Nat) : Pmm :=
  {s with nrFree:=fun o => if o = order then value % 2^32 else s.nrFree o}

def Pmm.listDel (s : Pmm) (p : Nat) : Pmm :=
  {s with freeList:=fun o => (s.freeList o).erase p}
def Pmm.listAdd (s : Pmm) (order p : Nat) : Pmm :=
  {s with freeList:=fun o => if o = order then p :: s.freeList o else s.freeList o}

def Pmm.insertBlock (s : Pmm) (order p : Nat) : Pmm :=
  let s := s.setPage p {s.page p with property:=order,pgProperty:=true}
  (s.setNrFree order (s.nrFree order + 1)).listAdd order p
def Pmm.unlinkBlock (s : Pmm) (order p : Nat) : Pmm :=
  (s.setNrFree order (s.nrFree order + 2^32 - 1)).listDel p

def buddyInit (s : Pmm) : Pmm :=
  {s with freeList:=fun o => if o ≤ maxOrder then [] else s.freeList o,
          nrFree:=fun o => if o ≤ maxOrder then 0 else s.nrFree o}

-- First loop of buddy_init_memmap.
def initPages (s : Pmm) (p : Nat) : Nat → Except Fault Pmm
  | 0 => .ok s
  | n+1 =>
    if (s.page p).pgReserved then
      initPages (s.setPage p {ref:=0,pgReserved:=false,pgProperty:=false,property:=0,zoneNum:=s.zoneNum}) (p+1) n
    else .error .initReserved

-- Inner loop: blocks of one order while n allows it. Every turn takes at
-- least one page off n, so n turns suffice.
def initBlocks (order : Nat) : Nat → Pmm → Nat → Nat → Pmm × Nat × Nat
  | 0,s,p,n => (s,p,n)
  | fuel+1,s,p,n =>
    if 2^order ≤ n then initBlocks order fuel (s.insertBlock order p) (p + 2^order) (n - 2^order)
    else (s,p,n)

def initOrders : Nat → Pmm → Nat → Nat → Pmm
  | 0,s,p,n => (initBlocks 0 n s p n).1
  | order+1,s,p,n =>
    if n = 0 then s
    else
      let (s,p,n) := initBlocks (order+1) n s p n
      initOrders order s p n

def buddyInitMemmap (s : Pmm) (base n : Nat) : Except Fault Pmm :=
  if 0 < n ∧ s.zoneNum < maxZoneNum then do
    let s ← initPages s base n
    let s := {s with memBase:=fun k => if k = s.zoneNum then base else s.memBase k,zoneNum:=s.zoneNum + 1}
    .ok (initOrders maxOrder s base n)
  else .error .initCount

def getorderFrom (n : Nat) : Nat → Nat → Except Fault Nat
  | 0,_ => .error .getorder
  | left+1,order => if n ≤ 2^order then .ok order else getorderFrom n left (order+1)
def getorder (n : Nat) : Except Fault Nat := getorderFrom n (maxOrder+1) 0

def splitBlock (page order : Nat) : Nat → Pmm → Pmm
  | 0,s => s
  | k+1,s => splitBlock page order k (s.insertBlock (order + k) (page + 2^(order + k)))

def allocScan (s : Pmm) (order : Nat) : Nat → Nat → Option Nat × Pmm
  | 0,_ => (none,s)
  | left+1,k =>
    match s.freeList (order + k) with
    | [] => allocScan s order left (k+1)
    | page :: _ => (some page,(splitBlock page order k (s.unlinkBlock (order + k) page)).clearPageProperty page)

def buddyAllocPagesSub (s : Pmm) (order : Nat) : Except Fault (Option Nat × Pmm) :=
  if order ≤ maxOrder then .ok (allocScan s order (maxOrder + 1 - order) 0) else .error .allocOrder

def pageIsBuddy (s : Pmm) (page order zoneNum : Nat) : Bool :=
  if page < s.npage then
    if (s.page page).zoneNum = zoneNum then
      !(s.page page).pgReserved && (s.page page).pgProperty && (s.page page).property == order
    else false
  else false

def page2idx (s : Pmm) (page : Nat) : Nat := page - s.memBase (s.page page).zoneNum
def idx2page (s : Pmm) (zoneNum idx : Nat) : Nat := s.memBase zoneNum + idx

def resetPages (s : Pmm) (p : Nat) : Nat → Except Fault Pmm
  | 0 => .ok s
  | n+1 =>
    if !(s.page p).pgReserved && !(s.page p).pgProperty then
      resetPages (s.setPage p {s.page p with pgReserved:=false,pgProperty:=false,ref:=0}) (p+1) n
    else .error .freePage

def mergeBlock (zoneNum : Nat) : Nat → Pmm → Nat → Nat → Pmm × Nat × Nat
  | 0,s,order,pageIdx => (s,order,pageIdx)
  | left+1,s,order,pageIdx =>
    let buddyIdx := pageIdx ^^^ 2^order
    let buddy := idx2page s zoneNum buddyIdx
    if pageIsBuddy s buddy order zoneNum then
      mergeBlock zoneNum left ((s.unlinkBlock order buddy).clearPageProperty buddy) (order+1) (pageIdx &&& buddyIdx)
    else (s,order,pageIdx)

def buddyFreePagesSub (s : Pmm) (base order : Nat) : Except Fault Pmm :=
  let pageIdx := page2idx s base
  if pageIdx &&& (2^order - 1) = 0 then do
    let s ← resetPages s base (2^order)
    let zoneNum := (s.page base).zoneNum
    let (s,order,pageIdx) := mergeBlock zoneNum (maxOrder - order) s order pageIdx
    .ok (s.insertBlock order (idx2page s zoneNum pageIdx))
  else .error .freeAlign

-- First loop of buddy_free_pages; left is MAX_ORDER + 1 - order, and at
-- order MAX_ORDER + 1 the assert stops every further turn.
def freeUp : Nat → Pmm → Nat → Nat → Nat → Except Fault (Pmm × Nat × Nat × Nat)
  | 0,s,order,base,n => if 2^order ≤ n then .error .freeOrder else .ok (s,order,base,n)
  | left+1,s,order,base,n =>
    if 2^order ≤ n then
      if page2idx s base &&& 2^order ≠ 0 then do
        let s ← buddyFreePagesSub s base order
        freeUp left s (order+1) (base + 2^order) (n - 2^order)
      else freeUp left s (order+1) base n
    else .ok (s,order,base,n)

def shrinkOrder (n : Nat) : Nat → Nat
  | 0 => 0
  | order+1 => if n < 2^(order+1) then shrinkOrder n order else order+1

def freeDown : Nat → Pmm → Nat → Nat → Nat → Except Fault Pmm
  | 0,s,_,_,_ => .ok s
  | fuel+1,s,order,base,n =>
    if n = 0 then .ok s
    else do
      let order := shrinkOrder n order
      let s ← buddyFreePagesSub s base order
      freeDown fuel s order (base + 2^order) (n - 2^order)

def buddyFreePages (s : Pmm) (base n : Nat) : Except Fault Pmm :=
  if 0 < n then
    if n = 1 then buddyFreePagesSub s base 0
    else do
      let (s,order,base,n) ← freeUp (maxOrder+1) s 0 base n
      freeDown n s order base n
  else .error .freeCount

def buddyAllocPages (s : Pmm) (n : Nat) : Except Fault (Option Nat × Pmm) :=
  if 0 < n then do
    let order ← getorder n
    let (page,s) ← buddyAllocPagesSub s order
    match page with
    | some page =>
      if n ≠ 2^order then do
        let s ← buddyFreePages s (page + n) (2^order - n)
        .ok (some page,s)
      else .ok (some page,s)
    | none => .ok (none,s)
  else .error .allocCount

-- What page_init leaves: npage is cut off at SVSIZE and every descriptor of
-- the (otherwise arbitrary) pages array is reserved.
def svSize : Nat := 0x100000000000
def reservedDriverOsSize : Nat := 0x10000000
def pgSize : Nat := 4096
def pageInit (maxpa : Nat) (mem : Nat → Page) : Pmm :=
  buddyInit ⟨(min maxpa svSize - reservedDriverOsSize) / pgSize,fun p => {mem p with pgReserved:=true},
    fun _ => 0,0,fun _ => [],fun _ => 0⟩

end Ucore.Buddy
