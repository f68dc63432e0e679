import Mathlib.Tactic

-- The physical memory map of the supervisor (memmap.c). The two node arrays
-- are functions, the boundary table is the list of its memmap_count entries.
-- Both arrays are taken to be large enough.
namespace Ucore.Memmap

def flagFree : Int := 1
def flagReclaimable : Int := 3

structure Map where
  mmnodeCount : Nat
  mmnodeAddr : Nat → Nat
  mmnodeFlag : Nat → Int
  memmapAddr : List Nat

def memmapReset (s : Map) : Map := {s with mmnodeCount:=0,memmapAddr:=[]}

def Map.pushNode (s : Map) (addr : Nat) (flag : Int) : Map :=
  {s with
    mmnodeCount:=s.mmnodeCount + 1
    mmnodeAddr:=fun k => if k = s.mmnodeCount then addr else s.mmnodeAddr k
    mmnodeFlag:=fun k => if k = s.mmnodeCount then flag else s.mmnodeFlag k}

structure Region where
  start : Nat
  stop : Nat
  flag : Int

-- -flag for an int flag: INT_MIN stays.
def negInt (flag : Int) : Int := if flag = -2^31 then flag else -flag
def memmapAppend (s : Map) (r : Region) : Map := (s.pushNode r.start r.flag).pushNode r.stop (negInt r.flag)
def memmapAppends (s : Map) (regions : List Region) : Map := regions.foldl memmapAppend (memmapReset s)

def Map.nodes (s : Map) : List (Nat × Int) := (List.range s.mmnodeCount).map fun k => (s.mmnodeAddr k,s.mmnodeFlag k)

def selectNode (addr : Nat → Nat) : Nat → Nat → Nat → Nat
  | 0,_,j => j
  | left+1,k,j => selectNode addr left (k+1) (if addr k < addr j then k else j)

def Map.swapNodes (s : Map) (i j : Nat) : Map :=
  {s with mmnodeAddr:=fun k => s.mmnodeAddr (Equiv.swap i j k),mmnodeFlag:=fun k => s.mmnodeFlag (Equiv.swap i j k)}

def sortNodes : Nat → Nat → Map → Map
  | 0,_,s => s
  | left+1,i,s => sortNodes left (i+1) (s.swapNodes i (selectNode s.mmnodeAddr left (i+1) i))

-- vaild_level and reclaim_level, and the switch on one flag.
abbrev Level := Int × Int
def Level.count (l : Level) (flag : Int) : Level :=
  if flag = flagFree then (l.1 + 1,l.2)
  else if flag = -flagFree then (l.1 - 1,l.2)
  else if flag = flagReclaimable then (l.1,l.2 + 1)
  else if flag = -flagReclaimable then (l.1,l.2 - 1)
  else if 0 < flag then (l.1 - 1,l.2)
  else (l.1 + 1,l.2)
def Level.vaild (l : Level) : Bool := if l.1 = 0 then 0 < l.2 else 0 < l.1

-- The two loops over the sorted nodes in one: the inner one goes on while the
-- next node has the same address, the outer one then decides on a boundary.
def sweep : List (Nat × Int) → Level → Bool → List Nat
  | [],_,_ => []
  | [node],l,v => if (l.count node.2).vaild ≠ v then [node.1] else []
  | node :: next :: rest,l,v =>
    if node.1 = next.1 then sweep (next :: rest) (l.count node.2) v
    else if (l.count node.2).vaild ≠ v then node.1 :: sweep (next :: rest) (l.count node.2) (l.count node.2).vaild
    else sweep (next :: rest) (l.count node.2) v

def memmapProcess (s : Map) : Map :=
  let s := sortNodes s.mmnodeCount 0 s
  {s with memmapAddr:=sweep s.nodes (0,0) false}

-- memmap_bin_search. An empty table has r = -1 there, which leaves l = 0 too.
def binSearch (table : List Nat) (addr : Nat) : Nat → Nat → Nat → Nat
  | 0,l,_ => l
  | fuel+1,l,r =>
    if l < r then
      if addr < table.getD ((l + r) / 2) 0 then binSearch table addr fuel l ((l + r) / 2)
      else binSearch table addr fuel ((l + r) / 2 + 1) r
    else l
def memmapBinSearch (s : Map) (addr : Nat) : Nat := binSearch s.memmapAddr addr s.memmapAddr.length 0 (s.memmapAddr.length - 1)

def memmapTest (s : Map) (start stop : Nat) : Bool :=
  let i := memmapBinSearch s start
  let j := memmapBinSearch s (stop - 1)
  i % 2 = 1 && i = j

def Interval (table : List Nat) (lo hi : Nat) : Prop := ∃ k,table[2 * k]? = some lo ∧ table[2 * k + 1]? = some hi

def Region.holds (r : Region) (a : Nat) : Bool := r.start ≤ a && a < r.stop

def surplus (regions : List Region) (a : Nat) : Int :=
  (regions.countP fun r => r.flag = flagFree && r.holds a : Nat) -
    (regions.countP fun r => r.flag ≠ flagFree && r.flag ≠ flagReclaimable && r.holds a : Nat)

end Ucore.Memmap
