import Ucore.Lib.Outcome
import Ucore.Sfs.Bitmap
import Ucore.Sfs.Format

-- The mounted file system and its block layer: sfs_io.c, the block functions
-- and the block map of sfs_inode.c.
namespace Ucore.Sfs
open Bytes Outcomes

inductive Err where
  | eNoMem
  | eInval
  | eBusy
  | eNoent
  | eIsdir
  | eNotdir
  | eNotempty
  | eExists
  | eTooBig
  | eNaDev
deriving DecidableEq

inductive Fault where
  | bitmap (f : BitmapFault)
  | blockRange
  | noUnused
  | allocInuse
  | freeInuse
  | rwRange
  | bufRange
  | invalidType
  | loadInuse
  | loadNlinks
  | subIndex
  | indirectSet
  | bmapInuse
  | freeSub
  | loadIndex
  | loadPointer
  | truncateNone
  | direntRead
  | direntWrite
  | direntInuse
  | nameLength
  | unlinkCount
  | ioType
  | nlinksZero
  | mkdirUndo
  | namefileParent
  | reclaimCount
  | reclaimRefs
  | refCount
  | openCount
  | truncType
  | truncSize
  | truncBlocks
  | lookupPath
  | loadRoot
  | mountFreemap
  | mountUnused
  | iobufResid
  | deadlock
deriving DecidableEq

structure SfsInode where
  din : DiskInode
  dirty : Bool
  removed : Bool
  reclaimCount : Nat
  refCount : Nat
  openCount : Nat

-- An inode pointer is the number of its block: inodeList holds the inodes in
-- memory (inode_list and the hash lists), node their contents. heap answers the
-- kmalloc calls in turn. inodes is not read by any function: it records which
-- blocks have been handed out for an inode and not been freed since.
structure SfsFs where
  super : Super
  dev : Nat → Buf
  dBlocks : Nat
  freemap : Bitmap
  superDirty : Bool
  inodeList : List Nat
  node : Nat → SfsInode
  heap : Nat → Bool
  tick : Nat
  inodes : List Nat

abbrev SfsM := Action Err Fault SfsFs

def kmalloc : SfsM Bool := fun s => .ok (s.heap s.tick) {s with tick:=s.tick + 1}

def setDev (dev : Nat → Buf) (blkno : Nat) (b : Buf) : Nat → Buf := fun x => if x = blkno then b else dev x
def SfsFs.setBlock (s : SfsFs) (blkno : Nat) (b : Buf) : SfsFs := {s with dev:=setDev s.dev blkno b}
def SfsFs.setNode (s : SfsFs) (ino : Nat) (f : SfsInode → SfsInode) : SfsFs :=
  {s with node:=fun x => if x = ino then f (s.node x) else s.node x}
def SfsFs.setDin (s : SfsFs) (ino : Nat) (f : DiskInode → DiskInode) : SfsFs :=
  s.setNode ino fun n => {n with din:=f n.din}

-- blkno * SFS_BLKSIZE is computed in 32 bits; disk0_io divides it again.
def devBlock (blkno : Nat) : Nat := blkno * sfsBlksize % 2^32 / sfsBlksize

def disk0Read (blkno : Nat) : SfsM Buf := fun s =>
  if devBlock blkno + 1 > s.dBlocks then .err .eInval s else .ok (s.dev (devBlock blkno)) s

def disk0Write (blkno : Nat) (b : Buf) : SfsM Unit := fun s =>
  if devBlock blkno + 1 > s.dBlocks then .err .eInval s else .ok () (s.setBlock (devBlock blkno) b)

def sfsRblockNolock (blkno : Nat) (checked : Bool) : SfsM Buf := do
  let s ← state
  check ((blkno ≠ 0 || !checked) && blkno < s.super.blocks) .rwRange
  disk0Read blkno

def sfsWblockNolock (b : Buf) (blkno : Nat) (checked : Bool) : SfsM Unit := do
  let s ← state
  check ((blkno ≠ 0 || !checked) && blkno < s.super.blocks) .rwRange
  disk0Write blkno b

def sfsRblock (blkno : Nat) : SfsM Buf := sfsRblockNolock blkno true

def sfsWblock (buf : Buf) (blkno : Nat) : Nat → SfsM Unit
  | 0 => pure ()
  | nblks+1 => do
    sfsWblockNolock buf blkno true
    sfsWblock (fun i => buf (sfsBlksize + i)) (blkno + 1) nblks

def sfsRbuf (len blkno offset : Nat) : SfsM Buf := do
  check (offset < sfsBlksize && offset + len ≤ sfsBlksize) .bufRange
  let b ← sfsRblockNolock blkno true
  pure fun i => b (offset + i)

def sfsWbuf (buf : Buf) (len blkno offset : Nat) : SfsM Unit := do
  check (offset < sfsBlksize && offset + len ≤ sfsBlksize) .bufRange
  let b ← sfsRblockNolock blkno true
  sfsWblockNolock (copy b offset len buf) blkno true

def sfsClearBlock (blkno : Nat) : SfsM Unit := sfsWblockNolock zero blkno true

def ofBitmap {α : Type} : Except BitmapFault α → SfsM α
  | .ok a => pure a
  | .error f => stop (.bitmap f)

def sfsBlockInuse (ino : Nat) : SfsM Bool := do
  let s ← state
  if ino ≠ 0 ∧ ino < s.super.blocks then do
    let free ← ofBitmap (bitmapTest s.freemap ino)
    pure !free
  else stop .blockRange

def sfsBlockAlloc : SfsM Nat := do
  let s ← state
  let r ← ofBitmap (bitmapAlloc s.freemap)
  match r with
  | none => fail .eNoMem
  | some (ino,map) => do
    modify fun s => {s with freemap:=map}
    check (0 < s.super.unusedBlocks) .noUnused
    modify fun s => {s with super:={s.super with unusedBlocks:=s.super.unusedBlocks - 1},superDirty:=true}
    let used ← sfsBlockInuse ino
    check used .allocInuse
    sfsClearBlock ino
    pure ino

def sfsBlockFree (ino : Nat) : SfsM Unit := do
  let used ← sfsBlockInuse ino
  check used .freeInuse
  let s ← state
  let map ← ofBitmap (bitmapFree s.freemap ino)
  modify fun s => {s with freemap:=map,super:={s.super with unusedBlocks:=(s.super.unusedBlocks + 1) % 2^32},superDirty:=true}

-- The block map. sfs_bmap_get_sub_nolock returns the pointer block and the
-- block its entry names; entp is the pointer it was called with.
def sfsBmapGetSubFill (entp ent index : Nat) : SfsM (Nat × Nat) := do
  let r ← attempt sfsBlockAlloc
  match r with
  | .error e => do
    when (ent ≠ entp) (sfsBlockFree ent)
    fail e
  | .ok ino => do
    let w ← attempt (sfsWbuf (leBytes ino) 4 ent (4 * index))
    match w with
    | .error e => do
      sfsBlockFree ino
      when (ent ≠ entp) (sfsBlockFree ent)
      fail e
    | .ok _ => pure (ent,ino)

def sfsBmapGetSubNolock (entp index : Nat) (create : Bool) : SfsM (Nat × Nat) := do
  check (index < sfsBlkNentry) .subIndex
  if entp ≠ 0 then do
    let b ← sfsRbuf 4 entp (4 * index)
    if getLE b 0 4 ≠ 0 ∨ create = false then pure (entp,getLE b 0 4)
    else sfsBmapGetSubFill entp entp index
  else if create = false then pure (0,0)
  else do
    let ent ← sfsBlockAlloc
    sfsBmapGetSubFill entp ent index

def sfsBmapOut (ino : Nat) : SfsM Nat :=
  if ino = 0 then pure 0
  else do
    let used ← sfsBlockInuse ino
    check used .bmapInuse
    pure ino

def setDirect (sin : Nat) (k : Fin 12) (ino : Nat) : SfsM Unit :=
  modify fun s => s.setNode sin fun n =>
    {n with din:={n.din with direct:=fun j => if j = k then ino else n.din.direct j},dirty:=true}

def setIndirect (sin ent : Nat) : SfsM Unit := do
  let s ← state
  when (ent ≠ (s.node sin).din.indirect) do
    check ((s.node sin).din.indirect = 0) .indirectSet
    modify fun s => s.setNode sin fun n => {n with din:={n.din with indirect:=ent},dirty:=true}

def setDbIndirect (sin ent : Nat) : SfsM Unit := do
  let s ← state
  when (ent ≠ (s.node sin).din.dbIndirect) do
    check ((s.node sin).din.dbIndirect = 0) .indirectSet
    modify fun s => s.setNode sin fun n => {n with din:={n.din with dbIndirect:=ent},dirty:=true}

def sfsBmapGetNolock (sin index : Nat) (create : Bool) : SfsM Nat := do
  let s ← state
  let din := (s.node sin).din
  if h : index < sfsNdirect then
    if din.direct ⟨index,h⟩ = 0 ∧ create = true then do
      let ino ← sfsBlockAlloc
      setDirect sin ⟨index,h⟩ ino
      sfsBmapOut ino
    else sfsBmapOut (din.direct ⟨index,h⟩)
  else if index - sfsNdirect < sfsBlkNentry then do
    let (ent,ino) ← sfsBmapGetSubNolock din.indirect (index - sfsNdirect) create
    setIndirect sin ent
    sfsBmapOut ino
  else do
    let q := index - sfsNdirect - sfsBlkNentry
    let (ent,mid) ← sfsBmapGetSubNolock din.dbIndirect (q / sfsBlkNentry) create
    setDbIndirect sin ent
    if mid ≠ 0 then do
      let (_,ino) ← sfsBmapGetSubNolock mid (q % sfsBlkNentry) create
      sfsBmapOut ino
    else sfsBmapOut mid

def sfsBmapFreeSubNolock (ent index : Nat) : SfsM Unit := do
  let used ← sfsBlockInuse ent
  check (used && index < sfsBlkNentry) .freeSub
  let b ← sfsRbuf 4 ent (4 * index)
  when (getLE b 0 4 ≠ 0) do
    sfsWbuf (leBytes 0) 4 ent (4 * index)
    sfsBlockFree (getLE b 0 4)

def sfsBmapFreeNolock (sin index : Nat) : SfsM Unit := do
  let s ← state
  let din := (s.node sin).din
  if h : index < sfsNdirect then
    when (din.direct ⟨index,h⟩ ≠ 0) do
      sfsBlockFree (din.direct ⟨index,h⟩)
      setDirect sin ⟨index,h⟩ 0
  else if index - sfsNdirect < sfsBlkNentry then
    when (din.indirect ≠ 0) (sfsBmapFreeSubNolock din.indirect (index - sfsNdirect))
  else do
    let q := index - sfsNdirect - sfsBlkNentry
    when (din.dbIndirect ≠ 0) do
      let (_,mid) ← sfsBmapGetSubNolock din.dbIndirect (q / sfsBlkNentry) false
      when (mid ≠ 0) (sfsBmapFreeSubNolock mid (q % sfsBlkNentry))

def sfsBmapLoadNolock (sin index : Nat) : SfsM Nat := do
  let s ← state
  let blocks := (s.node sin).din.blocks
  check (index ≤ blocks) .loadIndex
  let ino ← sfsBmapGetNolock sin index (index = blocks)
  let used ← sfsBlockInuse ino
  check used .loadPointer
  when (index = blocks) (modify fun s => s.setDin sin fun d => {d with blocks:=(d.blocks + 1) % 2^32})
  pure ino

def sfsBmapTruncateNolock (sin : Nat) : SfsM Unit := do
  let s ← state
  check ((s.node sin).din.blocks ≠ 0) .truncateNone
  sfsBmapFreeNolock sin ((s.node sin).din.blocks - 1)
  modify fun s => s.setNode sin fun n => {n with din:={n.din with blocks:=n.din.blocks - 1},dirty:=true}

end Ucore.Sfs
