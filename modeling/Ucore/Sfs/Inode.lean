import Ucore.Sfs.State

-- sfs_inode.c: directory entries, the inode cache and the operations on
-- directories and files. sin names an inode in memory by its block number;
-- held lists the inodes whose semaphore the caller already holds.
namespace Ucore.Sfs
open Bytes Outcomes

def trylockSin (held : List Nat) (sin : Nat) : SfsM Unit := do
  let s ← state
  if (s.node sin).removed then fail .eNoent
  else check (sin ∉ held) .deadlock

def setDirty (sin : Nat) (f : DiskInode → DiskInode) : SfsM Unit :=
  modify fun s => s.setNode sin fun n => {n with din:=f n.din,dirty:=true}

def sfsNlinksIncNolock (sin : Nat) : SfsM Unit := setDirty sin fun d => {d with nlinks:=(d.nlinks + 1) % 2^16}

def sfsNlinksDecNolock (sin : Nat) : SfsM Unit := do
  let s ← state
  check ((s.node sin).din.nlinks ≠ 0) .nlinksZero
  setDirty sin fun d => {d with nlinks:=d.nlinks - 1}

def sfsDirinfoSetParent (sin parent : Nat) : SfsM Unit := setDirty sin fun d => {d with parent:=parent}

def sfsDirentReadNolock (sin slot : Nat) : SfsM DiskEntry := do
  let s ← state
  check ((s.node sin).din.type = sfsTypeDir && slot < (s.node sin).din.blocks) .direntRead
  let ino ← sfsBmapLoadNolock sin slot
  let used ← sfsBlockInuse ino
  check used .direntInuse
  let b ← sfsRbuf diskEntrySize ino 0
  pure (readEntry b)

-- entry is none for ino 0: the slot is cleared.
def sfsDirentWriteNolock (sin slot : Nat) (entry : Option (Nat × CStr)) : SfsM Unit := do
  let s ← state
  check ((s.node sin).din.type = sfsTypeDir && slot ≤ (s.node sin).din.blocks) .direntWrite
  let mem ← kmalloc
  if mem = false then fail .eNoMem
  else do
    check (match entry with | some (_,name) => name.strlen ≤ sfsMaxFnameLen | none => true) .nameLength
    let ino ← sfsBmapLoadNolock sin slot
    let used ← sfsBlockInuse ino
    check used .direntInuse
    sfsWbuf (match entry with | some (lnk,name) => entryBytes lnk name | none => zero) diskEntrySize ino 0

def sfsDirentLinkNolock (sin slot lnksin : Nat) (name : CStr) : SfsM Unit := do
  sfsDirentWriteNolock sin slot (some (lnksin,name))
  setDirty sin fun d => {d with info:=(d.info + 1) % 2^32}
  sfsNlinksIncNolock lnksin

def sfsDirentUnlinkNolock (sin slot lnksin : Nat) : SfsM Unit := do
  sfsDirentWriteNolock sin slot none
  let s ← state
  check ((s.node sin).din.slots ≠ 0 && (s.node lnksin).din.nlinks ≠ 0) .unlinkCount
  setDirty sin fun d => {d with info:=d.info - 1}
  setDirty lnksin fun d => {d with nlinks:=d.nlinks - 1}

-- What sfs_dirent_search_nolock stores: the entry found and its slot, or the
-- slot an insertion may use (the last empty one seen, or one past the end).
inductive Search where
  | found (ino slot : Nat)
  | noent (emptySlot : Nat)

def sfsDirentSearchLoop (sin : Nat) (name : CStr) : Nat → Nat → Nat → SfsM Search
  | 0,_,emptySlot => pure (.noent emptySlot)
  | n+1,i,emptySlot => do
    let entry ← sfsDirentReadNolock sin i
    if entry.ino = 0 then sfsDirentSearchLoop sin name n (i + 1) i
    else if name = entry.name then pure (.found entry.ino i)
    else sfsDirentSearchLoop sin name n (i + 1) emptySlot

def sfsDirentSearchNolock (sin : Nat) (name : CStr) : SfsM Search := do
  check (name.strlen ≤ sfsMaxFnameLen) .nameLength
  let mem ← kmalloc
  if mem = false then fail .eNoMem
  else do
    let s ← state
    let nslots := (s.node sin).din.blocks
    sfsDirentSearchLoop sin name nslots 0 nslots

def sfsDirentFindinoLoop (sin ino : Nat) : Nat → Nat → SfsM DiskEntry
  | 0,_ => fail .eNoent
  | n+1,i => do
    let entry ← sfsDirentReadNolock sin i
    if entry.ino = ino then pure entry else sfsDirentFindinoLoop sin ino n (i + 1)

def sfsDirentFindinoNolock (sin ino : Nat) : SfsM DiskEntry := do
  let s ← state
  sfsDirentFindinoLoop sin ino (s.node sin).din.blocks 0

-- The inode cache.
def sfsGetOps (type : Nat) : SfsM Unit := check (type = sfsTypeDir || type = sfsTypeFile) .invalidType

def sfsSetLinks (sin : Nat) : SfsM Unit := modify fun s => {s with inodeList:=sin :: s.inodeList}
def sfsRemoveLinks (sin : Nat) : SfsM Unit := modify fun s => {s with inodeList:=s.inodeList.filter (· ≠ sin)}

def sfsCreateInode (din : DiskInode) (ino : Nat) : SfsM Unit := do
  let mem ← kmalloc
  if mem = false then fail .eNoMem
  else do
    sfsGetOps din.type
    modify fun s => s.setNode ino fun _ => ⟨din,false,false,1,1,0⟩

def vopRefInc (sin : Nat) : SfsM Unit := modify fun s => s.setNode sin fun n => {n with refCount:=n.refCount + 1}

def lookupSfsNolock (ino : Nat) : SfsM Bool := do
  let s ← state
  if ino ∈ s.inodeList then do
    vopRefInc ino
    when ((s.node ino).refCount = 0) (modify fun s => s.setNode ino fun n => {n with reclaimCount:=n.reclaimCount + 1})
    pure true
  else pure false

def sfsLoadInode (ino : Nat) : SfsM Nat := do
  let cached ← lookupSfsNolock ino
  if cached then pure ino
  else do
    let mem ← kmalloc
    if mem = false then fail .eNoMem
    else do
      let used ← sfsBlockInuse ino
      check used .loadInuse
      let b ← sfsRbuf diskInodeSize ino 0
      check ((readInode b).nlinks ≠ 0) .loadNlinks
      sfsCreateInode (readInode b) ino
      sfsSetLinks ino
      pure ino

def sfsLoadParent (sin : Nat) : SfsM Nat := do
  let s ← state
  sfsLoadInode (s.node sin).din.parent

def sfsDirentCreateInode (type : Nat) : SfsM Nat := do
  let mem ← kmalloc
  if mem = false then fail .eNoMem
  else do
    let ino ← sfsBlockAlloc
    let r ← attempt (sfsCreateInode (DiskInode.zeroed type) ino)
    match r with
    | .error e => do
      sfsBlockFree ino
      fail e
    | .ok _ => do
      modify fun s => {s with inodes:=ino :: s.inodes}
      sfsSetLinks ino
      pure ino

def sfsFsync (held : List Nat) (sin : Nat) : SfsM Unit := do
  let s ← state
  let n := s.node sin
  if n.din.nlinks = 0 ∨ n.dirty = false then pure ()
  else do
    trylockSin held sin
    modify fun s => s.setNode sin fun n => {n with dirty:=false}
    let r ← attempt (sfsWbuf (inodeBytes n.din) diskInodeSize sin 0)
    match r with
    | .error e => do
      modify fun s => s.setNode sin fun n => {n with dirty:=true}
      fail e
    | .ok _ => pure ()

def reclaimBlocks (sin : Nat) : Nat → SfsM Unit
  | 0 => pure ()
  | n+1 => do
    let _ ← attempt (sfsBmapTruncateNolock sin)
    reclaimBlocks sin n

def reclaimEntries (ent i : Nat) : Nat → SfsM Unit
  | 0 => pure ()
  | n+1 => do
    let _ ← attempt (sfsBmapFreeSubNolock ent i)
    reclaimEntries ent (i + 1) n

def reclaimPointers (sin : Nat) : SfsM Unit := do
  sfsBlockFree sin
  let s ← state
  when ((s.node sin).din.indirect ≠ 0) (sfsBlockFree (s.node sin).din.indirect)
  when ((s.node sin).din.dbIndirect ≠ 0) do
    reclaimEntries (s.node sin).din.dbIndirect 0 sfsBlkNentry
    sfsBlockFree (s.node sin).din.dbIndirect

def reclaimFlush (held : List Nat) (sin : Nat) (n : SfsInode) : SfsM Unit :=
  if n.din.nlinks = 0 then reclaimBlocks sin n.din.blocks else when n.dirty (sfsFsync held sin)

def reclaimEnd (sin : Nat) (unlinked : Bool) : SfsM Unit := do
  when unlinked (modify fun s => {s with inodes:=s.inodes.filter (· ≠ sin)})
  sfsRemoveLinks sin
  when unlinked (reclaimPointers sin)

def sfsReclaim (held : List Nat) (sin : Nat) : SfsM Unit := do
  let s ← state
  check (0 < (s.node sin).reclaimCount) .reclaimCount
  modify fun s => s.setNode sin fun n => {n with reclaimCount:=n.reclaimCount - 1}
  if (s.node sin).reclaimCount - 1 ≠ 0 then fail .eBusy
  else do
    check ((s.node sin).refCount = 0 && (s.node sin).openCount = 0) .reclaimRefs
    reclaimFlush held sin (s.node sin)
    reclaimEnd sin ((s.node sin).din.nlinks = 0)

def vopRefDec (held : List Nat) (sin : Nat) : SfsM Unit := do
  let s ← state
  check (0 < (s.node sin).refCount) .refCount
  modify fun s => s.setNode sin fun n => {n with refCount:=n.refCount - 1}
  when ((s.node sin).refCount - 1 = 0) do
    let _ ← attempt (sfsReclaim held sin)
    pure ()

def vopOpenInc (sin : Nat) : SfsM Unit := modify fun s => s.setNode sin fun n => {n with openCount:=n.openCount + 1}

def vopOpenDec (sin : Nat) : SfsM Unit := do
  let s ← state
  check (0 < (s.node sin).openCount) .openCount
  modify fun s => s.setNode sin fun n => {n with openCount:=n.openCount - 1}
  when ((s.node sin).openCount - 1 = 0) do
    let _ ← attempt (sfsFsync [] sin)
    pure ()

end Ucore.Sfs
