import Ucore.Sfs.Names

-- sfs_inode.c: reading, writing, seeking and truncating files. sfs_fs.c: sync,
-- the root inode and mounting.
namespace Ucore.Sfs
open Bytes Outcomes

-- One piece of a transfer: size bytes at pos of the caller's buffer against
-- block blkno of the file, from byte blkoff on.
def sfsBufOp (write : Bool) (buf : Buf) (pos size ino blkoff : Nat) : SfsM Buf :=
  if write then do
    sfsWbuf (fun k => buf (pos + k)) size ino blkoff
    pure buf
  else do
    let b ← sfsRbuf size ino blkoff
    pure (copy buf pos size b)

def sfsBlockOp (write : Bool) (buf : Buf) (pos ino : Nat) : SfsM Buf :=
  if write then do
    sfsWblock (fun k => buf (pos + k)) ino 1
    pure buf
  else do
    let b ← sfsRblock ino
    pure (copy buf pos sfsBlksize b)

structure Moved where
  buf : Buf
  alen : Nat
  ret : Option Err

def sfsIoTail (sin : Nat) (write : Bool) (buf : Buf) (alen blkno size : Nat) : SfsM Moved :=
  if size ≠ 0 then do
    let r ← attempt (do let ino ← sfsBmapLoadNolock sin blkno; sfsBufOp write buf alen size ino 0)
    match r with
    | .error e => pure ⟨buf,alen,some e⟩
    | .ok buf => pure ⟨buf,alen + size,none⟩
  else pure ⟨buf,alen,none⟩

def sfsIoBlocks (sin : Nat) (write : Bool) (size : Nat) : Nat → Buf → Nat → Nat → SfsM Moved
  | 0,buf,alen,blkno => sfsIoTail sin write buf alen blkno size
  | nblks+1,buf,alen,blkno => do
    let r ← attempt (do let ino ← sfsBmapLoadNolock sin blkno; sfsBlockOp write buf alen ino)
    match r with
    | .error e => pure ⟨buf,alen,some e⟩
    | .ok buf => sfsIoBlocks sin write size nblks buf (alen + sfsBlksize) (blkno + 1)

def sfsIoHead (sin : Nat) (write : Bool) (buf : Buf) (offset endpos : Nat) : SfsM Moved :=
  let blkno := offset / sfsBlksize
  let nblks := endpos / sfsBlksize - blkno
  let blkoff := offset % sfsBlksize
  if blkoff ≠ 0 then do
    let size := if nblks ≠ 0 then sfsBlksize - blkoff else endpos - offset
    let r ← attempt (do let ino ← sfsBmapLoadNolock sin blkno; sfsBufOp write buf 0 size ino blkoff)
    match r with
    | .error e => pure ⟨buf,0,some e⟩
    | .ok buf =>
      if nblks = 0 then pure ⟨buf,size,none⟩
      else sfsIoBlocks sin write (endpos % sfsBlksize) (nblks - 1) buf size (blkno + 1)
  else sfsIoBlocks sin write (endpos % sfsBlksize) nblks buf 0 blkno

def sfsIoGrow (sin newEnd : Nat) : SfsM Unit := do
  let s ← state
  when (newEnd > (s.node sin).din.size) (setDirty sin fun d => {d with info:=newEnd % 2^32})

def sfsIoNolock (sin : Nat) (buf : Buf) (offset : Int) (len : Nat) (write : Bool) : SfsM Moved := do
  let s ← state
  let din := (s.node sin).din
  check (din.type ≠ sfsTypeDir) .ioType
  let endpos : Int := Int.bmod (offset + len) (2^64)
  if offset < 0 ∨ offset ≥ sfsMaxFileSize ∨ offset > endpos then pure ⟨buf,0,some .eInval⟩
  else if offset = endpos then pure ⟨buf,0,none⟩
  else
    let start := offset.toNat
    let stop := min endpos.toNat sfsMaxFileSize
    if write then do
      let moved ← sfsIoHead sin true buf start stop
      sfsIoGrow sin (start + moved.alen)
      pure moved
    else if start ≥ din.size then pure ⟨buf,0,none⟩
    else do
      let moved ← sfsIoHead sin false buf start (min stop din.size)
      sfsIoGrow sin (start + moved.alen)
      pure moved

def sfsIo (sin : Nat) (buf : Buf) (offset : Int) (len : Nat) (write : Bool) : SfsM Moved := do
  trylockSin [] sin
  sfsIoNolock sin buf offset len write

structure Iobuf where
  memory : Buf
  base : Nat
  offset : Int
  resid : Nat

def iobufSkip (iob : Iobuf) (n : Nat) : SfsM Iobuf := do
  check (iob.resid ≥ n) .iobufResid
  pure {iob with base:=iob.base + n,offset:=iob.offset + n,resid:=iob.resid - n}

def Iobuf.fill (iob : Iobuf) (b : Buf) : Iobuf :=
  {iob with memory:=fun k => if k < iob.base then iob.memory k else b (k - iob.base)}

-- sfs_io as sfs_read and sfs_write call it, the buffer and the length taken from iob.
def sfsIoIobuf (sin : Nat) (iob : Iobuf) (write : Bool) : SfsM (Iobuf × Option Err) := do
  let moved ← sfsIo sin (fun k => iob.memory (iob.base + k)) iob.offset iob.resid write
  let iob := iob.fill moved.buf
  let iob ← if moved.alen ≠ 0 then iobufSkip iob moved.alen else pure iob
  pure (iob,moved.ret)

def sfsTruncGrow (sin : Nat) : Nat → Nat → SfsM Unit
  | 0,_ => pure ()
  | n+1,nblks => do
    let _ ← sfsBmapLoadNolock sin nblks
    sfsTruncGrow sin n (nblks + 1)

def sfsTruncShrink (sin : Nat) : Nat → SfsM Unit
  | 0 => pure ()
  | n+1 => do
    sfsBmapTruncateNolock sin
    sfsTruncShrink sin n

def sfsTruncSet (sin len tblks : Nat) : SfsM Unit := do
  let s ← state
  check ((s.node sin).din.blocks = tblks) .truncBlocks
  setDirty sin fun d => {d with info:=len % 2^32}

def sfsTruncfile (sin : Nat) (len : Int) : SfsM Unit :=
  if len < 0 ∨ len > sfsMaxFileSize then fail .eInval
  else do
    let s ← state
    let din := (s.node sin).din
    check (din.type ≠ sfsTypeDir) .truncType
    let tblks := (len.toNat + sfsBlksize - 1) / sfsBlksize
    if din.size = len.toNat then check (tblks = din.blocks) .truncSize
    else do
      trylockSin [] sin
      sfsTruncGrow sin (tblks - din.blocks) din.blocks
      sfsTruncShrink sin (din.blocks - tblks)
      sfsTruncSet sin len.toNat tblks

def sfsTryseek (sin : Nat) (pos : Int) : SfsM Unit :=
  if pos < 0 ∨ pos ≥ sfsMaxFileSize then fail .eInval
  else do
    let s ← state
    if pos > (s.node sin).din.size then sfsTruncfile sin pos else pure ()

end Ucore.Sfs
