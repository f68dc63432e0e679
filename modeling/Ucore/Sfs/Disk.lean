import Ucore.Sfs.Blocks

-- From a block number to sectors: sfs_rwblock_nolock, disk0_io and the driver
-- below it, each in its own integer types.
namespace Ucore.Sfs.Disk
open Bytes Outcomes
open List (range')

abbrev blkSize : Nat := 4096
abbrev sectSize : Nat := 512
abbrev blkNsect : Nat := blkSize / sectSize
abbrev bufSize : Nat := 4 * blkSize
abbrev maxNsecs : Nat := 128
abbrev maxDiskNsecs : Nat := 0x10000000

def u32 (n : Nat) : Nat := n % 2^32

inductive Err where
  | eInval
  deriving DecidableEq

inductive Fault where
  | rwRange
  | copied
  | nsecs
  | secno
  deriving DecidableEq

-- disk holds the bytes of the device, buf is disk0_buffer and mem the memory
-- of the caller. touched records the sectors the driver was asked for.
structure World where
  disk : Buf
  buf : Buf
  mem : Buf
  touched : List Nat

structure Device where
  dBlocks : Nat
  dBlocksize : Nat

structure Iobuf where
  base : Nat
  offset : Nat
  resid : Nat

abbrev Act := Action Err Fault World

def ideSecs (secno nsecs : Nat) (act : World → World) : Act Unit := do
  check (nsecs ≤ maxNsecs) .nsecs
  check (secno < maxDiskNsecs && secno + nsecs ≤ maxDiskNsecs) .secno
  modify fun w => {act w with touched:=w.touched ++ range' secno nsecs}

def ideReadSecs (secno nsecs : Nat) : Act Unit := ideSecs secno nsecs fun w =>
  {w with buf:=copy w.buf 0 (nsecs * sectSize) fun i => w.disk (secno * sectSize + i)}

def ideWriteSecs (secno nsecs : Nat) : Act Unit := ideSecs secno nsecs fun w =>
  {w with disk:=copy w.disk (secno * sectSize) (nsecs * sectSize) w.buf}

def disk0ReadBlksNolock (blkno nblks : Nat) : Act Unit := ideReadSecs (u32 (blkno * blkNsect)) (u32 (nblks * blkNsect))
def disk0WriteBlksNolock (blkno nblks : Nat) : Act Unit := ideWriteSecs (u32 (blkno * blkNsect)) (u32 (nblks * blkNsect))

-- iobuf_move between the memory of the caller and disk0_buffer.
def iobufMove (iob : Iobuf) (len : Nat) (m2b : Bool) : Act Nat := do
  let alen := min iob.resid len
  modify fun w => if m2b then {w with mem:=copy w.mem iob.base alen w.buf}
    else {w with buf:=copy w.buf 0 alen fun i => w.mem (iob.base + i)}
  pure alen

def Iobuf.skip (iob : Iobuf) (n : Nat) : Iobuf := ⟨iob.base + n,iob.offset + n,iob.resid - n⟩

-- The loop of disk0_io. Every turn moves a block or more.
def disk0Loop (write : Bool) : Nat → Nat → Iobuf → Act Unit
  | 0,_,_ => pure ()
  | turns+1,blkno,iob =>
    if iob.resid = 0 then pure ()
    else if write then do
      let copied ← iobufMove iob bufSize false
      check (copied ≠ 0 && copied ≤ iob.resid && copied % blkSize = 0) .copied
      disk0WriteBlksNolock blkno (u32 (copied / blkSize))
      disk0Loop write turns (u32 (blkno + u32 (copied / blkSize))) (iob.skip copied)
    else do
      let alen := min bufSize iob.resid
      disk0ReadBlksNolock blkno (u32 (alen / blkSize))
      let copied ← iobufMove iob alen true
      check (copied = alen && copied % blkSize = 0) .copied
      disk0Loop write turns (u32 (blkno + u32 (alen / blkSize))) (iob.skip copied)

def disk0Io (dev : Device) (iob : Iobuf) (write : Bool) : Act Unit := do
  let blkno := u32 (iob.offset / blkSize)
  let nblks := u32 (iob.resid / blkSize)
  if iob.offset % blkSize ≠ 0 ∨ iob.resid % blkSize ≠ 0 then fail .eInval
  else if u32 (blkno + nblks) > dev.dBlocks then fail .eInval
  else if nblks = 0 then pure ()
  else disk0Loop write (iob.resid / blkSize) blkno iob

def sfsRwblockNolock (dev : Device) (superBlocks buf blkno : Nat) (write checked : Bool) : Act Unit := do
  check ((blkno ≠ 0 || !checked) && blkno < superBlocks) .rwRange
  disk0Io dev ⟨buf,u32 (blkno * blkSize),blkSize⟩ write

structure Mounted (dev : Device) (superBlocks : Nat) : Prop where
  size : dev.dBlocksize = blkSize
  blocks : superBlocks ≤ dev.dBlocks
  narrow : dev.dBlocks < 2^32

def World.moved (w : World) (buf b : Nat) : Bool → World
  | true => {w with disk:=copy w.disk (b * blkSize) blkSize fun i => w.mem (buf + i)}
  | false => {w with mem:=copy w.mem buf blkSize fun i => w.disk (b * blkSize + i)}

section Transfer
variable {dev : Device} {superBlocks buf b : Nat} {write checked : Bool} {w : World}

lemma copy_buffer (dst mid src : Buf) (off n : Nat) : copy dst off n (copy mid 0 n src) = copy dst off n src := by
  funext i
  simp only [copy]
  grind

-- The block transferred is the one the block layer reads and writes for b.
lemma rwblock_run (mounted : Mounted dev superBlocks) (inside : b < superBlocks) (asked : b ≠ 0 ∨ checked = false) :
    ∃ d,sfsRwblockNolock dev superBlocks buf b write checked w =
      .ok () {w.moved buf (devBlock b) write with buf:=d,touched:=w.touched ++ range' (devBlock b * blkNsect) blkNsect} := by
  obtain ⟨c,block,_,_⟩ : ∃ c,b * 4096 % 2^32 = c * 4096 ∧ c < 2^20 ∧ c ≤ b := ⟨b % 2^20,by omega,by omega,by omega⟩
  have named : devBlock b = c := by simp only [devBlock,sfsBlksize,block]; omega
  obtain ⟨eq,last,sector⟩ : u32 c = c ∧ u32 (c + 1) = c + 1 ∧ u32 (c * 8) = c * 8 := by
    simp only [u32]
    omega
  have sizes : u32 (b * 4096) = c * 4096 ∧ u32 1 = 1 ∧ u32 8 = 8 ∧ blkNsect = 8 := ⟨block,rfl,rfl,rfl⟩
  obtain ⟨fits,drive,most,bytes⟩ : ¬ dev.dBlocks < c + 1 ∧ c * 8 < 0x10000000 ∧ c * 8 + 8 ≤ 0x10000000 ∧ c * 8 * 512 = c * 4096 := by
    have := mounted.blocks
    omega
  unfold sfsRwblockNolock disk0Io
  cases write <;>
    simp [asked,inside,named,disk0Loop,iobufMove,disk0ReadBlksNolock,disk0WriteBlksNolock,ideReadSecs,ideWriteSecs,ideSecs,sizes,eq,last,sector,
      fits,drive,most,bytes,copy_buffer,World.moved,blkSize,sectSize,maxNsecs]

-- Exactly below 2^20 is a block moved between the memory of the caller and its own
-- bytes of the device, and has no other block a sector of it.
theorem block_addressing (mounted : Mounted dev superBlocks) (inside : b < superBlocks) (asked : b ≠ 0 ∨ checked = false) :
    (∃ t,sfsRwblockNolock dev superBlocks buf b write checked w = .ok () t ∧
      t.touched = w.touched ++ range' (b * blkNsect) blkNsect ∧
      (∀ i < blkSize,t.disk (blkSize * b + i) = t.mem (buf + i) ∧
        t.mem (buf + i) = if write then w.mem (buf + i) else w.disk (blkSize * b + i)) ∧
      (∀ p,write = false ∨ p < blkSize * b ∨ blkSize * b + blkSize ≤ p → t.disk p = w.disk p) ∧
      (∀ p,write = true ∨ p < buf ∨ buf + blkSize ≤ p → t.mem p = w.mem p) ∧
      ∀ c,c ≠ b → ∀ sect,sect ∈ range' (c * blkNsect) blkNsect → sect ∉ range' (b * blkNsect) blkNsect) ↔ b < 2^20 := by
  obtain ⟨d,ran⟩ := rwblock_run mounted inside asked
  constructor
  · rintro ⟨t,went,sectors,_⟩
    rw [ran] at went
    cases went
    have first := congrArg List.head? (List.append_cancel_left sectors)
    simp only [show blkNsect = 8 from rfl,List.range',List.head?_cons,Option.some.injEq,devBlock,sfsBlksize] at first
    omega
  intro low
  rw [devBlock_small low] at ran
  refine ⟨_,ran,rfl,?_,?_,?_,?_⟩
  · intro i small
    cases write <;> simp only [World.moved,copy] <;> grind
  · intro p apart
    cases write <;> simp only [World.moved,copy]
    grind
  · intro p apart
    cases write <;> simp only [World.moved,copy]
    grind
  intro c other sect here there
  simp only [List.mem_range'_1,show blkNsect = 8 from rfl] at here there
  omega

end Transfer

def emptyWorld : World := ⟨zero,zero,fun i => if i = 0 then 7 else 0,[]⟩

theorem block_addressing_last : ∃ t,sfsRwblockNolock ⟨2^20,blkSize⟩ (2^20) 0 (2^20 - 1) true true emptyWorld = .ok () t ∧
    t.touched = range' 8388600 8 ∧ t.disk (4096 * (2^20 - 1)) = 7 := by
  obtain ⟨t,ran,sectors,bytes,_⟩ := @block_addressing ⟨2^20,blkSize⟩ (2^20) 0 (2^20 - 1) true true emptyWorld ⟨rfl,by decide,by decide⟩ (by decide) (by decide) |>.mpr (by decide)
  exact ⟨t,ran,sectors,(bytes 0 (by decide)).1.trans (bytes 0 (by decide)).2⟩

-- On a device of 2^20 + 1 blocks the last one is read and written at sector 0:
-- a write of it changes the super block.
theorem block_wraps : Mounted ⟨2^20 + 1,blkSize⟩ (2^20 + 1) ∧
    ∃ t,sfsRwblockNolock ⟨2^20 + 1,blkSize⟩ (2^20 + 1) 0 (2^20) true true emptyWorld = .ok () t ∧
      t.touched = range' 0 8 ∧ t.disk 0 = 7 ∧ emptyWorld.disk 0 = 0 ∧ t.disk (4096 * 2^20) = 0 :=
  ⟨⟨rfl,by decide,by decide⟩,_,rfl,rfl,by decide,by decide,by decide⟩

-- sfs_rwblock: the blocks from blkno on, one by one.
def sfsRwblock (dev : Device) (superBlocks : Nat) (write : Bool) : Nat → Nat → Nat → Act Unit
  | 0,_,_ => pure ()
  | nblks+1,buf,blkno => do
    sfsRwblockNolock dev superBlocks buf blkno write true
    sfsRwblock dev superBlocks write nblks (buf + blkSize) (blkno + 1)

theorem blocks_moved {write : Bool} (mounted : Mounted dev superBlocks) (inside : b + n ≤ superBlocks) (low : b + n ≤ 2^20) (nonzero : b ≠ 0) :
    ∃ t,sfsRwblock dev superBlocks write n buf b w = .ok () t ∧
      t.disk = (if write then copy w.disk (b * blkSize) (n * blkSize) fun i => w.mem (buf + i) else w.disk) ∧
      t.mem = if write then w.mem else copy w.mem buf (n * blkSize) fun i => w.disk (b * blkSize + i) := by
  induction n generalizing b buf w with
  | zero => exact ⟨w,rfl,by cases write <;> simp [copy_none]⟩
  | succ n ih =>
    obtain ⟨d,ran⟩ := @rwblock_run _ _ buf b write true w mounted (by omega) (.inl nonzero)
    rw [devBlock_small (by omega)] at ran
    obtain ⟨t,rest,disk,mem⟩ := @ih (b + 1) (buf + blkSize) {w.moved buf b write with buf:=d,touched:=w.touched ++ range' (b * blkNsect) blkNsect}
      (by omega) (by omega) (Nat.succ_ne_zero b)
    refine ⟨t,?_,?_⟩
    · simp only [sfsRwblock,rules,ran]
      exact rest
    rw [disk,mem,Nat.succ_mul b,Nat.succ_mul n,Nat.add_comm (n * blkSize)]
    cases write
    · simpa [World.moved,Nat.add_assoc] using copy_append w.mem (fun i => w.disk (b * blkSize + i)) buf blkSize (n * blkSize)
    · simpa [World.moved,Nat.add_assoc] using copy_append w.disk (fun i => w.mem (buf + i)) (b * blkSize) blkSize (n * blkSize)

theorem blocks_moved_two : ∃ t,sfsRwblock ⟨8,blkSize⟩ 8 true 2 0 3 emptyWorld = .ok () t ∧ t.disk 12288 = 7 := by
  obtain ⟨t,ran,disk,_⟩ := blocks_moved (b:=3) (n:=2) (w:=emptyWorld) (⟨rfl,by decide,by decide⟩ : Mounted ⟨8,blkSize⟩ 8) (by decide) (by decide) (by decide)
  exact ⟨t,ran,by rw [disk]; rfl⟩

end Ucore.Sfs.Disk
