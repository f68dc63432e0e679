import Ucore.Lib.Bytes

-- kern-ucore/fs/sfs/sfs.h: the structures SFS keeps in its blocks, byte by byte.
namespace Ucore.Sfs
open Bytes
open Nat (mod_eq_of_lt)

def sfsMagic : Nat := 0x2f8dbe2a
def sfsBlksize : Nat := 4096
def sfsNdirect : Nat := 12
def sfsMaxFnameLen : Nat := 255
def sfsMaxFileSize : Nat := 1024 * 1024 * 128
def sfsBlknSuper : Nat := 0
def sfsBlknRoot : Nat := 1
def sfsBlknFreemap : Nat := 2
def sfsBlkbits : Nat := 32768
def sfsBlkNentry : Nat := 1024
def sfsTypeFile : Nat := 1
def sfsTypeDir : Nat := 2

abbrev CStr := {l : List UInt8 // (0 : UInt8) ∉ l}

def CStr.strlen (name : CStr) : Nat := name.1.length
def dot : CStr := ⟨[46],by decide⟩
def dotDot : CStr := ⟨[46,46],by decide⟩
def nameA : CStr := ⟨[97],by decide⟩
def nameB : CStr := ⟨[98],by decide⟩
def nameC : CStr := ⟨[99],by decide⟩

structure Super where
  magic : Nat
  blocks : Nat
  unusedBlocks : Nat
  info : Fin 32 → UInt8

def sfsFreemapBits (super : Super) : Nat := (super.blocks + sfsBlkbits - 1) / sfsBlkbits * sfsBlkbits
def sfsFreemapBlocks (super : Super) : Nat := (super.blocks + sfsBlkbits - 1) / sfsBlkbits

-- info is the first word of the union: the size of a file, the slots of a
-- directory. parent is its second word and means something for a directory only.
structure DiskInode where
  info : Nat
  parent : Nat
  type : Nat
  nlinks : Nat
  blocks : Nat
  direct : Fin 12 → Nat
  indirect : Nat
  dbIndirect : Nat

def DiskInode.size (din : DiskInode) : Nat := din.info
def DiskInode.slots (din : DiskInode) : Nat := din.info
def DiskInode.zeroed (type : Nat) : DiskInode := ⟨0,0,type,0,0,fun _ => 0,0,0⟩

structure DiskEntry where
  ino : Nat
  name : CStr

def diskInodeSize : Nat := 72
def diskEntrySize : Nat := 260

def readInode (b : Buf) : DiskInode where
  info := getLE b 0 4
  parent := getLE b 4 4
  type := getLE b 8 2
  nlinks := getLE b 10 2
  blocks := getLE b 12 4
  direct k := getLE b (16 + 4 * k) 4
  indirect := getLE b 64 4
  dbIndirect := getLE b 68 4

def inodeBytes (din : DiskInode) : Buf :=
  let direct : Nat → Nat := fun k => if h : k < 12 then din.direct ⟨k,h⟩ else 0
  let b := putLE (putLE (putLE (putLE (putLE zero 0 4 din.info) 4 4 din.parent) 8 2 din.type) 10 2 din.nlinks) 12 4 din.blocks
  putLE (putLE (copy b 16 48 (words direct)) 64 4 din.indirect) 68 4 din.dbIndirect

-- name[SFS_MAX_FNAME_LEN] is set to zero after the read, so 255 bytes count.
def readEntry (b : Buf) : DiskEntry := ⟨getLE b 0 4,⟨cstr b 4 sfsMaxFnameLen,cstr_plain _ _ _⟩⟩

def entryBytes (ino : Nat) (name : CStr) : Buf := copy (putLE zero 0 4 ino) 4 256 (ofList name.1)

def readEnt (b : Buf) (k : Nat) : Nat := getLE b (4 * k) 4

structure DiskInode.Fits (din : DiskInode) : Prop where
  info : din.info < 2^32
  parent : din.parent < 2^32
  type : din.type < 2^16
  nlinks : din.nlinks < 2^16
  blocks : din.blocks < 2^32
  direct : ∀ k,din.direct k < 2^32
  indirect : din.indirect < 2^32
  dbIndirect : din.dbIndirect < 2^32

lemma DiskInode.ext {d e : DiskInode} (info : d.info = e.info) (parent : d.parent = e.parent) (type : d.type = e.type)
    (nlinks : d.nlinks = e.nlinks) (blocks : d.blocks = e.blocks) (direct : d.direct = e.direct)
    (indirect : d.indirect = e.indirect) (dbIndirect : d.dbIndirect = e.dbIndirect) : d = e := by
  cases d; cases e; simp_all

lemma readInode_congr {b c : Buf} (eq : ∀ i < diskInodeSize,b i = c i) : readInode b = readInode c := by
  have word off n : off + n ≤ diskInodeSize → getLE b off n = getLE c off n := by
    intro _
    exact getLE_congr fun k cap => eq _ (by omega)
  apply DiskInode.ext
  · exact word 0 4 (by decide)
  · exact word 4 4 (by decide)
  · exact word 8 2 (by decide)
  · exact word 10 2 (by decide)
  · exact word 12 4 (by decide)
  · funext k
    exact word _ 4 (by have := k.isLt; simp only [diskInodeSize]; omega)
  · exact word 64 4 (by decide)
  exact word 68 4 (by decide)

lemma readInode_inodeBytes (fits : din.Fits) : readInode (inodeBytes din) = din := by
  obtain ⟨_,_,_,_,blocks,direct,indirect,dbIndirect⟩ := fits
  apply DiskInode.ext
  -- the first four fields stand before the direct pointers
  iterate 4
    simp only [readInode,inodeBytes]
    repeat rw [getLE_putLE_apart (by omega)]
    rw [getLE_copy_outside (by omega)]
    repeat rw [getLE_putLE_apart (by omega)]
    exact (getLE_putLE _ _ _ _).trans (mod_eq_of_lt (by assumption))
  · simp only [readInode,inodeBytes]
    repeat rw [getLE_putLE_apart (by omega)]
    rw [getLE_copy_outside (by omega)]
    exact (getLE_putLE _ _ _ _).trans (mod_eq_of_lt blocks)
  · funext k
    have cap := k.isLt
    simp only [readInode,inodeBytes]
    repeat rw [getLE_putLE_apart (by omega)]
    rw [getLE_copy_inside (by omega) (by omega),show 16 + 4 * (k : Nat) - 16 = 4 * k by omega,getLE_words]
    simp only [cap,dif_pos]
    exact mod_eq_of_lt (direct k)
  · simp only [readInode,inodeBytes]
    rw [getLE_putLE_apart (by omega)]
    exact (getLE_putLE _ _ _ _).trans (mod_eq_of_lt indirect)
  simp only [readInode,inodeBytes]
  exact (getLE_putLE _ _ _ _).trans (mod_eq_of_lt dbIndirect)

lemma readInode_write (fits : din.Fits) : readInode (copy b 0 diskInodeSize (inodeBytes din)) = din := by
  rw [← readInode_inodeBytes fits]
  apply readInode_congr
  intro i _
  rw [copy_inside (Nat.zero_le _) (by omega),Nat.sub_zero,readInode_inodeBytes fits]

lemma readEntry_write (small : ino < 2^32) (short : name.strlen ≤ sfsMaxFnameLen) :
    readEntry (copy b 0 diskEntrySize (entryBytes ino name)) = ⟨ino,name⟩ := by
  have word : getLE (copy b 0 diskEntrySize (entryBytes ino name)) 0 4 = ino := by
    rw [getLE_copy_inside (by omega) (by decide),entryBytes,getLE_copy_outside (by omega),getLE_putLE]
    exact mod_eq_of_lt small
  have text : cstr (copy b 0 diskEntrySize (entryBytes ino name)) 4 sfsMaxFnameLen = name.1 := by
    rw [← cstr_ofList name.2 short]
    apply cstr_congr
    intro k cap
    simp only [sfsMaxFnameLen] at cap
    rw [copy_inside (by omega) (by simp only [diskEntrySize]; omega),entryBytes,copy_inside (by omega) (by omega)]
    congr 1; omega
  simp only [readEntry,word,text]

lemma readEntry_zero : readEntry zero = ⟨0,⟨[],by simp⟩⟩ := by simp [readEntry,getLE_zero,sfsMaxFnameLen,cstr,zero]

lemma readEnt_put (small : v < 2^32) : readEnt (putLE b (4 * k) 4 v) k = v := by
  rw [readEnt,getLE_putLE]
  exact mod_eq_of_lt small

lemma readEnt_put_ne (ne : j ≠ k) : readEnt (putLE b (4 * k) 4 v) j = readEnt b j := getLE_putLE_apart (by omega)

lemma readEnt_zero (k : Nat) : readEnt zero k = 0 := getLE_zero _ _

end Ucore.Sfs
