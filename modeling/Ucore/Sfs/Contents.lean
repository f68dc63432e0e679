import Ucore.Lib.Runs
import Ucore.Sfs.View

-- sfs_io against the byte sequence a file stands for.
namespace Ucore.Sfs
open Bytes Outcomes Runs Iobuf SfsFs List
open Nat (mod_lt mul_succ zero_add zero_le)
variable {o i : Nat} {s t u : SfsFs} {flight : Nat → Prop}

section Pieces
variable {sin finish : Nat} {write : Bool} {held : Nat → Buf → SfsFs → Prop} {bad : Err → Prop}

-- held n buf s: n bytes have been moved. It survives every piece a transfer of
-- the bytes from o up to finish is cut into, and a piece that cannot be moved.
structure Piecewise (sin : Nat) (write : Bool) (o finish : Nat) (held : Nat → Buf → SfsFs → Prop) (bad : Err → Prop) : Prop where
  part : ∀ n buf s idx off size,held n buf s → o + n = sfsBlksize * idx + off → 0 < size → off + size ≤ sfsBlksize → o + n + size ≤ finish →
    ((sfsBmapLoadNolock sin idx s).next fun ino => sfsBufOp write buf n size ino off).Meets
      (held (n + size)) (fun e t => bad e ∧ held n buf t) (fun _ => False)
  whole : ∀ n buf s idx,held n buf s → o + n = sfsBlksize * idx → o + n + sfsBlksize ≤ finish →
    ((sfsBmapLoadNolock sin idx s).next fun ino => sfsBlockOp write buf n ino).Meets
      (held (n + sfsBlksize)) (fun e t => bad e ∧ held n buf t) (fun _ => False)

structure Stopped (o finish : Nat) (held : Nat → Buf → SfsFs → Prop) (bad : Err → Prop) (m : Moved) (t : SfsFs) : Prop where
  held : held m.alen m.buf t
  within : o + m.alen ≤ finish
  done : m.ret = none → o + m.alen = finish
  failed : ∀ e,m.ret = some e → bad e

lemma Stopped.early (now : held n buf t) (within : o + n ≤ finish) (failed : bad e) : Stopped o finish held bad ⟨buf,n,some e⟩ t :=
  ⟨now,within,nofun,fun _ eq => Option.some.inj eq ▸ failed⟩

lemma Stopped.full (now : held n buf t) (all : o + n = finish) : Stopped o finish held bad ⟨buf,n,none⟩ t := ⟨now,Nat.le_of_eq all,fun _ => all,nofun⟩

section
variable (pieces : Piecewise sin write o finish held bad) (now : held n buf s) (here : o + n = sfsBlksize * blkno) (short : size < sfsBlksize)
include pieces now here short

lemma ioTail_run (left : finish = o + n + size) :
    (sfsIoTail sin write buf n blkno size s).Meets (Stopped o finish held bad) (fun _ _ => False) (fun _ => False) := by
  unfold sfsIoTail
  rw [ite_run]
  refine .ite (fun has => ?_) (fun none_ => ?_)
  · have piece := pieces.part n buf s blkno 0 size now here (by omega) (by omega) (by omega)
    refine piece.attempt.next (fun r t ended => ?_) (fun _ _ h => h) (fun _ h => h)
    cases r with
    | error e => exact .early ended.2 (by omega) ended.1
    | ok _ => exact .full ended (by omega)
  exact .full now (by omega)

lemma ioBlocks_run (left : finish = o + n + sfsBlksize * nblks + size) :
    (sfsIoBlocks sin write size nblks buf n blkno s).Meets (Stopped o finish held bad) (fun _ _ => False) (fun _ => False) := by
  induction nblks generalizing n buf s blkno with
  | zero => exact ioTail_run pieces now here short (by omega)
  | succ _ ih =>
    rw [mul_succ] at left
    have piece := pieces.whole n buf s blkno now here (by omega)
    refine piece.attempt.next (fun r t ended => ?_) (fun _ _ h => h) (fun _ h => h)
    cases r with
    | error e => exact .early ended.2 (by omega) ended.1
    | ok _ => exact ih ended (by rw [mul_succ]; omega) (by omega)

end

lemma ioHead_run (pieces : Piecewise sin write o finish held bad) (now : held 0 buf s) (has : o < finish) :
    (sfsIoHead sin write buf o finish s).Meets (Stopped o finish held bad) (fun _ _ => False) (fun _ => False) := by
  have size : 0 < sfsBlksize := by decide
  have low := Nat.div_add_mod o sfsBlksize
  have high := Nat.div_add_mod finish sfsBlksize
  have short := mod_lt finish size
  have inside := mod_lt o size
  have order : o / sfsBlksize ≤ finish / sfsBlksize := Nat.div_le_div_right (by omega)
  obtain ⟨count,split⟩ := Nat.exists_eq_add_of_le order
  have nblks : finish / sfsBlksize - o / sfsBlksize = count := by omega
  rw [split,Nat.mul_add] at high
  unfold sfsIoHead
  simp only [nblks]
  rw [ite_run]
  refine .ite (fun unaligned => ?_) (fun even => ?_)
  · have fits : 0 < (if count ≠ 0 then sfsBlksize - o % sfsBlksize else finish - o) ∧
        o % sfsBlksize + (if count ≠ 0 then sfsBlksize - o % sfsBlksize else finish - o) ≤ sfsBlksize ∧
        o + (if count ≠ 0 then sfsBlksize - o % sfsBlksize else finish - o) ≤ finish := by
      cases count with
      | zero => simp only [ne_eq,not_true_eq_false,if_false]; omega
      | succ _ => rw [mul_succ] at high; simp only [ne_eq,Nat.succ_ne_zero,not_false_eq_true,if_true]; omega
    have piece := pieces.part 0 buf s (o / sfsBlksize) (o % sfsBlksize) _ now (by omega) fits.1 fits.2.1 fits.2.2
    refine piece.attempt.next (fun r t ended => ?_) (fun _ _ h => h) (fun _ h => h)
    rw [zero_add] at ended
    cases r with
    | error e => exact .early ended.2 (by omega) ended.1
    | ok _ =>
      dsimp only
      rw [ite_run]
      refine .ite (fun last => ?_) (fun more => ?_)
      · subst last
        exact .full ended (by simp only [ne_eq,not_true_eq_false,if_false]; omega)
      obtain ⟨_,rfl⟩ := Nat.exists_eq_succ_of_ne_zero more
      rw [mul_succ] at high
      simp only [ne_eq,Nat.succ_ne_zero,not_false_eq_true,if_true] at ended ⊢
      exact ioBlocks_run pieces ended (by rw [mul_succ]; omega) short (by simp only [Nat.succ_sub_one]; omega)
  exact ioBlocks_run pieces now (by omega) short (by omega)

end Pieces

def SfsFs.byte (s : SfsFs) (i p : Nat) : UInt8 := s.dev (s.own (i,.leaf (p / sfsBlksize))) (p % sfsBlksize)

lemma bufOp_read (reach : Reach s b) (low : off < sfsBlksize) (fits : off + size ≤ sfsBlksize) :
    sfsBufOp false buf pos size b off s = .ok (copy buf pos size fun k => s.dev b (off + k)) s := by
  simp [sfsBufOp,rbuf_run reach low fits]

lemma blockOp_read (reach : Reach s b) : sfsBlockOp false buf pos b s = .ok (copy buf pos sfsBlksize (s.dev b)) s := by simp [sfsBlockOp,sfsRblock,rblock_run reach]

def Fetched (s : SfsFs) (i o : Nat) (x : Buf) (n : Nat) (buf : Buf) (t : SfsFs) : Prop :=
  t = s ∧ buf = copy x 0 n fun k => s.byte i (o + k)

lemma byte_at (here : o + n = sfsBlksize * idx + off) (low : off + k < sfsBlksize) : s.byte i (o + (n + k)) = s.dev (s.own (i,.leaf idx)) (off + k) := by
  have spot : o + (n + k) = off + k + sfsBlksize * idx := by omega
  rw [SfsFs.byte,spot,Nat.add_mul_div_left _ _ (by decide),Nat.add_mul_mod_self_left,Nat.div_eq_of_lt low,Nat.mod_eq_of_lt low,zero_add]

lemma Fetched.more (fetched : Fetched s i o x n buf t) (here : o + n = sfsBlksize * idx + off) (fits : off + size ≤ sfsBlksize)
    (eq : ∀ k < size,b k = s.dev (s.own (i,.leaf idx)) (off + k)) : Fetched s i o x (n + size) (copy buf n size b) t := by
  obtain ⟨rfl,rfl⟩ := fetched
  refine ⟨rfl,funext fun p => ?_⟩
  simp only [copy,zero_le,true_and,zero_add,Nat.sub_zero]
  by_cases old : p < n
  · rw [if_neg (by omega),if_pos old,if_pos (by omega)]
  by_cases within : p < n + size
  · obtain ⟨k,rfl⟩ := Nat.exists_eq_add_of_le (Nat.le_of_not_lt old)
    rw [if_pos ⟨by omega,within⟩,if_pos within,Nat.add_sub_cancel_left,eq k (by omega),byte_at here (by omega)]
  rw [if_neg (by omega),if_neg old,if_neg within]

lemma fetch_pieces (blocks : Blocks s flight) (listed : i ∈ s.inodeList) (low : finish ≤ sfsBlksize * (s.node i).din.blocks) (x : Buf) :
    Piecewise i false o finish (Fetched s i o x) (fun _ => False) where
  part n buf t idx off size fetched here has fits within := by
    have cap : idx < (s.node i).din.blocks := Nat.lt_of_mul_lt_mul_left (a:=sfsBlksize) (by omega)
    have reach := blocks.own_reach (blocks.leaf_held listed cap)
    have more := fetched.more here fits fun _ _ => rfl
    obtain ⟨rfl,-⟩ := fetched
    rw [bmapLoad_old blocks listed cap,next_ok,bufOp_read reach (by omega) fits]
    exact more
  whole n buf t idx fetched here within := by
    have size : 0 < sfsBlksize := by decide
    have cap : idx < (s.node i).din.blocks := Nat.lt_of_mul_lt_mul_left (a:=sfsBlksize) (by omega)
    have reach := blocks.own_reach (blocks.leaf_held listed cap)
    have more : Fetched s i o x (n + sfsBlksize) (copy buf n sfsBlksize (s.dev (s.own (i,.leaf idx)))) t :=
      fetched.more (show o + n = sfsBlksize * idx + 0 from here) (by omega) fun k _ => by rw [zero_add]
    obtain ⟨rfl,-⟩ := fetched
    rw [bmapLoad_old blocks listed cap,next_ok,blockOp_read reach]
    exact more

def blocksFor (len : Nat) : Nat := (len + sfsBlksize - 1) / sfsBlksize

structure Mapped (s t : SfsFs) (flight : Nat → Prop) (i : Nat) : Prop where
  blocks : Blocks t flight
  frame : Frame s t i
  grows : Grows s t i
  count : (s.node i).din.blocks ≤ (t.node i).din.blocks

lemma bmapLoad_run (blocks : Blocks s flight) (listed : i ∈ s.inodeList) (cap : idx ≤ (s.node i).din.blocks) : (sfsBmapLoadNolock i idx s).Meets
      (fun b t => Mapped s t flight i ∧ t.own (i,.leaf idx) = b ∧ idx < (t.node i).din.blocks ∧ (t.node i).din.blocks ≤ max (s.node i).din.blocks (idx + 1))
      (fun e t => e = .eNoMem ∧ Mapped s t flight i ∧ (t.node i).din.blocks = (s.node i).din.blocks) (fun _ => False) := by
  obtain old | new := Nat.lt_or_eq_of_le cap
  · rw [bmapLoad_old blocks listed old]
    exact ⟨⟨blocks,.refl s i,.refl s i,le_refl _⟩,rfl,old,Nat.le_max_left _ _⟩
  subst new
  obtain ⟨-,t,ran,after,frame,grows,count,-⟩ | ⟨b,t,ran,grown,-⟩ := bmapLoad_new blocks listed
  · rw [ran]
    exact ⟨rfl,⟨after,frame,grows,count.ge⟩,count⟩
  rw [ran]
  have count := grown.count
  exact ⟨{grown with count:=by omega},grown.here,by omega,by omega⟩

def Patched (old new : Buf) (off size : Nat) (x : Buf) : Prop := ∀ k,k < sfsBlksize → new k = copy old off size x k

lemma bufOp_write (reach : Reach s b) (low : off < sfsBlksize) (fits : off + size ≤ sfsBlksize) :
    sfsBufOp true buf pos size b off s = .ok buf (s.setBlock b (copy (s.dev b) off size fun k => buf (pos + k))) := by
  simp [sfsBufOp,wbuf_run reach low fits]

lemma blockOp_write (reach : Reach s b) : sfsBlockOp true buf pos b s = .ok buf (s.setBlock b fun k => buf (pos + k)) := by
  simp [sfsBlockOp,sfsWblock,wblock_run reach]

structure Written (s : SfsFs) (flight : Nat → Prop) (i o : Nat) (x : Buf) (n : Nat) (buf : Buf) (t : SfsFs) : Prop where
  source : buf = x
  blocks : Blocks t flight
  frame : Frame s t i
  apart : Apart s t i
  count : (s.node i).din.blocks ≤ (t.node i).din.blocks
  covers : o + n ≤ sfsBlksize * (t.node i).din.blocks
  byte : ∀ p,p < sfsBlksize * (s.node i).din.blocks ∨ (o ≤ p ∧ p < o + n) →
    t.byte i p = if o ≤ p ∧ p < o + n then x (p - o) else s.byte i p

lemma Written.start (blocks : Blocks s flight) (low : o ≤ sfsBlksize * (s.node i).din.blocks) (x : Buf) : Written s flight i o x 0 x s where
  source := rfl
  blocks := blocks
  frame := .refl s i
  apart := .refl s i
  count := le_refl _
  covers := low
  byte p _ := by rw [if_neg (by omega)]

lemma Mapped.byte (load : Mapped s t flight i) (blocks : Blocks s flight) (listed : i ∈ s.inodeList)
    (low : p < sfsBlksize * (s.node i).din.blocks) : t.byte i p = s.byte i p := by
  have held := blocks.leaf_held listed (Nat.div_lt_of_lt_mul low)
  rw [SfsFs.byte,load.grows.kept _ held,load.grows.data i _ held,SfsFs.byte]

lemma Written.load (wrote : Written s flight i o x n buf t) (listed : i ∈ s.inodeList) (load : Mapped t u flight i) : Written s flight i o x n buf u where
  source := wrote.source
  blocks := load.blocks
  frame := wrote.frame.trans load.frame
  apart := wrote.apart.trans (load.grows.apart load.frame)
  count := le_trans wrote.count load.count
  covers := le_trans wrote.covers (Nat.mul_le_mul_left _ load.count)
  byte p seen := by
    have low : p < sfsBlksize * (t.node i).din.blocks := by
      have := Nat.mul_le_mul_left sfsBlksize wrote.count
      have := wrote.covers
      omega
    rw [load.byte wrote.blocks (wrote.frame.inodeList ▸ listed) low,wrote.byte p seen]

lemma byte_setLeaf (blocks : Blocks s flight) (held : s.own (i,.leaf idx) ≠ 0) (p : Nat) :
    (s.setBlock (s.own (i,.leaf idx)) y).byte i p = if p / sfsBlksize = idx then y (p % sfsBlksize) else s.byte i p := by
  rw [SfsFs.byte,own_setBlock (blocks.plain_of_leaf held)]
  split
  next here => rw [here]; exact congrFun (setDev_same _ _ _) _
  next ne =>
    refine congrFun (setDev_ne fun eq => ?_) _
    have lone := blocks.exact.single _ _ held eq.symm
    exact ne (Spot.leaf.inj (congrArg Prod.snd lone)).symm

lemma Written.patch (wrote : Written s flight i o x n buf t) (listed : i ∈ s.inodeList) (cap : idx < (t.node i).din.blocks)
    (here : o + n = sfsBlksize * idx + off) (fits : off + size ≤ sfsBlksize)
    (patched : Patched (t.dev (t.own (i,.leaf idx))) y off size fun k => buf (n + k)) :
    Written s flight i o x (n + size) buf (t.setBlock (t.own (i,.leaf idx)) y) := by
  have held := wrote.blocks.leaf_held (wrote.frame.inodeList ▸ listed) cap
  have room : sfsBlksize * (idx + 1) ≤ sfsBlksize * (t.node i).din.blocks := Nat.mul_le_mul_left _ cap
  rw [mul_succ] at room
  have frame : Frame t (t.setBlock (t.own (i,.leaf idx)) y) i := ⟨rfl,rfl,rfl,rfl,rfl,rfl,fun _ _ => rfl,.refl _⟩
  refine ⟨wrote.source,wrote.blocks.setBlock (wrote.blocks.plain_of_leaf held),wrote.frame.trans frame,
    wrote.apart.trans (apart_setLeaf wrote.blocks held y),wrote.count,?_,fun p seen => ?_⟩
  · change o + (n + size) ≤ sfsBlksize * (t.node i).din.blocks
    omega
  have low := Nat.div_add_mod p sfsBlksize
  have inside := mod_lt p (show 0 < sfsBlksize by decide)
  rw [byte_setLeaf wrote.blocks held]
  by_cases block : p / sfsBlksize = idx
  · rw [block] at low
    rw [if_pos block,patched _ inside]
    by_cases within : off ≤ p % sfsBlksize ∧ p % sfsBlksize < off + size
    · rw [copy_inside within.1 within.2,if_pos (by omega),wrote.source]
      exact congrArg x (by omega)
    have old : t.dev (t.own (i,.leaf idx)) (p % sfsBlksize) = t.byte i p := by rw [SfsFs.byte,block]
    rw [copy_outside (by omega),old,wrote.byte p (by omega)]
    exact if_congr (by omega) rfl rfl
  have away : p < sfsBlksize * idx ∨ sfsBlksize * (idx + 1) ≤ p := by
    obtain less | more := Nat.lt_or_gt_of_ne block
    · exact .inl (by rw [mul_comm]; exact (Nat.div_lt_iff_lt_mul (by decide)).mp less)
    exact .inr (by rw [mul_comm]; exact (Nat.le_div_iff_mul_le (by decide)).mp more)
  rw [mul_succ] at away
  rw [if_neg block,wrote.byte p (by omega)]
  exact if_congr (by omega) rfl rfl

lemma Written.reaches (wrote : Written s flight i o x n buf t) (here : o + n = sfsBlksize * idx + off) : idx ≤ (t.node i).din.blocks := by
  have covers := wrote.covers
  exact Nat.le_of_mul_le_mul_left (show sfsBlksize * idx ≤ sfsBlksize * (t.node i).din.blocks by omega) (by decide)

def Grew (s : SfsFs) (flight : Nat → Prop) (i o : Nat) (x : Buf) (n : Nat) (buf : Buf) (t : SfsFs) : Prop :=
  Written s flight i o x n buf t ∧ (t.node i).din.blocks ≤ max (s.node i).din.blocks (blocksFor (o + n))

lemma Grew.piece {op : Nat → SfsM Buf} (grew : Grew s flight i o x n buf t) (listed : i ∈ s.inodeList) (here : o + n = sfsBlksize * idx + off)
    (has : 0 < size) (fits : off + size ≤ sfsBlksize)
    (runs : ∀ b u,Reach u b → ∃ y,op b u = .ok buf (u.setBlock b y) ∧ Patched (u.dev b) y off size fun k => buf (n + k)) :
    ((sfsBmapLoadNolock i idx t).next op).Meets (Grew s flight i o x (n + size)) (fun e u => e = .eNoMem ∧ Grew s flight i o x n buf u)
      (fun _ => False) := by
  obtain ⟨wrote,tight⟩ := grew
  refine (bmapLoad_run wrote.blocks (wrote.frame.inodeList ▸ listed) (wrote.reaches here)).next (fun b u got => ?_)
    (fun e u got => ⟨got.1,wrote.load listed got.2.1,by rw [got.2.2]; exact tight⟩) (fun _ h => h)
  obtain ⟨load,rfl,filled,most⟩ := got
  have wrote := wrote.load listed load
  obtain ⟨y,ran,patched⟩ := runs _ u (wrote.blocks.own_reach (wrote.blocks.leaf_held (wrote.frame.inodeList ▸ listed) filled))
  rw [ran]
  refine ⟨wrote.patch listed filled here fits patched,?_⟩
  have reached : idx + 1 ≤ blocksFor (o + (n + size)) ∧ blocksFor (o + n) ≤ blocksFor (o + (n + size)) := by
    unfold blocksFor sfsBlksize at *
    omega
  change (u.node i).din.blocks ≤ _
  omega

lemma write_pieces (listed : i ∈ s.inodeList) (x : Buf) : Piecewise i true o finish (Grew s flight i o x) (fun e => e = .eNoMem) where
  part n buf t idx off size grew here has fits _ := grew.piece listed here has fits fun b u reach => ⟨_,bufOp_write reach (by omega) fits,fun _ _ => rfl⟩
  whole n buf t idx grew here _ := by
    refine grew.piece listed (show o + n = sfsBlksize * idx + 0 from here) (by decide) (by omega) fun b u reach => ⟨_,blockOp_write reach,fun k low => ?_⟩
    rw [copy_inside (zero_le k) (by omega),Nat.sub_zero]

def SfsFs.bytes (s : SfsFs) (i : Nat) : List UInt8 := (List.range (s.node i).din.size).map (s.byte i)

def overwrite (old new : List UInt8) (o : Nat) : List UInt8 := old.take o ++ new ++ old.drop (o + new.length)

lemma overwrite_range {f g : Nat → UInt8} (low : o ≤ m) : overwrite ((List.range m).map f) ((List.range n).map g) o =
      (range (max m (o + n))).map fun p => if o ≤ p ∧ p < o + n then g (p - o) else f p := by
  apply ext_getElem
  · simp only [overwrite,length_append,length_take,length_drop,length_map,length_range]
    omega
  intro p _ _
  simp only [overwrite,getElem_append,getElem_map,getElem_range,getElem_take,getElem_drop,length_append,
    length_take,length_map,length_range,Nat.min_eq_left low]
  by_cases old : p < o
  · rw [dif_pos (by omega),dif_pos old,if_neg (by omega)]
  by_cases within : p < o + n
  · rw [dif_pos within,dif_neg old,if_pos (by omega)]
  rw [dif_neg within,if_neg (by omega)]
  exact congrArg f (by omega)

lemma take_drop_range {f : Nat → UInt8} (o len m : Nat) : (((List.range m).map f).drop o).take len = (List.range (min len (m - o))).map fun k => f (o + k) := by
  apply ext_getElem
  · simp
  intro p _ _
  simp

structure File (s : SfsFs) (i : Nat) : Prop where
  listed : i ∈ s.inodeList
  kind : (s.node i).din.type ≠ sfsTypeDir

structure Filed (s : SfsFs) : Prop where
  blocks : Blocks s (fun _ => False)
  present : ∀ i,File s i → (s.node i).removed = false
  sized : ∀ i,File s i → (s.node i).din.size ≤ sfsBlksize * (s.node i).din.blocks
  capped : ∀ i,File s i → (s.node i).din.size ≤ sfsMaxFileSize

section Calls
variable {len : Nat}

def SfsFs.grown (s : SfsFs) (i newEnd : Nat) : SfsFs :=
  if newEnd > (s.node i).din.size then s.setNode i fun n => {n with din:={n.din with info:=newEnd % 2^32},dirty:=true} else s

lemma ioGrow_run (s : SfsFs) (i newEnd : Nat) : sfsIoGrow i newEnd s = .ok () (s.grown i newEnd) := by
  simp only [sfsIoGrow,rules,grown]
  split
  next more => rw [decide_eq_true more]; rfl
  next less => rw [decide_eq_false less]; rfl

lemma endpos_exact (short : (o : Int) + len < 2^63) : Int.bmod ((o : Int) + len) (2^64) = ((o + len : Nat) : Int) := by
  rw [Int.bmod_eq_of_le (by omega) (by omega)]
  omega

section
variable (blocks : Blocks s flight) (listed : i ∈ s.inodeList) (kind : (s.node i).din.type ≠ sfsTypeDir)
include blocks listed kind

-- What sfs_io_nolock leaves behind, with the pieces' invariant for a write.
lemma ioNolock_write (inside : o ≤ sfsBlksize * (s.node i).din.blocks) (low : o < sfsMaxFileSize) (has : 0 < len) (short : (o : Int) + len < 2^63) (x : Buf) :
    (sfsIoNolock i x o len true s).Meets
      (fun m t => ∃ u,Stopped o (min (o + len) sfsMaxFileSize) (Grew s flight i o x) (fun e => e = .eNoMem) m u ∧ t = u.grown i (o + m.alen))
      (fun _ _ => False) (fun _ => False) := by
  have pieces : Piecewise i true o (min (o + len) sfsMaxFileSize) (Grew s flight i o x) (fun e => e = .eNoMem) := write_pieces listed x
  have move := ioHead_run pieces ⟨.start blocks inside x,Nat.le_max_left _ _⟩ (by omega)
  simp only [sfsIoNolock,rules,decide_eq_true kind,endpos_exact short,ite_run,Int.toNat_natCast]
  rw [if_neg (by omega),if_neg (by omega)]
  refine move.next (fun m u stopped => ?_) (fun _ _ h => h) (fun _ h => h)
  rw [bind_run,ioGrow_run,next_ok]
  exact ⟨u,stopped,rfl⟩

lemma ioNolock_read (sized : (s.node i).din.size ≤ sfsBlksize * (s.node i).din.blocks)
    (inside : o < (s.node i).din.size) (low : o < sfsMaxFileSize) (has : 0 < len) (short : (o : Int) + len < 2^63) (x : Buf) :
    (sfsIoNolock i x o len false s).Meets
      (fun m t => Stopped o (min (min (o + len) sfsMaxFileSize) (s.node i).din.size) (Fetched s i o x) (fun _ => False) m t)
      (fun _ _ => False) (fun _ => False) := by
  have pieces : Piecewise i false o (min (min (o + len) sfsMaxFileSize) (s.node i).din.size) (Fetched s i o x) (fun _ => False) :=
    fetch_pieces blocks listed (by omega) x
  have none_ : Fetched s i o x 0 x s := ⟨rfl,funext fun _ => (copy_outside (by omega)).symm⟩
  have move := ioHead_run pieces none_ (by omega)
  simp only [sfsIoNolock,rules,decide_eq_true kind,endpos_exact short,ite_run,Int.toNat_natCast]
  rw [if_neg (by omega),if_neg (by omega),if_neg (by omega)]
  refine move.next (fun m u stopped => ?_) (fun _ _ h => h) (fun _ h => h)
  obtain ⟨rfl,-⟩ := stopped.held
  have eq : u.grown i (o + m.alen) = u := by
    have := stopped.within
    rw [grown,if_neg (by omega)]
  rw [bind_run,ioGrow_run,next_ok,eq]
  exact stopped

end

def Iobuf.data (iob : Iobuf) (memory : Buf) (n : Nat) : List UInt8 := (List.range n).map fun k => memory (iob.base + k)

structure Put (s t : SfsFs) (i : Nat) (iob : Iobuf) (n : Nat) (memory : Buf) (ret : Option Err) : Prop where
  bytes : t.bytes i = overwrite (s.bytes i) (iob.data iob.memory n) iob.offset.toNat
  size : (t.node i).din.size = max (s.node i).din.size (iob.offset.toNat + n)
  capped : (t.node i).din.size ≤ sfsMaxFileSize
  whole : ret = none → n = min iob.resid (sfsMaxFileSize - iob.offset.toNat)
  memory : memory = iob.memory

structure Got (s t : SfsFs) (i : Nat) (iob : Iobuf) (n : Nat) (memory : Buf) : Prop where
  same : t = s
  data : iob.data memory n = ((s.bytes i).drop iob.offset.toNat).take iob.resid
  rest : ∀ k,k < iob.base ∨ iob.base + n ≤ k → memory k = iob.memory k

structure Advanced (iob iob' : Iobuf) (n : Nat) : Prop where
  base : iob'.base = iob.base + n
  offset : iob'.offset = iob.offset + n
  resid : iob'.resid + n = iob.resid

structure Transferred (s t : SfsFs) (i : Nat) (write : Bool) (iob iob' : Iobuf) (ret : Option Err) (n : Nat) : Prop where
  advanced : Advanced iob iob' n
  put : write = true → Put s t i iob n iob'.memory ret
  got : write = false → Got s t i iob n iob'.memory
  others : Apart s t i

structure InRange (s : SfsFs) (i : Nat) (iob : Iobuf) : Prop where
  file : File s i
  low : 0 ≤ iob.offset
  inside : iob.offset ≤ (s.node i).din.size
  short : iob.offset + iob.resid < 2^63

lemma InRange.start (range : InRange s i iob) : ∃ o : Nat,iob.offset = o ∧ iob.offset.toNat = o ∧ o ≤ (s.node i).din.size ∧ (o : Int) + iob.resid < 2^63 := by
  obtain ⟨o,offset⟩ := Int.eq_ofNat_of_zero_le range.low
  have inside := range.inside
  exact ⟨o,offset,by omega,by omega,offset ▸ range.short⟩

lemma Filed.keep (filed : Filed s) (file : File s i) (blocks : Blocks t (fun _ => False)) (far : Apart s t i)
    (list : t.inodeList = s.inodeList) (type : (t.node i).din.type = (s.node i).din.type) (removed : (t.node i).removed = (s.node i).removed)
    (sized : (t.node i).din.size ≤ sfsBlksize * (t.node i).din.blocks) (capped : (t.node i).din.size ≤ sfsMaxFileSize) : Filed t := by
  have back : ∀ j ≠ i,File t j → File s j := fun j ne here => ⟨list ▸ here.listed,far.node j ne ▸ here.kind⟩
  refine ⟨blocks,fun j here => ?_,fun j here => ?_,fun j here => ?_⟩
  all_goals by_cases eq : j = i
  · subst eq; rw [removed]; exact filed.present j file
  · rw [far.node j eq]; exact filed.present j (back j eq here)
  · subst eq; exact sized
  · rw [far.node j eq]; exact filed.sized j (back j eq here)
  · subst eq; exact capped
  rw [far.node j eq]; exact filed.capped j (back j eq here)

lemma grown_size (u : SfsFs) (i : Nat) (small : e < 2^32) : ((u.grown i e).node i).din.size = max (u.node i).din.size e := by
  unfold grown
  split
  next _ =>
    rw [setNode_self]
    change e % 2^32 = _
    omega
  next _ => omega

lemma grown_frame (blocks : Blocks u flight) (listed : i ∈ u.inodeList) (e : Nat) :
    Blocks (u.grown i e) flight ∧ Apart u (u.grown i e) i ∧ (u.grown i e).inodeList = u.inodeList ∧
      ((u.grown i e).node i).din.type = (u.node i).din.type ∧ ((u.grown i e).node i).removed = (u.node i).removed ∧
      ((u.grown i e).node i).din.blocks = (u.node i).din.blocks ∧ ∀ p,(u.grown i e).byte i p = u.byte i p := by
  unfold grown
  split
  next _ =>
    refine ⟨blocks.setNode listed ⟨rfl,rfl,rfl⟩ rfl,apart_setNode u i _,rfl,?_,?_,?_,fun p => ?_⟩
    · rw [setNode_self]
    · rw [setNode_self]
    · rw [setNode_self]
    unfold SfsFs.byte
    rw [own_sameMap listed ⟨rfl,rfl,rfl⟩]
    rfl
  next _ => exact ⟨blocks,.refl u i,rfl,rfl,rfl,rfl,fun _ => rfl⟩

lemma fill_same (iob : Iobuf) : iob.fill (fun k => iob.memory (iob.base + k)) = iob := by
  have memory : (fun k => if k < iob.base then iob.memory k else iob.memory (iob.base + (k - iob.base))) = iob.memory := by
    funext k
    split
    next => rfl
    next high => rw [Nat.add_sub_cancel' (Nat.le_of_not_lt high)]
  unfold fill
  rw [memory]

lemma ioIobuf_run (has : (s.node i).removed = false) (ran : sfsIoNolock i (fun k => iob.memory (iob.base + k)) iob.offset iob.resid write s = .ok m t)
    (enough : m.alen ≤ iob.resid) :
    ∃ iob',sfsIoIobuf i iob write s = .ok (iob',m.ret) t ∧ Advanced iob iob' m.alen ∧ iob'.memory = (iob.fill m.buf).memory := by
  have locked : sfsIo i (fun k => iob.memory (iob.base + k)) iob.offset iob.resid write s = .ok m t := by simp [sfsIo,trylockSin,has,ran]
  simp only [sfsIoIobuf,rules,locked,ite_run]
  by_cases none_ : m.alen = 0
  · rw [if_neg (by simp [none_])]
    exact ⟨_,rfl,⟨by simp [none_,fill],by simp [none_,fill],by simp [none_,fill]⟩,rfl⟩
  have fits : decide ((iob.fill m.buf).resid ≥ m.alen) = true := decide_eq_true enough
  rw [if_pos none_]
  simp only [iobufSkip,rules,fits]
  exact ⟨_,rfl,⟨rfl,rfl,Nat.sub_add_cancel enough⟩,rfl⟩

-- The calls that move nothing: an empty one, or one at the largest size.
lemma ioNolock_idle (kind : (s.node i).din.type ≠ sfsTypeDir) (idle : sfsMaxFileSize ≤ o ∨ len = 0) (short : (o : Int) + len < 2^63) (x : Buf)
    (write : Bool) : ∃ ret,sfsIoNolock i x o len write s = .ok ⟨x,0,ret⟩ s ∧ (ret = none → len = 0) := by
  simp only [sfsIoNolock,rules,decide_eq_true kind,endpos_exact short,ite_run]
  by_cases high : sfsMaxFileSize ≤ o
  · rw [if_pos (by omega)]
    exact ⟨_,rfl,nofun⟩
  have none_ : len = 0 := by omega
  rw [if_neg (by omega),if_pos (by omega)]
  exact ⟨_,rfl,fun _ => none_⟩

lemma bytes_range (s : SfsFs) (i : Nat) : s.bytes i = (List.range (s.node i).din.size).map (s.byte i) := rfl

lemma overwrite_nothing (old : List UInt8) (o : Nat) : overwrite old [] o = old := by simp [overwrite]

lemma Put.nothing (filed : Filed s) (range : InRange s i iob) (whole : ret = none → 0 = min iob.resid (sfsMaxFileSize - iob.offset.toNat)) :
    Put s s i iob 0 iob.memory ret where
  bytes := (overwrite_nothing _ _).symm
  size := by
    have low := range.low
    have inside := range.inside
    omega
  capped := filed.capped i range.file
  whole := whole
  memory := rfl

lemma Written.put (wrote : Written s flight i o x n x u) (listed : i ∈ s.inodeList) (low : o ≤ (s.node i).din.size)
    (sized : (s.node i).din.size ≤ sfsBlksize * (s.node i).din.blocks) (small : o + n ≤ sfsMaxFileSize) :
    (u.grown i (o + n)).bytes i = overwrite (s.bytes i) ((range n).map x) o ∧
    ((u.grown i (o + n)).node i).din.size = max (s.node i).din.size (o + n) := by
  have small32 : o + n < 2^32 := lt_of_le_of_lt small (by decide)
  have eq : (u.node i).din.size = (s.node i).din.size := wrote.frame.head.info
  have size := grown_size u i small32
  rw [eq] at size
  obtain ⟨-,-,-,-,-,-,byte⟩ := grown_frame wrote.blocks (wrote.frame.inodeList ▸ listed) (o + n)
  refine ⟨?_,size⟩
  rw [bytes_range s,overwrite_range low,bytes_range,size]
  refine map_congr_left fun p mem => ?_
  have cap := mem_range.mp mem
  rw [byte,wrote.byte p (by omega)]

lemma io_write (filed : Filed s) (range : InRange s i iob) :
    ∃ n iob' ret t,sfsIoIobuf i iob true s = .ok (iob',ret) t ∧ Transferred s t i true iob iob' ret n ∧ Filed t ∧ File t i ∧
      (t.node i).din.blocks ≤ max (s.node i).din.blocks (blocksFor (t.node i).din.size) := by
  obtain ⟨o,offset,start,low,short⟩ := range.start
  have sized := filed.sized i range.file
  have has := filed.present i range.file
  by_cases idle : sfsMaxFileSize ≤ o ∨ iob.resid = 0
  · obtain ⟨ret,ran,reason⟩ := ioNolock_idle range.file.kind idle short (fun k => iob.memory (iob.base + k)) true
    rw [← offset] at ran
    obtain ⟨iob',call,advanced,memory⟩ := ioIobuf_run has ran (zero_le _)
    rw [fill_same] at memory
    exact ⟨0,iob',ret,s,call,⟨advanced,fun _ => memory ▸ Put.nothing filed range fun none_ => by rw [reason none_]; omega,nofun,.refl s i⟩,filed,
      range.file,Nat.le_max_left _ _⟩
  have move := ioNolock_write filed.blocks range.file.listed range.file.kind (le_trans low sized) (by omega) (by omega) short
    (fun k => iob.memory (iob.base + k))
  rw [← offset] at move
  cases ran : sfsIoNolock i (fun k => iob.memory (iob.base + k)) iob.offset iob.resid true s with
  | err e t => rw [ran] at move; exact move.elim
  | fault f => rw [ran] at move; exact move.elim
  | ok m t =>
    rw [ran] at move
    obtain ⟨u,stopped,rfl⟩ := move
    have within := stopped.within
    obtain ⟨wrote,_⟩ := stopped.held
    have source := wrote.source
    rw [source] at wrote
    obtain ⟨iob',call,advanced,memory⟩ := ioIobuf_run has ran (by omega)
    rw [source,fill_same] at memory
    obtain ⟨bytes,size⟩ := wrote.put range.file.listed low sized (by omega)
    have capped := filed.capped i range.file
    have listed : i ∈ u.inodeList := wrote.frame.inodeList ▸ range.file.listed
    obtain ⟨blocks,ne,list,type,removed,count,-⟩ := grown_frame wrote.blocks listed (o + m.alen)
    have covers := wrote.covers
    have more := Nat.mul_le_mul_left sfsBlksize wrote.count
    have put : Put s (u.grown i (o + m.alen)) i iob m.alen iob.memory m.ret :=
      ⟨start ▸ bytes,start ▸ size,by omega,fun none_ => by have := stopped.done none_; omega,rfl⟩
    refine ⟨m.alen,iob',m.ret,_,call,⟨advanced,fun _ => memory ▸ put,nofun,wrote.apart.trans ne⟩,?_,⟨list ▸ listed,?_⟩,?_⟩
    · refine filed.keep range.file blocks (wrote.apart.trans ne) (list.trans wrote.frame.inodeList) (type.trans wrote.frame.head.type)
        (removed.trans wrote.frame.head.removed) ?_ put.capped
      rw [size,count]
      omega
    · rw [type,wrote.frame.head.type]
      exact range.file.kind
    have mono : blocksFor (o + m.alen) ≤ blocksFor (max (s.node i).din.size (o + m.alen)) := Nat.div_le_div_right (by omega)
    rw [size,count]
    omega

lemma io_read (filed : Filed s) (range : InRange s i iob) : ∃ n iob' ret,sfsIoIobuf i iob false s = .ok (iob',ret) s ∧ Transferred s s i false iob iob' ret n := by
  obtain ⟨o,offset,start,low,short⟩ := range.start
  have sized := filed.sized i range.file
  have capped := filed.capped i range.file
  have has := filed.present i range.file
  by_cases idle : (sfsMaxFileSize ≤ o ∨ iob.resid = 0) ∨ o = (s.node i).din.size
  · have quiet : ∃ ret,sfsIoNolock i (fun k => iob.memory (iob.base + k)) o iob.resid false s = .ok ⟨fun k => iob.memory (iob.base + k),0,ret⟩ s := by
      by_cases one : sfsMaxFileSize ≤ o ∨ iob.resid = 0
      · obtain ⟨ret,ran,-⟩ := ioNolock_idle range.file.kind one short (fun k => iob.memory (iob.base + k)) false
        exact ⟨ret,ran⟩
      refine ⟨none,?_⟩
      simp only [sfsIoNolock,bind_run,state_run,next_ok,check_run,decide_eq_true range.file.kind,if_true,endpos_exact short,ite_run,
        Int.toNat_natCast,Bool.false_eq_true,if_false]
      rw [if_neg (by omega),if_neg (by omega),if_pos (by omega)]
      rfl
    obtain ⟨ret,ran⟩ := quiet
    rw [← offset] at ran
    obtain ⟨iob',call,advanced,memory⟩ := ioIobuf_run has ran (zero_le _)
    rw [fill_same] at memory
    have none_ : min iob.resid ((s.node i).din.size - o) = 0 := by omega
    refine ⟨0,iob',ret,call,advanced,nofun,fun _ => ⟨rfl,?_,fun _ _ => by rw [memory]⟩,.refl s i⟩
    rw [bytes_range,take_drop_range,start,none_]
    rfl
  have move := ioNolock_read filed.blocks range.file.listed range.file.kind sized (by omega) (by omega) (by omega) short
    (fun k => iob.memory (iob.base + k))
  rw [← offset] at move
  cases ran : sfsIoNolock i (fun k => iob.memory (iob.base + k)) iob.offset iob.resid false s with
  | err e t => rw [ran] at move; exact move.elim
  | fault f => rw [ran] at move; exact move.elim
  | ok m t =>
    rw [ran] at move
    have within := move.within
    obtain ⟨rfl,buf⟩ := move.held
    have ended : m.ret = none := by
      cases ret : m.ret with
      | none => rfl
      | some e => exact (move.failed e ret).elim
    have all := move.done ended
    obtain ⟨iob',call,advanced,memory⟩ := ioIobuf_run has ran (by omega)
    have count : min iob.resid ((t.node i).din.size - o) = m.alen := by omega
    refine ⟨m.alen,iob',m.ret,call,advanced,nofun,fun _ => ⟨rfl,?_,fun k out => ?_⟩,.refl t i⟩
    · rw [bytes_range,take_drop_range,start,count]
      refine map_congr_left fun k mem => ?_
      have cap := mem_range.mp mem
      rw [memory,fill,buf]
      change (if iob.base + k < iob.base then _ else _) = _
      rw [if_neg (by omega),Nat.add_sub_cancel_left,copy_inside (zero_le k) (by omega),Nat.sub_zero]
    rw [memory,fill,buf]
    change (if k < iob.base then _ else _) = _
    split
    next => rfl
    next high => rw [copy_outside (by omega),Nat.add_sub_cancel' (Nat.le_of_not_lt high)]

end Calls

structure IoCall where
  sin : Nat
  iob : Iobuf
  write : Bool

def IoCall.step (s : SfsFs) (c : IoCall) (t : SfsFs) : Prop :=
  InRange s c.sin c.iob ∧ ∃ r,sfsIoIobuf c.sin c.iob c.write s = .ok r t

lemma io_meets (filed : Filed s) (range : InRange s i iob) (write : Bool) :
    ∃ n iob' ret t,sfsIoIobuf i iob write s = .ok (iob',ret) t ∧ Transferred s t i write iob iob' ret n ∧ Filed t := by
  cases write with
  | true =>
    obtain ⟨n,iob',ret,t,call,moved,new,-⟩ := io_write filed range
    exact ⟨n,iob',ret,t,call,moved,new⟩
  | false =>
    obtain ⟨n,iob',ret,call,moved⟩ := io_read filed range
    exact ⟨n,iob',ret,s,call,moved,filed⟩

lemma ioStep_filed (filed : Filed s) (stepped : IoCall.step s c t) : Filed t := by
  obtain ⟨range,r,ran⟩ := stepped
  obtain ⟨n,_,_,u,call,-,new⟩ := io_meets filed range c.write
  rw [ran] at call
  cases call
  exact new

-- Whatever calls have gone before, on whatever files.
theorem sfs_io_refines_bytes (filed : Filed s) (path : Path IoCall.step s calls u) (range : InRange u i iob) (write : Bool) :
    ∃ n iob' ret t,sfsIoIobuf i iob write u = .ok (iob',ret) t ∧ Transferred u t i write iob iob' ret n := by
  have filed : Filed u := path.invariant (fun _ _ _ good next => ioStep_filed good next) filed
  obtain ⟨n,iob',ret,t,call,moved,-⟩ := io_meets filed range write
  exact ⟨n,iob',ret,t,call,moved⟩

-- A disk of 32 blocks: the root with one entry, in block 4, for the file 3, whose
-- 100 bytes stand in block 5.
def fileDisk : SfsFs where
  super := ⟨sfsMagic,32,26,fun _ => 0⟩
  dev := fun b => if b = 4 then entryBytes 3 nameA else zero
  dBlocks := 32
  freemap := smallMap 0xFFFFFFC0
  superDirty := true
  inodeList := [1,3]
  node := fun i =>
    if i = 3 then ⟨⟨100,0,sfsTypeFile,1,1,fun k => if k = 0 then 5 else 0,0,0⟩,true,false,1,1,0⟩
    else ⟨⟨1,1,sfsTypeDir,2,1,fun k => if k = 0 then 4 else 0,0,0⟩,true,false,1,1,0⟩
  heap := fun _ => true
  tick := 0
  inodes := [1,3]

lemma fileDisk_members (mem : i ∈ fileDisk.inodes) : i = 1 ∨ i = 3 := by simpa only [List.mem_cons,List.not_mem_nil,or_false] using (show i ∈ [1,3] from mem)

lemma fileDisk_own (p : Place) : fileDisk.own p =
    if p = (1,.self) then 1 else if p = (1,.leaf 0) then 4 else if p = (3,.self) then 3 else if p = (3,.leaf 0) then 5 else 0 := by
  obtain ⟨i,spot⟩ := p
  have leaf : ∀ (b idx : Nat) (din : DiskInode),din.direct = (fun k => if k = 0 then b else 0) → din.indirect = 0 → din.dbIndirect = 0 →
      leafBlock fileDisk.dev din idx = if idx = 0 then b else 0 := by
    intro b idx _ direct ind dbl
    simp only [leafBlock,direct,ind,dbl,entBlock_zero,ite_self,Fin.ext_iff]
    split
    next => rfl
    next high => rw [if_neg]; rintro rfl; exact high (by decide)
  by_cases mem : i ∈ fileDisk.inodes
  · rw [own_inode mem]
    obtain rfl | rfl := fileDisk_members mem
    · cases spot with
      | leaf idx => simpa [spotBlock] using leaf 4 idx (fileDisk.din 1) rfl rfl rfl
      | mid j => exact (entBlock_zero fileDisk.dev j).trans (by simp)
      | self | ind | dbl => rfl
    cases spot with
    | leaf idx => simpa [spotBlock] using leaf 5 idx (fileDisk.din 3) rfl rfl rfl
    | mid j => exact (entBlock_zero fileDisk.dev j).trans (by simp)
    | self | ind | dbl => rfl
  have rest : i ≠ 1 ∧ i ≠ 3 := ⟨fun eq => mem (eq ▸ by decide),fun eq => mem (eq ▸ by decide)⟩
  rw [own_none mem]
  simp [rest]

lemma fileDisk_bit (b : Nat) : fileDisk.freemap.bit b = decide (6 ≤ b ∧ b < 32) := by
  refine (smallMap_bit _ b).trans ?_
  by_cases low : b < 32
  · exact (by decide : ∀ b : Fin 32,(decide (b.1 < 32) && Nat.testBit 0xFFFFFFC0 b.1) = decide (6 ≤ b.1 ∧ b.1 < 32)) ⟨b,low⟩
  simp [low]

lemma fileDisk_fixed (b : Nat) : fileDisk.fixed b ↔ b = 0 ∨ b = 2 := by
  change b = 0 ∨ (2 ≤ b ∧ b < 2 + 1) ↔ _
  omega

lemma fileDisk_used (b : Nat) : fileDisk.used b ↔ b < 6 := by
  rw [used,fileDisk_bit,decide_eq_false_iff_not]
  change b < 32 ∧ _ ↔ _
  omega

lemma fileDisk_geometry : Geometry fileDisk where
  small := by decide
  device := by decide
  sound := smallMap_sound (by decide)
  bits := by decide
  inside b set := by
    rw [fileDisk_bit] at set
    exact (of_decide_eq_true set).2
  unused := by
    have free : fileDisk.freemap.free = Finset.Ico 6 32 := by
      ext b
      simp only [Bitmap.free,Finset.mem_filter,Finset.mem_range,fileDisk_bit,Finset.mem_Ico,decide_eq_true_eq]
      exact ⟨fun h => h.2,fun h => ⟨by change b < 32768; omega,h⟩⟩
    rw [free]
    rfl

lemma fileDisk_blocks : Blocks fileDisk (fun _ => False) where
  toGeometry := fileDisk_geometry
  exact := by
    refine ⟨fun b => ?_,fun p q held eq => ?_,fun p held base => ?_⟩
    · rw [fileDisk_used,fileDisk_fixed]
      constructor
      · intro _
        interval_cases b
        · exact .inl (.inl (.inl rfl))
        · exact .inr ⟨by decide,(1,.self),fileDisk_own _⟩
        · exact .inl (.inl (.inr rfl))
        · exact .inr ⟨by decide,(3,.self),fileDisk_own _⟩
        · exact .inr ⟨by decide,(1,.leaf 0),fileDisk_own _⟩
        exact .inr ⟨by decide,(3,.leaf 0),fileDisk_own _⟩
      rintro ((base | none_) | ⟨-,p,rfl⟩)
      · omega
      · exact none_.elim
      rw [fileDisk_own]
      split_ifs <;> decide
    · rw [fileDisk_own] at held
      rw [fileDisk_own,fileDisk_own] at eq
      split_ifs at held eq <;> simp_all
    rw [fileDisk_own] at held base
    rw [fileDisk_fixed] at base
    split_ifs at held base <;> simp_all
  mapped i mem idx := by
    have spot := fileDisk_own (i,.leaf idx)
    rw [own_inode mem] at spot
    change leafBlock _ _ idx = _ at spot
    rw [spot]
    obtain rfl | rfl := fileDisk_members mem
    · change _ ↔ idx < 1
      simp
    change _ ↔ idx < 1
    simp
  cached i listed := listed
  nonzero i mem := by obtain rfl | rfl := fileDisk_members mem <;> decide
  root := by decide

lemma fileDisk_filed : Filed fileDisk := by
  have only i : File fileDisk i → i = 3 := by
    intro file
    obtain rfl | rfl := fileDisk_members file.listed
    · exact absurd rfl file.kind
    rfl
  refine ⟨fileDisk_blocks,fun i file => ?_,fun i file => ?_,fun i file => ?_⟩
  all_goals obtain rfl := only i file
  all_goals decide

-- The write takes a second block.
def firstCall : IoCall := ⟨3,⟨fun k => UInt8.ofNat (k + 1),0,98,4000⟩,true⟩

lemma firstCall_range : InRange fileDisk firstCall.sin firstCall.iob := ⟨⟨by decide,by decide⟩,by decide,by decide,by decide⟩

def afterFirst : SfsFs :=
  match sfsIoIobuf firstCall.sin firstCall.iob firstCall.write fileDisk with
  | .ok _ t => t
  | _ => fileDisk

lemma firstCall_step : IoCall.step fileDisk firstCall afterFirst := by
  obtain ⟨n,iob',ret,t,ran,-⟩ := io_meets fileDisk_filed firstCall_range true
  refine ⟨firstCall_range,(iob',ret),?_⟩
  have ended : afterFirst = t := by rw [afterFirst,show firstCall.write = true from rfl,ran]
  rw [ended]
  exact ran

set_option maxRecDepth 100000 in
theorem sfs_io_refines_bytes_file : ∃ n iob' ret t,sfsIoIobuf 3 ⟨zero,0,90,20⟩ false afterFirst = .ok (iob',ret) t ∧
    Transferred afterFirst t 3 false ⟨zero,0,90,20⟩ iob' ret n := by
  have range : InRange afterFirst 3 ⟨zero,0,90,20⟩ := ⟨⟨by decide +kernel,by decide +kernel⟩,by decide,by decide +kernel,by decide⟩
  exact sfs_io_refines_bytes fileDisk_filed (.step .nil firstCall_step) range false

theorem io_blocks_accounted (filed : Filed s) (path : Path IoCall.step s calls t) :
    Accounted t ∧ ∀ i,File t i → (t.node i).din.size ≤ sfsBlksize * (t.node i).din.blocks := by
  have filed : Filed t := path.invariant (fun _ _ _ good next => ioStep_filed good next) filed
  exact ⟨filed.blocks.accounted,filed.sized⟩

theorem io_blocks_accounted_file : Accounted afterFirst ∧ (afterFirst.node 3).din.blocks = 2 :=
  ⟨(io_blocks_accounted fileDisk_filed (.step .nil firstCall_step)).1,by decide +kernel⟩

-- A disk of 33 * 32768 blocks with two files of one byte, 40 and 41. The block
-- of 40 is 2^20 blocks above the block of 41.
def wideDisk : SfsFs where
  super := ⟨sfsMagic,1081344,1081303,fun _ => 0⟩
  dev := fun b => if b = 43 then entryBytes 40 nameA else if b = 44 then entryBytes 41 nameB else zero
  dBlocks := 1081344
  freemap := ⟨1081344,0 :: 0xFFFFE0F8 :: (replicate 32767 0xFFFFFFFF ++ 0xFFFFFBFF :: replicate 1022 0xFFFFFFFF)⟩
  superDirty := true
  inodeList := [1,40,41]
  node := fun i => match i with
    | 40 => ⟨⟨1,0,sfsTypeFile,1,1,fun k => if k = 0 then 2^20 + 42 else 0,0,0⟩,true,false,1,1,0⟩
    | 41 => ⟨⟨1,0,sfsTypeFile,1,1,fun k => if k = 0 then 42 else 0,0,0⟩,true,false,1,1,0⟩
    | _ => ⟨⟨2,1,sfsTypeDir,2,2,fun k => if k = 0 then 43 else if k = 1 then 44 else 0,0,0⟩,true,false,1,1,0⟩
  heap := fun _ => true
  tick := 0
  inodes := [1,40,41]

def readByte (i : Nat) : SfsM UInt8 := do
  let r ← sfsIoIobuf i ⟨fun _ => 9,0,0,1⟩ false
  pure (r.1.memory 0)

def writeByte (i : Nat) (x : UInt8) : SfsM Unit := do
  let _ ← sfsIoIobuf i ⟨fun _ => x,0,0,1⟩ true

def gives [DecidableEq α] (o : Outcome Err Fault SfsFs α) (a : α) : Bool :=
  match o with
  | .ok b _ => decide (b = a)
  | _ => false

set_option maxRecDepth 100000 in
theorem wide_write_strays : gives (readByte 41 wideDisk) 0 = true ∧
    gives ((do writeByte 40 7; readByte 41 : SfsM UInt8) wideDisk) 7 = true := by decide +kernel
end Ucore.Sfs
