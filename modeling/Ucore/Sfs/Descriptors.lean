import Ucore.Sfs.Truncate

-- file.c: the descriptors on one file, in any number of processes.
namespace Ucore.Sfs
open Bytes Outcomes Runs

structure Fds where
  fs : SfsFs
  pos : Nat → Option Nat

inductive FdCall where
  | io (memory : Buf) (len : Nat) (write : Bool)
  | seek (pos : Int)
  | reopen (trunc append : Bool)
  | close

-- What a call through a descriptor at p does, and where it leaves the descriptor;
-- pos is what file_seek makes of whence.
def FdCall.act (node p : Nat) : FdCall → SfsM (Option Nat)
  | .io memory len write => do
    let r ← sfsIoIobuf node ⟨memory,0,p,len⟩ write
    pure (some (p + (len - r.1.resid)))
  | .seek pos => do
    sfsTryseek node pos
    pure (some pos.toNat)
  | .reopen trunc append => do
    when trunc (sfsTruncfile node 0)
    let s ← state
    pure (some (if append then (s.node node).din.size else 0))
  | .close => pure none

-- sysfile.c moves at most 4096 bytes at once. The file is not truncated while a
-- descriptor stands behind its start.
def FdCall.Fits (d : Fds) : FdCall → Prop
  | .io _ len _ => len ≤ 4096
  | .reopen trunc _ => trunc = true → ∀ k p,d.pos k = some p → p = 0
  | _ => True

structure Safe (node : Nat) (pos : Nat → Option Nat) (s : SfsFs) : Prop where
  filed : Filed s
  file : File s node
  inside : ∀ k p,pos k = some p → p ≤ (s.node node).din.size

-- A call through c.1, which is open, or free and about to be opened.
def FdCall.step (node : Nat) (d : Fds) (c : Nat × FdCall) (e : Fds) : Prop :=
  c.2.Fits d ∧ ∃ p,(d.pos c.1 = some p ∨ p = 0) ∧ ((∃ err,c.2.act node p d.fs = .err err e.fs ∧ e.pos = d.pos) ∨
    ∃ q,c.2.act node p d.fs = .ok q e.fs ∧ e.pos = Function.update d.pos c.1 q)

section Safe
variable {s t : SfsFs} {pos : Nat → Option Nat} {node : Nat}

lemma Safe.grow (safe : Safe node pos s) (filed : Filed t) (file : File t node) (more : (s.node node).din.size ≤ (t.node node).din.size) :
    Safe node pos t := ⟨filed,file,fun k p got => (safe.inside k p got).trans more⟩

lemma Safe.truncate (safe : Safe node pos s) (len : Int) :
    (sfsTruncfile node len s).Meets (fun _ t => Filed t ∧ File t node ∧ (t.node node).din.size = len.toNat) (fun _ => Safe node pos)
      fun f => f = .truncSize := by
  refine (truncfile_filed safe.filed safe.file len).mono (fun _ _ done => ⟨done.1,done.2.1,done.2.2.1⟩) (fun _ t failed => ?_) fun _ => And.left
  obtain rfl | ⟨-,filed,file,size⟩ := failed
  · exact safe
  exact safe.grow filed file size.ge

lemma Safe.io (safe : Safe node pos s) (inside : p ≤ (s.node node).din.size) (short : len ≤ 4096) (memory : Buf) (write : Bool) :
    (sfsIoIobuf node ⟨memory,0,p,len⟩ write s).Meets (fun r t => Safe node pos t ∧ p + (len - r.1.resid) ≤ (t.node node).din.size)
      (fun _ _ => False) fun _ => False := by
  have capped := safe.filed.capped node safe.file
  have most : sfsMaxFileSize < 2^32 := by decide
  have range : InRange s node ⟨memory,0,p,len⟩ := ⟨safe.file,by dsimp only; omega,by dsimp only; omega,by dsimp only; omega⟩
  cases write with
  | true =>
    obtain ⟨n,iob,ret,t,call,moved,filed,file,-⟩ := io_write safe.filed range
    have size : (t.node node).din.size = max (s.node node).din.size (p + n) := (moved.put rfl).size
    have resid : iob.resid + n = len := moved.advanced.resid
    rw [call]
    exact ⟨safe.grow filed file (by omega),by dsimp only; omega⟩
  | false =>
    obtain ⟨n,iob,_,call,moved⟩ := io_read safe.filed range
    have bytes := congrArg List.length (moved.got rfl).data
    have resid : iob.resid + n = len := moved.advanced.resid
    simp only [Iobuf.data,List.length_map,List.length_range,List.length_take,List.length_drop,SfsFs.bytes,Int.toNat_natCast] at bytes
    rw [call]
    exact ⟨safe,by dsimp only; omega⟩

lemma Safe.seek (safe : Safe node pos s) (len : Int) :
    (sfsTryseek node len s).Meets (fun _ t => Safe node pos t ∧ len.toNat ≤ (t.node node).din.size) (fun _ => Safe node pos) fun f => f = .truncSize := by
  unfold sfsTryseek
  rw [ite_run]
  refine .ite (fun _ => safe) fun _ => ?_
  simp only [rules,ite_run]
  refine .ite (fun beyond => ?_) fun within => ⟨safe,by omega⟩
  refine (safe.truncate len).mono (fun _ t done => ?_) (fun _ _ => id) fun _ => id
  obtain ⟨filed,file,_⟩ := done
  exact ⟨safe.grow filed file (by omega),by omega⟩

lemma Safe.call (safe : Safe node d.pos d.fs) (c : FdCall) (fits : c.Fits d) (inside : p ≤ (d.fs.node node).din.size) :
    (c.act node p d.fs).Meets (fun q t => Safe node d.pos t ∧ ∀ k ∈ q,k ≤ (t.node node).din.size) (fun _ => Safe node d.pos)
      fun f => f = .truncSize ∧ ∀ memory len write,c ≠ .io memory len write := by
  cases c with
  | io memory _ write => exact (safe.io inside fits memory write).next (fun _ _ done => ⟨done.1,by rintro _ ⟨⟩; exact done.2⟩) nofun nofun
  | seek pos => exact (safe.seek pos).next (fun _ _ done => ⟨done.1,by rintro _ ⟨⟩; exact done.2⟩) (fun _ _ => id) fun _ eq => ⟨eq,nofun⟩
  | reopen trunc _ =>
    have cut : (when trunc (sfsTruncfile node 0) d.fs).Meets (fun _ => Safe node d.pos) (fun _ => Safe node d.pos) fun f => f = .truncSize := by
      cases trunc with
      | false => exact safe
      | true =>
        refine (safe.truncate 0).mono (fun _ t done => ⟨done.1,done.2.1,fun k p got => ?_⟩) (fun _ _ => id) fun _ => id
        rw [fits rfl k p got]
        exact Nat.zero_le _
    refine cut.next (fun _ t safe => ⟨safe,?_⟩) (fun _ _ => id) fun _ eq => ⟨eq,nofun⟩
    rintro _ ⟨⟩
    split <;> omega
  | close => exact ⟨safe,nofun⟩

lemma Safe.step (safe : Safe node d.pos d.fs) (stepped : FdCall.step node d c e) : Safe node e.pos e.fs := by
  obtain ⟨fits,p,at_,ended⟩ := stepped
  have met := safe.call c.2 fits (at_.elim (safe.inside c.1 p) fun none => none ▸ Nat.zero_le _)
  obtain ⟨_,ran,eq⟩ | ⟨q,ran,moved⟩ := ended
  all_goals rw [ran] at met
  · exact eq ▸ met
  refine ⟨met.1.filed,met.1.file,fun k p got => ?_⟩
  rw [moved] at got
  rcases eq_or_ne k c.1 with rfl | ne
  · exact met.2 p (by simpa using got)
  exact met.1.inside k p (by simpa [ne] using got)

end Safe

def fileFds : Fds := ⟨fileDisk,fun _ => some 98⟩

end Ucore.Sfs
