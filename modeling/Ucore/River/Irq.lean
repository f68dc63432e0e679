import Ucore.Lib.Runs

-- Interrupt lines of one CPU (kern-river/trap/trap.c): trap_dispatch, irq_process
-- and the soft mask of each process.
namespace Ucore.River.Irq
open Runs Function

-- 1 << irq_no is an int, widened to the 64 bits of irq_mask.
def bit (irq : Nat) : BitVec 64 := (1#32 <<< irq).signExtend 64

-- bound: the vector of the line leads to trap_dispatch. given is the sum of the
-- counts passed to the handler of a line.
structure Lines where
  mask : BitVec 64
  accumulate : Nat → Nat
  handler : Nat → Bool
  bound : Nat → Bool
  given : Nat → Nat

def Lines.raise (s : Lines) (irq : Nat) : Lines :=
  {s with mask:=s.mask ||| bit irq,accumulate:=update s.accumulate irq ((s.accumulate irq + 1) % 2^64)}

-- bsr of the mask.
def Lines.irqNo (s : Lines) : Nat := s.mask.toNat.log2

def Lines.turn (s : Lines) : Lines :=
  if s.handler s.irqNo then {s with mask:=s.mask ^^^ bit s.irqNo,accumulate:=update s.accumulate s.irqNo 0,given:=update s.given s.irqNo (s.given s.irqNo + s.accumulate s.irqNo)}
  else {s with mask:=s.mask ^^^ bit s.irqNo}

def Lines.handlerSet (s : Lines) (irq : Nat) (handler : Bool) : Lines :=
  {s with bound:=update s.bound irq true,handler:=update s.handler irq handler,mask:=if s.accumulate irq ≠ 0 then s.mask ||| bit irq else s.mask}

-- looping: inside irq_process; handling: in a handler, with interrupts enabled.
structure Cpu extends Lines where
  current : Nat
  level : Nat → Nat
  looping : Nat → Bool
  handling : Nat → Bool

inductive Event where
  | interrupt (irq : Nat)
  | turn
  | back
  | leave (next : Nat)
  | save
  | restore
  | lower
  | schedule (next : Nat)
  | handlerSet (irq : Nat) (handler : Bool)
deriving DecidableEq

def Cpu.process (s : Cpu) : Cpu := {s with looping:=update s.looping s.current true,handling:=update s.handling s.current false}

-- leave ends irq_process with proc_schedule; the level is lowered when the
-- process is back.
def Cpu.act (s : Cpu) : Event → Cpu
  | .interrupt irq =>
    let t : Cpu := {s with toLines:=s.raise irq}
    if s.level s.current = 0 then Cpu.process {t with level:=update s.level s.current 1} else t
  | .turn => {s with toLines:=s.toLines.turn,handling:=update s.handling s.current (s.handler s.irqNo)}
  | .back => {s with handling:=update s.handling s.current false}
  | .leave next => {s with looping:=update s.looping s.current false,current:=next}
  | .save => {s with level:=update s.level s.current (s.level s.current + 1)}
  | .restore => if s.level s.current = 1 ∧ s.mask ≠ 0 then s.process else {s with level:=update s.level s.current (s.level s.current - 1)}
  | .lower => {s with level:=update s.level s.current (s.level s.current - 1)}
  | .schedule next => {s with current:=next}
  | .handlerSet irq handler => {s with toLines:=s.toLines.handlerSet irq handler}

-- Interrupts are disabled in irq_process but for the handlers.
def Cpu.Enabled (s : Cpu) : Event → Prop
  | .interrupt irq => s.bound irq = true ∧ (s.looping s.current = false ∨ s.handling s.current = true)
  | .turn => s.looping s.current = true ∧ s.handling s.current = false ∧ s.mask ≠ 0
  | .back => s.handling s.current = true
  | .leave _ => s.looping s.current = true ∧ s.handling s.current = false ∧ s.mask = 0
  | _ => s.looping s.current = false ∨ s.handling s.current = true

def Cpu.Step (s : Cpu) (e : Event) (t : Cpu) : Prop := s.Enabled e ∧ t = s.act e

def Event.Below (n : Nat) : Event → Prop
  | .interrupt irq => irq < n
  | .handlerSet irq _ => irq < n
  | _ => True

-- The events that can set a bit of the mask.
def Event.raises : Event → Bool
  | .interrupt _ => true
  | .handlerSet _ _ => true
  | _ => false

def boot : Cpu := ⟨⟨0,fun _ => 0,fun _ => false,fun _ => false,fun _ => 0⟩,0,fun _ => 0,fun _ => false,fun _ => false⟩

def Lines.pending (s : Lines) : Finset Nat := (Finset.range 64).filter fun k => s.mask.getLsbD k

lemma Lines.mem_pending {s : Lines} : k ∈ s.pending ↔ s.mask.getLsbD k = true := by
  simp only [Lines.pending,Finset.mem_filter,Finset.mem_range,and_iff_right_iff_imp]
  exact BitVec.lt_of_getLsbD

lemma bit_lsb (low : i < 31) (k : Nat) : (bit i).getLsbD k = decide (k = i) := by
  have pow : bit i = BitVec.twoPow 64 i := by decide +revert
  rw [pow,BitVec.getLsbD_twoPow]
  rcases eq_or_ne k i with rfl | ne
  · simp only [decide_true,Bool.and_true,decide_eq_true_eq]
    omega
  simp [ne,ne.symm]

structure Law (s : Lines) (events : List Event) : Prop where
  bits : ∀ k ∈ s.pending,k < 31 ∧ s.accumulate k ≠ 0
  count : ∀ i,s.given i + s.accumulate i = events.count (.interrupt i)
  turns : events.count .turn + s.pending.card ≤ events.countP Event.raises

section
variable {s t : Lines} {events : List Event}

lemma pending_or (low : i < 31) (mask : t.mask = s.mask ||| bit i) : t.pending = insert i s.pending := by
  ext k
  rw [Finset.mem_insert,Lines.mem_pending,Lines.mem_pending,mask,BitVec.getLsbD_or,bit_lsb low]
  simp [or_comm]

lemma pending_xor (low : i < 31) (mem : i ∈ s.pending) (mask : t.mask = s.mask ^^^ bit i) : t.pending = s.pending.erase i := by
  ext k
  have set := Lines.mem_pending.mp mem
  rw [Finset.mem_erase,Lines.mem_pending,Lines.mem_pending,mask,BitVec.getLsbD_xor,bit_lsb low]
  by_cases eq : k = i
  · subst eq
    simp [set]
  simp [eq]

lemma irqNo_pending (some : s.mask ≠ 0) : s.irqNo ∈ s.pending :=
  Lines.mem_pending.mpr (Nat.testBit_log2 fun zero => some (BitVec.eq_of_toNat_eq zero))

lemma Law.raise (law : Law s events) (low : i < 31) (few : events.count (.interrupt i) + 1 < 2^64) : Law (s.raise i) (events ++ [.interrupt i]) := by
  have small : s.accumulate i + 1 < 18446744073709551616 := by
    have := law.count i
    omega
  refine ⟨fun k mem => ?_,fun j => ?_,?_⟩
  · rw [pending_or low rfl,Finset.mem_insert] at mem
    rcases eq_or_ne k i with rfl | ne
    · exact ⟨low,by simp [Lines.raise,Nat.mod_eq_of_lt small]⟩
    simpa [Lines.raise,ne] using law.bits k (mem.resolve_left ne)
  · rw [List.count_append,← law.count j]
    rcases eq_or_ne j i with rfl | ne
    · simp [Lines.raise,Nat.mod_eq_of_lt small,add_assoc]
    simp [Lines.raise,ne,ne.symm]
  have card := Finset.card_insert_le i s.pending
  have turns := law.turns
  rw [pending_or low rfl,List.count_append,List.countP_append]
  simp [Event.raises]
  omega

lemma Law.turn (law : Law s events) (some : s.mask ≠ 0) : Law s.turn (events ++ [.turn]) := by
  have mem := irqNo_pending some
  obtain ⟨low,_⟩ := law.bits _ mem
  have mask : s.turn.mask = s.mask ^^^ bit s.irqNo := by
    unfold Lines.turn
    split <;> rfl
  have left := pending_xor low mem mask
  have rest : ∀ k ≠ s.irqNo,s.turn.accumulate k = s.accumulate k := fun k ne => by
    unfold Lines.turn
    split
    · exact update_of_ne ne _ _
    rfl
  have total (j : Nat) : s.turn.given j + s.turn.accumulate j = s.given j + s.accumulate j := by
    unfold Lines.turn
    split
    · rcases eq_or_ne j s.irqNo with rfl | ne
      · simp
      simp [ne]
    rfl
  refine ⟨fun k kept => ?_,fun j => ?_,?_⟩
  · rw [left,Finset.mem_erase] at kept
    rw [rest k kept.1]
    exact law.bits k kept.2
  · rw [total,law.count,List.count_append]
    simp
  have card := Finset.card_erase_add_one mem
  have turns := law.turns
  rw [left,List.count_append,List.countP_append]
  simp [Event.raises]
  omega

lemma Law.handlerSet (law : Law s events) (low : i < 31) (h : Bool) : Law (s.handlerSet i h) (events ++ [.handlerSet i h]) := by
  have grown : (s.handlerSet i h).pending = if s.accumulate i ≠ 0 then insert i s.pending else s.pending := by
    split
    next some => exact pending_or low (if_pos some)
    next none => rw [Lines.pending,show (s.handlerSet i h).mask = s.mask from if_neg none,Lines.pending]
  refine ⟨fun k mem => ?_,fun j => ?_,?_⟩
  · rw [grown] at mem
    split at mem
    next some =>
      rcases Finset.mem_insert.mp mem with rfl | old
      · exact ⟨low,some⟩
      exact law.bits k old
    exact law.bits k mem
  · rw [List.count_append]
    exact (law.count j).trans (by simp)
  have card := Finset.card_insert_le i s.pending
  have turns := law.turns
  rw [grown,List.count_append,List.countP_append]
  simp [Event.raises]
  split <;> omega

-- Every other event leaves the lines alone.
lemma Law.still (law : Law s events) (calm : e.raises = false) (other : e ≠ .turn) : Law s (events ++ [e]) := by
  refine ⟨law.bits,fun j => ?_,?_⟩
  · have ne : e ≠ .interrupt j := by
      rintro rfl
      cases calm
    simpa [List.count_append,ne] using law.count j
  simpa [List.count_append,calm,other] using law.turns

end

lemma Law.act {s : Cpu} (law : Law s.toLines events) (may : s.Enabled e) (below : e.Below 31) (few : ∀ i,(events ++ [e]).count (.interrupt i) < 2^64) :
    Law (s.act e).toLines (events ++ [e]) := by
  cases e with
  | interrupt i =>
    have raised := law.raise below (by simpa using few i)
    unfold Cpu.act
    dsimp only
    split <;> exact raised
  | turn => exact law.turn may.2.2
  | handlerSet i h => exact law.handlerSet below h
  | restore =>
    have kept := law.still (e:=.restore) rfl (by decide)
    unfold Cpu.act
    dsimp only
    split <;> exact kept
  | _ => exact law.still rfl (by simp)

theorem interrupts_counted (path : Path Cpu.Step boot events s) (lines : ∀ e ∈ events,e.Below 31) (few : ∀ i,events.count (.interrupt i) < 2^64) :
    (∀ i,s.given i + s.accumulate i = events.count (.interrupt i)) ∧ (s.mask ≠ 0 → s.irqNo < 32) ∧
      events.count .turn ≤ events.countP Event.raises := by
  suffices law : Law s.toLines events from
    ⟨law.count,fun some => (law.bits _ (irqNo_pending some)).1.trans (by decide),by have := law.turns; omega⟩
  induction path with
  | nil => exact ⟨fun k mem => absurd (Lines.mem_pending.mp mem) (by simp [boot]),fun _ => rfl,by decide⟩
  | step _ moved ih =>
    obtain ⟨enabled,rfl⟩ := moved
    refine (ih (fun e mem => lines e (List.mem_append_left _ mem)) fun i => ?_).act enabled (lines _ (List.mem_append_right _ List.mem_cons_self)) few
    exact (List.Sublist.count_le _ (List.sublist_append_left _ _)).trans_lt (few i)

-- A second interrupt comes while the handler runs on the first.
theorem interrupts_counted_nested : ∃ events s,Path Cpu.Step boot events s ∧ events.count .turn = 1 ∧ s.irqNo < 32 ∧
    s.given 3 + s.accumulate 3 = events.count (.interrupt 3) := by
  have path : Path Cpu.Step boot ((([] ++ [.handlerSet 3 true]) ++ [.interrupt 3]) ++ [.turn] ++ [.interrupt 3]) _ :=
    .step (.step (.step (.step .nil ⟨.inl rfl,rfl⟩) ⟨⟨rfl,.inl rfl⟩,rfl⟩) ⟨⟨rfl,rfl,by decide⟩,rfl⟩) ⟨⟨rfl,.inr rfl⟩,rfl⟩
  obtain ⟨count,low,_⟩ := interrupts_counted path (by simp [Event.Below]) fun i => List.count_le_length.trans_lt (by decide)
  exact ⟨_,_,path,by decide,low (by decide),count 3⟩

-- 1 << 31 is negative: the highest bit of the mask is then bit 63.
theorem line_out_of_range : ∃ s,Path Cpu.Step boot [.handlerSet 31 true,.interrupt 31] s ∧ s.Enabled .turn ∧ s.irqNo = 63 :=
  ⟨_,.step (.step .nil ⟨.inl rfl,rfl⟩) ⟨⟨rfl,.inl rfl⟩,rfl⟩,⟨rfl,rfl,by decide⟩,by decide⟩

end Ucore.River.Irq
