import Ucore.Lib.Runs

-- Packets to the driver OS (kern-river/proc/dos.c), on one CPU: sends, scans
-- and completions by the remote side, one after the other.
namespace Ucore.River.Dos

def sfUsed : Nat := 1
def sfValid : Nat := 2
def rfFinished : Nat := 2

-- offset_link is a uint16_t, the indices in the code are ints.
structure Packet where
  sourceFlags : Nat
  remoteFlags : Nat
  sourceLapic : Nat
  offsetLink : Nat
  priv : Nat
  args : List Nat

def blank : Packet := ⟨0,0,0,0,0,[]⟩
def Packet.finished (p : Packet) : Bool := p.remoteFlags &&& rfFinished ≠ 0

-- activated are the events dos_packet_handle activated. pending and owed are
-- kept beside the code: the packets sent and not yet handled, and the events
-- that the scans so far should have activated.
structure Port where
  buf : Int → Packet
  localHead : Int
  localLast : Int
  activated : List Nat
  pending : List Int
  owed : List Nat

def Port.set (s : Port) (idx : Int) (p : Packet) : Port := {s with buf:=fun i => if i = idx then p else s.buf i}

-- Both dos_packet_send and dos_packet_sendv, once dos_packet_alloc found idx.
def dosPacketSend (s : Port) (idx : Int) (lapic e : Nat) (args : List Nat) : Port :=
  let s := s.set idx {s.buf idx with sourceFlags:=sfUsed,priv:=e,args:=args,sourceLapic:=lapic,remoteFlags:=0}
  let s := if s.localLast ≠ -1 then s.set s.localLast {s.buf s.localLast with offsetLink:=idx.toNat % 2^16}
    else {s with localHead:=idx,localLast:=idx}
  s.set idx {s.buf idx with sourceFlags:=(s.buf idx).sourceFlags ||| sfValid}

def scanLoop (fin : Int) : Nat → Port → Int → Int → Option Port
  | 0,_,_,_ => none
  | fuel+1,s,cur,last =>
    if cur = -1 then some s
    else
      let next : Int := if cur = fin then -1 else (s.buf cur).offsetLink
      if (s.buf cur).finished then
        let s := {s with activated:=s.activated ++ [(s.buf cur).priv]}
        let s := if last ≠ -1 then s.set last {s.buf last with offsetLink:=(next % 2^16).toNat}
          else if next ≠ -1 then {s with localHead:=next}
          else if cur = s.localLast then {s with localHead:=-1,localLast:=-1}
          else {s with localHead:=(s.buf cur).offsetLink}
        scanLoop fin fuel (s.set cur blank) next last
      else scanLoop fin fuel s next cur

inductive Op where
  | send (idx : Int) (lapic e : Nat) (args : List Nat)
  | finish (idx : Int)
  | scan

-- dos_packet_alloc takes any slot whose source_flags are 0. The remote side
-- finishes valid packets. A scan of a chain that does not end does not return.
def Port.ready (cap : Nat) (s : Port) : Op → Prop
  | .send idx _ _ _ => 0 ≤ idx ∧ idx < cap ∧ (s.buf idx).sourceFlags = 0
  | .finish idx => (s.buf idx).sourceFlags &&& sfValid ≠ 0
  | .scan => (scanLoop s.localLast (cap + 1) s s.localHead (-1)).isSome
instance (cap : Nat) (s : Port) : (op : Op) → Decidable (s.ready cap op)
  | .send _ _ _ _ => inferInstanceAs (Decidable (_ ∧ _ ∧ _))
  | .finish _ => inferInstanceAs (Decidable (_ ≠ _))
  | .scan => inferInstanceAs (Decidable (_ = true))

def Port.act (cap : Nat) (s : Port) : Op → Port
  | .send idx lapic e args => {dosPacketSend s idx lapic e args with pending:=s.pending ++ [idx]}
  | .finish idx => s.set idx {s.buf idx with remoteFlags:=(s.buf idx).remoteFlags ||| rfFinished}
  | .scan =>
    {(scanLoop s.localLast (cap + 1) s s.localHead (-1)).getD s with
      pending:=s.pending.filter fun i => !(s.buf i).finished
      owed:=s.owed ++ (s.pending.filter fun i => (s.buf i).finished).map fun i => (s.buf i).priv}

def Port.Step (cap : Nat) (s : Port) (op : Op) (t : Port) : Prop := s.ready cap op ∧ t = s.act cap op
def Port.Init (s : Port) : Prop := s.localHead = -1 ∧ s.localLast = -1 ∧ s.activated = [] ∧ s.pending = [] ∧ s.owed = []

def Port.Chained (s : Port) : List Int → Prop
  | [] => s.localHead = -1 ∧ s.localLast = -1
  | first :: rest => s.localHead = first ∧ s.localLast = (first :: rest).getLast (by simp) ∧
      (first :: rest).IsChain fun a b => (s.buf a).offsetLink = b

-- The chain is the packets sent and not handled, whose slots are taken; the
-- events activated are those owed; and the next scan comes to an end and makes the
-- slots of the finished packets ready to be sent again.
structure Kept (cap : Nat) (s : Port) : Prop where
  chain : s.Chained s.pending
  told : s.activated = s.owed
  held : ∀ i ∈ s.pending,(s.buf i).sourceFlags ≠ 0
  ends : s.ready cap .scan
  freed : ∀ i ∈ s.pending,(s.buf i).finished = true → ∀ lapic e args,(s.act cap .scan).ready cap (.send i lapic e args)

def Op.crowds (s : Port) : Op → Bool
  | .send _ _ _ _ => s.localLast ≠ -1
  | _ => false

structure Single (cap : Nat) (s : Port) : Prop where
  chain : s.Chained s.pending
  told : s.activated = s.owed
  held : ∀ i ∈ s.pending,(s.buf i).sourceFlags ≠ 0
  few : s.pending = [] ∨ ∃ i,s.pending = [i] ∧ 0 ≤ i ∧ i < cap

lemma Single.scan (lone : Single cap s) : ∃ t,scanLoop s.localLast (cap + 1) s s.localHead (-1) = some t ∧ Single cap (s.act cap .scan) ∧
    ∀ i ∈ s.pending,(s.buf i).finished = true → ∀ lapic e args,(s.act cap .scan).ready cap (.send i lapic e args) := by
  obtain ⟨chain,told,held,few⟩ := lone
  rcases few with none | ⟨i,one,low,high⟩
  · rw [none] at chain
    have ran : scanLoop s.localLast (cap + 1) s s.localHead (-1) = some s := by rw [scanLoop,if_pos chain.1]
    refine ⟨s,ran,?_,by simp [none]⟩
    unfold Port.act
    rw [ran]
    simp only [none,List.filter_nil,List.map_nil,List.append_nil,Option.getD_some]
    exact ⟨chain,told,by simp,.inl rfl⟩
  rw [one] at chain
  obtain ⟨head,last,_⟩ := chain
  change s.localLast = i at last
  obtain ⟨more,rfl⟩ : ∃ more,cap = more + 1 := ⟨cap - 1,by omega⟩
  have here : i ≠ -1 := by omega
  cases done : (s.buf i).finished with
  | false =>
    have ran : scanLoop s.localLast (more + 1 + 1) s s.localHead (-1) = some s := by simp [scanLoop,head,last,here,done]
    refine ⟨s,ran,?_,by simp [one,done]⟩
    unfold Port.act
    rw [ran]
    simp only [one,List.filter,done,List.map_nil,List.append_nil,Option.getD_some]
    exact ⟨⟨head,last,.singleton i⟩,told,by simpa [one] using held,.inr ⟨i,rfl,low,high⟩⟩
  | true =>
    have ran : scanLoop s.localLast (more + 1 + 1) s s.localHead (-1) =
        some ({s with activated:=s.activated ++ [(s.buf i).priv],localHead:=-1,localLast:=-1}.set i blank) := by
      simp [scanLoop,head,last,here,done]
    refine ⟨_,ran,?_⟩
    unfold Port.act
    rw [ran]
    simp only [one,List.filter,done,Option.getD_some,List.mem_singleton,forall_eq]
    exact ⟨⟨⟨rfl,rfl⟩,by rw [← told]; rfl,by simp,.inl rfl⟩,fun _ _ _ _ => ⟨low,high,by simp [Port.set,blank]⟩⟩

lemma Single.step (lone : Single cap s) (next : s.Step cap op t) (calm : op.crowds s = false) : Single cap t := by
  obtain ⟨ready,rfl⟩ := next
  cases op with
  | send idx lapic e args =>
    obtain ⟨low,high,_⟩ := ready
    have last : s.localLast = -1 := by simpa [Op.crowds] using calm
    have empty : s.pending = [] := by
      rcases lone.few with none | ⟨i,one,low,_⟩
      · exact none
      have chain := lone.chain
      rw [one] at chain
      have : s.localLast = i := chain.2.1
      omega
    have sent : s.act cap (.send idx lapic e args) = {s with
        buf:=fun i => if i = idx then ⟨3,0,lapic,(s.buf idx).offsetLink,e,args⟩ else s.buf i
        localHead:=idx,localLast:=idx,pending:=[idx]} := by
      simp only [Port.act,dosPacketSend,Port.set,last,empty,ne_eq,not_true_eq_false,if_false,if_true,List.nil_append]
      congr 1
      funext i
      split <;> rfl
    rw [sent]
    refine ⟨⟨rfl,rfl,.singleton idx⟩,lone.told,?_,.inr ⟨idx,rfl,low,high⟩⟩
    intro i mem
    rw [List.mem_singleton.mp mem]
    simp
  | finish idx =>
    have flags i : ((s.act cap (.finish idx)).buf i).sourceFlags = (s.buf i).sourceFlags := by
      simp only [Port.act,Port.set]
      split
      · next eq => rw [eq]
      rfl
    refine ⟨?_,lone.told,fun i mem => by rw [flags]; exact lone.held i mem,lone.few⟩
    have chain := lone.chain
    rcases lone.few with none | ⟨i,one,_⟩
    · change Port.Chained _ s.pending
      rw [none] at chain ⊢
      exact chain
    change Port.Chained _ s.pending
    rw [one] at chain ⊢
    exact ⟨chain.1,chain.2.1,.singleton i⟩
  | scan => exact lone.scan.choose_spec.2.1

-- As long as a packet is sent only when none is out, none is lost.
theorem dos_packets_kept (cap : Nat) (s t : Port) (labels : List Op) (init : s.Init)
    (path : Runs.Path (fun s op t => s.Step cap op t ∧ op.crowds s = false) s labels t) : Kept cap t := by
  obtain ⟨head,last,activated,pending,owed⟩ := init
  have first : Single cap s := ⟨by rw [pending]; exact ⟨head,last⟩,by rw [activated,owed],by simp [pending],.inl pending⟩
  have single : Single cap t := path.invariant (fun _ _ _ single next => single.step next.1 next.2) first
  obtain ⟨u,ran,_,freed⟩ := single.scan
  refine ⟨single.chain,single.told,single.held,?_,freed⟩
  change (scanLoop _ _ _ _ _).isSome = true
  rw [ran]
  rfl

def idlePort : Port := ⟨fun _ => blank,-1,-1,[],[],[]⟩

theorem dos_packets_kept_one : ∃ t,t.activated = [7] ∧ (t.buf 3).sourceFlags = 0 ∧ Kept 8 t := by
  have path : ∃ labels t,Runs.Path (fun s op t => s.Step 8 op t ∧ Op.crowds s op = false) idlePort labels t ∧ t.activated = [7] ∧
      (t.buf 3).sourceFlags = 0 :=
    ⟨_,_,.step (a := Op.scan) (.step (a := Op.finish 3) (.step (a := Op.send 3 0 7 []) .nil ⟨⟨by decide,rfl⟩,rfl⟩)
      ⟨⟨by decide,rfl⟩,rfl⟩) ⟨⟨by decide,rfl⟩,rfl⟩,by decide,by decide⟩
  obtain ⟨labels,t,path,activated,free⟩ := path
  exact ⟨t,activated,free,dos_packets_kept 8 idlePort t labels ⟨rfl,rfl,rfl,rfl,rfl⟩ path⟩

-- The last packet stays the first one sent, so the second is never looked at:
-- its event is not activated and its slot not given back.
theorem dos_second_packet_lost : ∃ t,Runs.exec (Port.ready 8) (Port.act 8) idlePort
      [.send 3 0 7 [],.send 5 0 9 [],.finish 5,.finish 3,.scan,.scan] = some t ∧
    t.owed = [7,9] ∧ t.activated = [7] ∧ t.localHead = -1 ∧ (t.buf 5).sourceFlags = 3 := by
  refine ⟨_,rfl,?_⟩
  decide +kernel

end Ucore.River.Dos
