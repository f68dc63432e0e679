import Ucore.Pipe.State

-- A pipe is a bounded queue of bytes: what readers get is what writers put in, in order,
-- and nobody sleeps who could go on.
namespace Ucore.Pipes
open Runs Sync Pipe Ucore.Pipes.System
open Bool (false_eq_true)
open Prod (snd)
open List hiding isEmpty

structure Pipe.Holds (p : Pipe) (acc : List UInt8) : Prop where
  low : p.rpos ≤ p.wpos
  span : p.wpos ≤ p.rpos + bufSize
  count : p.wpos = acc.length
  small : acc.length < 2^63
  content : ∀ i,p.rpos ≤ i → i < p.wpos → acc[i]? = some (p.buf (i % bufSize))

namespace Pipe.Holds

section Buffer
variable {p : Pipe} {acc : List UInt8}

lemma size (holds : p.Holds acc) : p.size = p.wpos - p.rpos := by
  have low := holds.low
  have count := holds.count
  have small := holds.small
  unfold Pipe.size
  omega

lemma isFull (holds : p.Holds acc) : p.isFull = true ↔ p.wpos = p.rpos + bufSize := by
  have low := holds.low
  have span := holds.span
  unfold Pipe.isFull
  rw [holds.size,decide_eq_true_iff]
  omega

-- One byte goes in: it overwrites no byte that is still to be read.
lemma push (holds : p.Holds acc) (space : p.isFull = false) (more : acc.length + 1 < 2^63) (b : UInt8) :
    Pipe.Holds {p with buf:=put p.buf (p.wpos % bufSize) b,wpos:=(p.wpos + 1) % 2^64} (acc ++ [b]) := by
  have low := holds.low
  have span := holds.span
  have count := holds.count
  have room : p.wpos ≠ p.rpos + bufSize := fun full => by simp [holds.isFull.mpr full] at space
  have next : (p.wpos + 1) % 2^64 = p.wpos + 1 := by omega
  refine ⟨?_,?_,?_,by simpa using more,fun i above below => ?_⟩
  · dsimp only
    omega
  · dsimp only
    omega
  · simp only [length_append,length_singleton]
    omega
  dsimp only at above below ⊢
  rcases eq_or_ne i p.wpos with rfl | _
  · rw [put_same,count]
    simp
  have old : i < p.wpos := by omega
  have ne : i % bufSize ≠ p.wpos % bufSize := by
    unfold bufSize at *
    omega
  rw [put_other ne,List.getElem?_append_left (by omega)]
  exact holds.content i above old

lemma fill (rest : List UInt8) : ∀ {p : Pipe} {acc : List UInt8},p.Holds acc → acc.length + rest.length < 2^63 →
    (p.fill rest).1.Holds (acc ++ rest.take (p.fill rest).2) ∧ (p.fill rest).2 ≤ rest.length ∧ (p.fill rest).1.rpos = p.rpos ∧
      ((p.fill rest).2 < rest.length → (p.fill rest).1.isFull = true) ∧ ((p.fill rest).2 = 0 ∨ p.isFull = false) ∧ ((p.fill rest).2 = 0 → (p.fill rest).1 = p) ∧
      (p.fill rest).1.isclosed = p.isclosed ∧ (p.fill rest).1.readers = p.readers ∧ (p.fill rest).1.writers = p.writers := by
  induction rest with
  | nil =>
    intro p acc holds _
    simpa [Pipe.fill] using holds
  | cons b _ ih =>
    intro p _ holds small
    rw [length_cons] at small
    unfold Pipe.fill
    by_cases full : p.isFull = true
    · simpa [full] using holds
    have space : p.isFull = false := by simpa using full
    have pushed := holds.push space (by omega) b
    obtain ⟨held,_,rpos,stops,_,_,shut,readers,writers⟩ := ih pushed (by simp only [length_append,length_singleton]; omega)
    simp only [space,false_eq_true,if_false,length_cons,take_succ_cons,Nat.add_lt_add_iff_right,Nat.succ_ne_zero,or_true,false_imp_iff,true_and]
    rw [append_assoc,singleton_append] at held
    exact ⟨held,by omega,rpos,stops,shut,readers,writers⟩

lemma drain (n : Nat) : ∀ {p : Pipe} {acc : List UInt8},p.Holds acc →
    (p.drain n).1.Holds acc ∧ acc.take (p.drain n).1.rpos = acc.take p.rpos ++ (p.drain n).2 ∧ ((p.drain n).2 = [] → (p.drain n).1 = p) ∧
      (p.drain n).1.isclosed = p.isclosed ∧ (p.drain n).1.readers = p.readers ∧ (p.drain n).1.writers = p.writers := by
  induction n with
  | zero =>
    intro p acc holds
    simpa [Pipe.drain] using holds
  | succ n ih =>
    intro p acc holds
    unfold Pipe.drain
    by_cases empty : p.isEmpty = true
    · simpa [empty] using holds
    have ne : p.rpos ≠ p.wpos := by simpa [isEmpty] using empty
    have low := holds.low
    have count := holds.count
    have small := holds.small
    have next : (p.rpos + 1) % 2^64 = p.rpos + 1 := by omega
    have popped : Pipe.Holds {p with rpos:=(p.rpos + 1) % 2^64} acc := by
      have span := holds.span
      refine ⟨?_,?_,count,small,fun i above below => holds.content i ?_ below⟩
      · dsimp only
        omega
      · dsimp only
        omega
      dsimp only at above
      omega
    obtain ⟨held,took,_,shut,readers,writers⟩ := ih popped
    have here := holds.content p.rpos le_rfl (by omega)
    simp only [empty,false_eq_true,if_false,reduceCtorEq,false_imp_iff,true_and]
    refine ⟨held,?_,shut,readers,writers⟩
    rw [took]
    dsimp only
    rw [next,take_add_one,here,append_assoc]
    rfl

end Buffer

end Pipe.Holds

def System.isReading (s : System) (t : Nat) : Prop := ∃ n,s.stage t = .reading n

def System.isWriting (s : System) (t : Nat) : Prop := ∃ data moved,s.stage t = .writing data moved

def Stage.moved : Stage → List UInt8
  | .writing data moved => data.take moved
  | _ => []

def System.bytes (s : System) : List UInt8 := s.accepted.map snd

def System.bytesOf (s : System) (t : Nat) : List UInt8 := (s.accepted.filter fun b => b.1 = t).map snd

def System.wrote (s : System) (t : Nat) : List UInt8 := (s.writes.filter fun w => w.writer = t).flatMap fun w => w.data.take w.ret

structure Mid (s : System) (t : Nat) (moved got : List UInt8) : Prop where
  holds : s.pipe.Holds s.bytes
  out : s.reads.flatMap Read.bytes ++ got = s.bytes.take s.pipe.rpos
  rets : ∀ r ∈ s.reads,r.ret = r.bytes.length
  own : ∀ u,u ≠ t → s.bytesOf u = s.wrote u ++ (s.stage u).moved
  ownHere : s.bytesOf t = s.wrote t ++ moved
  lens : ∀ w ∈ s.writes,w.ret ≤ w.data.length
  within : ∀ u data k,u ≠ t → s.stage u = .writing data k → k ≤ data.length
  readers : Lines.Law s.pipe.readers (fun u => u ≠ t ∧ s.isReading u) (fun u => s.procs.wakeupFlags u = wtPipe) (fun u => s.procs.asleep u = true) 0
  writers : Lines.Law s.pipe.writers (fun u => u ≠ t ∧ s.isWriting u) (fun u => s.procs.wakeupFlags u = wtPipe) (fun u => s.procs.asleep u = true) 0

structure Idle (p : Pipe) : Prop where
  dry : p.readers ≠ [] → p.rpos = p.wpos ∧ p.isclosed = false
  full : p.writers ≠ [] → p.wpos = p.rpos + bufSize ∧ p.isclosed = false

structure Law (s : System) : Prop where
  holds : s.pipe.Holds s.bytes
  out : s.reads.flatMap Read.bytes = s.bytes.take s.pipe.rpos
  rets : ∀ r ∈ s.reads,r.ret = r.bytes.length
  own : ∀ u,s.bytesOf u = s.wrote u ++ (s.stage u).moved
  lens : ∀ w ∈ s.writes,w.ret ≤ w.data.length
  within : ∀ u data k,s.stage u = .writing data k → k ≤ data.length
  readers : Lines.Law s.pipe.readers s.isReading (fun u => s.procs.wakeupFlags u = wtPipe) (fun u => s.procs.asleep u = true) 0
  writers : Lines.Law s.pipe.writers s.isWriting (fun u => s.procs.wakeupFlags u = wtPipe) (fun u => s.procs.asleep u = true) 0
  lock : s.pipe.locked = false
  idle : Idle s.pipe

section Steps
variable {s u : System}

-- isReading and isWriting of a stage
def Stage.Reads (x : Stage) : Prop := ∃ n,x = .reading n
def Stage.Writes (x : Stage) : Prop := ∃ data k,x = .writing data k

lemma Law.mid (law : Law s) (idle : s.stage t = .idle) : Mid s t [] [] := by
  have own := law.own t
  rw [idle] at own
  exact ⟨law.holds,by simpa using law.out,law.rets,fun x _ => law.own x,own,law.lens,fun x data k _ => law.within x data k,
    law.readers.recast (out_of (P:=Stage.Reads) (by simp [idle,Stage.Reads])),law.writers.recast (out_of (P:=Stage.Writes) (by simp [idle,Stage.Writes]))⟩

lemma Law.midReader (law : Law s) (stage : s.stage t = .reading n) : Mid {s with pipe:={s.pipe with readers:=s.pipe.readers.erase t}} t [] [] := by
  have own := law.own t
  rw [stage] at own
  exact ⟨{law.holds with},(append_nil _).trans law.out,law.rets,fun x _ => law.own x,own,law.lens,
    fun x data k _ => law.within x data k,law.readers.depart t (fun _ => .rfl),
    law.writers.recast (out_of (P:=Stage.Writes) (by simp [stage,Stage.Writes]))⟩

lemma Law.midWriter (law : Law s) (stage : s.stage t = .writing data k) :
    Mid {s with pipe:={s.pipe with writers:=s.pipe.writers.erase t}} t (data.take k) [] := by
  have own := law.own t
  rw [stage] at own
  exact ⟨{law.holds with},(append_nil _).trans law.out,law.rets,fun x _ => law.own x,own,law.lens,
    fun x data k _ => law.within x data k,law.readers.recast (out_of (P:=Stage.Reads) (by simp [stage,Stage.Reads])),
    law.writers.depart t (fun _ => .rfl)⟩

lemma Idle.erase (idle : Idle p) (t : Nat) : Idle {p with readers:=p.readers.erase t} ∧ Idle {p with writers:=p.writers.erase t} := by
  have old {line : List Nat} (some : line.erase t ≠ []) : line ≠ [] := by
    rintro rfl
    exact some rfl
  exact ⟨⟨fun some => idle.dry (old some),idle.full⟩,⟨idle.dry,fun some => idle.full (old some)⟩⟩

lemma Mid.own_put (mid : Mid s t moved got) (next : Stage) (moves : next.moved = moved) (x : Nat) :
    s.bytesOf x = s.wrote x ++ (put s.stage t next x).moved := by
  rcases eq_or_ne x t with rfl | ne
  · rw [put_same,moves]
    exact mid.ownHere
  rw [put_other ne]
  exact mid.own x ne

lemma Mid.within_put (mid : Mid s t moved got) (next : Stage) (fits : ∀ data k,next = .writing data k → k ≤ data.length) (x : Nat) (data : List UInt8) (k : Nat)
    (now : put s.stage t next x = .writing data k) : k ≤ data.length := by
  rcases eq_or_ne x t with rfl | ne
  · exact fits data k (put_same s.stage x next ▸ now)
  exact mid.within x data k ne ((put_other ne).symm.trans now)

lemma idle_roles : ¬ Stage.Reads .idle ∧ ¬ Stage.Writes .idle := by simp [Stage.Reads,Stage.Writes]

lemma Mid.readDone (mid : Mid s t [] got) (idle : Idle s.pipe) : Law (s.unlock.readDone t got) := by
  refine ⟨{mid.holds with},?_,fun r mem => ?_,mid.own_put .idle rfl,mid.lens,mid.within_put .idle nofun,
    mid.readers.recast (put_off (P:=Stage.Reads) idle_roles.1),mid.writers.recast (put_off (P:=Stage.Writes) idle_roles.2),rfl,{idle with}⟩
  · refine Eq.trans ?_ mid.out
    simp [System.readDone,unlock]
  rcases mem_append.mp mem with old | new
  · exact mid.rets r old
  rw [mem_singleton.mp new]

lemma Mid.writeDone (mid : Mid s t (data.take k) []) (idle : Idle s.pipe) (within : k ≤ data.length) : Law (s.unlock.writeDone t data k) := by
  refine ⟨{mid.holds with},(append_nil _).symm.trans mid.out,mid.rets,fun x => ?_,fun w mem => ?_,mid.within_put .idle nofun,
    mid.readers.recast (put_off (P:=Stage.Reads) idle_roles.1),mid.writers.recast (put_off (P:=Stage.Writes) idle_roles.2),rfl,{idle with}⟩
  · have wrote : (s.unlock.writeDone t data k).wrote x = s.wrote x ++ if t = x then data.take k else [] := by
      unfold System.wrote System.writeDone
      rw [filter_append,flatMap_append,filter_singleton]
      by_cases here : t = x <;> simp [here,unlock]
    rw [wrote]
    refine (mid.own_put (.writing data k) rfl x).trans ?_
    rcases eq_or_ne x t with rfl | ne
    · simp [System.writeDone,Stage.moved]
    simp [System.writeDone,unlock,put_other ne,ne.symm]
  rcases mem_append.mp mem with old | new
  · exact mid.lens w old
  rw [mem_singleton.mp new]
  exact within

lemma Mid.wakeupReader (mid : Mid s t moved got) : Mid s.wakeupReader t moved got := by
  refine {mid with holds:={mid.holds with},readers:=.empty _ fun x role sleeps => ?_,writers:=?_}
  · have old := mid.readers.slept x role ((s.procs.wakeupQueue_woken wtPipe s.pipe.readers x).slept sleeps)
    dsimp only [System.wakeupReader] at sleeps
    rw [(s.procs.wakeupQueue_member wtPipe old).1] at sleeps
    cases sleeps
  have away (x : Nat) (role : x ≠ t ∧ s.isWriting x) : x ∉ s.pipe.readers := by
    intro low
    obtain ⟨_,n,reading⟩ := (mid.readers.member x low).1
    obtain ⟨_,_,k,writing⟩ := role
    rw [reading] at writing
    cases writing
  exact mid.writers.frame (fun _ => .rfl) (fun x role => (s.procs.wakeupQueue_other wtPipe (away x role)).2.congr_left)
    fun x role => (s.procs.wakeupQueue_other wtPipe (away x role)).1.symm.trans

lemma Mid.wakeupWriter (mid : Mid s t moved got) : Mid s.wakeupWriter t moved got := by
  refine {mid with holds:={mid.holds with},readers:=?_,writers:=.empty _ fun x role sleeps => ?_}
  · have away (x : Nat) (role : x ≠ t ∧ s.isReading x) : x ∉ s.pipe.writers := by
      intro low
      obtain ⟨_,_,k,writing⟩ := (mid.writers.member x low).1
      obtain ⟨_,n,reading⟩ := role
      rw [reading] at writing
      cases writing
    exact mid.readers.frame (fun _ => .rfl) (fun x role => (s.procs.wakeupQueue_other wtPipe (away x role)).2.congr_left)
      fun x role => (s.procs.wakeupQueue_other wtPipe (away x role)).1.symm.trans
  have old := mid.writers.slept x role ((s.procs.wakeupQueue_woken wtPipe s.pipe.writers x).slept sleeps)
  dsimp only [System.wakeupWriter] at sleeps
  rw [(s.procs.wakeupQueue_member wtPipe old).1] at sleeps
  cases sleeps

lemma slept_other (p : Procs) (ne : x ≠ t) : (p.waitCurrentSet t wtPipe).asleep x = p.asleep x ∧ (p.waitCurrentSet t wtPipe).wakeupFlags x = p.wakeupFlags x :=
  ⟨put_other ne,put_other ne⟩

lemma slept_self (p : Procs) (t : Nat) : (p.waitCurrentSet t wtPipe).wakeupFlags t ≠ wtPipe := by
  have flags : (p.waitCurrentSet t wtPipe).wakeupFlags t = wtInterrupted := put_same ..
  rw [flags]
  decide

lemma Mid.waitWriter (mid : Mid s t [] []) (idle : Idle s.pipe) (empty : s.pipe.rpos = s.pipe.wpos) (live : s.pipe.isclosed = false) (n : Nat) :
    Law (s.unlock.waitWriter t n) := by
  refine ⟨{mid.holds with},(append_nil _).symm.trans mid.out,mid.rets,mid.own_put (.reading n) rfl,mid.lens,mid.within_put (.reading n) nofun,?_,?_,rfl,
    ⟨fun _ => ⟨empty,live⟩,idle.full⟩⟩
  · exact mid.readers.join (fun role => role.1 rfl) (put_on (P:=Stage.Reads) ⟨n,rfl⟩) (slept_self s.procs t)
      (fun x role => (slept_other s.procs role.1).2.congr_left) fun x role => (slept_other s.procs role.1).1.symm.trans
  exact mid.writers.frame (put_off (P:=Stage.Writes) (by simp [Stage.Writes])) (fun x role => (slept_other s.procs role.1).2.congr_left)
    fun x role => (slept_other s.procs role.1).1.symm.trans

lemma Mid.waitReader (mid : Mid s t (data.take k) []) (idle : Idle s.pipe) (full : s.pipe.wpos = s.pipe.rpos + bufSize) (live : s.pipe.isclosed = false)
    (within : k ≤ data.length) : Law (s.unlock.waitReader t data k) := by
  refine ⟨{mid.holds with},(append_nil _).symm.trans mid.out,mid.rets,mid.own_put (.writing data k) rfl,mid.lens,
    mid.within_put (.writing data k) (by rintro _ _ ⟨⟩; exact within),?_,?_,rfl,⟨idle.dry,fun _ => ⟨full,live⟩⟩⟩
  · exact mid.readers.frame (put_off (P:=Stage.Reads) (by simp [Stage.Reads])) (fun x role => (slept_other s.procs role.1).2.congr_left)
      fun x role => (slept_other s.procs role.1).1.symm.trans
  exact mid.writers.join (fun role => role.1 rfl) (put_on (P:=Stage.Writes) ⟨data,k,rfl⟩) (slept_self s.procs t)
    (fun x role => (slept_other s.procs role.1).2.congr_left) fun x role => (slept_other s.procs role.1).1.symm.trans

lemma Mid.lock (mid : Mid s t moved got) : Mid s.lock t moved got := by exact {mid with holds:={mid.holds with}}

lemma Mid.read (mid : Mid s t [] []) (idle : Idle s.pipe) (n : Nat) : Law (s.read t n) := by
  have locked := mid.lock
  have calm : Idle s.lock.pipe := {idle with}
  unfold System.read
  dsimp only
  generalize s.lock = s at locked calm
  by_cases empty : s.pipe.isEmpty = true
  · rw [if_pos empty]
    split
    · exact locked.readDone calm
    next live => exact locked.waitWriter calm (by simpa [isEmpty] using empty) (by simpa using live) n
  rw [if_neg empty]
  have ne : s.pipe.rpos ≠ s.pipe.wpos := by simpa [isEmpty] using empty
  have none : s.pipe.readers = [] := by
    by_contra some
    exact ne (calm.dry some).1
  obtain ⟨holds,took,eq,_,readers,writers⟩ := locked.holds.drain n
  have next : Mid {s with pipe:=(s.pipe.drain n).1} t [] (s.pipe.drain n).2 := by
    refine {locked with holds:=holds,out:=?_,readers:=?_,writers:=?_}
    · have old := locked.out
      rw [append_nil] at old
      exact (congrArg (· ++ _) old).trans took.symm
    · dsimp only
      rw [readers]
      exact locked.readers
    dsimp only
    rw [writers]
    exact locked.writers
  split
  next nothing =>
    refine next.readDone ?_
    dsimp only
    rw [eq nothing]
    exact calm
  refine next.wakeupWriter.readDone ⟨fun some => ?_,fun some => absurd rfl some⟩
  exact absurd (readers.trans none) some

lemma tagged (t x : Nat) (bytes : List UInt8) : ((bytes.map (t,·)).filter fun b => b.1 = x).map snd = if x = t then bytes else [] := by
  rcases eq_or_ne x t with rfl | ne
  · rw [if_pos rfl,filter_eq_self.mpr (by simp),map_map]
    simp
  rw [if_neg ne,filter_eq_nil_iff.mpr (by simp [ne.symm])]
  rfl

lemma Mid.write (mid : Mid s t (data.take k) []) (idle : Idle s.pipe) (within : k ≤ data.length) (small : s.accepted.length + (data.length - k) < 2^63) :
    Law (s.write t data k) := by
  have locked := mid.lock
  have calm : Idle s.lock.pipe := {idle with}
  have few : s.lock.accepted.length + (data.length - k) < 2^63 := small
  unfold System.write
  dsimp only
  generalize s.lock = s at locked calm few
  by_cases closed : s.pipe.isclosed = true
  · rw [if_pos closed]
    exact locked.writeDone calm within
  rw [if_neg closed]
  have live : s.pipe.isclosed = false := by simpa using closed
  have length : (data.drop k).length = data.length - k := length_drop
  obtain ⟨holds,most,rpos,stops,begins,eq,shut,readers,writers⟩ := locked.holds.fill (data.drop k) (by
    rw [length]
    simpa [System.bytes] using few)
  generalize filled : s.pipe.fill (data.drop k) = next at *
  rw [length] at most stops
  have new : Mid {s with pipe:=next.1,accepted:=s.accepted ++ ((data.drop k).take next.2).map (t,·)} t (data.take (k + next.2)) [] := by
    have bytes : System.bytes {s with pipe:=next.1,accepted:=s.accepted ++ ((data.drop k).take next.2).map (t,·)} = s.bytes ++ (data.drop k).take next.2 := by
      simp [System.bytes]
    have bytesOf (x : Nat) : System.bytesOf {s with pipe:=next.1,accepted:=s.accepted ++ ((data.drop k).take next.2).map (t,·)} x =
        s.bytesOf x ++ if x = t then (data.drop k).take next.2 else [] := by
      unfold System.bytesOf
      rw [filter_append,map_append,tagged]
    have low := locked.holds.low
    have count := locked.holds.count
    refine ⟨?_,?_,locked.rets,fun x ne => ?_,?_,locked.lens,locked.within,?_,?_⟩
    · rw [bytes]
      exact holds
    · rw [bytes,rpos,take_append_of_le_length (by omega)]
      exact locked.out
    · rw [bytesOf,if_neg ne,append_nil]
      exact locked.own x ne
    · rw [bytesOf,if_pos rfl,locked.ownHere,append_assoc,take_add]
      rfl
    · rw [show _ = s.pipe.readers from readers]
      exact locked.readers
    rw [show _ = s.pipe.writers from writers]
    exact locked.writers
  split
  next _ =>
    have full := holds.isFull.mp (stops (by omega))
    exact new.wakeupReader.waitReader ⟨fun some => absurd rfl some,fun _ => ⟨full,shut.trans live⟩⟩ full (shut.trans live) (by omega)
  split
  next none =>
    refine new.writeDone ?_ (by omega)
    dsimp only
    rw [eq none]
    exact calm
  rename_i some
  have space : s.pipe.isFull = false := begins.resolve_left some
  refine new.wakeupReader.writeDone ⟨fun some => absurd rfl some,fun waiting => ?_⟩ (by omega)
  have old : s.pipe.writers ≠ [] := fun none => waiting (writers.trans none)
  have full := locked.holds.isFull.mpr (calm.full old).1
  rw [space] at full
  cases full

lemma unlock_free (free : s.pipe.locked = false) : s.unlock = s := by simp [unlock,← free]

lemma Law.resume (law : Law s) (small : s.Small (.run t)) : Law (s.resume t) := by
  unfold System.resume
  dsimp only
  split
  · exact law
  · rename_i n stage
    have mid := law.midReader stage
    have idle := (law.idle.erase t).1
    split
    · exact mid.read idle n
    have ended := mid.readDone idle
    rw [unlock_free] at ended
    · exact ended
    exact law.lock
  rename_i data k stage
  have mid := law.midWriter stage
  have idle := (law.idle.erase t).2
  have within := law.within t data k stage
  split
  · refine mid.write idle within ?_
    simpa [System.Small,pending,stage] using small
  have ended := mid.writeDone idle within
  rw [unlock_free] at ended
  · exact ended
  exact law.lock

lemma Law.woken (law : Law s) {p : Procs} (flags : p.wakeupFlags = s.procs.wakeupFlags) (woken : ∀ x,Woken s.procs p x) : Law {s with procs:=p} := by
  refine {law with readers:=?_,writers:=?_}
  · exact law.readers.frame (fun _ => .rfl) (fun x _ => by rw [flags]) fun x _ sleeps => (woken x).slept sleeps
  exact law.writers.frame (fun _ => .rfl) (fun x _ => by rw [flags]) fun x _ sleeps => (woken x).slept sleeps

lemma Law.close (law : Law s) : Law s.close := by
  have both (x : Nat) (low : x ∈ s.pipe.readers) : x ∉ s.pipe.writers := by
    intro ne
    obtain ⟨n,reading⟩ := (law.readers.member x low).1
    obtain ⟨_,k,writing⟩ := (law.writers.member x ne).1
    rw [reading] at writing
    cases writing
  have awake (x : Nat) (role : s.isReading x ∨ s.isWriting x) : s.close.procs.asleep x = false := by
    dsimp [System.close,System.wakeupReader,System.wakeupWriter]
    by_cases writer : x ∈ s.pipe.writers
    · exact (Procs.wakeupQueue_member _ wtPipe writer).1
    rw [(Procs.wakeupQueue_other _ wtPipe writer).1]
    by_cases reader : x ∈ s.pipe.readers
    · exact (Procs.wakeupQueue_member _ wtPipe reader).1
    rw [(Procs.wakeupQueue_other _ wtPipe reader).1]
    cases sleeps : s.procs.asleep x with
    | false => rfl
    | true =>
      rcases role with reading | writing
      · exact absurd (law.readers.slept x reading sleeps) reader
      exact absurd (law.writers.slept x writing sleeps) writer
  exact {law with
    holds:={law.holds with}
    readers:=.empty _ fun x role => by simp [awake x (.inl role)]
    writers:=.empty _ fun x role => by simp [awake x (.inr role)],idle:=⟨fun some => absurd rfl some,fun some => absurd rfl some⟩}

lemma Law.step (law : Law s) (moved : s.Move e u) (small : s.Small e) : Law u := by
  obtain ⟨may,rfl⟩ := moved
  cases e with
  | read t n => exact (law.mid may.2.2).read law.idle n
  | write t _ => exact (law.mid may.2.2).write law.idle (Nat.zero_le _) small
  | run t => exact law.resume small
  | close => exact law.close
  | kill t => exact law.woken (s.procs.doKill_frame t).1 (s.procs.doKill_woken t)

lemma Law.first : Law System.first := by
  refine ⟨⟨le_rfl,by simp [System.first],rfl,by simp [System.bytes,System.first],fun i _ below => ?_⟩,rfl,?_,fun _ => rfl,?_,?_,.empty _ ?_,.empty _ ?_,rfl,⟨?_,?_⟩⟩
  · simp [System.first] at below
  all_goals simp [System.first]

end Steps

-- What holds of a pipe after some run: the buffer is within its bounds, the bytes that
-- reads returned are the first of those that writes put in, each writer's in the order
-- of its calls and as many as they returned, and nobody sleeps who could go on.
structure Channel (s : System) : Prop where
  bounds : s.pipe.rpos ≤ s.pipe.wpos ∧ s.pipe.wpos - s.pipe.rpos ≤ bufSize
  order : s.reads.flatMap Read.bytes <+: s.bytes
  rets : ∀ r ∈ s.reads,r.ret = r.bytes.length
  own : ∀ t,s.bytesOf t = s.wrote t ++ (s.stage t).moved
  lens : ∀ w ∈ s.writes,w.ret ≤ w.data.length
  readers : s.pipe.locked = false → s.pipe.rpos ≠ s.pipe.wpos ∨ s.pipe.isclosed = true → ∀ t,s.isReading t → s.procs.asleep t = false
  writers : s.pipe.locked = false → s.pipe.wpos - s.pipe.rpos < bufSize ∨ s.pipe.isclosed = true → ∀ t,s.isWriting t → s.procs.asleep t = false

lemma Law.channel (law : Law s) : Channel s := by
  have low := law.holds.low
  have span := law.holds.span
  refine ⟨⟨low,by omega⟩,?_,law.rets,law.own,law.lens,fun _ some t role => ?_,fun _ some t role => ?_⟩
  · rw [law.out]
    exact take_prefix _ _
  · cases sleeps : s.procs.asleep t with
    | false => rfl
    | true =>
      have parts := law.idle.dry (ne_nil_of_mem (law.readers.slept t role sleeps))
      rcases some with data | shut
      · exact absurd parts.1 data
      rw [parts.2] at shut
      cases shut
  cases sleeps : s.procs.asleep t with
  | false => rfl
  | true =>
    have parts := law.idle.full (ne_nil_of_mem (law.writers.slept t role sleeps))
    rcases some with _ | shut
    · omega
    rw [parts.2] at shut
    cases shut

section Wrapping

namespace Pipe

lemma room {p : Pipe} (low : p.rpos < 2^64) (high : p.wpos < 2^64) (fits : p.size + (n + 1) ≤ bufSize) (b : UInt8) :
    p.isFull = false ∧ size {p with buf:=put p.buf (p.wpos % bufSize) b,wpos:=(p.wpos + 1) % 2^64} + n ≤ bufSize := by
  unfold isFull
  rw [decide_eq_false_iff_not]
  refine ⟨by omega,?_⟩
  unfold size bufSize at *
  dsimp only
  omega

-- p_wpos goes past the end of the off_t: a write that fits into the buffer takes all of
-- its bytes, and the last of them is where it should be.
lemma fill_all (rest : List UInt8) : ∀ {p : Pipe},p.rpos < 2^64 → p.wpos < 2^64 → p.size + rest.length ≤ bufSize →
    (p.fill rest).2 = rest.length ∧ (p.fill rest).1.wpos = (p.wpos + rest.length) % 2^64 ∧ (p.fill rest).1.rpos = p.rpos ∧
      (p.fill rest).1.isclosed = p.isclosed ∧ (p.fill rest).1.readers = p.readers ∧ (p.fill rest).1.writers = p.writers := by
  induction rest with
  | nil =>
    intro p _ high _
    rw [length_nil,Nat.add_zero,Nat.mod_eq_of_lt high]
    exact ⟨rfl,rfl,rfl,rfl,rfl,rfl⟩
  | cons b _ ih =>
    intro p low high fits
    rw [length_cons] at fits
    obtain ⟨space,grown⟩ := room low high fits b
    obtain ⟨all,wpos,others⟩ := ih (p := {p with buf:=put p.buf (p.wpos % bufSize) b,wpos:=(p.wpos + 1) % 2^64}) low (Nat.mod_lt _ (by decide)) grown
    unfold fill
    simp only [space,false_eq_true,if_false,length_cons]
    refine ⟨by rw [all],?_,others⟩
    rw [wpos]
    dsimp only
    omega

lemma fill_last (rest : List UInt8) (last : UInt8) : ∀ {p : Pipe},p.rpos < 2^64 → p.wpos < 2^64 → p.size + (rest.length + 1) ≤ bufSize →
    (p.fill (rest ++ [last])).1.buf ((p.wpos + rest.length) % 2^64 % bufSize) = last := by
  induction rest with
  | nil =>
    intro p low high fits
    have space := (room low high fits last).1
    rw [length_nil,Nat.add_zero,Nat.mod_eq_of_lt high,nil_append]
    simp [fill,space]
  | cons b rest ih =>
    intro p low high fits
    rw [length_cons] at fits
    obtain ⟨space,grown⟩ := room low high fits b
    have new := ih (p := {p with buf:=put p.buf (p.wpos % bufSize) b,wpos:=(p.wpos + 1) % 2^64}) low (Nat.mod_lt _ (by decide)) grown
    have place : ((p.wpos + 1) % 2^64 + rest.length) % 2^64 = (p.wpos + (b :: rest).length) % 2^64 := by
      rw [length_cons]
      omega
    dsimp only at new
    rw [place] at new
    rw [cons_append]
    unfold fill
    simp only [space,false_eq_true,if_false]
    exact new

end Pipe

structure At (s : System) (p : Nat) : Prop where
  stage : s.stage 0 = .idle
  awake : s.procs.asleep 0 = false
  live : s.pipe.isclosed = false
  lock : s.pipe.locked = false
  readers : s.pipe.readers = []
  writers : s.pipe.writers = []
  rpos : s.pipe.rpos = p
  wpos : s.pipe.wpos = p
  all : s.reads.flatMap Read.bytes = s.bytes

lemma At.size (place : At s p) : s.pipe.size = 0 := by
  unfold Pipe.size
  rw [place.rpos,place.wpos]
  omega

namespace System

lemma read_one (s : System) (t : Nat) (some : s.pipe.rpos ≠ s.pipe.wpos) (nobody : s.pipe.writers = []) : s.read t 1 = {s with
    pipe:={s.pipe with rpos:=(s.pipe.rpos + 1) % 2^64,locked:=false}
    stage:=put s.stage t .idle
    reads:=s.reads ++ [⟨t,[s.pipe.buf (s.pipe.rpos % bufSize)],1⟩]} := by
  have full : s.lock.pipe.isEmpty = false := decide_eq_false some
  have drained : s.lock.pipe.drain 1 = ({s.lock.pipe with rpos:=(s.pipe.rpos + 1) % 2^64},[s.pipe.buf (s.pipe.rpos % bufSize)]) := by
    unfold Pipe.drain
    rw [full]
    rfl
  unfold read
  simp only [full,false_eq_true,if_false,drained]
  simp [wakeupWriter,unlock,readDone,lock,nobody,Procs.wakeupQueue]

end System

lemma At.exchange (place : At s p) (small : p < 2^64) (rest : List UInt8) (last : UInt8) (fits : rest.length + 1 ≤ bufSize) : ∃ u,
    Path System.Move s [.write 0 (rest ++ [last]),.read 0 1] u ∧ u.stage 0 = .idle ∧ u.procs.asleep 0 = false ∧ u.pipe.isclosed = false ∧
      u.pipe.locked = false ∧ u.pipe.readers = [] ∧ u.pipe.writers = [] ∧ u.pipe.rpos = (p + 1) % 2^64 ∧
      u.pipe.wpos = (p + (rest.length + 1)) % 2^64 ∧ u.bytes = s.bytes ++ (rest ++ [last]) ∧
      ∃ b,u.reads.flatMap Read.bytes = s.bytes ++ [b] ∧ ((p + rest.length) % 2^64 % bufSize = p % bufSize → b = last) := by
  have low : s.lock.pipe.rpos < 2^64 := place.rpos ▸ small
  have high : s.lock.pipe.wpos < 2^64 := place.wpos ▸ small
  have zero : s.lock.pipe.size = 0 := place.size
  have room : s.lock.pipe.size + (rest ++ [last]).length ≤ bufSize := by
    rw [zero,length_append,length_singleton]
    omega
  obtain ⟨all,wpos,rpos,shut,readers,writers⟩ := fill_all (rest ++ [last]) low high room
  have tail := fill_last rest last low high (by rw [zero]; omega)
  generalize filled : s.lock.pipe.fill (rest ++ [last]) = next at *
  have wrote : s.write 0 (rest ++ [last]) 0 = {s with
      pipe:={next.1 with readers:=[],locked:=false}
      accepted:=s.accepted ++ (rest ++ [last]).map (0,·)
      stage:=put s.stage 0 .idle
      writes:=s.writes ++ [⟨0,rest ++ [last],(rest ++ [last]).length⟩]} := by
    have live : s.lock.pipe.isclosed = false := place.live
    have none : next.1.readers = [] := readers.trans place.readers
    unfold System.write
    simp only [live,false_eq_true,if_false,drop_zero,filled,all,Nat.zero_add,lt_irrefl,take_length]
    rw [if_neg (by simp)]
    simp [System.wakeupReader,System.unlock,System.writeDone,System.lock,none,Procs.wakeupQueue]
  have one : s.Move (.write 0 (rest ++ [last])) (s.write 0 (rest ++ [last]) 0) := ⟨⟨place.lock,place.awake,place.stage⟩,rfl⟩
  have start : (s.write 0 (rest ++ [last]) 0).pipe.rpos = p := by
    rw [wrote]
    exact rpos.trans place.rpos
  have stop : (s.write 0 (rest ++ [last]) 0).pipe.wpos = (p + (rest.length + 1)) % 2^64 := by
    rw [wrote]
    dsimp only
    rw [wpos,length_append,length_singleton,show s.lock.pipe.wpos = p from place.wpos]
  have ne : (s.write 0 (rest ++ [last]) 0).pipe.rpos ≠ (s.write 0 (rest ++ [last]) 0).pipe.wpos := by
    rw [start,stop]
    unfold bufSize at fits
    omega
  have nobody : (s.write 0 (rest ++ [last]) 0).pipe.writers = [] := by
    rw [wrote]
    exact writers.trans place.writers
  have gone (f : Nat → Stage) : put f 0 .idle 0 = .idle := put_same ..
  have idle : (s.write 0 (rest ++ [last]) 0).stage 0 = .idle := by
    rw [wrote]
    exact gone s.stage
  have two : (s.write 0 (rest ++ [last]) 0).Move (.read 0 1) ((s.write 0 (rest ++ [last]) 0).read 0 1) := by
    refine ⟨⟨?_,?_,idle⟩,rfl⟩
    · rw [wrote]
    rw [wrote]
    exact place.awake
  refine ⟨_,.step (.step .nil one) two,?_⟩
  rw [read_one _ 0 ne nobody,start,wrote]
  refine ⟨gone (put s.stage 0 .idle),place.awake,shut.trans place.live,rfl,rfl,writers.trans place.writers,rfl,?_,?_,next.1.buf (p % bufSize),?_,fun eq => ?_⟩
  · rw [wrote] at stop
    exact stop
  · simp [System.bytes]
  · rw [flatMap_append,place.all]
    rfl
  rw [show s.lock.pipe.wpos = p from place.wpos,eq] at tail
  exact tail

lemma reaches (k : Nat) : ∃ events s,Path System.Move first events s ∧ At s (k % 2^64) := by
  induction k with
  | zero => exact ⟨[],first,.nil,rfl,rfl,rfl,rfl,rfl,rfl,rfl,rfl,rfl⟩
  | succ k ih =>
    obtain ⟨_,s,path,place⟩ := ih
    obtain ⟨u,more,stage,awake,live,lock,readers,writers,rpos,wpos,bytes,b,reads,eq⟩ := place.exchange (Nat.mod_lt _ (by decide)) [] 0 (by decide)
    have zero : b = 0 := eq (by simp)
    refine ⟨_,u,path.append more,stage,awake,live,lock,readers,writers,?_,?_,?_⟩
    · rw [rpos]
      omega
    · rw [wpos,length_nil]
      omega
    rw [reads,bytes,zero]
    rfl

-- After 2^64 - 3616 bytes, a write of 3617 bytes puts its last byte over its first, for
-- 2^64 is 3616 past a multiple of the size of the buffer.
theorem pipe_wraps : ∃ events s,Path System.Move System.first events s ∧ ¬ s.reads.flatMap Read.bytes <+: s.bytes := by
  obtain ⟨events,s,path,place⟩ := reaches (2^64 - 3616)
  obtain ⟨u,more,_,_,_,_,_,_,_,_,bytes,b,reads,same⟩ :=
    place.exchange (Nat.mod_lt _ (by decide)) (replicate 3616 0) 1 (by rw [length_replicate]; decide)
  have one : b = 1 := same (by rw [length_replicate]; decide)
  refine ⟨_,u,path.append more,?_⟩
  rw [reads,bytes,one,prefix_append_right_inj]
  rw [show (3616 : Nat) = 3615 + 1 from rfl,replicate_succ,cons_append,cons_prefix_cons]
  rintro ⟨eq,_⟩
  exact absurd eq (by decide)

end Wrapping

-- Whatever is read, written, closed and killed, as long as fewer than 2^63 bytes are
-- written.
theorem pipe_fifo (path : Path (fun s e u => System.Move s e u ∧ s.Small e) System.first events s) : Channel s :=
  (path.invariant (fun _ _ _ law moved => law.step moved.1 moved.2) Law.first).channel

def talking : List Event := [.read 1 4,.read 2 4,.kill 2,.write 3 [7,8],.run 1,.run 2]

theorem pipe_fifo_talking : ∃ s,Path (fun s e u => System.Move s e u ∧ s.Small e) System.first talking s ∧ s.reads = [⟨1,[7,8],2⟩] ∧ s.bytes = [7,8] ∧ Channel s := by
  have ran : (exec (fun s e => s.Enabled e ∧ s.accepted.length + s.pending e < 2^63) System.step first talking).map
    (fun s => (s.reads,s.bytes)) = some ([⟨1,[7,8],2⟩],[7,8]) := by decide +kernel
  obtain ⟨s,last,shown⟩ := Option.map_eq_some_iff.mp ran
  have path := (exec_path last).mono fun s e u moved => (⟨⟨moved.1.1,moved.2⟩,moved.1.2⟩ : System.Move s e u ∧ s.Small e)
  exact ⟨s,path,congrArg Prod.fst shown,congrArg snd shown,pipe_fifo path⟩

end Ucore.Pipes
