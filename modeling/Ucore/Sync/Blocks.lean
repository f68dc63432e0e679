import Ucore.Sync.Fifo

-- load_msg and free_msg with the blocks they take from kmalloc and give back.
namespace Ucore.Sync.Mail

-- grants answers kmalloc in turn; live is the blocks handed out and not freed.
structure Blocks where
  grants : Nat → Bool
  tick : Nat
  live : List Nat

-- msg_msg and its msg_segs in the order of the next pointers.
abbrev Chain := List (Nat × List UInt8)

-- No value: the block is not in use.
def kfree (b : Nat) (h : Blocks) : Option Blocks := if b ∈ h.live then some {h with live:=h.live.erase b} else none

-- free_seg frees what follows first.
def freeMsg : Chain → Blocks → Option Blocks
  | [],h => some h
  | (b,_) :: rest,h => (freeMsg rest h).bind (kfree b)

-- The loop of load_msg, entered at its allocation; chain is what it has linked so far.
def loadLoop : Nat → List UInt8 → Chain → Blocks → Option (Option Chain × Blocks)
  | 0,_,chain,h => some (some chain,h)
  | fuel+1,data,chain,h =>
    if h.grants h.tick then
      let chain := chain ++ [(h.tick,data.take maxMsgDatalen)]
      let h := {h with tick:=h.tick + 1,live:=h.tick :: h.live}
      if data.length ≤ maxMsgDatalen then some (some chain,h) else loadLoop fuel (data.drop maxMsgDatalen) chain h
    else (freeMsg chain {h with tick:=h.tick + 1}).map fun h => (none,h)

def Chain.live (chain : Chain) (l : List Nat) : List Nat := (chain.map Prod.fst).reverse ++ l

lemma freeMsg_live (chain : Chain) (h : Blocks) (l : List Nat) (live : h.live = chain.live l) : freeMsg chain h = some {h with live:=l} := by
  induction chain generalizing l with
  | nil => cases h; cases live; rfl
  | cons block _ ih =>
    rw [freeMsg,ih (block.1 :: l) (by simpa [Chain.live] using live)]
    simp [kfree]

def Granted (h t : Blocks) : Prop := ∀ n,h.tick ≤ n → n < t.tick → h.grants n = true

-- What the loop of load_msg leaves behind.
def Loaded (data : List UInt8) (fuel : Nat) (chain : Chain) (l : List Nat) (h : Blocks) : Option Chain → Blocks → Prop
  | none,t => t.live = l
  | some whole,t => Granted h t ∧ ∃ more : Chain,whole = chain ++ more ∧ more.map Prod.snd = loadSegs fuel data ∧ t.live = whole.live l

lemma loadLoop_loaded (fuel : Nat) (data : List UInt8) (chain : Chain) (h : Blocks) (l : List Nat) (live : h.live = chain.live l) :
    ∃ r t,loadLoop fuel data chain h = some (r,t) ∧ Loaded data fuel chain l h r t := by
  induction fuel generalizing data chain h with
  | zero => exact ⟨_,_,rfl,fun n low high => absurd high (not_lt.mpr low),[],by simp,rfl,live⟩
  | succ _ ih =>
    rw [loadLoop]
    split
    next granted =>
      have linked : h.tick :: h.live = Chain.live (chain ++ [(h.tick,data.take maxMsgDatalen)]) l := by simp [Chain.live,live]
      dsimp only
      split
      next last => exact ⟨_,_,rfl,fun n low high => le_antisymm (Nat.le_of_lt_succ high) low ▸ granted,_,rfl,by simp [loadSegs,last],linked⟩
      rename_i more
      obtain ⟨r,t,ran,load⟩ := ih (data.drop maxMsgDatalen) _ {h with tick:=h.tick + 1,live:=h.tick :: h.live} linked
      refine ⟨r,t,ran,?_⟩
      cases r with
      | none => exact load
      | some _ =>
        obtain ⟨later,rest,rfl,segs,held⟩ := load
        refine ⟨fun n low high => ?_,(h.tick,data.take maxMsgDatalen) :: rest,by simp,by simp [loadSegs,more,segs],held⟩
        rcases Nat.eq_or_lt_of_le low with rfl | past
        · exact granted
        exact later n past high
    next _ => exact ⟨none,_,congrArg (Option.map _) (freeMsg_live chain {h with tick:=h.tick + 1} l live),rfl⟩

theorem message_blocks (data : List UInt8) (h : Blocks) (some : 0 < data.length) :
    ∃ r t,loadLoop data.length data [] h = Option.some (r,t) ∧ match r with
      | none => t.live = h.live
      | .some chain => Granted h t ∧ storeSegs data.length (chain.map Prod.snd) = Option.some data ∧ freeMsg chain t = Option.some {t with live:=h.live} := by
  obtain ⟨r,t,ran,loaded⟩ := loadLoop_loaded data.length data [] h h.live rfl
  refine ⟨r,t,ran,?_⟩
  cases r with
  | none => exact loaded
  | some chain =>
    obtain ⟨granted,_,rfl,segs,live⟩ := loaded
    exact ⟨granted,by rw [segs]; exact storeSegs_loadSegs some le_rfl,freeMsg_live _ t h.live live⟩

-- A message of two blocks, the second of which may be refused.
set_option maxRecDepth 10000 in
theorem message_blocks_short : (∃ t,loadLoop 500 (.replicate 500 7) [] ⟨(· = 0),0,[]⟩ = some (none,t) ∧ t.live = []) ∧
    ∃ chain t,loadLoop 500 (.replicate 500 7) [] ⟨fun _ => true,0,[]⟩ = some (some chain,t) ∧ freeMsg chain t = some {t with live:=[]} := by
  have ends : (loadLoop 500 (.replicate 500 7) [] ⟨(· = 0),0,[]⟩).map (·.1.isNone) = some true ∧
      (loadLoop 500 (.replicate 500 7) [] ⟨fun _ => true,0,[]⟩).map (·.1.isNone) = some false := by decide +kernel
  obtain ⟨r,t,ran,done⟩ := message_blocks (.replicate 500 7) ⟨(· = 0),0,[]⟩ (by decide)
  obtain ⟨r',u,ran',done'⟩ := message_blocks (.replicate 500 7) ⟨fun _ => true,0,[]⟩ (by decide)
  rw [List.length_replicate] at ran ran'
  rw [ran,ran'] at ends
  cases r with
  | some _ => cases ends.1
  | none => cases r' with
    | none => cases ends.2
    | some chain => exact ⟨⟨t,ran,done⟩,chain,u,ran',done'.2.2⟩

end Ucore.Sync.Mail
