import Mathlib.Tactic

-- printnum and the conversions %ld and %lx of printfmt.c, and strtol of string.c.
-- A string is its bytes before the NUL.
namespace Ucore.Text

def digitChars : List UInt8 := [48,49,50,51,52,53,54,55,56,57,97,98,99,100,101,102]

-- The loop over --width writes width - 1 pad characters.
def printnum (base : {b : Nat // 2 ≤ b}) (padc : UInt8) (num : Nat) (width : Int) : List UInt8 :=
  (if base ≤ num then printnum base padc (num / base) (width - 1) else List.replicate (width - 1).toNat padc) ++ [digitChars.getD (num % base) 0]
termination_by num
decreasing_by exact Nat.div_lt_self (by have := base.2; omega) base.2

-- The pad character and width of a conversion: with no width field, or with the
-- flag 0 and the width given.
def padding : Option Nat → UInt8 × Int
  | none => (32,-1)
  | some width => (48,width)

def printLong (v : BitVec 64) (field : Option Nat) : List UInt8 :=
  if v.toInt < 0 then 45 :: printnum ⟨10,by decide⟩ (padding field).1 (-v).toNat (padding field).2
  else printnum ⟨10,by decide⟩ (padding field).1 v.toNat (padding field).2

def printHex (v : BitVec 64) (field : Option Nat) : List UInt8 :=
  printnum ⟨16,by decide⟩ (padding field).1 v.toNat (padding field).2

def digitOf (c : UInt8) : Option Nat :=
  if 48 ≤ c ∧ c ≤ 57 then some (c.toNat - 48)
  else if 97 ≤ c ∧ c ≤ 122 then some (c.toNat - 97 + 10)
  else if 65 ≤ c ∧ c ≤ 90 then some (c.toNat - 65 + 10)
  else none

def strtolDigits (base : Nat) (val : BitVec 64) : List UInt8 → BitVec 64 × List UInt8
  | [] => (val,[])
  | c :: s => match digitOf c with
    | none => (val,c :: s)
    | some dig => if base ≤ dig then (val,c :: s) else strtolDigits base (val * BitVec.ofNat 64 base + BitVec.ofNat 64 dig) s

-- The value, and the string from the end pointer on.
def strtol (s : List UInt8) (base : Nat) : BitVec 64 × List UInt8 :=
  let s := s.dropWhile fun c => c = 32 || c = 9
  let neg := s.head? = some 45
  let s := if s.head? = some 43 ∨ neg then s.tail else s
  let hex := (base = 0 ∨ base = 16) ∧ s.head? = some 48 ∧ s.tail.head? = some 120
  let octal := base = 0 ∧ s.head? = some 48
  let (val,rest) := strtolDigits (if hex then 16 else if octal then 8 else if base = 0 then 10 else base) 0
    (if hex then s.tail.tail else if octal then s.tail else s)
  (if neg then -val else val,rest)

lemma digit_char {d : Nat} (small : d < 16) : digitOf (digitChars.getD d 0) = some d ∧ digitChars.getD d 0 ∈ digitChars := by decide +revert

section
variable {base : {b : Nat // 2 ≤ b}} {padc : UInt8} {width : Int}

lemma strtolDigits_digit {d b : Nat} (low : d < b) (small : b ≤ 16) (val : BitVec 64) (s : List UInt8) :
    strtolDigits b val (digitChars.getD d 0 :: s) = strtolDigits b (val * BitVec.ofNat 64 b + BitVec.ofNat 64 d) s := by
  rw [strtolDigits,(digit_char (low.trans_le small)).1]
  exact if_neg (by omega)

lemma printnum_value (num : Nat) (small : base.1 ≤ 16) (pad : padc = 48 ∨ width ≤ 1) (s : List UInt8) :
    strtolDigits base 0 (printnum base padc num width ++ s) = strtolDigits base (BitVec.ofNat 64 num) s := by
  induction num using Nat.strong_induction_on generalizing width s with
  | _ num ih =>
    have two := base.2
    have last : num % base < base := Nat.mod_lt _ (by omega)
    unfold printnum
    rw [List.append_assoc]
    split
    next big =>
      rw [ih (num / base) (Nat.div_lt_self (by omega) two) (pad.imp_right fun _ => by omega),List.singleton_append,strtolDigits_digit last small,
        ← BitVec.ofNat_mul,← BitVec.ofNat_add,Nat.div_add_mod']
    rename_i little
    have zeros : ∀ n,strtolDigits base 0 (List.replicate n 48 ++ (digitChars.getD (num % base) 0 :: s)) = strtolDigits base (BitVec.ofNat 64 num) s := fun n => by
      induction n with
      | zero =>
        rw [List.replicate_zero,List.nil_append,strtolDigits_digit last small,Nat.mod_eq_of_lt (by omega)]
        simp
      | succ n ih =>
        rw [← ih]
        exact (strtolDigits_digit (d:=0) (by omega : 0 < base.1) small 0 _).trans (by simp)
    rcases pad with rfl | none
    · exact zeros _
    rw [Int.toNat_of_nonpos (by omega)]
    exact zeros 0

lemma printnum_chars (num : Nat) (small : base.1 ≤ 16) (pad : padc = 48 ∨ width ≤ 1) : ∀ c ∈ printnum base padc num width,c ∈ digitChars := by
  induction num using Nat.strong_induction_on generalizing width with
  | _ num ih =>
    have two := base.2
    have last : num % base < base := Nat.mod_lt _ (by omega)
    unfold printnum
    intro c mem
    rcases List.mem_append.mp mem with early | late
    · split at early
      · exact ih (num / base) (Nat.div_lt_self (by omega) two) (pad.imp_right fun _ => by omega) c early
      obtain ⟨some,rfl⟩ := List.mem_replicate.mp early
      rcases pad with rfl | none
      · decide
      omega
    rw [List.mem_singleton.mp late]
    exact (digit_char (last.trans_le small)).2

lemma printnum_some {num : Nat} : printnum base padc num width ≠ [] := by
  unfold printnum
  simp

end

-- A string of digits has no sign and no prefix for strtol to take off.
lemma strtol_digits {s : List UInt8} (chars : ∀ c ∈ s,c ∈ digitChars) (pos : s ≠ []) (nonzero : base ≠ 0) :
    strtol s base = strtolDigits base 0 s ∧ strtol (45 :: s) base = (-(strtolDigits base 0 s).1,(strtolDigits base 0 s).2) := by
  obtain ⟨c,s,rfl⟩ := List.exists_cons_of_ne_nil pos
  have plain : ∀ c ∈ digitChars,c ≠ 32 ∧ c ≠ 9 ∧ c ≠ 43 ∧ c ≠ 45 ∧ c ≠ 120 := by simp [digitChars]
  have one := plain c (chars c List.mem_cons_self)
  have hex : s.head? ≠ some 120 := fun is => (plain 120 (chars 120 (List.mem_cons_of_mem _ (List.mem_of_mem_head? is)))).2.2.2.2 rfl
  simp [strtol,one,hex,nonzero]

theorem numbers_read_back (v : BitVec 64) (field : Option Nat) : strtol (printLong v field) 10 = (v,[]) ∧ strtol (printHex v field) 16 = (v,[]) := by
  have pad : (padding field).1 = 48 ∨ (padding field).2 ≤ 1 := by
    cases field with
    | none => exact .inr (by decide)
    | some width => exact .inl rfl
  have read (base : {b : Nat // 2 ≤ b}) (small : base.1 ≤ 16) (v : BitVec 64) : strtol (printnum base (padding field).1 v.toNat (padding field).2) base = (v,[]) ∧
      strtol (45 :: printnum base (padding field).1 v.toNat (padding field).2) base = (-v,[]) := by
    have value := printnum_value v.toNat small pad []
    rw [List.append_nil,BitVec.ofNat_toNat,BitVec.setWidth_eq] at value
    obtain ⟨plain,signed⟩ := strtol_digits (printnum_chars v.toNat small pad) printnum_some (by have := base.2; omega : base.1 ≠ 0)
    exact ⟨plain.trans value,signed.trans (by rw [value]; rfl)⟩
  refine ⟨?_,(read ⟨16,by decide⟩ (by decide) v).1⟩
  unfold printLong
  split
  · have signed := (read ⟨10,by decide⟩ (by decide) (-v)).2
    rwa [BitVec.neg_neg] at signed
  · exact (read ⟨10,by decide⟩ (by decide) v).1

end Ucore.Text
