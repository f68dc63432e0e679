import Mathlib.Tactic.Ring

-- Byte buffers, little-endian numbers in them and zero-terminated strings.
namespace Bytes

abbrev Buf := Nat → UInt8

def zero : Buf := fun _ => 0

-- memcpy (dst + off, src, len)
def copy (dst : Buf) (off len : Nat) (src : Buf) : Buf :=
  fun i => if off ≤ i ∧ i < off + len then src (i - off) else dst i

def leBytes (v : Nat) : Buf := fun k => UInt8.ofNat (v / 256^k)

def getLE (b : Buf) (off : Nat) : Nat → Nat
  | 0 => 0
  | n+1 => (b off).toNat + 256 * getLE b (off + 1) n

def putLE (b : Buf) (off n v : Nat) : Buf := copy b off n (leBytes v)

def words (f : Nat → Nat) : Buf := fun i => leBytes (f (i / 4)) (i % 4)

def cstr (b : Buf) (off : Nat) : Nat → List UInt8
  | 0 => []
  | n+1 => if b off = 0 then [] else b off :: cstr b (off + 1) n

def ofList (l : List UInt8) : Buf := fun i => l.getD i 0

lemma copy_inside (low : off ≤ i) (high : i < off + len) : copy dst off len src i = src (i - off) := by simp [copy,low,high]

lemma copy_outside (ne : i < off ∨ off + len ≤ i) : copy dst off len src i = dst i := by
  have not_in : ¬ (off ≤ i ∧ i < off + len) := by omega
  simp [copy,not_in]

lemma copy_none (dst src : Buf) (off : Nat) : copy dst off 0 src = dst := funext fun _ => if_neg (by omega)

lemma copy_append (dst src : Buf) (off m n : Nat) : copy (copy dst off m src) (off + m) n (fun i => src (m + i)) = copy dst off (m + n) src := by
  funext i
  simp only [copy]
  grind

lemma eq_succ {b c : Buf} (eq : ∀ k < n + 1,b (off + k) = c (o + k)) : b off = c o ∧ ∀ k < n,b (off + 1 + k) = c (o + 1 + k) := by
  refine ⟨eq 0 (by omega),fun k _ => ?_⟩
  rw [add_right_comm,add_right_comm o]
  exact eq (k + 1) (by omega)

lemma getLE_congr {b c : Buf} (eq : ∀ k < n,b (off + k) = c (o + k)) : getLE b off n = getLE c o n := by
  induction n generalizing off o with
  | zero => rfl
  | succ n ih =>
    obtain ⟨first,rest⟩ := eq_succ eq
    simp [getLE,first,ih rest]

lemma getLE_copy_inside (low : off ≤ o) (high : o + n ≤ off + len) : getLE (copy dst off len src) o n = getLE src (o - off) n := by
  apply getLE_congr
  intro k _
  rw [copy_inside (by omega) (by omega)]
  congr 1; omega

lemma getLE_copy_outside (ne : o + n ≤ off ∨ off + len ≤ o) : getLE (copy dst off len src) o n = getLE dst o n := by
  apply getLE_congr
  intro k _
  rw [copy_outside (by omega)]

lemma leBytes_shift (v k : Nat) : leBytes v (k + 1) = leBytes (v / 256) k := by simp [leBytes,Nat.pow_succ,Nat.div_div_eq_div_mul,mul_comm]

lemma getLE_leBytes (v n : Nat) : getLE (leBytes v) 0 n = v % 256^n := by
  induction n generalizing v with
  | zero => simp [getLE,Nat.mod_one]
  | succ n ih =>
    have rest : getLE (leBytes v) 1 n = getLE (leBytes (v / 256)) 0 n := by
      apply getLE_congr
      intro k _
      rw [add_comm 1 k,leBytes_shift,zero_add]
    have one : (leBytes v 0).toNat = v % 256 := by simp [leBytes]
    simp only [getLE,zero_add,rest,ih,one,Nat.pow_succ]
    rw [mul_comm (256^n) 256,Nat.mod_mul]

lemma getLE_putLE (b : Buf) (off n v : Nat) : getLE (putLE b off n v) off n = v % 256^n := by
  rw [putLE,getLE_copy_inside (le_refl _) (le_refl _),Nat.sub_self,getLE_leBytes]

lemma getLE_putLE_apart (ne : o + n ≤ off ∨ off + m ≤ o) : getLE (putLE b off m v) o n = getLE b o n := getLE_copy_outside ne

lemma getLE_zero (off n : Nat) : getLE zero off n = 0 := by
  induction n generalizing off with
  | zero => rfl
  | succ n ih => simp [getLE,ih,zero]

lemma getLE_words (f : Nat → Nat) (k : Nat) : getLE (words f) (4 * k) 4 = f k % 256^4 := by
  have eq : getLE (words f) (4 * k) 4 = getLE (leBytes (f k)) 0 4 := by
    apply getLE_congr
    intro j _
    simp only [words,zero_add]
    rw [show (4 * k + j) / 4 = k by omega,show (4 * k + j) % 4 = j by omega]
  rw [eq,getLE_leBytes]

lemma cstr_congr {b c : Buf} (eq : ∀ k < n,b (off + k) = c (o + k)) : cstr b off n = cstr c o n := by
  induction n generalizing off o with
  | zero => rfl
  | succ n ih =>
    obtain ⟨first,rest⟩ := eq_succ eq
    simp [cstr,first,ih rest]

lemma cstr_ofList (plain : (0 : UInt8) ∉ l) (fits : l.length ≤ n) : cstr (ofList l) 0 n = l := by
  induction l generalizing n with
  | nil => cases n <;> simp [cstr,ofList]
  | cons c rest ih =>
    cases n with
    | zero => simp at fits
    | succ n =>
      have nonzero : c ≠ 0 := fun h => plain (by simp [h])
      have tail : cstr (ofList (c :: rest)) 1 n = cstr (ofList rest) 0 n := by
        apply cstr_congr
        intro k _
        simp [ofList,add_comm 1 k]
      have eq := ih (fun h => plain (List.mem_cons_of_mem _ h)) (by simpa using fits)
      have head : ofList (c :: rest) 0 = c := rfl
      simp [cstr,head,nonzero,tail,eq]

lemma cstr_plain (b : Buf) (off n : Nat) : (0 : UInt8) ∉ cstr b off n := by
  induction n generalizing off with
  | zero => simp [cstr]
  | succ n ih =>
    by_cases h : b off = 0
    · simp [cstr,h]
    simp only [cstr,h,if_false,List.mem_cons,not_or]
    exact ⟨fun e => h e.symm,ih (off + 1)⟩

lemma cstr_length (b : Buf) (off n : Nat) : (cstr b off n).length ≤ n := by
  induction n generalizing off with
  | zero => simp [cstr]
  | succ n ih =>
    by_cases h : b off = 0
    · simp [cstr,h]
    simp only [cstr,h,if_false,List.length_cons]
    have := ih (off + 1)
    omega

end Bytes
