import Mathlib.Data.Nat.Digits.Lemmas

/-! Numbers in decimal, as the `printf` family writes them into a buffer. -/
namespace TickToTrade

/-- `%lu` with leading zeros up to the width. -/
def decimalPadded (width n : ℕ) : List UInt8 :=
  List.leftpad width '0'.toUInt8 ((Nat.digits 10 n).reverse.map fun d => UInt8.ofNat (48 + d))

lemma toNat_digit {d : ℕ} (hd : d < 10) : (UInt8.ofNat (48 + d)).toNat = 48 + d := by
  rw [UInt8.toNat_ofNat']
  omega

lemma digit_of_mem_decimalPadded {width n : ℕ} {b : UInt8} (hb : b ∈ decimalPadded width n) :
    48 ≤ b.toNat ∧ b.toNat ≤ 57 := by
  rcases List.mem_append.mp hb with hb | hb
  · rw [List.eq_of_mem_replicate hb]
    decide
  · obtain ⟨d,hd,rfl⟩ := List.mem_map.mp hb
    have hlt : d < 10 := Nat.digits_lt_base (by decide) (List.mem_reverse.mp hd)
    rw [toNat_digit hlt]
    omega

lemma zero_notMem_decimalPadded (width n : ℕ) : 0 ∉ decimalPadded width n := by
  intro h
  have hdigit := digit_of_mem_decimalPadded h
  rw [UInt8.toNat_zero] at hdigit
  omega

lemma le_length_decimalPadded (width n : ℕ) : width ≤ (decimalPadded width n).length := by
  simp only [decimalPadded,List.length_leftpad]
  omega

/-- The number that decimal digits stand for. -/
def decimalValue (digits : List UInt8) : ℕ := digits.foldl (fun n b => 10 * n + (b.toNat - 48)) 0

lemma decimalValue_concat (digits : List UInt8) (b : UInt8) :
    decimalValue (digits ++ [b]) = 10 * decimalValue digits + (b.toNat - 48) := by
  simp [decimalValue]

/-- Leading zeros do not count. -/
lemma decimalValue_replicate_append (k : ℕ) (digits : List UInt8) :
    decimalValue (List.replicate k '0'.toUInt8 ++ digits) = decimalValue digits := by
  induction k with
  | zero => rfl
  | succ k ih =>
    rw [← ih]
    rfl

lemma decimalValue_reverse_map {ds : List ℕ} (hds : ∀ d ∈ ds, d < 10) :
    decimalValue (ds.reverse.map fun d => UInt8.ofNat (48 + d)) = Nat.ofDigits 10 ds := by
  induction ds with
  | nil => rfl
  | cons d ds ih =>
    rw [List.reverse_cons,List.map_append,List.map_singleton,decimalValue_concat,
      ih fun d' hd' => hds d' (List.mem_cons_of_mem _ hd'),toNat_digit (hds d List.mem_cons_self),Nat.ofDigits_cons]
    omega

theorem decimalValue_decimalPadded (width n : ℕ) : decimalValue (decimalPadded width n) = n := by
  rw [decimalPadded,List.leftpad,decimalValue_replicate_append,
    decimalValue_reverse_map fun _ hd => Nat.digits_lt_base (by decide) hd,Nat.ofDigits_digits]

lemma length_decimalPadded_le {width n k : ℕ} (hwidth : width ≤ k) (hn : n < 10 ^ k) :
    (decimalPadded width n).length ≤ k := by
  have hdigits : (Nat.digits 10 n).length ≤ k := Nat.digits_length_le_iff (by decide) n |>.mpr hn
  simp only [decimalPadded,List.length_leftpad,List.length_map,List.length_reverse]
  omega

lemma length_decimalPadded_eq {width n k : ℕ} (hwidth : width ≤ k) (hle : 10 ^ (k - 1) ≤ n) (hlt : n < 10 ^ k) :
    (decimalPadded width n).length = k := by
  have hmost := length_decimalPadded_le hwidth hlt
  have hleast : k - 1 < (Nat.digits 10 n).length := Nat.lt_digits_length_iff (by decide) n |>.mpr hle
  simp only [decimalPadded,List.length_leftpad,List.length_map,List.length_reverse] at hmost ⊢
  omega

/-- `snprintf` into a buffer of `size` bytes: the text cut to what fits before the NUL. -/
def snprintf (size : ℕ) (text : List UInt8) : List UInt8 := text.take (size - 1) ++ [0]

end TickToTrade
