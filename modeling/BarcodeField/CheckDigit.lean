import BarcodeField.Text

/-!
# The check digit of UCC case codes

A case code has nineteen data characters and a check digit. Shorter data is brought to nineteen by
leading zeros, and of longer data the first nineteen count. From the left the weights are 7, 9, 7, 9 and
so on, and the digit is the weighted sum modulo ten.

Data need not be digits: a character counts by its distance from `0`, which may be negative, and the
remainder is the one that is never negative.
-/

namespace BarcodeField.CheckDigit

/-- Data characters of a case code. -/
def dataLength : Nat := 19

/-- The first nineteen characters of the data, after leading zeros where there are fewer. -/
def pad (data : Text) : Text :=
  (List.replicate (dataLength - data.length) '0' ++ data).take dataLength

/-- The weight of a place, counted from the left and from zero. -/
def weight (place : Nat) : Int := if place % 2 = 0 then 7 else 9

/-- What a character counts for: its distance from `0`. -/
def value (c : Char) : Int := (c.toNat : Int) - 48

/-- The weighted sum of characters, the first of which stands in a given place. -/
def weightedSum (place : Nat) : Text → Int
  | [] => 0
  | c :: rest => value c * weight place + weightedSum (place + 1) rest

/-- The check digit over the first nineteen characters. -/
def digit (data : Text) : Fin 10 := Fin.ofNat 10 (weightedSum 0 (data.take dataLength) % 10).toNat

/-- A check digit as a character. -/
def digitChar (d : Fin 10) : Char := Nat.digitChar d

theorem length_pad (data : Text) : (pad data).length = dataLength := by
  simp [pad]
  omega

/-- Data that fits is pushed to the right. -/
theorem pad_of_length_le {data : Text} (h : data.length ≤ dataLength) :
    pad data = List.replicate (dataLength - data.length) '0' ++ data :=
  List.take_of_length_le (by simp; omega)

/-- Zeros in front of short data are the ones that it would get. -/
theorem pad_zeros_append {data : Text} {k : Nat} (h : k + data.length ≤ dataLength) :
    pad (List.replicate k '0' ++ data) = pad data := by
  have hlength : (List.replicate k '0' ++ data).length = k + data.length := by
    rw [List.length_append, List.length_replicate]
  have hzeros : dataLength - (k + data.length) + k = dataLength - data.length := by omega
  rw [pad_of_length_le (by omega), pad_of_length_le (by omega), hlength, ← List.append_assoc,
    List.replicate_append_replicate, hzeros]

/-- Of longer data only the beginning is kept. -/
theorem pad_of_le_length {data : Text} (h : dataLength ≤ data.length) : pad data = data.take dataLength := by
  rw [pad, Nat.sub_eq_zero_of_le h]
  rfl

end BarcodeField.CheckDigit
