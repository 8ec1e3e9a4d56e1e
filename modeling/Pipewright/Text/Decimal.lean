set_option autoImplicit false

namespace Pipewright.Text

def decimal (n : Nat) : List Char :=
  Nat.toDigits 10 n

def decimalValue (digits : List Char) : Nat :=
  Nat.ofDigitChars 10 digits 0

def isDecimal (digits : List Char) : Bool :=
  !digits.isEmpty && digits.all Char.isDigit

/-- Reads a row of digits, perhaps after a plus sign, if its number fits into 64 bits. -/
def readUInt64? (text : List Char) : Option UInt64 :=
  let digits := match text with
    | '+' :: digits => digits
    | digits => digits
  if isDecimal digits ∧ decimalValue digits < UInt64.size then some (.ofNat (decimalValue digits))
  else none

theorem readUInt64?_of_isDecimal {digits : List Char} (decimal : isDecimal digits = true) :
    readUInt64? digits =
      if decimalValue digits < UInt64.size then some (.ofNat (decimalValue digits)) else none := by
  have plain : ∀ rest, digits ≠ '+' :: rest := by
    rintro rest rfl
    cases decimal
  unfold readUInt64?
  split
  · next rest => cases plain _ rfl
  · simp [decimal]

theorem isDigit_of_mem_decimal {n : Nat} {c : Char} (member : c ∈ decimal n) : c.isDigit = true :=
  Nat.isDigit_of_mem_toDigits (by decide) (by decide) member

@[simp] theorem decimalValue_decimal (n : Nat) : decimalValue (decimal n) = n := by
  simp [decimalValue, decimal, Nat.ofDigitChars_ten_toDigits]

def EndsNumber (rest : List Char) : Prop :=
  ∀ c ∈ rest.head?, c.isDigit = false

theorem endsNumber_nil : EndsNumber [] := by
  simp [EndsNumber]

theorem endsNumber_cons {c : Char} (rest : List Char) (mark : c.isDigit = false) :
    EndsNumber (c :: rest) := by
  simpa [EndsNumber] using mark

theorem takeWhile_decimal_append (n : Nat) {rest : List Char} (ends : EndsNumber rest) :
    (decimal n ++ rest).takeWhile Char.isDigit = decimal n := by
  rw [List.takeWhile_append_of_pos fun c member => isDigit_of_mem_decimal member]
  cases rest with
  | nil => simp
  | cons c rest => simp [ends c rfl]

theorem decimal_append_inj {n m : Nat} {rest after : List Char} (ends : EndsNumber rest)
    (stops : EndsNumber after) (same : decimal n ++ rest = decimal m ++ after) :
    n = m ∧ rest = after := by
  have digits := congrArg (List.takeWhile Char.isDigit) same
  rw [takeWhile_decimal_append n ends, takeWhile_decimal_append m stops] at digits
  have values := congrArg decimalValue digits
  rw [decimalValue_decimal, decimalValue_decimal] at values
  subst values
  exact ⟨rfl, List.append_cancel_left same⟩

end Pipewright.Text
