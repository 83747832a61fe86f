set_option autoImplicit false

/-! # Amounts and times

Amounts are 64-bit words of millisatoshi and times are Unix seconds in signed 64-bit words. A sum of
amounts is clamped to the largest word (`clampWord`), cut to its low 64 bits (`lowWord`), or must
fit a word, and each place says which. A difference of times must fit (`fitSigned?`). The laws of
these operations are stated on natural numbers.
-/

namespace Rebalancer

/-- An amount in millisatoshi. -/
abbrev Msat := UInt64

/-- A fee rate in parts per million. -/
abbrev Ppm := UInt64

/-- A time in Unix seconds. -/
abbrev Time := Int

/-- The largest 64-bit word. -/
def maxWord : Nat := 0xFFFFFFFFFFFFFFFF

/-- The largest 32-bit word. -/
def maxHalfWord : Nat := 0xFFFFFFFF

/-- The least signed 64-bit word. -/
def minSigned : Int := -0x8000000000000000

/-- The largest signed 64-bit word. -/
def maxSigned : Int := 0x7FFFFFFFFFFFFFFF

/-- The word nearest to `n`: a number beyond the largest word becomes the largest word. -/
def clampWord (n : Nat) : UInt64 := UInt64.ofNat (min n maxWord)

/-- The low 64 bits of `n`. -/
def lowWord (n : Nat) : UInt64 := UInt64.ofNat n

/-- The sum of two amounts, clamped to the largest word. -/
def addClamped (a b : UInt64) : UInt64 := clampWord (a.toNat + b.toNat)

/-- The difference of two amounts, zero when the second is larger. -/
def subClamped (a b : UInt64) : UInt64 := clampWord (a.toNat - b.toNat)

/-- The sum of two delays, clamped to the largest 32-bit word. -/
def addDelay (a b : UInt32) : UInt32 := UInt32.ofNat (min (a.toNat + b.toNat) maxHalfWord)

theorem toNat_le_maxWord (w : UInt64) : w.toNat ≤ maxWord := by
  have := w.toNat_lt
  simp only [maxWord]
  omega

@[simp] theorem toNat_clampWord (n : Nat) : (clampWord n).toNat = min n maxWord := by
  simp only [clampWord, UInt64.toNat_ofNat', maxWord]
  omega

@[simp] theorem toNat_lowWord (n : Nat) : (lowWord n).toNat = n % (maxWord + 1) := by
  simp [lowWord, maxWord]

@[simp] theorem toNat_addClamped (a b : UInt64) :
    (addClamped a b).toNat = min (a.toNat + b.toNat) maxWord := by
  simp [addClamped]

@[simp] theorem toNat_subClamped (a b : UInt64) :
    (subClamped a b).toNat = a.toNat - b.toNat := by
  have := a.toNat_lt
  simp only [subClamped, toNat_clampWord, maxWord]
  omega

@[simp] theorem toNat_addDelay (a b : UInt32) :
    (addDelay a b).toNat = min (a.toNat + b.toNat) maxHalfWord := by
  simp only [addDelay, UInt32.toNat_ofNat', maxHalfWord]
  omega

theorem toNat_min_word (a b : UInt64) : (min a b).toNat = min a.toNat b.toNat := by
  show (if a ≤ b then a else b).toNat = _
  by_cases h : a ≤ b
  · have hle : a.toNat ≤ b.toNat := UInt64.le_iff_toNat_le.mp h
    rw [if_pos h]
    omega
  · have hlt : ¬ a.toNat ≤ b.toNat := fun hle => h (UInt64.le_iff_toNat_le.mpr hle)
    rw [if_neg h]
    omega

/-- The rate that `fee` is of `amount`, rounded down and cut to 64 bits; zero for no amount. -/
def rateOf (fee amount : Msat) : Ppm :=
  if amount = 0 then 0 else lowWord (fee.toNat * 1000000 / amount.toNat)

/-- The rate that `fee` is of `amount`, rounded up and cut to 64 bits; zero for no amount. -/
def rateCeil (fee amount : Msat) : Ppm :=
  if amount = 0 then 0
  else lowWord ((fee.toNat * 1000000 + (amount.toNat - 1)) / amount.toNat)

/-- The share of `percent` hundredths of `total`, rounded down and cut to 64 bits. -/
def percentOf (total percent : UInt64) : UInt64 := lowWord (total.toNat * percent.toNat / 100)

/-- `n` thousands, clamped to the largest word: satoshi as millisatoshi. -/
def satoshi (n : UInt64) : Msat := clampWord (n.toNat * 1000)

/-- Whether a signed 64-bit word can hold `n`. -/
def fitsSigned (n : Int) : Bool := minSigned ≤ n && n ≤ maxSigned

/-- The integer `n` if a signed 64-bit word can hold it. -/
def fitSigned? (n : Int) : Option Int := if fitsSigned n then some n else none

/-- The integer nearest to `n` that a signed 64-bit word can hold. -/
def clampSigned (n : Int) : Int := max minSigned (min n maxSigned)

/-- The signed 64-bit word with the same bits, as an integer: how an amount is stored. -/
def signedOfWord (w : UInt64) : Int := w.toInt64.toInt

/-- The amount whose bits are those of the signed word `n`. -/
def wordOfSigned (n : Int) : UInt64 := (Int64.ofInt n).toUInt64

theorem fitSigned?_eq_some_iff {n m : Int} :
    fitSigned? n = some m ↔ n = m ∧ minSigned ≤ n ∧ n ≤ maxSigned := by
  grind [fitSigned?, fitsSigned]

@[simp] theorem wordOfSigned_signedOfWord (w : UInt64) : wordOfSigned (signedOfWord w) = w := by
  simp [wordOfSigned, signedOfWord]

end Rebalancer
