import WindTerm.Library.LockTrace
import WindTerm.Library.Traced
import Mathlib.Tactic.IntervalCases

/-!
# What the classes of `src/Terminal` share

Byte arrays, the `int` of the source, the number printing of Qt and the names
of the three mutexes of a terminal handler.
-/

namespace WindTerm

open Library

/-- `QByteArray`. All comparisons of the source test ranges below `0x80`, so
the signedness of `char` does not show. -/
abbrev QByteArray := List UInt8

/-- The value of an `int` computation with exact result `x`, in 32-bit two's
complement. -/
def int32 (x : Int) : Int := x.bmod (2 ^ 32)

theorem int32_of_range {x : Int} (low : -2 ^ 31 ≤ x) (high : x < 2 ^ 31) : int32 x = x := by
  unfold int32
  apply Int.bmod_eq_of_le <;> omega

/-- The decimal digits of a natural number, most significant first. -/
def decimal (n : Nat) : QByteArray := (Nat.toDigits 10 n).map Char.toUInt8

/-- `QString::number(x).toLatin1()`. -/
def number (x : Int) : QByteArray :=
  if x < 0 then 45 :: decimal x.natAbs else decimal x.natAbs

/-- The `m_mutex` of each of the objects a `TerminalHandler` owns. -/
inductive Mutex where
  | modeManager
  | syncBuffer
  | csiParser
  deriving DecidableEq, Repr

/-- The digits `ds` read behind the value `acc`. -/
def readDecimal (acc : Nat) (ds : QByteArray) : Nat :=
  ds.foldl (fun acc d => acc * 10 + (d.toNat - 48)) acc

/-- A decimal digit `0`..`9`. -/
def isDigit (b : UInt8) : Bool := 0x30 ≤ b && b ≤ 0x39

theorem le_readDecimal (acc : Nat) (ds : QByteArray) : acc ≤ readDecimal acc ds := by
  induction ds generalizing acc with
  | nil => exact Nat.le_refl acc
  | cons d ds ih =>
      have step : acc ≤ acc * 10 + (d.toNat - 48) := by omega
      exact step.trans (ih _)

theorem toUInt8_digitChar {d : Nat} (small : d < 10) :
    isDigit (Nat.digitChar d).toUInt8 = true ∧ (Nat.digitChar d).toUInt8.toNat - 48 = d := by
  interval_cases d <;> decide

/-- `decimal n` is a nonempty string of digits that reads back as `n`. -/
theorem decimal_spec (n : Nat) :
    decimal n ≠ [] ∧ (∀ b ∈ decimal n, isDigit b = true) ∧ readDecimal 0 (decimal n) = n := by
  induction n using Nat.strongRecOn with
  | ind n ih =>
      by_cases small : n < 10
      · have digits : decimal n = [(Nat.digitChar n).toUInt8] := by
          rw [decimal, Nat.toDigits_of_lt_base small, List.map_singleton]
        have digit := toUInt8_digitChar small
        rw [digits]
        refine ⟨List.cons_ne_nil _ _, ?_, ?_⟩
        · intro b mem
          rw [List.mem_singleton] at mem
          exact mem ▸ digit.1
        · simpa [readDecimal] using digit.2
      · have digits : decimal n =
            decimal (n / 10) ++ [(Nat.digitChar (n % 10)).toUInt8] := by
          rw [decimal, Nat.toDigits_of_base_le (by omega) (by omega), List.map_append,
            List.map_singleton, decimal]
        obtain ⟨nonempty, areDigits, value⟩ := ih (n / 10) (by omega)
        have digit := toUInt8_digitChar (Nat.mod_lt n (by omega : 10 > 0))
        rw [digits]
        refine ⟨by simp, ?_, ?_⟩
        · intro b mem
          rcases List.mem_append.mp mem with before | last
          · exact areDigits b before
          · rw [List.mem_singleton] at last
            exact last ▸ digit.1
        · have split : readDecimal 0 (decimal (n / 10) ++ [(Nat.digitChar (n % 10)).toUInt8]) =
              readDecimal 0 (decimal (n / 10)) * 10 + n % 10 := by
            simp only [readDecimal, List.foldl_append, List.foldl_cons, List.foldl_nil, digit.2]
          rw [split, value]
          omega

end WindTerm
