import Mathlib.Data.List.Induction
import QueryExpr.Cast

/-!
# QueryExpr.Proofs.Numerals

Conversion of text to integers, against the grammar of decimal numerals.

* `Digits`, `IntegerText`        — the grammar: which texts denote which numbers.
* `Integer.read?_eq_some`        — what is read: a numeral, or a numeral after one more plus.
* `Item.cast_integer_eq_ok`      — the same for items with a text.
* `Item.convertsAsWritten_iff`   — the texts on which conversion and grammar agree.
-/

namespace QueryExpr

/-! ## The grammar -/

/-- A row of decimal digits denotes a number. -/
inductive Digits : List Char → Nat → Prop where
  | single {k : Nat} (hk : k < 10) : Digits [k.digitChar] k
  | append {ds : List Char} {n k : Nat} (hds : Digits ds n) (hk : k < 10) :
    Digits (ds ++ [k.digitChar]) (10 * n + k)

/-- At most one sign and a row of decimal digits denote an integer. -/
inductive IntegerText : List Char → Int → Prop where
  | unsigned {ds : List Char} {n : Nat} (hds : Digits ds n) : IntegerText ds n
  | plus {ds : List Char} {n : Nat} (hds : Digits ds n) : IntegerText ('+' :: ds) n
  | minus {ds : List Char} {n : Nat} (hds : Digits ds n) : IntegerText ('-' :: ds) (-n)

/-! ## Digits -/

theorem isDigit_digitChar {k : Nat} (hk : k < 10) : k.digitChar.isDigit = true := by
  rw [Char.isDigit_iff_toNat, Nat.toNat_digitChar_of_lt_ten hk]
  show 48 ≤ 48 + k ∧ 48 + k ≤ 57
  omega

theorem exists_digitChar {c : Char} (hc : c.isDigit = true) :
    ∃ k < 10, c = k.digitChar ∧ c.toNat - '0'.toNat = k := by
  obtain ⟨hlow, hhigh⟩ : 48 ≤ c.toNat ∧ c.toNat ≤ 57 := Char.isDigit_iff_toNat.mp hc
  refine ⟨c.toNat - 48, by omega, ?_, rfl⟩
  rw [← Char.toNat_inj, Nat.toNat_digitChar_of_lt_ten (by omega)]
  omega

theorem decimalValue_concat (ds : List Char) (d : Char) :
    decimalValue (ds ++ [d]) = 10 * decimalValue ds + (d.toNat - '0'.toNat) := by
  rw [decimalValue, List.foldl_append]
  rfl

/-- The digits that the reader asks for, and the value that it gives them. -/
theorem digits_iff {ds : List Char} {n : Nat} :
    Digits ds n ↔ ds ≠ [] ∧ (∀ d ∈ ds, d.isDigit = true) ∧ decimalValue ds = n := by
  constructor
  · intro h
    induction h with
    | single hk =>
      have hvalue := Nat.toNat_digitChar_of_lt_ten hk
      simp [decimalValue, isDigit_digitChar hk, hvalue]
    | @append ds n k hds hk ih =>
      obtain ⟨hne, hdigits, rfl⟩ := ih
      have hvalue := Nat.toNat_digitChar_of_lt_ten hk
      refine ⟨by simp, ?_, by simp [decimalValue_concat, hvalue]⟩
      intro d hd
      rcases List.mem_append.mp hd with hd | hd
      · exact hdigits d hd
      · rw [List.mem_singleton.mp hd]
        exact isDigit_digitChar hk
  · rintro ⟨hne, hdigits, rfl⟩
    induction ds using List.reverseRecOn with
    | nil => exact absurd rfl hne
    | append_singleton ds d ih =>
      obtain ⟨k, hk, rfl, hvalue⟩ := exists_digitChar (hdigits d (by simp))
      rw [decimalValue_concat, hvalue]
      by_cases hnil : ds = []
      · subst hnil
        simpa [decimalValue] using Digits.single hk
      · exact .append (ih hnil fun c hc => hdigits c (by simp [hc])) hk

/-- No row of digits begins with a sign. -/
theorem Digits.ne_sign {c : Char} {ds : List Char} {n : Nat} (h : Digits (c :: ds) n) :
    c ≠ '+' ∧ c ≠ '-' := by
  have hc : c.isDigit = true := (digits_iff.mp h).2.1 c (List.mem_cons_self ..)
  constructor
  · rintro rfl
    cases hc
  · rintro rfl
    cases hc

/-! ## Signs -/

theorem integerText_plus {ds : List Char} {z : Int} :
    IntegerText ('+' :: ds) z ↔ ∃ n : Nat, Digits ds n ∧ z = n := by
  constructor
  · intro h
    cases h with
    | unsigned hds => exact absurd rfl hds.ne_sign.1
    | @plus _ n hds => exact ⟨n, hds, rfl⟩
  · rintro ⟨n, hds, rfl⟩
    exact .plus hds

theorem integerText_minus {ds : List Char} {z : Int} :
    IntegerText ('-' :: ds) z ↔ ∃ n : Nat, Digits ds n ∧ z = -n := by
  constructor
  · intro h
    cases h with
    | unsigned hds => exact absurd rfl hds.ne_sign.2
    | @minus _ n hds => exact ⟨n, hds, rfl⟩
  · rintro ⟨n, hds, rfl⟩
    exact .minus hds

/-- The grammar in terms of the sign that is split off. -/
theorem integerText_iff {cs : List Char} {z : Int} :
    IntegerText cs z ↔ ∃ n : Nat, Digits (splitSign cs).2 n ∧
      z = if (splitSign cs).1 then -(n : Int) else n := by
  unfold splitSign
  split
  · simp [integerText_minus]
  · simp [integerText_plus]
  · rename_i hminus hplus
    constructor
    · intro h
      cases h with
      | @unsigned _ n hds => exact ⟨n, hds, by simp⟩
      | plus hds => exact absurd rfl (hplus _)
      | minus hds => exact absurd rfl (hminus _)
    · rintro ⟨n, hds, rfl⟩
      simpa using IntegerText.unsigned hds

/-! ## The reader -/

theorem int64_eq_some {z : Int} {n : Int64} :
    (if Int64.minValue.toInt ≤ z && z ≤ Int64.maxValue.toInt then some (Int64.ofInt z) else none) =
      some n ↔ z = n.toInt := by
  constructor
  · intro h
    split at h
    · rename_i hrange
      simp only [Bool.and_eq_true, decide_eq_true_eq] at hrange
      cases h
      have hmin : Int64.minValue.toInt = -2 ^ 63 := rfl
      have hmax : Int64.maxValue.toInt = 2 ^ 63 - 1 := rfl
      exact (Int64.toInt_ofInt_of_le (by omega) (by omega)).symm
    · cases h
  · rintro rfl
    rw [if_pos, Int64.ofInt_toInt]
    rw [Bool.and_eq_true, decide_eq_true_eq, decide_eq_true_eq]
    exact ⟨n.minValue_le_toInt, n.toInt_le⟩

/-- The reader, after a plus that it passes over. -/
def Integer.readSigned? (cs : List Char) : Option Int64 :=
  if (splitSign cs).2.isEmpty || !(splitSign cs).2.all Char.isDigit then none
  else
    let z : Int := if (splitSign cs).1 then -(decimalValue (splitSign cs).2 : Int)
      else decimalValue (splitSign cs).2
    if Int64.minValue.toInt ≤ z && z ≤ Int64.maxValue.toInt then some (Int64.ofInt z) else none

/-- A text without a plus in front. -/
def withoutPlus : List Char → List Char
  | '+' :: cs => cs
  | cs => cs

theorem withoutPlus_eq_self {cs : List Char} (h : ∀ ds, cs ≠ '+' :: ds) : withoutPlus cs = cs := by
  unfold withoutPlus
  split
  · exact absurd rfl (h _)
  · rfl

theorem Integer.read?_eq (cs : List Char) : read? cs = readSigned? (withoutPlus cs) := rfl

theorem Integer.readSigned?_eq_some {cs : List Char} {n : Int64} :
    readSigned? cs = some n ↔ IntegerText cs n.toInt := by
  have hdigits {ds : List Char} :
      (ds.isEmpty || !ds.all Char.isDigit) = false ↔ ds ≠ [] ∧ ∀ d ∈ ds, d.isDigit = true := by
    simp
  rw [integerText_iff, readSigned?]
  split
  · rename_i hnone
    constructor
    · intro h
      cases h
    · rintro ⟨m, hm, -⟩
      obtain ⟨hne, hall, -⟩ := digits_iff.mp hm
      rw [hdigits.mpr ⟨hne, hall⟩] at hnone
      cases hnone
  · rename_i hsome
    obtain ⟨hne, hall⟩ := hdigits.mp (Bool.eq_false_iff.mpr hsome)
    rw [int64_eq_some]
    constructor
    · intro h
      exact ⟨_, digits_iff.mpr ⟨hne, hall, rfl⟩, h.symm⟩
    · rintro ⟨m, hm, hn⟩
      obtain ⟨-, -, rfl⟩ := digits_iff.mp hm
      exact hn.symm

/-- A numeral is read, and so is a numeral after one more plus. -/
theorem Integer.read?_eq_some {cs : List Char} {n : Int64} :
    read? cs = some n ↔
      IntegerText cs n.toInt ∨ ∃ ds, cs = '+' :: ds ∧ IntegerText ds n.toInt := by
  by_cases hplus : ∃ ds, cs = '+' :: ds
  · obtain ⟨ds, rfl⟩ := hplus
    rw [read?_eq, withoutPlus, readSigned?_eq_some]
    constructor
    · intro h
      exact .inr ⟨ds, rfl, h⟩
    · rintro (h | ⟨ds, ⟨⟩, h⟩)
      · obtain ⟨m, hm, hn⟩ := integerText_plus.mp h
        rw [hn]
        exact .unsigned hm
      · exact h
  · rw [not_exists] at hplus
    rw [read?_eq, withoutPlus_eq_self hplus, readSigned?_eq_some]
    constructor
    · exact .inl
    · rintro (h | ⟨ds, hds, -⟩)
      · exact h
      · exact absurd hds (hplus ds)

/-! ## Items -/

/-- Conversion of an item with the text `s` to an integer agrees with the grammar: a numeral of the
range is converted to the integer that it denotes, and everything else fails with the text. -/
structure Item.ConvertsAsWritten (i : Item) (s : String) : Prop where
  value : ∀ n : Int64,
    i.cast .integer = .ok (.integer n) ↔ IntegerText (Text.trim s).toList n.toInt
  error : (∀ n : Int64, ¬ IntegerText (Text.trim s).toList n.toInt) →
    i.cast .integer = .error (.invalidLexical s .integer)

/-- A numeral that has a sign, after one more plus. -/
def DoublySigned (cs : List Char) : Prop :=
  ∃ c ds, ∃ n : Int64, (c = '+' ∨ c = '-') ∧ cs = '+' :: c :: ds ∧ IntegerText (c :: ds) n.toInt

section
variable {i : Item} {s : String}

theorem Item.cast_integer_text (hi : i = .string s ∨ i = .untyped s) :
    i.cast .integer = match Integer.read? (Text.trim s).toList with
      | some n => .ok (.integer n)
      | none => .error (.invalidLexical s .integer) := by
  rcases hi with rfl | rfl
  all_goals
    simp only [cast, toInteger]
    cases Integer.read? (Text.trim s).toList <;> rfl

/-- A numeral is converted, and so is a numeral after one more plus. -/
theorem Item.cast_integer_eq_ok (hi : i = .string s ∨ i = .untyped s) {n : Int64} :
    i.cast .integer = .ok (.integer n) ↔
      IntegerText (Text.trim s).toList n.toInt ∨
        ∃ ds, (Text.trim s).toList = '+' :: ds ∧ IntegerText ds n.toInt := by
  rw [← Integer.read?_eq_some, cast_integer_text hi]
  cases Integer.read? (Text.trim s).toList <;> simp

/-- Conversion agrees with the grammar on every text but a numeral with a sign after a plus. -/
theorem Item.convertsAsWritten_iff (hi : i = .string s ∨ i = .untyped s) :
    i.ConvertsAsWritten s ↔ ¬ DoublySigned (Text.trim s).toList := by
  constructor
  · rintro hwritten ⟨c, ds, n, hc, htext, hds⟩
    have hok : i.cast .integer = .ok (.integer n) :=
      (cast_integer_eq_ok hi).mpr (.inr ⟨_, htext, hds⟩)
    have hplus := (hwritten.value n).mp hok
    rw [htext] at hplus
    obtain ⟨m, hm, -⟩ := integerText_plus.mp hplus
    rcases hc with rfl | rfl
    · exact hm.ne_sign.1 rfl
    · exact hm.ne_sign.2 rfl
  · intro hsingle
    have hvalue (n : Int64) :
        i.cast .integer = .ok (.integer n) ↔ IntegerText (Text.trim s).toList n.toInt := by
      rw [cast_integer_eq_ok hi]
      constructor
      · rintro (h | ⟨ds, htext, h⟩)
        · exact h
        · generalize hz : n.toInt = z at h
          rw [htext]
          cases h with
          | unsigned hds => exact .plus hds
          | plus hds =>
            exact absurd ⟨_, _, n, .inl rfl, htext, hz ▸ .plus hds⟩ hsingle
          | minus hds =>
            exact absurd ⟨_, _, n, .inr rfl, htext, hz ▸ .minus hds⟩ hsingle
      · exact .inl
    refine ⟨hvalue, ?_⟩
    intro hnone
    rw [cast_integer_text hi]
    cases hread : Integer.read? (Text.trim s).toList with
    | none => rfl
    | some n =>
      have hok : i.cast .integer = .ok (.integer n) := by rw [cast_integer_text hi, hread]
      exact absurd ((hvalue n).mp hok) (hnone n)

/-- A sign and white space. -/
theorem Item.convertsAsWritten_iff_spaced :
    (Item.string " -12 ").ConvertsAsWritten " -12 " ↔
      ¬ DoublySigned (Text.trim " -12 ").toList :=
  Item.convertsAsWritten_iff (.inl rfl)

/-- Two signs are converted, although they begin no numeral. -/
theorem Item.cast_integer_two_signs :
    (Item.string "++5").cast .integer = .ok (.integer 5) ∧
      (∀ z, ¬ IntegerText (Text.trim "++5").toList z) ∧
      ¬ (Item.string "++5").ConvertsAsWritten "++5" := by
  have htext : (Text.trim "++5").toList = ['+', '+', '5'] := by decide +kernel
  have hcast : (Item.string "++5").cast .integer = .ok (.integer 5) := by rfl
  have hnone (z : Int) : ¬ IntegerText (Text.trim "++5").toList z := by
    intro h
    rw [htext] at h
    obtain ⟨n, hn, -⟩ := integerText_plus.mp h
    exact hn.ne_sign.1 rfl
  exact ⟨hcast, hnone, fun h => hnone _ ((h.value 5).mp hcast)⟩

end
end QueryExpr
