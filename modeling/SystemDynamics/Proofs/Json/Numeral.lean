import SystemDynamics.Json.Value
import SystemDynamics.Proofs.Json.Scan
import Mathlib.Algebra.Group.Nat.Defs
import Mathlib.Data.List.TakeWhile

namespace SystemDynamics.Json

open SystemDynamics.Number (Decimal Spelling minus zeros withPoint withExponent ofDigits digitValue)

def fractionText : Option (List Char) → Text
  | none => []
  | some digits => '.' :: digits

def exponentText : Option (Bool × List Char) → Text
  | none => []
  | some (isNegative, digits) => 'e' :: (if isNegative then '-' else '+') :: digits

def Numeral.text (n : Numeral) : Text :=
  (if n.isNegative then ['-'] else []) ++
    (n.whole ++ (fractionText n.fraction ++ exponentText n.exponent))

def IsDigits (digits : List Char) : Prop :=
  digits ≠ [] ∧ ∀ c ∈ digits, c.isDigit

structure Numeral.WellFormed (n : Numeral) : Prop where
  whole : IsDigits n.whole
  leading : n.whole.head? = some '0' → n.whole.length = 1
  fraction : ∀ digits ∈ n.fraction, IsDigits digits
  exponent : ∀ e ∈ n.exponent, IsDigits e.2

/-- A text that does not go on with a number. -/
def Ends (t : Text) : Prop :=
  ∀ c ∈ t.head?, c.isDigit = false ∧ c ≠ '.' ∧ c ≠ 'e' ∧ c ≠ 'E'

section

variable {t : Text}

theorem digits1_append {digits : List Char} (h : IsDigits digits)
    (ht : ∀ c ∈ t.head?, c.isDigit = false) : digits1 (digits ++ t) = some (digits, t) := by
  have htake : t.takeWhile Char.isDigit = [] := by
    cases t with
    | nil => rfl
    | cons c t => simp [ht c rfl]
  have hdrop : t.dropWhile Char.isDigit = t := by
    cases t with
    | nil => rfl
    | cons c t => simp [ht c rfl]
  refine digits1_eq_some.mpr ⟨h.1, ?_, ?_⟩
  · rw [List.takeWhile_append_of_pos h.2, htake, List.append_nil]
  · rw [List.dropWhile_append_of_pos h.2, hdrop]

theorem fractionDigits_append {fraction : Option (List Char)}
    (h : ∀ digits ∈ fraction, IsDigits digits)
    (ht : ∀ c ∈ t.head?, c.isDigit = false ∧ c ≠ '.') :
    fractionDigits (fractionText fraction ++ t) = some (fraction, t) := by
  cases fraction with
  | none =>
    rw [fractionText, List.nil_append, fractionDigits.eq_def]
    split
    case h_1 => exact absurd rfl (ht '.' rfl).2
    case h_2 => rfl
  | some digits =>
    simp [fractionText, fractionDigits, digits1_append (h digits rfl) fun c hc ↦ (ht c hc).1]

theorem exponentDigits_append {exponent : Option (Bool × List Char)}
    (h : ∀ e ∈ exponent, IsDigits e.2)
    (ht : ∀ c ∈ t.head?, c.isDigit = false ∧ c ≠ 'e' ∧ c ≠ 'E') :
    exponentDigits (exponentText exponent ++ t) = some (exponent, t) := by
  cases exponent with
  | none =>
    cases t with
    | nil => rfl
    | cons c t => simp [exponentText, exponentDigits, (ht c rfl).2]
  | some e =>
    obtain ⟨isNegative, digits⟩ := e
    have hdigits := digits1_append (h _ rfl) fun c hc ↦ (ht c hc).1
    cases isNegative <;> simp [exponentText, exponentDigits, hdigits]

theorem readNumeral_text {n : Numeral} (h : n.WellFormed) (ht : Ends t) :
    readNumeral (n.text ++ t) = some (n, t) := by
  obtain ⟨isNegative, whole, fraction, exponent⟩ := n
  have hexponent := exponentDigits_append h.exponent fun c hc ↦ ⟨(ht c hc).1, (ht c hc).2.2⟩
  have hend : ∀ c ∈ (exponentText exponent ++ t).head?, c.isDigit = false ∧ c ≠ '.' := by
    intro c hc
    cases exponent with
    | none => exact ⟨(ht c hc).1, (ht c hc).2.1⟩
    | some e =>
      obtain rfl := Option.some.inj hc
      decide
  have hfraction := fractionDigits_append h.fraction hend
  have hend : ∀ c ∈ (fractionText fraction ++ (exponentText exponent ++ t)).head?,
      c.isDigit = false := by
    intro c hc
    cases fraction with
    | none => exact (hend c hc).1
    | some digits =>
      obtain rfl := Option.some.inj hc
      rfl
  have hwhole := wholeDigits_eq_some.mpr ⟨digits1_append h.whole hend, h.leading⟩
  have hread : readNumeral (whole ++ (fractionText fraction ++ (exponentText exponent ++ t))) =
      some (⟨false, whole, fraction, exponent⟩, t) := by
    obtain ⟨c, digits, rfl⟩ := List.exists_cons_of_ne_nil h.whole.1
    have hc : c ≠ '-' := by
      rintro rfl
      simpa using h.whole.2 '-' List.mem_cons_self
    rw [List.cons_append] at hwhole ⊢
    simp [readNumeral, hc, hwhole, hfraction, hexponent]
  cases isNegative with
  | true => simp [Numeral.text, readNumeral, hwhole, hfraction, hexponent]
  | false => simpa [Numeral.text] using hread

end

theorem le_ofDigitChars (n : Nat) (digits : List Char) : n ≤ Nat.ofDigitChars 10 digits n := by
  rw [Nat.ofDigitChars_eq_ofDigitChars_zero]
  exact (Nat.le_mul_of_pos_left n (Nat.pow_pos (by decide))).trans (Nat.le_add_right _ _)

/-- Digits are taken into a number as long as it has sixty-four bits. -/
theorem accumulate_eq {n : Nat} {digits : List Char}
    (h : Nat.ofDigitChars 10 digits n < 2 ^ 64) :
    accumulate n digits = (Nat.ofDigitChars 10 digits n, []) := by
  induction digits generalizing n with
  | nil => rfl
  | cons c digits ih =>
    rw [Nat.ofDigitChars_cons] at h ⊢
    have hlt := (le_ofDigitChars _ digits).trans_lt h
    rw [accumulate]
    exact (if_pos hlt).trans (ih h)

def Numeral.significand (n : Numeral) : Nat :=
  ofDigits (n.whole ++ n.fraction.getD [])

/-- The weight of the last digit, as a power of ten. -/
def Numeral.weight (n : Numeral) : Int :=
  n.exponent.elim 0 (fun (isNegative, digits) ↦
    if isNegative then -(ofDigits digits : Int) else ofDigits digits) - (n.fraction.getD []).length

theorem Numeral.value_eq {n : Numeral} (h : n.fraction.isSome ∨ n.exponent.isSome)
    (hn : n.significand < 2 ^ 64) : n.value =
      (scale (n.weight.natAbs + 1) (Float.ofNat n.significand) n.weight).map fun x ↦
        .float (if n.isNegative then -x else x) := by
  have hsplit : n.significand =
      Nat.ofDigitChars 10 (n.fraction.getD []) (Nat.ofDigitChars 10 n.whole 0) :=
    Nat.ofDigitChars_append 0
  rw [hsplit] at hn
  have hwhole := accumulate_eq ((le_ofDigitChars _ _).trans_lt hn)
  have hall := accumulate_eq hn
  rw [← hsplit] at hall
  rw [Numeral.value, hwhole]
  simp only
  split
  case h_1 hfraction hexponent _ => simp [hfraction, hexponent] at h
  case h_2 =>
    rw [hall]
    refine congrArg (fun e : Int ↦ (scale (e.natAbs + 1) (Float.ofNat n.significand) e).map fun x ↦
      Number.float (if n.isNegative then -x else x)) ?_
    rw [Numeral.weight]
    cases n.exponent <;> simp only [List.length_nil, Option.elim_none, Option.elim_some] <;> omega

theorem isDigits_toDigits (n : Nat) : IsDigits (Nat.toDigits 10 n) :=
  ⟨Nat.toDigits_ne_nil, fun _ h ↦ Nat.isDigit_of_mem_toDigits (by decide) (by decide) h⟩

theorem ofDigits_toDigits (n : Nat) : ofDigits (Nat.toDigits 10 n) = n :=
  Nat.ofDigitChars_toDigits (by decide) (by decide)

theorem head?_append_of_ne_nil {digits : List Char} (h : digits ≠ []) (t : Text) :
    (digits ++ t).head? = digits.head? := by
  obtain ⟨c, digits, rfl⟩ := List.exists_cons_of_ne_nil h
  rfl

theorem head_toDigits {n : Nat} (hn : 0 < n) : (Nat.toDigits 10 n).head? ≠ some '0' := by
  induction n using Nat.strong_induction_on with
  | _ n ih =>
    rcases Nat.lt_or_ge n 10 with hlt | hge
    · rw [Nat.toDigits_of_lt_base hlt]
      simpa using hn.ne'
    · have hne := Nat.toDigits_ne_nil (n := n / 10) (b := 10)
      rw [Nat.toDigits_of_base_le (by decide) hge, head?_append_of_ne_nil hne]
      exact ih (n / 10) (by omega) (by omega)

theorem IsDigits.append {digits digits' : List Char} (h : IsDigits digits)
    (h' : ∀ c ∈ digits', c.isDigit) : IsDigits (digits ++ digits') :=
  ⟨by simp [h.1], fun c hc ↦ (List.mem_append.mp hc).elim (h.2 c) (h' c)⟩

theorem IsDigits.take {digits : List Char} (h : IsDigits digits) {n : Nat} (hn : 0 < n) :
    IsDigits (digits.take n) :=
  ⟨by simp [h.1, hn.ne'], fun c hc ↦ h.2 c (List.mem_of_mem_take hc)⟩

theorem IsDigits.drop {digits : List Char} (h : IsDigits digits) {n : Nat}
    (hn : n < digits.length) : IsDigits (digits.drop n) :=
  ⟨by simpa using hn, fun c hc ↦ h.2 c (List.mem_of_mem_drop hc)⟩

theorem isDigit_of_mem_zeros {n : Nat} {c : Char} (h : c ∈ zeros n) : c.isDigit := by
  obtain rfl := List.eq_of_mem_replicate h
  rfl

/-- The numeral that digits are written as, the last of them having the weight `10 ^ exponent`. -/
def written (isNegative : Bool) (digits : List Char) (exponent : Int) : Numeral :=
  let point := digits.length + exponent
  if spelling.positional (point - 1) then
    if 0 ≤ exponent then ⟨isNegative, digits ++ zeros exponent.toNat, some ['0'], none⟩
    else if 0 < point then
      ⟨isNegative, digits.take point.toNat, some (digits.drop point.toNat), none⟩
    else ⟨isNegative, ['0'], some (zeros (-point).toNat ++ digits), none⟩
  else
    ⟨isNegative, digits.take 1, if (digits.drop 1).isEmpty then none else some (digits.drop 1),
      some (decide (point - 1 < 0), Nat.toDigits 10 (point - 1).natAbs)⟩

theorem text_written (isNegative : Bool) (d : Decimal) :
    (written isNegative (Nat.toDigits 10 d.coefficient) d.exponent).text =
      (if isNegative then ['-'] else []) ++ spelling.decimal d := by
  simp only [written, Spelling.decimal]
  split
  case isTrue =>
    rw [withPoint]
    split
    case isTrue => simp [Numeral.text, fractionText, exponentText, spelling]
    case isFalse => split <;> simp [Numeral.text, fractionText, exponentText]
  case isFalse =>
    simp only [withExponent, Numeral.text, exponentText, spelling, decide_eq_true_eq, if_true]
    split <;> split <;> split <;> simp_all [fractionText]

section

variable (isNegative : Bool) {digits : List Char} (h : IsDigits digits)

include h

theorem written_wellFormed (hhead : digits.head? ≠ some '0') (exponent : Int) :
    (written isNegative digits exponent).WellFormed := by
  have hlength := List.length_pos_iff.mpr h.1
  rw [written]
  split
  case isTrue =>
    split
    case isTrue =>
      refine ⟨h.append fun _ ↦ isDigit_of_mem_zeros, fun hzero ↦ ?_, ?_, nofun⟩
      · rw [head?_append_of_ne_nil h.1] at hzero
        exact absurd hzero hhead
      · simp [IsDigits]
    case isFalse =>
      split
      case isTrue hpoint =>
        refine ⟨h.take (by omega), fun hzero ↦ ?_, ?_, nofun⟩
        · rw [List.head?_take, if_neg (by omega)] at hzero
          exact absurd hzero hhead
        · simpa using h.drop (by omega)
      case isFalse hpoint =>
        refine ⟨by simp [IsDigits], fun _ ↦ rfl, ?_, nofun⟩
        have hfraction : IsDigits (zeros (-(digits.length + exponent)).toNat ++ digits) :=
          ⟨by simp [h.1], fun c hc ↦ (List.mem_append.mp hc).elim isDigit_of_mem_zeros (h.2 c)⟩
        simpa using hfraction
  case isFalse =>
    refine ⟨h.take Nat.one_pos, fun hzero ↦ ?_, ?_, ?_⟩
    · rw [List.head?_take, if_neg Nat.one_ne_zero] at hzero
      exact absurd hzero hhead
    · intro fraction hfraction
      split at hfraction
      case isTrue => simp at hfraction
      case isFalse hne =>
        obtain rfl := Option.some.inj hfraction
        rw [List.isEmpty_iff, List.drop_eq_nil_iff, Nat.not_le] at hne
        exact h.drop hne
    · simpa using isDigits_toDigits _

omit h in
theorem written_isSome (exponent : Int) : (written isNegative digits exponent).fraction.isSome ∨
    (written isNegative digits exponent).exponent.isSome := by
  rw [written]
  split
  case isTrue => split <;> [exact .inl rfl; (split <;> exact .inl rfl)]
  case isFalse => exact .inr rfl

omit h in
@[simp] theorem written_isNegative (exponent : Int) :
    (written isNegative digits exponent).isNegative = isNegative := by
  rw [written]
  split <;> [(split <;> [rfl; (split <;> rfl)]); rfl]

omit h in
theorem significand_written (exponent : Int) : (written isNegative digits exponent).significand =
    if spelling.positional (digits.length + exponent - 1) ∧ 0 ≤ exponent then
      ofDigits digits * 10 ^ (exponent.toNat + 1)
    else ofDigits digits := by
  have hzeros : ∀ n m, Nat.ofDigitChars 10 (zeros n) m = 10 ^ n * m := fun _ _ ↦
    Nat.ofDigitChars_replicate_zero
  have hdigits : ∀ digits, ofDigits digits = Nat.ofDigitChars 10 digits 0 := fun _ ↦ rfl
  rw [written]
  by_cases hpositional : spelling.positional (digits.length + exponent - 1)
  · by_cases hexponent : 0 ≤ exponent
    · simp only [hpositional, hexponent, and_self, if_true, Numeral.significand, hdigits,
        Option.getD_some, Nat.ofDigitChars_append, hzeros]
      simp [Nat.ofDigitChars_cons, Nat.pow_succ, Nat.mul_comm, Nat.mul_assoc]
    · simp only [hpositional, hexponent, and_false, if_true, if_false]
      split
      case isTrue => simp [Numeral.significand]
      case isFalse =>
        simp [Numeral.significand, hdigits, Nat.ofDigitChars_append, Nat.ofDigitChars_cons, hzeros]
  · simp only [hpositional, Bool.false_eq_true, false_and, if_false, Numeral.significand]
    split
    case isTrue hempty =>
      rw [List.isEmpty_iff, List.drop_eq_nil_iff] at hempty
      rw [Option.getD_none, List.append_nil, List.take_of_length_le hempty]
    case isFalse => rw [Option.getD_some, List.take_append_drop]

theorem weight_written (exponent : Int) : (written isNegative digits exponent).weight =
    if spelling.positional (digits.length + exponent - 1) ∧ 0 ≤ exponent then -1
    else exponent := by
  have hlength := List.length_pos_iff.mpr h.1
  rw [written]
  by_cases hpositional : spelling.positional (digits.length + exponent - 1)
  · by_cases hexponent : 0 ≤ exponent
    · simp only [hpositional, hexponent, and_self, if_true]
      rfl
    · simp only [hpositional, hexponent, and_false, if_true, if_false]
      split
      case isTrue =>
        simp only [Numeral.weight, Option.elim_none, Option.getD_some, List.length_drop]
        omega
      case isFalse =>
        simp only [Numeral.weight, Option.elim_none, Option.getD_some, List.length_append, zeros,
          List.length_replicate]
        omega
  · have hfraction : ((if (digits.drop 1).isEmpty then none
        else some (digits.drop 1) : Option (List Char)).getD []).length = digits.length - 1 := by
      split
      case isTrue hempty =>
        rw [List.isEmpty_iff, List.drop_eq_nil_iff] at hempty
        exact (Nat.sub_eq_zero_of_le hempty).symm
      case isFalse => exact List.length_drop
    simp only [hpositional, Bool.false_eq_true, false_and, if_false, Numeral.weight,
      Option.elim_some, hfraction, ofDigits_toDigits, decide_eq_true_eq]
    split <;> omega

end

end SystemDynamics.Json
