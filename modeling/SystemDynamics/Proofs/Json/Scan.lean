import SystemDynamics.Json.Scan
import Mathlib.Data.List.TakeDrop
import Mathlib.Data.List.TakeWhile

namespace SystemDynamics.Json

theorem length_skipBlank_le (t : Text) : (skipBlank t).length ≤ t.length :=
  (List.dropWhile_suffix isBlank).length_le

theorem skipBlank_cons {c : Char} (hc : isBlank c = false) (t : Text) :
    skipBlank (c :: t) = c :: t := by
  simp [skipBlank, hc]

@[simp] theorem skipBlank_skipBlank (t : Text) : skipBlank (skipBlank t) = skipBlank t := by
  induction t with
  | nil => rfl
  | cons c t ih =>
    by_cases hc : isBlank c
    · simpa [skipBlank, hc] using ih
    · simp [skipBlank, hc]

theorem length_of_skipBlank {t t' : Text} {c : Char} (h : skipBlank t = c :: t') :
    t'.length < t.length := by
  have hle := length_skipBlank_le t
  rw [h, List.length_cons] at hle
  exact hle

theorem skipWord_eq_some {word t rest : Text} : skipWord word t = some rest ↔ t = word ++ rest := by
  induction word generalizing t with
  | nil => simp [skipWord]
  | cons c word ih =>
    cases t with
    | nil => simp [skipWord]
    | cons d t =>
      by_cases hcd : c = d
      · simp [skipWord, hcd, ih]
      · simp [skipWord, hcd, Ne.symm hcd]

theorem length_of_skipWord {word t rest : Text} (h : skipWord word t = some rest) :
    rest.length ≤ t.length := by
  rw [skipWord_eq_some.mp h, List.length_append]
  exact Nat.le_add_left _ _

def escaped : Text → Option (Char × Text)
  | [] => none
  | e :: rest => if e = 'u' then unicodeEscape rest else (simpleEscape? e).map (·, rest)

/-- A character of a string, written out or as an escape. -/
def bodyChar (c : Char) (rest : Text) : Option (Char × Text) :=
  if c = '\\' then escaped rest else if c.toNat < 0x20 then none else some (c, rest)

theorem stringBody_cons (fuel : Nat) (c : Char) (t : Text) :
    stringBody (fuel + 1) (c :: t) =
      if c = '"' then some ([], t)
      else do
        let (c, rest) ← bodyChar c t
        let (cs, rest) ← stringBody fuel rest
        return (c :: cs, rest) := by
  rw [stringBody.eq_def, bodyChar]
  simp only
  split
  case isTrue => rfl
  case isFalse =>
    split
    case isTrue =>
      cases t with
      | nil => rfl
      | cons e t => simp only [escaped]; split <;> rfl
    case isFalse => split <;> rfl

theorem length_of_unicodeEscape {t rest : Text} {c : Char}
    (h : unicodeEscape t = some (c, rest)) : rest.length < t.length := by
  rw [unicodeEscape.eq_def] at h
  split at h
  case h_2 => simp at h
  case h_1 =>
    obtain ⟨n, -, h⟩ := Option.bind_eq_some_iff.mp h
    split at h
    case isTrue => simp at h
    case isFalse =>
      split at h
      case isFalse =>
        obtain ⟨-, rfl⟩ := by simpa using h
        simp only [List.length_cons]
        omega
      case isTrue =>
        split at h
        case h_2 => simp at h
        case h_1 =>
          obtain ⟨low, -, h⟩ := Option.bind_eq_some_iff.mp h
          split at h
          case isFalse => simp at h
          case isTrue =>
            obtain ⟨-, rfl⟩ := by simpa using h
            simp only [List.length_cons]
            omega

theorem length_of_escaped {t rest : Text} {c : Char} (h : escaped t = some (c, rest)) :
    rest.length < t.length := by
  match t with
  | [] => simp [escaped] at h
  | e :: t =>
    rw [escaped] at h
    split at h
    case isTrue => exact (length_of_unicodeEscape h).trans (Nat.lt_succ_self _)
    case isFalse =>
      obtain ⟨_, _, h⟩ := Option.map_eq_some_iff.mp h
      rw [(Prod.mk.inj h).2]
      exact Nat.lt_succ_self _

theorem length_of_bodyChar {t rest : Text} {c d : Char} (h : bodyChar c t = some (d, rest)) :
    rest.length ≤ t.length := by
  rw [bodyChar] at h
  split at h
  case isTrue => exact (length_of_escaped h).le
  case isFalse =>
    split at h
    case isTrue => simp at h
    case isFalse =>
      obtain ⟨-, rfl⟩ := by simpa using h
      exact le_rfl

theorem length_of_stringBody {fuel : Nat} {t rest : Text} {cs : List Char}
    (h : stringBody fuel t = some (cs, rest)) : rest.length < t.length := by
  induction fuel generalizing t cs with
  | zero => simp [stringBody] at h
  | succ fuel ih =>
    match t with
    | [] => simp [stringBody] at h
    | c :: t =>
      rw [stringBody_cons] at h
      split at h
      case isTrue =>
        obtain ⟨-, rfl⟩ := by simpa using h
        exact Nat.lt_succ_self _
      case isFalse =>
        obtain ⟨⟨c', t₁⟩, hchar, h⟩ := Option.bind_eq_some_iff.mp h
        obtain ⟨⟨cs', t₂⟩, hbody, h⟩ := Option.bind_eq_some_iff.mp h
        obtain ⟨-, rfl⟩ := by simpa using h
        exact Nat.lt_succ_of_lt ((ih hbody).trans_le (length_of_bodyChar hchar))

theorem length_of_readString {t rest : Text} {s : String} (h : readString t = some (s, rest)) :
    rest.length < t.length := by
  obtain ⟨⟨cs, rest⟩, hbody, h⟩ := Option.map_eq_some_iff.mp h
  obtain ⟨-, rfl⟩ := Prod.mk.inj h
  exact length_of_stringBody hbody

theorem digits1_eq_some {t rest : Text} {digits : List Char} :
    digits1 t = some (digits, rest) ↔
      digits ≠ [] ∧ digits = t.takeWhile Char.isDigit ∧ rest = t.dropWhile Char.isDigit := by
  rw [digits1, List.span_eq_takeWhile_dropWhile]
  simp only [List.isEmpty_iff, Option.ite_none_left_eq_some, Option.some_inj, Prod.mk.injEq]
  constructor
  · rintro ⟨hne, rfl, rfl⟩
    exact ⟨hne, rfl, rfl⟩
  · rintro ⟨hne, rfl, rfl⟩
    exact ⟨hne, rfl, rfl⟩

theorem append_of_digits1 {t rest : Text} {digits : List Char}
    (h : digits1 t = some (digits, rest)) : digits ≠ [] ∧ t = digits ++ rest := by
  obtain ⟨hne, rfl, rfl⟩ := digits1_eq_some.mp h
  exact ⟨hne, List.takeWhile_append_dropWhile.symm⟩

theorem length_of_digits1 {t rest : Text} {digits : List Char}
    (h : digits1 t = some (digits, rest)) : rest.length < t.length := by
  obtain ⟨hne, rfl⟩ := append_of_digits1 h
  rw [List.length_append]
  exact Nat.lt_add_of_pos_left (List.length_pos_iff.mpr hne)

theorem wholeDigits_eq_some {t rest : Text} {digits : List Char} :
    wholeDigits t = some (digits, rest) ↔
      digits1 t = some (digits, rest) ∧ (digits.head? = some '0' → digits.length = 1) := by
  simp only [wholeDigits, bind, Option.bind_eq_some_iff, Option.ite_none_left_eq_some]
  constructor
  · rintro ⟨⟨digits', rest'⟩, h, hzero, he⟩
    obtain ⟨rfl, rfl⟩ := by simpa using he
    exact ⟨h, by simpa using hzero⟩
  · rintro ⟨h, hzero⟩
    exact ⟨_, h, by simpa using hzero, rfl⟩

theorem length_of_fractionDigits {t rest : Text} {fraction : Option (List Char)}
    (h : fractionDigits t = some (fraction, rest)) : rest.length ≤ t.length := by
  rw [fractionDigits.eq_def] at h
  split at h
  case h_1 =>
    obtain ⟨⟨digits, rest'⟩, hdigits, h⟩ := Option.map_eq_some_iff.mp h
    obtain ⟨-, rfl⟩ := Prod.mk.inj h
    exact (Nat.lt_succ_of_lt (length_of_digits1 hdigits)).le
  case h_2 =>
    obtain ⟨-, rfl⟩ := by simpa using h
    exact le_rfl

theorem length_of_exponentDigits {t rest : Text} {exponent : Option (Bool × List Char)}
    (h : exponentDigits t = some (exponent, rest)) : rest.length ≤ t.length := by
  rw [exponentDigits.eq_def] at h
  split at h
  case h_2 =>
    obtain ⟨-, rfl⟩ := by simpa using h
    exact le_rfl
  case h_1 =>
    split at h
    case isFalse =>
      obtain ⟨-, rfl⟩ := by simpa using h
      exact le_rfl
    case isTrue =>
      obtain ⟨⟨digits, rest'⟩, hdigits, h⟩ := Option.map_eq_some_iff.mp h
      obtain ⟨-, rfl⟩ := Prod.mk.inj h
      have hlt := length_of_digits1 hdigits
      split at hlt <;> simp only [List.length_cons] at hlt ⊢ <;> omega

theorem length_of_readNumeral {t rest : Text} {n : Numeral}
    (h : readNumeral t = some (n, rest)) : rest.length < t.length := by
  obtain ⟨⟨whole, t₁⟩, hwhole, h⟩ := Option.bind_eq_some_iff.mp h
  obtain ⟨⟨fraction, t₂⟩, hfraction, h⟩ := Option.bind_eq_some_iff.mp h
  obtain ⟨⟨exponent, t₃⟩, hexponent, h⟩ := Option.bind_eq_some_iff.mp h
  obtain ⟨-, rfl⟩ := by simpa using h
  have h₁ := length_of_digits1 (wholeDigits_eq_some.mp hwhole).1
  have h₂ := length_of_fractionDigits hfraction
  have h₃ := length_of_exponentDigits hexponent
  have h₀ : t₁.length < t.length := by
    split at h₁
    · exact Nat.lt_succ_of_lt h₁
    · exact h₁
  exact (h₃.trans h₂).trans_lt h₀

theorem head_of_readNumeral {t rest : Text} {n : Numeral} (h : readNumeral t = some (n, rest)) :
    ∃ c t', t = c :: t' ∧ (c = '-' ∨ c.isDigit) := by
  obtain ⟨⟨whole, t₁⟩, hwhole, -⟩ := Option.bind_eq_some_iff.mp h
  obtain ⟨hne, happend⟩ := append_of_digits1 (wholeDigits_eq_some.mp hwhole).1
  have hwhole := (digits1_eq_some.mp (wholeDigits_eq_some.mp hwhole).1).2.1
  split at happend
  case h_1 => exact ⟨'-', _, rfl, .inl rfl⟩
  case h_2 =>
    match whole with
    | c :: whole =>
      refine ⟨c, whole ++ t₁, happend, .inr ?_⟩
      exact List.mem_takeWhile_imp (hwhole ▸ List.mem_cons_self)

theorem readNumber_eq_some {t rest : Text} {n : Number} :
    readNumber t = some (n, rest) ↔
      ∃ numeral, readNumeral t = some (numeral, rest) ∧ numeral.value = some n := by
  simp only [readNumber, bind, Option.bind_eq_some_iff, pure, Option.some_inj, Prod.mk.injEq]
  constructor
  · rintro ⟨⟨numeral, _⟩, h, n, hn, rfl, rfl⟩
    exact ⟨numeral, h, hn⟩
  · rintro ⟨numeral, h, hn⟩
    exact ⟨(numeral, rest), h, n, hn, rfl, rfl⟩

theorem length_of_readNumber {t rest : Text} {n : Number} (h : readNumber t = some (n, rest)) :
    rest.length < t.length := by
  obtain ⟨_, h, -⟩ := readNumber_eq_some.mp h
  exact length_of_readNumeral h

theorem head_of_readNumber {t rest : Text} {n : Number} (h : readNumber t = some (n, rest)) :
    ∃ c t', t = c :: t' ∧ (c = '-' ∨ c.isDigit) := by
  obtain ⟨_, h, -⟩ := readNumber_eq_some.mp h
  exact head_of_readNumeral h

end SystemDynamics.Json
