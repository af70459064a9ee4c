import SystemDynamics.Equation.Lexeme
import SystemDynamics.Proofs.Text
import Mathlib.Tactic.SplitIfs

namespace SystemDynamics.Equation

open Text (drop_takeWhile head_dropWhile takeWhile_run)

/-- The characters that can follow another within a lexeme, or show that it ends. -/
def continues (c : Char) : Bool :=
  continuesName c || c == '.' || c == '+' || c == '-' || c == '=' || c == '*'

/-- A text that cannot go on a lexeme before it, nor end it badly. -/
def Apart (text : List Char) : Prop :=
  ∀ c ∈ text.head?, continues c = false

theorem apart_nil : Apart [] := by
  simp [Apart]

theorem apart_cons {c : Char} {text : List Char} : Apart (c :: text) ↔ continues c = false := by
  simp [Apart]

theorem continues_of_continuesName {c : Char} (h : continuesName c = true) : continues c = true := by
  simp [continues, h]

theorem continuesName_of_isDigit {c : Char} (h : c.isDigit = true) : continuesName c = true := by
  simp [continuesName, Char.isAlphanum, h]

theorem continuesName_of_startsName {c : Char} (h : startsName c = true) :
    continuesName c = true := by
  rw [startsName, Bool.or_eq_true] at h
  rcases h with h | h <;> simp [continuesName, Char.isAlphanum, h]

theorem not_continues_of_isSpace {c : Char} (h : isSpace c = true) : continues c = false := by
  simp only [isSpace, Bool.or_eq_true, beq_iff_eq] at h
  rcases h with (((rfl | rfl) | rfl) | rfl) | rfl <;> rfl

theorem not_startsName_of_not_continues {c : Char} (h : continues c = false) :
    startsName c = false := by
  by_contra hc
  rw [Bool.not_eq_false] at hc
  simp [continues_of_continuesName (continuesName_of_startsName hc)] at h

theorem not_isDigit_of_not_continues {c : Char} (h : continues c = false) : c.isDigit = false := by
  by_contra hc
  rw [Bool.not_eq_false] at hc
  simp [continues_of_continuesName (continuesName_of_isDigit hc)] at h

theorem takeWhile_append_apart {q : Char → Bool} (hq : ∀ c, q c = true → continues c = true)
    (text : List Char) {after : List Char} (h : Apart after) :
    (text ++ after).takeWhile q = text.takeWhile q := by
  induction text with
  | nil =>
    cases after with
    | nil => rfl
    | cons c after =>
      rw [apart_cons] at h
      rw [List.nil_append, List.takeWhile_nil, List.takeWhile_cons_of_neg]
      exact fun hc ↦ by simp [hq c hc] at h
  | cons c text ih => rw [List.cons_append, List.takeWhile_cons, List.takeWhile_cons, ih]

theorem digits_append (text : List Char) {after : List Char} (h : Apart after) :
    (text ++ after).takeWhile Char.isDigit = text.takeWhile Char.isDigit :=
  takeWhile_append_apart (fun _ hc ↦ continues_of_continuesName (continuesName_of_isDigit hc)) text h

theorem fraction_cons (c : Char) (rest : List Char) :
    fraction (c :: rest) = if c = '.' then c :: rest.takeWhile Char.isDigit else [] := by
  split_ifs with hc
  · rw [hc]
    rfl
  · unfold fraction
    split
    case h_1 h => exact absurd (List.cons.inj h).1 hc
    case h_2 => rfl

theorem isPrefix_fraction (text : List Char) : fraction text <+: text := by
  cases text with
  | nil => exact List.nil_prefix
  | cons c rest =>
    rw [fraction_cons]
    split_ifs
    · exact (List.prefix_cons_inj c).mpr (List.takeWhile_prefix _)
    · exact List.nil_prefix

def signOf (text : List Char) : List Char :=
  (text.take 1).filter fun s ↦ s == '+' || s == '-'

theorem exponent_cons (c : Char) (rest : List Char) :
    exponent (c :: rest) =
      if c == 'e' || c == 'E' then
        if ((rest.drop (signOf rest).length).takeWhile Char.isDigit).isEmpty then []
        else c :: signOf rest ++ (rest.drop (signOf rest).length).takeWhile Char.isDigit
      else [] := rfl

theorem signOf_cons (c : Char) (rest : List Char) :
    signOf (c :: rest) = if c == '+' || c == '-' then [c] else [] := by
  simp [signOf, List.filter_cons]

theorem isPrefix_signOf (text : List Char) : signOf text <+: text := by
  cases text with
  | nil => exact List.nil_prefix
  | cons c rest =>
    rw [signOf_cons]
    split
    · exact ⟨rest, rfl⟩
    · exact List.nil_prefix

theorem prefix_append_of_drop {a b text : List Char} (ha : a <+: text)
    (hb : b <+: text.drop a.length) : a ++ b <+: text := by
  obtain ⟨rest, rfl⟩ := ha
  rw [List.drop_left] at hb
  exact (List.prefix_append_right_inj a).mpr hb

theorem isPrefix_exponent (text : List Char) : exponent text <+: text := by
  cases text with
  | nil => exact List.nil_prefix
  | cons c rest =>
    rw [exponent_cons]
    split_ifs
    · exact List.nil_prefix
    · exact (List.prefix_cons_inj c).mpr
        (prefix_append_of_drop (isPrefix_signOf rest) (List.takeWhile_prefix _))
    · exact List.nil_prefix

theorem isPrefix_numeral (text : List Char) : numeral text <+: text :=
  prefix_append_of_drop
    (prefix_append_of_drop (List.takeWhile_prefix _) (isPrefix_fraction _)) (isPrefix_exponent _)

section

variable {after : List Char} (h : Apart after)

include h

theorem ne_of_apart {c : Char} {rest : List Char} (hafter : after = c :: rest) {x : Char}
    (hx : continues x = true) : c ≠ x := by
  subst hafter
  rintro rfl
  rw [apart_cons, hx] at h
  exact absurd h (by decide)

theorem fraction_append (text : List Char) : fraction (text ++ after) = fraction text := by
  cases text with
  | nil =>
    cases hafter : after with
    | nil => rfl
    | cons c rest =>
      rw [List.nil_append, fraction_cons, if_neg (ne_of_apart h hafter (by decide))]
      rfl
  | cons c text =>
    rw [List.cons_append, fraction_cons, fraction_cons, digits_append text h]

theorem signOf_append (text : List Char) : signOf (text ++ after) = signOf text := by
  cases text with
  | nil =>
    cases hafter : after with
    | nil => rfl
    | cons c rest =>
      have hplus : c ≠ '+' := ne_of_apart h hafter (by decide)
      have hminus : c ≠ '-' := ne_of_apart h hafter (by decide)
      rw [List.nil_append, signOf_cons, if_neg (by simp [hplus, hminus])]
      rfl
  | cons c text => rw [List.cons_append, signOf_cons, signOf_cons]

theorem exponent_append (text : List Char) : exponent (text ++ after) = exponent text := by
  cases text with
  | nil =>
    cases hafter : after with
    | nil => rfl
    | cons c rest =>
      have hlower : c ≠ 'e' := ne_of_apart h hafter (by decide)
      have hupper : c ≠ 'E' := ne_of_apart h hafter (by decide)
      rw [List.nil_append, exponent_cons, if_neg (by simp [hlower, hupper])]
      rfl
  | cons c text =>
    rw [List.cons_append, exponent_cons, exponent_cons, signOf_append h,
      List.drop_append_of_le_length (isPrefix_signOf text).length_le, digits_append _ h]

theorem numeral_append (text : List Char) : numeral (text ++ after) = numeral text := by
  have hdigits := (List.takeWhile_prefix Char.isDigit (l := text)).length_le
  have hmantissa : (text.takeWhile Char.isDigit ++
      fraction (text.drop (text.takeWhile Char.isDigit).length)).length ≤ text.length :=
    (prefix_append_of_drop (List.takeWhile_prefix _) (isPrefix_fraction _)).length_le
  simp only [numeral]
  rw [digits_append text h, List.drop_append_of_le_length hdigits, fraction_append h,
    List.drop_append_of_le_length hmantissa, exponent_append h]

end

theorem isDigit_of_mem_digits {text : List Char} :
    ∀ c ∈ text.takeWhile Char.isDigit, c.isDigit = true :=
  fun _ ↦ List.mem_takeWhile_imp

theorem head_fraction (text : List Char) : ∀ c ∈ (fraction text).head?, c = '.' := by
  cases text with
  | nil => simp [fraction]
  | cons c rest =>
    rw [fraction_cons]
    split_ifs with hc <;> simp [hc]

theorem head_exponent (text : List Char) : ∀ c ∈ (exponent text).head?, c = 'e' ∨ c = 'E' := by
  cases text with
  | nil => simp [exponent]
  | cons c rest =>
    rw [exponent_cons]
    split_ifs with hc
    · simp
    · simpa using hc
    · simp

theorem signOf_signOf_append (text : List Char) {digits : List Char}
    (h : ∀ c ∈ digits, c.isDigit = true) : signOf (signOf text ++ digits) = signOf text := by
  have hdigits : signOf digits = [] := by
    cases digits with
    | nil => rfl
    | cons d digits =>
      have hd := h d List.mem_cons_self
      rw [signOf_cons, if_neg]
      intro hsign
      rw [Bool.or_eq_true, beq_iff_eq, beq_iff_eq] at hsign
      rcases hsign with rfl | rfl <;> exact absurd hd (by decide)
  cases text with
  | nil => exact hdigits
  | cons c rest =>
    rw [signOf_cons]
    split_ifs with hc
    · rw [List.singleton_append, signOf_cons, if_pos hc]
    · exact hdigits

theorem fraction_fraction_append (text : List Char) {after : List Char}
    (h : ∀ c ∈ after.head?, c.isDigit = false ∧ c ≠ '.') :
    fraction (fraction text ++ after) = fraction text := by
  have hafter : fraction after = [] := by
    cases after with
    | nil => rfl
    | cons c after => rw [fraction_cons, if_neg (h c rfl).2]
  cases text with
  | nil => exact hafter
  | cons c rest =>
    rw [fraction_cons]
    split_ifs with hc
    · rw [List.cons_append, fraction_cons, if_pos hc,
        takeWhile_run isDigit_of_mem_digits fun c hc ↦ (h c hc).1]
    · exact hafter

theorem exponent_exponent (text : List Char) : exponent (exponent text) = exponent text := by
  cases text with
  | nil => rfl
  | cons c rest =>
    rw [exponent_cons]
    split_ifs with hc hdigits
    · rfl
    · rw [List.cons_append, exponent_cons, if_pos hc,
        signOf_signOf_append rest isDigit_of_mem_digits, List.drop_left,
        List.takeWhile_eq_self_iff.mpr isDigit_of_mem_digits, if_neg hdigits, List.cons_append]
    · rfl

theorem numeral_numeral (text : List Char) : numeral (numeral text) = numeral text := by
  set whole := text.takeWhile Char.isDigit with hwhole
  set part := fraction (text.drop whole.length) with hpart
  set power := exponent (text.drop (whole ++ part).length) with hpower
  have hnumeral : numeral text = whole ++ (part ++ power) := by
    rw [← List.append_assoc]
    rfl
  have hpowerHead : ∀ c ∈ power.head?, c.isDigit = false ∧ c ≠ '.' := by
    intro c hc
    rcases head_exponent _ c hc with rfl | rfl <;> decide
  have hdigits : (whole ++ (part ++ power)).takeWhile Char.isDigit = whole := by
    refine takeWhile_run isDigit_of_mem_digits ?_
    intro c hc
    cases hp : part with
    | nil =>
      rw [hp, List.nil_append] at hc
      exact (hpowerHead c hc).1
    | cons d rest =>
      rw [hp] at hc
      rw [head_fraction (text.drop whole.length) c (by rw [← hpart, hp]; exact hc)]
      decide
  rw [hnumeral]
  simp only [numeral]
  rw [hdigits, List.drop_left, fraction_fraction_append _ hpowerHead, ← List.append_assoc,
    List.drop_left, exponent_exponent]

def NoDigit (text : List Char) : Prop :=
  ∀ c ∈ text.head?, c.isDigit = false

theorem noDigit_after_digits (text : List Char) :
    NoDigit (text.drop (text.takeWhile Char.isDigit).length) := by
  rw [NoDigit, drop_takeWhile]
  exact head_dropWhile _ _

theorem noDigit_after_fraction {text : List Char} (h : NoDigit text) :
    NoDigit (text.drop (fraction text).length) := by
  cases text with
  | nil => exact h
  | cons c rest =>
    rw [fraction_cons]
    split_ifs
    · exact noDigit_after_digits rest
    · exact h

theorem noDigit_after_exponent {text : List Char} (h : NoDigit text) :
    NoDigit (text.drop (exponent text).length) := by
  cases text with
  | nil => exact h
  | cons c rest =>
    rw [exponent_cons]
    split_ifs
    · exact h
    · rw [List.cons_append, List.length_cons, List.drop_succ_cons, List.length_append,
        ← List.drop_drop]
      exact noDigit_after_digits _
    · exact h

theorem noDigit_after_numeral (text : List Char) :
    NoDigit (text.drop (numeral text).length) := by
  simp only [numeral, List.length_append, ← List.drop_drop]
  exact noDigit_after_exponent (noDigit_after_fraction (noDigit_after_digits text))

def isNumeric (c : Char) : Bool :=
  c.isDigit || ['.', 'e', 'E', '+', '-'].contains c

theorem isNumeric_of_mem_fraction {text : List Char} : ∀ c ∈ fraction text, isNumeric c = true := by
  cases text with
  | nil => simp [fraction]
  | cons c rest =>
    rw [fraction_cons]
    split_ifs with hc
    · rw [List.forall_mem_cons, hc]
      exact ⟨rfl, fun d hd ↦ by simp [isNumeric, isDigit_of_mem_digits d hd]⟩
    · simp

theorem isNumeric_of_mem_exponent {text : List Char} : ∀ c ∈ exponent text, isNumeric c = true := by
  cases text with
  | nil => simp [exponent]
  | cons c rest =>
    rw [exponent_cons]
    split_ifs with hc
    · simp
    · rw [List.cons_append, List.forall_mem_cons, List.forall_mem_append]
      refine ⟨?_, ?_, fun d hd ↦ by simp [isNumeric, isDigit_of_mem_digits d hd]⟩
      · rw [Bool.or_eq_true, beq_iff_eq, beq_iff_eq] at hc
        rcases hc with rfl | rfl <;> rfl
      · intro d hd
        have hsign := (List.mem_filter.mp hd).2
        rw [Bool.or_eq_true, beq_iff_eq, beq_iff_eq] at hsign
        rcases hsign with rfl | rfl <;> rfl
    · simp

theorem isNumeric_of_mem_numeral {text : List Char} : ∀ c ∈ numeral text, isNumeric c = true := by
  simp only [numeral, List.forall_mem_append]
  exact ⟨⟨fun d hd ↦ by simp [isNumeric, isDigit_of_mem_digits d hd], isNumeric_of_mem_fraction⟩,
    isNumeric_of_mem_exponent⟩

theorem numeral_cons {c : Char} {rest : List Char} (h : startsNumber c rest.head? = true) :
    ∃ text, numeral (c :: rest) = c :: text ∧ text <+: rest := by
  have hne : numeral (c :: rest) ≠ [] := by
    rw [startsNumber, Bool.or_eq_true, Bool.and_eq_true, beq_iff_eq] at h
    simp only [numeral]
    by_cases hc : c.isDigit = true
    · simp [hc]
    · obtain ⟨rfl, -⟩ := h.resolve_left hc
      simp [hc, fraction_cons]
  obtain ⟨d, text, htext⟩ := List.exists_cons_of_ne_nil hne
  have hprefix := isPrefix_numeral (c :: rest)
  rw [htext, List.cons_prefix_cons] at hprefix
  obtain ⟨rfl, hprefix⟩ := hprefix
  exact ⟨text, htext, hprefix⟩

theorem startsNumber_of_numeral {c : Char} {rest text : List Char}
    (h : startsNumber c rest.head? = true) (htext : numeral (c :: rest) = c :: text) :
    startsNumber c text.head? = true := by
  rw [startsNumber, Bool.or_eq_true] at h ⊢
  refine h.imp_right fun hdot ↦ ?_
  rw [Bool.and_eq_true, beq_iff_eq] at hdot
  obtain ⟨rfl, hnext⟩ := hdot
  obtain ⟨d, hd, hdigit⟩ := (Option.any_eq_true _ _).mp hnext
  obtain ⟨rest, rfl⟩ := List.head?_eq_some_iff.mp hd
  have hcons : numeral ('.' :: d :: rest) = '.' :: d :: (rest.takeWhile Char.isDigit ++
      exponent ((d :: rest).drop ((d :: rest).takeWhile Char.isDigit).length)) := by
    simp [numeral, fraction_cons, hdigit]
  rw [hcons, List.cons_inj_right] at htext
  rw [← htext]
  simp [hdigit]

end SystemDynamics.Equation
