import SystemDynamics.Proofs.Equation.Numeral
import SystemDynamics.Proofs.Outcome

namespace SystemDynamics.Equation

open Text (head_dropWhile)

theorem operator?_some {c d : Char} (hstar : d ≠ '*') (heq : d ≠ '=') :
    operator? c (some d) = operator? c none := by
  unfold operator?
  split <;> simp_all

section

variable {after : List Char} (h : Apart after)

include h

theorem readNumber_append (text : List Char) : readNumber (text ++ after) = readNumber text := by
  have hlength := (isPrefix_numeral text).length_le
  simp only [readNumber]
  rw [numeral_append h, List.drop_append_of_le_length hlength]
  cases text.drop (numeral text).length with
  | cons c rest => rfl
  | nil =>
    cases hafter : after with
    | nil => rfl
    | cons c rest =>
      have hdot : c ≠ '.' := ne_of_apart h hafter (by decide)
      rw [hafter, apart_cons] at h
      simp [not_startsName_of_not_continues h, hdot]

theorem readToken_append (c : Char) (rest : List Char) :
    readToken c (rest ++ after) = readToken c rest := by
  have hnext : startsNumber c (rest ++ after).head? = startsNumber c rest.head? ∧
      operator? c (rest ++ after).head? = operator? c rest.head? := by
    cases rest with
    | cons d rest => exact ⟨rfl, rfl⟩
    | nil =>
      cases hafter : after with
      | nil => exact ⟨rfl, rfl⟩
      | cons d more =>
        have hstar : d ≠ '*' := ne_of_apart h hafter (by decide)
        have heq : d ≠ '=' := ne_of_apart h hafter (by decide)
        rw [hafter, apart_cons] at h
        refine ⟨?_, operator?_some hstar heq⟩
        simp [startsNumber, not_isDigit_of_not_continues h]
  rw [readToken, readToken, hnext.1, hnext.2, ← List.cons_append, readNumber_append h,
    takeWhile_append_apart (fun _ ↦ continues_of_continuesName) rest h]

end

def operatorSigns : List Char :=
  ['*', '<', '>', '=', '!', '+', '-', '/', '(', ')', ',']

theorem operator?_eq_some {c : Char} {next : Option Char} {token : Token} {length : Nat}
    (h : operator? c next = some (token, length)) :
    token.name? = none ∧ c ∈ operatorSigns ∧
      (length = 1 ∧ operator? c none = some (token, 1) ∨
        length = 2 ∧ ∃ d, next = some d ∧ d ∈ operatorSigns) := by
  unfold operator? at h
  split at h
  all_goals cases h
  all_goals simp [Token.name?, operatorSigns, operator?]

theorem startsNumber_eq_false {c : Char} {next : Option Char} (h : startsNumber c next = false) :
    startsNumber c none = false := by
  rw [startsNumber, Bool.or_eq_false_iff] at h
  simp [startsNumber, h.1]

theorem startsNumber_of_startsName {c : Char} {next : Option Char} (hname : startsName c = true)
    (h : startsNumber c next = false) (next' : Option Char) : startsNumber c next' = false := by
  have hdot : c ≠ '.' := by
    rintro rfl
    exact absurd hname (by decide)
  rw [startsNumber, Bool.or_eq_false_iff] at h
  simp [startsNumber, h.1, hdot]

inductive Reading : Token → (text after : List Char) → Prop
  | number {x : Float} {text after : List Char} (htext : ∀ c ∈ text, isNumeric c = true)
    (hafter : ∀ c ∈ after.head?, continuesName c = false) : Reading (.number x) text after
  | name {text after : List Char} (htext : ∀ c ∈ text, continuesName c = true)
    (hafter : ∀ c ∈ after.head?, continuesName c = false) :
    Reading (.name (String.ofList text)) text after
  | operator {token : Token} {text after : List Char} (htoken : token.name? = none)
    (htext : ∀ c ∈ text, c ∈ operatorSigns) : Reading token text after

theorem readNumber_eq_ok {text : List Char} {token : Token} {length : Nat}
    (h : readNumber text = .ok (token, length)) :
    length = (numeral text).length ∧ (∃ x, token = .number x) ∧
      (∀ c ∈ (text.drop length).head?, continuesName c = false) ∧
      readNumber (numeral text) = .ok (token, length) := by
  have hnoDigit := noDigit_after_numeral text
  simp only [readNumber] at h ⊢
  rw [numeral_numeral, List.drop_length]
  split at h
  case isTrue => simp at h
  case isFalse hafter =>
    rw [if_neg (by simp)]
    have hlength : length = (numeral text).length ∧ ∃ x, token = .number x := by
      split at h
      case h_1 => simp at h
      case h_2 x hx =>
        split_ifs at h
        obtain ⟨rfl, rfl⟩ := Prod.mk.inj (Except.ok.inj h)
        exact ⟨rfl, x, rfl⟩
    refine ⟨hlength.1, hlength.2, ?_, h⟩
    intro c hc
    rw [hlength.1] at hc
    have hdigit := hnoDigit c hc
    rw [Bool.not_eq_true, Option.any_eq_false] at hafter
    have hname : (startsName c || c == '.') = false := by simpa using hafter c hc
    rw [Bool.or_eq_false_iff, startsName, Bool.or_eq_false_iff] at hname
    simp [continuesName, Char.isAlphanum, hname.1, hdigit]

theorem readToken_eq_ok {c : Char} {rest : List Char} {token : Token} {length : Nat}
    (h : readToken c rest = .ok (token, length)) :
    ∃ text after, rest = text ++ after ∧ length = text.length + 1 ∧
      readToken c text = .ok (token, length) ∧ Reading token (c :: text) after := by
  rw [readToken] at h
  split_ifs at h with hnumber hname
  · obtain ⟨text, htext, after, rfl⟩ := numeral_cons hnumber
    obtain ⟨hlength, ⟨x, rfl⟩, hafter, hread⟩ := readNumber_eq_ok h
    rw [htext] at hlength hread
    have hdrop : (c :: (text ++ after)).drop length = after := by
      rw [hlength, List.length_cons, List.drop_succ_cons, List.drop_left]
    rw [hdrop] at hafter
    refine ⟨text, after, rfl, hlength, ?_, .number ?_ hafter⟩
    · rw [readToken, if_pos (startsNumber_of_numeral hnumber htext)]
      exact hread
    · exact htext ▸ isNumeric_of_mem_numeral
  · obtain ⟨rfl, rfl⟩ := Prod.mk.inj (Except.ok.inj h)
    rw [Bool.not_eq_true] at hnumber
    refine ⟨rest.takeWhile continuesName, rest.dropWhile continuesName,
      List.takeWhile_append_dropWhile.symm, rfl, ?_, .name ?_ (head_dropWhile _ _)⟩
    · rw [readToken, startsNumber_of_startsName hname hnumber, if_neg (by decide), if_pos hname,
        List.takeWhile_takeWhile]
      simp
    · rw [List.forall_mem_cons]
      exact ⟨continuesName_of_startsName hname, fun _ ↦ List.mem_takeWhile_imp⟩
  · rw [Bool.not_eq_true] at hnumber
    split at h
    case h_2 => simp at h
    case h_1 found hfound =>
      obtain rfl := Except.ok.inj h
      obtain ⟨htoken, hsign, ⟨rfl, hnone⟩ | ⟨rfl, d, hd, hd'⟩⟩ := operator?_eq_some hfound
      · refine ⟨[], rest, rfl, rfl, ?_, .operator htoken (by simpa using hsign)⟩
        simp [readToken, startsNumber_eq_false hnumber, hname, hnone]
      · obtain ⟨after, rfl⟩ := List.head?_eq_some_iff.mp hd
        refine ⟨[d], after, rfl, rfl, ?_, .operator htoken (by simp [hsign, hd'])⟩
        rw [List.head?_cons] at hnumber hfound
        simp [readToken, hnumber, hname, hfound]

/-- The lexemes of a text that starts at an offset: blanks are passed over, and each token is read
from the text of its lexeme. -/
inductive Lexed : (offset : Nat) → (text : List Char) → List Lexeme → Prop
  | nil {offset : Nat} : Lexed offset [] []
  | blank {offset : Nat} {c : Char} {rest : List Char} {ls : List Lexeme} (hc : isSpace c = true)
    (h : Lexed (offset + c.utf8Size) rest ls) : Lexed offset (c :: rest) ls
  | token {offset : Nat} {c : Char} {text after : List Char} {token : Token} {ls : List Lexeme}
    (hc : isSpace c = false) (hread : readToken c (text ++ after) = .ok (token, text.length + 1))
    (halone : readToken c text = .ok (token, text.length + 1))
    (hreading : Reading token (c :: text) after)
    (h : Lexed (offset + width (c :: text)) after ls) :
    Lexed offset (c :: (text ++ after)) (⟨token, c :: text, offset⟩ :: ls)

theorem lexed_of_lexemes {covered offset : Nat} {text : List Char} {ls : List Lexeme}
    (h : lexemes covered offset text = .ok ls) :
    Lexed (offset + width (text.take covered)) (text.drop covered) ls := by
  induction text generalizing covered offset ls with
  | nil =>
    obtain rfl : ls = [] := by cases covered <;> exact (Except.ok.inj h).symm
    rw [List.drop_nil]
    exact .nil
  | cons c rest ih =>
    cases covered with
    | succ covered =>
      rw [List.take_succ_cons, List.drop_succ_cons, width, ← Nat.add_assoc]
      exact ih h
    | zero =>
      rw [lexemes] at h
      split at h
      case isTrue hc => exact .blank hc (ih h)
      case isFalse hc =>
        rw [Bool.not_eq_true] at hc
        split at h
        case h_1 => simp at h
        case h_2 token length hread =>
          obtain ⟨later, hlater, h⟩ := Except.bind_eq_ok.mp h
          obtain rfl := Except.pure_eq_ok.mp h
          obtain ⟨text, after, rfl, rfl, halone, hreading⟩ := readToken_eq_ok hread
          have hlater := ih hlater
          rw [Nat.add_sub_cancel, List.take_left, List.drop_left, Nat.add_assoc] at hlater
          rw [List.take_succ_cons, List.take_left]
          exact .token hc hread halone hreading hlater

theorem lexemes_covered (text : List Char) (offset : Nat) (after : List Char) :
    lexemes text.length offset (text ++ after) = lexemes 0 (offset + width text) after := by
  induction text generalizing offset with
  | nil => rfl
  | cons c text ih =>
    rw [List.length_cons, List.cons_append, lexemes, ih, width, Nat.add_assoc]

theorem lexemes_blank {offset : Nat} {c : Char} {rest : List Char} (hc : isSpace c = true) :
    lexemes 0 offset (c :: rest) = lexemes 0 (offset + c.utf8Size) rest := by
  rw [lexemes, if_pos hc]

theorem lexemes_token {offset : Nat} {c : Char} {text after : List Char} {token : Token}
    {ls : List Lexeme} (hc : isSpace c = false)
    (hread : readToken c (text ++ after) = .ok (token, text.length + 1))
    (hlater : lexemes 0 (offset + width (c :: text)) after = .ok ls) :
    lexemes 0 offset (c :: (text ++ after)) = .ok (⟨token, c :: text, offset⟩ :: ls) := by
  rw [width, ← Nat.add_assoc] at hlater
  rw [lexemes, if_neg (by simp [hc]), hread]
  dsimp only
  rw [Nat.add_sub_cancel, lexemes_covered, hlater, Except.ok_bind, List.take_succ_cons,
    List.take_left]
  rfl

theorem Lexed.lexemes_eq {offset : Nat} {text : List Char} {ls : List Lexeme}
    (h : Lexed offset text ls) : lexemes 0 offset text = .ok ls := by
  induction h with
  | nil => rfl
  | blank hc _ ih => rw [lexemes_blank hc, ih]
  | token hc hread _ _ _ ih => exact lexemes_token hc hread ih

theorem tokenize_eq_ok {source : String} {ls : List Lexeme} :
    tokenize source = .ok ls ↔ Lexed 0 source.toList ls :=
  ⟨lexed_of_lexemes, Lexed.lexemes_eq⟩

end SystemDynamics.Equation
