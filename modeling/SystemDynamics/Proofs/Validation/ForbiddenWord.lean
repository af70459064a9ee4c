import SystemDynamics.Proofs.Equation.Bytes
import SystemDynamics.Proofs.NameMap
import SystemDynamics.Proofs.Text
import SystemDynamics.Validation.ForbiddenWord

namespace SystemDynamics.Validation

open Equation
open Text (drop_takeWhile head_dropWhile isWord takeWhile_run words wordsAfter wordsAfter_append
  wordsAfter_eq)

/-- Of the characters beside a place exactly one is that of a word. -/
def isEdge (before after : Option Char) : Bool :=
  before.any isWord != after.any isWord

/-- What a text starts with in place of a word, in any case, if an edge follows. -/
def occurrence? (text : List Char) (word : String) : Option (List Char) :=
  let found := text.take word.length
  if found.map foldCase = word.toList ∧ isEdge found.getLast? (text.drop word.length).head? = true
  then some found else none

/-- The forbidden words that a search from left to right finds, the list being tried in its order at
each edge. The first `covered` characters belong to what was found before. -/
def search : (covered : Nat) → (before : Option Char) → List Char → List (List Char)
  | _, _, [] => []
  | covered + 1, _, c :: rest => search covered (some c) rest
  | 0, before, c :: rest =>
    let found :=
      if isEdge before (some c) then forbiddenWords.findSome? (occurrence? (c :: rest)) else none
    match found with
    | some word => word :: search (word.length - 1) (some c) rest
    | none => search 0 (some c) rest

def lowerCase (name : String) : String :=
  String.ofList (name.toList.map Char.toLower)

theorem of_lt {P : Char → Prop} (h : ∀ n < 128, P (Char.ofNat n)) {c : Char}
    (hc : c.toNat < 128) : P c :=
  Char.ofNat_toNat c ▸ h c.toNat hc

theorem isWord_foldCase (c : Char) : isWord (foldCase c) = isWord c := by
  rw [foldCase]
  split_ifs with hs hk
  · subst hs
    decide +kernel
  · subst hk
    decide +kernel
  · by_cases hc : c.toNat < 128
    · exact of_lt (P := fun c ↦ isWord c.toLower = isWord c) (by decide +kernel) hc
    · unfold Char.toLower
      rw [dif_neg]
      intro hupper
      exact hc (Nat.lt_of_le_of_lt (UInt32.le_iff_toNat_le.mp hupper.2) (by decide))

theorem isForbidden_iff {word : List Char} :
    isForbidden word = true ↔ ∃ listed ∈ forbiddenWords, word.map foldCase = listed.toList := by
  rw [isForbidden, List.contains_iff_mem]
  constructor
  · intro h
    exact ⟨_, h, by simp⟩
  · rintro ⟨listed, hlisted, h⟩
    rwa [h, String.ofList_toList]

theorem isForbidden_nil : isForbidden [] = false := by
  decide

theorem isWord_of_mem_forbiddenWords :
    ∀ word ∈ forbiddenWords, word.toList ≠ [] ∧ word.toList.all isWord = true := by
  decide +kernel

theorem isWord_of_map_foldCase {word : String} (hword : word ∈ forbiddenWords) {text : List Char}
    (h : text.map foldCase = word.toList) :
    (∀ c ∈ text, isWord c = true) ∧ text.getLast?.any isWord = true := by
  obtain ⟨hne, hchars⟩ := isWord_of_mem_forbiddenWords word hword
  rw [← h, List.all_eq_true] at hchars
  have htext : ∀ c ∈ text, isWord c = true := by
    intro c hc
    rw [← isWord_foldCase]
    exact hchars _ (List.mem_map_of_mem hc)
  have hne : text ≠ [] := by
    rw [← h] at hne
    exact fun hnil ↦ hne (List.map_eq_nil_iff.mpr hnil)
  refine ⟨htext, ?_⟩
  rw [List.getLast?_eq_some_getLast hne, Option.any_some]
  exact htext _ (List.getLast_mem hne)

/-- A listed word can only be found as the whole of a word. -/
theorem occurrence?_eq {word : String} (hword : word ∈ forbiddenWords) (text : List Char) :
    occurrence? text word =
      if (text.takeWhile isWord).map foldCase = word.toList then some (text.takeWhile isWord)
      else none := by
  rw [occurrence?]
  split
  case isTrue h =>
    obtain ⟨hfound, hedge⟩ := h
    obtain ⟨hchars, hlast⟩ := isWord_of_map_foldCase hword hfound
    have hafter : ∀ c ∈ (text.drop word.length).head?, isWord c = false := by
      simpa [isEdge, hlast, Option.any_eq_false] using hedge
    have hrun := takeWhile_run hchars hafter
    rw [List.take_append_drop] at hrun
    rw [hrun, if_pos hfound]
  case isFalse h =>
    rw [if_neg]
    intro hrun
    obtain ⟨-, hlast⟩ := isWord_of_map_foldCase hword hrun
    have hlength : (text.takeWhile isWord).length = word.length := by
      rw [← String.length_toList, ← hrun, List.length_map]
    have htake : text.take word.length = text.takeWhile isWord := by
      rw [← hlength]
      exact (List.prefix_iff_eq_take.mp (List.takeWhile_prefix isWord)).symm
    have hdrop : text.drop word.length = text.dropWhile isWord := by
      rw [← hlength]
      exact drop_takeWhile isWord text
    refine h ⟨htake ▸ hrun, ?_⟩
    rw [htake, hdrop, isEdge, hlast]
    simpa [Option.any_eq_false] using head_dropWhile isWord text

theorem findSome?_occurrence? (text : List Char) :
    forbiddenWords.findSome? (occurrence? text) =
      if isForbidden (text.takeWhile isWord) then some (text.takeWhile isWord) else none := by
  split
  case isTrue h =>
    obtain ⟨word, hword, hrun⟩ := isForbidden_iff.mp h
    cases hfound : forbiddenWords.findSome? (occurrence? text) with
    | none =>
      have hnone := List.findSome?_eq_none_iff.mp hfound word hword
      rw [occurrence?_eq hword, if_pos hrun] at hnone
      exact absurd hnone (by simp)
    | some found =>
      obtain ⟨word, hword, hfound⟩ := List.exists_of_findSome?_eq_some hfound
      rw [occurrence?_eq hword] at hfound
      split_ifs at hfound
      exact hfound.symm
  case isFalse h =>
    refine List.findSome?_eq_none_iff.mpr fun word hword ↦ ?_
    rw [occurrence?_eq hword, if_neg]
    exact fun hrun ↦ h (isForbidden_iff.mpr ⟨word, hword, hrun⟩)

theorem filter_wordsAfter_cons {c : Char} (hc : isWord c = false) (rest : List Char) :
    (wordsAfter [] (c :: rest)).filter isForbidden = (wordsAfter [] rest).filter isForbidden := by
  rw [wordsAfter, hc, if_neg (by decide), List.filter_cons, isForbidden_nil, if_neg (by decide)]

/-- Past the edge of a word the search finds the forbidden of the words, and within a word, or at
the end of one that was found, those of the words after it. -/
theorem search_eq (text : List Char) :
    (∀ before, before.any isWord = false →
      search 0 before text = (wordsAfter [] text).filter isForbidden) ∧
    ∀ covered before, before.any isWord = true → covered ≤ (text.takeWhile isWord).length →
      search covered before text = (wordsAfter [] text).tail.filter isForbidden := by
  induction text with
  | nil =>
    refine ⟨fun _ _ ↦ ?_, fun covered _ _ _ ↦ ?_⟩
    · rw [wordsAfter, List.filter_singleton, isForbidden_nil]
      rfl
    · cases covered <;> rfl
  | cons c rest ih =>
    obtain ⟨houtside, hwithin⟩ := ih
    cases hc : isWord c with
    | true =>
      have hrun : (c :: rest).takeWhile isWord = c :: rest.takeWhile isWord := by
        rw [List.takeWhile_cons, hc, if_pos rfl]
      have hwords : wordsAfter [] (c :: rest) =
          (c :: rest.takeWhile isWord) :: (wordsAfter [] rest).tail := by
        rw [wordsAfter_eq, hrun, wordsAfter, hc, if_pos rfl, wordsAfter_eq ([] ++ [c])]
        rfl
      refine ⟨fun before hbefore ↦ ?_, fun covered before hbefore hcovered ↦ ?_⟩
      · have hedge : isEdge before (some c) = true := by simp [isEdge, hbefore, hc]
        rw [search, hedge, if_pos rfl, findSome?_occurrence?, hrun, hwords, List.filter_cons]
        by_cases hforbidden : isForbidden (c :: rest.takeWhile isWord) = true
        · rw [if_pos hforbidden, if_pos hforbidden]
          exact congrArg _ (hwithin _ (some c) hc (Nat.le_refl _))
        · rw [if_neg hforbidden, if_neg hforbidden]
          exact hwithin 0 (some c) hc (Nat.zero_le _)
      · rw [hwords, List.tail_cons]
        cases covered with
        | succ covered =>
          rw [hrun, List.length_cons] at hcovered
          exact hwithin covered (some c) hc (Nat.le_of_succ_le_succ hcovered)
        | zero =>
          have hedge : isEdge before (some c) = false := by simp [isEdge, hbefore, hc]
          rw [search, hedge, if_neg (by decide)]
          exact hwithin 0 (some c) hc (Nat.zero_le _)
    | false =>
      have hrun : (c :: rest).takeWhile isWord = [] := by
        rw [List.takeWhile_cons, hc, if_neg (by decide)]
      have hnext : ∀ before, search 0 before (c :: rest) =
          (wordsAfter [] rest).filter isForbidden := by
        intro before
        rw [search, findSome?_occurrence?, hrun, isForbidden_nil]
        simp only [Bool.false_eq_true, if_false, ite_self]
        exact houtside (some c) hc
      refine ⟨fun before _ ↦ ?_, fun covered before _ hcovered ↦ ?_⟩
      · rw [hnext, filter_wordsAfter_cons hc]
      · rw [hrun, List.length_nil, Nat.le_zero] at hcovered
        rw [hcovered, hnext, wordsAfter, hc, if_neg (by decide), List.tail_cons]

theorem search_eq_filter (text : String) :
    search 0 none text.toList = (words text).filter isForbidden :=
  (search_eq text.toList).1 none rfl

theorem isWord_eq {c : Char} (hc : c.toNat < 128) : isWord c = continuesName c := by
  rw [isWord, if_pos hc, continuesName]

theorem isForbidden_eq {word : List Char} (hword : ∀ c ∈ word, c.toNat < 128) :
    isForbidden word = forbiddenWords.contains (lowerCase (String.ofList word)) := by
  have hfold : word.map foldCase = word.map Char.toLower :=
    List.map_congr_left fun c hc ↦
      of_lt (P := fun c ↦ foldCase c = c.toLower) (by decide +kernel) (hword c hc)
  rw [isForbidden, lowerCase, hfold, String.toList_ofList]

theorem isForbidden_numeral {word : List Char}
    (hword : ∀ c ∈ word, isNumeric c = true ∧ isWord c = true) : isForbidden word = false := by
  by_contra h
  obtain ⟨listed, hlisted, hfold⟩ := isForbidden_iff.mp (Bool.not_eq_false _ ▸ h)
  have hother : ∀ listed ∈ forbiddenWords,
      listed.toList.any (fun d ↦ !d.isDigit && d != 'e') = true := by
    decide +kernel
  obtain ⟨d, hd, hdigit⟩ := List.any_eq_true.mp (hother listed hlisted)
  rw [← hfold] at hd
  obtain ⟨c, hc, rfl⟩ := List.mem_map.mp hd
  have hall : ∀ n < 128, isNumeric (Char.ofNat n) = true ∧ isWord (Char.ofNat n) = true →
      (foldCase (Char.ofNat n)).isDigit = true ∨ foldCase (Char.ofNat n) = 'e' := by
    decide +kernel
  have hmark := hall c.toNat (lt_of_isNumeric (hword c hc).1)
  rw [Char.ofNat_toNat] at hmark
  rcases hmark (hword c hc) with hmark | hmark <;> simp [hmark] at hdigit

theorem filter_wordsAfter_append {text : List Char} (htext : ∀ c ∈ text, isWord c = false)
    (after : List Char) : (wordsAfter [] (text ++ after)).filter isForbidden =
      (wordsAfter [] after).filter isForbidden := by
  induction text with
  | nil => rfl
  | cons c text ih =>
    rw [List.forall_mem_cons] at htext
    rw [List.cons_append, filter_wordsAfter_cons htext.1, ih htext.2]

section

variable {after : List Char} (hafter : ∀ c ∈ after.head?, isWord c = false)

include hafter

theorem filter_wordsAfter_begun (begun : List Char) :
    (wordsAfter begun after).filter isForbidden =
      [begun].filter isForbidden ++ (wordsAfter [] after).filter isForbidden := by
  have hrun : ([] ++ after).takeWhile isWord = [] := takeWhile_run (by simp) hafter
  have hnil : ([] :: (wordsAfter [] after).tail).filter isForbidden =
      (wordsAfter [] after).tail.filter isForbidden :=
    List.filter_cons_of_neg (by simp [isForbidden_nil])
  rw [List.nil_append] at hrun
  rw [wordsAfter_eq begun, wordsAfter_eq [] after, hrun, List.append_nil, List.append_nil,
    List.tail_cons, hnil, ← List.filter_append, List.singleton_append]

theorem filter_wordsAfter_numeral {text begun : List Char}
    (hbegun : ∀ c ∈ begun, isNumeric c = true ∧ isWord c = true)
    (htext : ∀ c ∈ text, isNumeric c = true) :
    (wordsAfter begun (text ++ after)).filter isForbidden =
      (wordsAfter [] after).filter isForbidden := by
  induction text generalizing begun with
  | nil =>
    rw [List.nil_append, filter_wordsAfter_begun hafter, List.filter_singleton,
      isForbidden_numeral hbegun]
    rfl
  | cons c text ih =>
    rw [List.forall_mem_cons] at htext
    rw [List.cons_append, wordsAfter]
    split
    case isTrue hc =>
      refine ih ?_ htext.2
      rw [List.forall_mem_append, List.forall_mem_singleton]
      exact ⟨hbegun, htext.1, hc⟩
    case isFalse =>
      rw [List.filter_cons, isForbidden_numeral hbegun, if_neg (by decide)]
      exact ih (by simp) htext.2

end

theorem lt_of_lexed {offset : Nat} {text : List Char} {ls : List Lexeme}
    (h : Lexed offset text ls) : ∀ c ∈ text, c.toNat < 128 := by
  induction h with
  | nil => simp
  | blank hc _ ih =>
    refine List.forall_mem_cons.mpr ⟨?_, ih⟩
    by_contra hlt
    exact absurd hc (by simp [(readToken_foreign (Nat.le_of_not_lt hlt) []).1])
  | token _ _ _ hreading _ ih =>
    rw [← List.cons_append, List.forall_mem_append]
    exact ⟨hreading.lt, ih⟩

theorem filter_words_of_lexed {offset : Nat} {text : List Char} {ls : List Lexeme}
    (h : Lexed offset text ls) : (wordsAfter [] text).filter isForbidden =
      ((ls.filterMap (·.token.name?)).filter fun name ↦
        forbiddenWords.contains (lowerCase name)).map String.toList := by
  induction h with
  | nil => rfl
  | @blank _ c rest ls hc hrest ih =>
    have hword : isWord c = false := by
      rw [isWord_eq (lt_of_lexed (.blank hc hrest) c (by simp))]
      by_contra hname
      have hgoes := continues_of_continuesName (Bool.not_eq_false _ ▸ hname)
      exact absurd hgoes (by simp [not_continues_of_isSpace hc])
    rw [filter_wordsAfter_cons hword, ih]
  | @token _ c text after token ls _ _ _ hreading hrest ih =>
    have hhead : (∀ c ∈ after.head?, continuesName c = false) →
        ∀ c ∈ after.head?, isWord c = false := by
      intro hafter c hc
      rw [isWord_eq (lt_of_lexed hrest c (List.mem_of_mem_head? hc))]
      exact hafter c hc
    rw [← List.cons_append, List.filterMap_cons]
    cases hreading with
    | number htext hafter =>
      rw [filter_wordsAfter_numeral (hhead hafter) (by simp) htext]
      exact ih
    | name htext hafter =>
      have hlt : ∀ d ∈ c :: text, d.toNat < 128 :=
        fun d hd ↦ lt_of_continues (continues_of_continuesName (htext d hd))
      have hword : ∀ d ∈ c :: text, isWord d = true :=
        fun d hd ↦ (isWord_eq (hlt d hd)).trans (htext d hd)
      rw [wordsAfter_append hword, List.nil_append, filter_wordsAfter_begun (hhead hafter), ih,
        List.filter_singleton, isForbidden_eq hlt, Token.name?, List.filter_cons]
      cases forbiddenWords.contains (lowerCase (String.ofList (c :: text))) with
      | false => rfl
      | true =>
        rw [if_pos rfl, List.map_cons, String.toList_ofList]
        rfl
    | operator htoken htext =>
      have hsigns : operatorSigns.all (!isWord ·) = true := by decide +kernel
      have hoff : ∀ d ∈ c :: text, isWord d = false := fun d hd ↦ by
        simpa using List.all_eq_true.mp hsigns d (htext d hd)
      rw [filter_wordsAfter_append hoff, htoken]
      exact ih

/-- The forbidden words of a text are those that a search for them finds. In a text of lexemes they
are the names that are listed when in lower case: none is missed, and no part of a longer name or
of a numeral is taken for one. -/
theorem forbiddenIn_eq_names (text : String) :
    forbiddenIn text = NameMap.distinct
      ((search 0 none text.toList).map fun word ↦ lowerCase (String.ofList word)) ∧
    ∀ ls, tokenize text = .ok ls → forbiddenIn text = NameMap.distinct
      (((ls.filterMap (·.token.name?)).map lowerCase).filter forbiddenWords.contains) := by
  constructor
  · simp only [search_eq_filter, forbiddenIn, lowerCase, String.toList_ofList]
  · intro ls h
    rw [forbiddenIn, words, filter_words_of_lexed (tokenize_eq_ok.mp h), List.filter_map,
      List.map_map]
    rfl

theorem forbiddenIn_eq_names_rand :
    ∃ ls, tokenize "RAND(1e5) + read_x - Open" = .ok ls ∧
      forbiddenIn "RAND(1e5) + read_x - Open" = ["open", "rand"] ∧
      forbiddenIn "RAND(1e5) + read_x - Open" = NameMap.distinct
        (((ls.filterMap (·.token.name?)).map lowerCase).filter forbiddenWords.contains) := by
  have hcount : (tokenize "RAND(1e5) + read_x - Open").map List.length = .ok 8 := by
    decide +kernel
  cases h : tokenize "RAND(1e5) + read_x - Open" with
  | error fault => simp [h, Except.map] at hcount
  | ok ls => exact ⟨ls, rfl, by decide +kernel, (forbiddenIn_eq_names _).2 ls h⟩

end SystemDynamics.Validation
