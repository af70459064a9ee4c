import SystemDynamics.Text.Blank
import SystemDynamics.Text.Word
import Mathlib.Data.List.TakeWhile
import Mathlib.Data.List.Induction

namespace SystemDynamics.Text

theorem forall_mem_trimLeft {text : List Char} :
    (∀ c ∈ trimLeft text, isBlank c = true) ↔ ∀ c ∈ text, isBlank c = true := by
  induction text with
  | nil => rfl
  | cons c text ih =>
    rw [trimLeft, List.dropWhile_cons]
    split
    case isTrue hc =>
      rw [List.forall_mem_cons, and_iff_right hc]
      exact ih
    case isFalse => rfl

theorem trim_isEmpty {text : String} :
    (trim text).isEmpty = true ↔ ∀ c ∈ text.toList, isBlank c = true := by
  have hempty : (trim text).isEmpty = true ↔ (trim text).toList = [] := by simp
  rw [hempty, trim, String.toList_ofList, List.reverse_eq_nil_iff, trimLeft,
    List.dropWhile_eq_nil_iff]
  simp only [List.mem_reverse]
  exact forall_mem_trimLeft

/-- A run of word characters without another beside it. -/
def IsWordOf (word text : List Char) : Prop :=
  ∃ before after, text = before ++ (word ++ after) ∧ (∀ c ∈ word, isWord c = true) ∧
    (∀ c ∈ before.getLast?, isWord c = false) ∧ ∀ c ∈ after.head?, isWord c = false

theorem takeWhile_run {p : Char → Bool} {run after : List Char} (hrun : ∀ c ∈ run, p c = true)
    (hafter : ∀ c ∈ after.head?, p c = false) : (run ++ after).takeWhile p = run := by
  rw [List.takeWhile_append_of_pos hrun]
  cases after with
  | nil => exact List.append_nil run
  | cons c after => simp [hafter c rfl]

theorem drop_takeWhile (p : Char → Bool) (text : List Char) :
    text.drop (text.takeWhile p).length = text.dropWhile p :=
  (congrArg (List.drop _) List.takeWhile_append_dropWhile.symm).trans List.drop_left

theorem head_dropWhile (p : Char → Bool) (text : List Char) :
    ∀ c ∈ (text.dropWhile p).head?, p c = false := by
  intro c hc
  have hnot := List.head?_dropWhile_not p text
  rw [hc] at hnot
  exact hnot

theorem isWordOf_append_cons {word begun rest : List Char} {c : Char}
    (hbegun : ∀ c ∈ begun, isWord c = true) (hc : isWord c = false) :
    IsWordOf word (begun ++ c :: rest) ↔ word = begun ∨ IsWordOf word rest := by
  have hend : ∀ c' ∈ (c :: rest).head?, isWord c' = false := by
    rintro c' ⟨⟩
    exact hc
  constructor
  · rintro ⟨before, after, htext, hword, hbefore, hafter⟩
    by_cases hnil : before = []
    · left
      rw [hnil, List.nil_append] at htext
      rw [← takeWhile_run hword hafter, ← htext, takeWhile_run hbegun hend]
    · right
      -- What stands before a later word ends outside the word that has begun.
      have hlast := List.getLast_mem hnil
      have hout := hbefore _ (List.getLast?_eq_some_getLast hnil)
      rcases List.append_eq_append_iff.mp htext with ⟨as, hb, hrest⟩ | ⟨bs, hb, -⟩
      · cases as with
        | nil =>
          rw [List.append_nil] at hb
          subst hb
          simp [hbegun _ hlast] at hout
        | cons a as =>
          obtain ⟨rfl, rfl⟩ := List.cons_eq_cons.mp hrest
          refine ⟨as, after, rfl, hword, ?_, hafter⟩
          intro x hx
          refine hbefore x ?_
          rw [hb, List.getLast?_append, List.getLast?_cons, hx]
          rfl
      · have hmem : before.getLast hnil ∈ begun := hb ▸ List.mem_append_left bs hlast
        simp [hbegun _ hmem] at hout
  · rintro (rfl | ⟨before, after, rfl, hword, hbefore, hafter⟩)
    · exact ⟨[], c :: rest, rfl, hbegun, by simp, hend⟩
    · refine ⟨begun ++ c :: before, after, by simp, hword, ?_, hafter⟩
      intro x hx
      rw [List.getLast?_append, List.getLast?_cons] at hx
      cases hl : before.getLast? with
      | none => simp_all
      | some y => simp_all

theorem mem_wordsAfter {word begun text : List Char} (hbegun : ∀ c ∈ begun, isWord c = true) :
    word ∈ wordsAfter begun text ↔ IsWordOf word (begun ++ text) := by
  induction text generalizing begun with
  | nil =>
    rw [wordsAfter, List.mem_singleton, List.append_nil]
    constructor
    · rintro rfl
      exact ⟨[], [], by simp, hbegun, by simp, by simp⟩
    · rintro ⟨before, after, rfl, -, hbefore, hafter⟩
      cases before using List.reverseRecOn with
      | append_singleton before c =>
        simp [hbegun c (by simp)] at hbefore
      | nil =>
        cases after with
        | nil => simp
        | cons c after => simp [hbegun c (by simp)] at hafter
  | cons c text ih =>
    rw [wordsAfter]
    split
    case isTrue hc =>
      rw [ih (by simpa [or_imp, forall_and, hc] using hbegun), List.append_assoc]
      rfl
    case isFalse hc =>
      rw [List.mem_cons, ih (by simp), isWordOf_append_cons hbegun (by simpa using hc)]
      rfl

theorem wordsAfter_eq (begun text : List Char) :
    wordsAfter begun text = (begun ++ text.takeWhile isWord) :: (wordsAfter [] text).tail := by
  induction text generalizing begun with
  | nil => simp [wordsAfter]
  | cons c text ih =>
    rw [wordsAfter, wordsAfter, List.takeWhile_cons]
    split
    case isTrue => rw [ih, ih ([] ++ [c]), List.append_assoc]; rfl
    case isFalse => simp

theorem wordsAfter_append {run : List Char} (hrun : ∀ c ∈ run, isWord c = true)
    (begun after : List Char) : wordsAfter begun (run ++ after) = wordsAfter (begun ++ run) after := by
  induction run generalizing begun with
  | nil => rw [List.append_nil]; rfl
  | cons c run ih =>
    rw [List.forall_mem_cons] at hrun
    rw [List.cons_append, wordsAfter, if_pos hrun.1, ih hrun.2, List.append_assoc]
    rfl

theorem mem_words {text : String} {word : List Char} :
    word ∈ words text ↔ IsWordOf word text.toList :=
  mem_wordsAfter (by simp)

end SystemDynamics.Text
