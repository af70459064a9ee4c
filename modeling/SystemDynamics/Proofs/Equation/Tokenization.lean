import SystemDynamics.Proofs.Equation.Bytes

namespace SystemDynamics.Equation

theorem width_pos (c : Char) (text : List Char) : 0 < width (c :: text) :=
  Nat.lt_of_lt_of_le c.utf8Size_pos (Nat.le_add_right _ _)

def Standing (l : Lexeme) : Prop :=
  ∃ c rest, l.text = c :: rest ∧ isSpace c = false ∧
    readToken c rest = .ok (l.token, rest.length + 1)

inductive Spaced : List (List Char) → List Char → Prop
  | nil : Spaced [] []
  | last {text : List Char} : Spaced [text] text
  | cons {text gap : List Char} {texts : List (List Char)} {rest : List Char} (hgap : gap ≠ [])
    (hblank : ∀ c ∈ gap, isSpace c = true) (h : Spaced texts rest) :
    Spaced (text :: texts) (text ++ (gap ++ rest))

/-- Lexemes stand in a text one after the other, with nothing but blanks outside them. Each has its
token by itself, and all have theirs in a row with any blanks between. -/
structure Lossless (source : List Char) (ls : List Lexeme) : Prop where
  increasing : ls.Pairwise fun a b ↦ a.offset < b.offset
  located : ∀ l ∈ ls, l.text ≠ [] ∧
    slice? l.offset (l.offset + width l.text) source = some l.text
  disjoint : ls.Pairwise fun a b ↦ a.offset + width a.text ≤ b.offset
  outside : ∀ before c after, source = before ++ c :: after → isSpace c = true ∨
    ∃ l ∈ ls, l.offset ≤ width before ∧ width before < l.offset + width l.text
  alone : ∀ l ∈ ls, tokenize (String.ofList l.text) = .ok [{ l with offset := 0 }]
  spaced : ∀ text, Spaced (ls.map (·.text)) text → ∃ again,
    tokenize (String.ofList text) = .ok again ∧
      again.map (fun l ↦ (l.token, l.text)) = ls.map fun l ↦ (l.token, l.text)

section

variable {offset : Nat} {text : List Char} {ls : List Lexeme} (h : Lexed offset text ls)

include h

theorem Lexed.standing : ∀ l ∈ ls, Standing l := by
  induction h with
  | nil => simp
  | blank _ _ ih => exact ih
  | token hc _ halone _ _ ih => exact List.forall_mem_cons.mpr ⟨⟨_, _, rfl, hc, halone⟩, ih⟩

theorem Lexed.offset_le : ∀ l ∈ ls, offset ≤ l.offset := by
  induction h with
  | nil => simp
  | blank _ _ ih => exact fun l hl ↦ Nat.le_of_add_right_le (ih l hl)
  | token _ _ _ _ _ ih =>
    exact List.forall_mem_cons.mpr ⟨Nat.le_refl _, fun l hl ↦ Nat.le_of_add_right_le (ih l hl)⟩

theorem Lexed.disjoint : ls.Pairwise fun a b ↦ a.offset + width a.text ≤ b.offset := by
  induction h with
  | nil => exact .nil
  | blank _ _ ih => exact ih
  | token _ _ _ _ hlater ih => exact .cons hlater.offset_le ih

theorem Lexed.slice?_eq (before : List Char) (hoffset : offset = width before) :
    ∀ l ∈ ls, slice? l.offset (l.offset + width l.text) (before ++ text) = some l.text := by
  induction h generalizing before with
  | nil => simp
  | @blank _ c rest _ _ _ ih =>
    have hih := ih (before ++ [c]) (by simp [hoffset, width_append, width])
    rwa [List.append_assoc] at hih
  | @token _ c text after _ _ _ _ _ _ _ ih =>
    have hih := ih (before ++ (c :: text)) (by rw [hoffset, width_append])
    rw [List.append_assoc] at hih
    exact List.forall_mem_cons.mpr ⟨hoffset ▸ slice?_append before (c :: text) after, hih⟩

theorem Lexed.outside {before after : List Char} {c : Char} (htext : text = before ++ c :: after) :
    isSpace c = true ∨ ∃ l ∈ ls, l.offset ≤ offset + width before ∧
      offset + width before < l.offset + width l.text := by
  induction h generalizing before with
  | nil => simp at htext
  | @blank _ d rest _ hd _ ih =>
    cases before with
    | nil =>
      obtain ⟨rfl, -⟩ := List.cons_eq_cons.mp htext
      exact .inl hd
    | cons e before =>
      obtain ⟨rfl, hrest⟩ := List.cons_eq_cons.mp htext
      rw [width, ← Nat.add_assoc]
      exact ih hrest
  | @token offset d text more token ls _ _ _ _ _ ih =>
    have hlater : ∀ past, more = past ++ c :: after → before = d :: text ++ past →
        isSpace c = true ∨ ∃ l ∈ ⟨token, d :: text, offset⟩ :: ls, l.offset ≤ offset + width before ∧
          offset + width before < l.offset + width l.text := by
      rintro past hmore rfl
      rw [width_append, ← Nat.add_assoc]
      obtain hc | ⟨l, hl, hwithin⟩ := ih hmore
      · exact .inl hc
      · exact .inr ⟨l, List.mem_cons_of_mem _ hl, hwithin⟩
    rcases List.append_eq_append_iff.mp (List.cons_append ▸ htext) with
      ⟨past, hbefore, hmore⟩ | ⟨left, hlexeme, hrest⟩
    · exact hlater past hmore hbefore
    · cases left with
      | nil => exact hlater [] hrest.symm (by simpa using hlexeme.symm)
      | cons e left =>
        refine .inr ⟨_, List.mem_cons_self, Nat.le_add_right _ _, ?_⟩
        have hpos := width_pos e left
        rw [hlexeme, width_append]
        dsimp only
        omega

end

theorem tokenize_ofList (text : List Char) :
    tokenize (String.ofList text) = lexemes 0 0 text := by
  rw [tokenize, String.toList_ofList]

theorem lexemes_blanks {gap : List Char} (hgap : ∀ c ∈ gap, isSpace c = true) (offset : Nat)
    (rest : List Char) : lexemes 0 offset (gap ++ rest) = lexemes 0 (offset + width gap) rest := by
  induction gap generalizing offset with
  | nil => rfl
  | cons c gap ih =>
    rw [List.forall_mem_cons] at hgap
    rw [List.cons_append, lexemes_blank hgap.1, ih hgap.2, width, Nat.add_assoc]

theorem Standing.lexemes_eq {l : Lexeme} (h : Standing l) {offset : Nat} {after : List Char}
    {ls : List Lexeme} (hafter : Apart after)
    (hlater : lexemes 0 (offset + width l.text) after = .ok ls) :
    lexemes 0 offset (l.text ++ after) = .ok ({ l with offset } :: ls) := by
  obtain ⟨token, text, start⟩ := l
  obtain ⟨c, rest, rfl, hc, hread⟩ := h
  exact lexemes_token hc (readToken_append hafter c rest ▸ hread) hlater

theorem Standing.lexemes_alone {l : Lexeme} (h : Standing l) (offset : Nat) :
    lexemes 0 offset l.text = .ok [{ l with offset }] := by
  have hl := h.lexemes_eq apart_nil (rfl : lexemes 0 (offset + width l.text) [] = .ok [])
  rwa [List.append_nil] at hl

theorem apart_of_blank {gap : List Char} (hgap : gap ≠ []) (hblank : ∀ c ∈ gap, isSpace c = true)
    (rest : List Char) : Apart (gap ++ rest) := by
  cases gap with
  | nil => exact absurd rfl hgap
  | cons c gap => exact apart_cons.mpr (not_continues_of_isSpace (hblank c (by simp)))

theorem exists_lexemes_of_spaced {ls : List Lexeme} {text : List Char}
    (h : Spaced (ls.map (·.text)) text) (hls : ∀ l ∈ ls, Standing l) (offset : Nat) :
    ∃ again, lexemes 0 offset text = .ok again ∧
      again.map (fun l ↦ (l.token, l.text)) = ls.map fun l ↦ (l.token, l.text) := by
  generalize htexts : ls.map (·.text) = texts at h
  induction h generalizing ls offset with
  | nil =>
    obtain rfl := List.map_eq_nil_iff.mp htexts
    exact ⟨[], rfl, rfl⟩
  | last =>
    obtain ⟨l, rfl, rfl⟩ := List.map_eq_singleton_iff.mp htexts
    exact ⟨_, (hls l (by simp)).lexemes_alone offset, rfl⟩
  | cons hgap hblank _ ih =>
    obtain ⟨l, ls, rfl, rfl, rfl⟩ := List.map_eq_cons_iff.mp htexts
    rw [List.forall_mem_cons] at hls
    obtain ⟨again, hagain, hsame⟩ := ih hls.2 _ rfl
    rw [← lexemes_blanks hblank] at hagain
    refine ⟨_, hls.1.lexemes_eq (apart_of_blank hgap hblank _) hagain, ?_⟩
    rw [List.map_cons, hsame, List.map_cons]

theorem Lexed.lossless {source : List Char} {ls : List Lexeme} (h : Lexed 0 source ls) :
    Lossless source ls where
  increasing := h.disjoint.imp_of_mem fun ha _ hab ↦ by
    obtain ⟨c, rest, htext, -⟩ := h.standing _ ha
    have hpos := width_pos c rest
    rw [htext] at hab
    omega
  located l hl := by
    obtain ⟨c, rest, htext, -⟩ := h.standing l hl
    exact ⟨htext ▸ List.cons_ne_nil c rest, h.slice?_eq [] rfl l hl⟩
  disjoint := h.disjoint
  outside before c after hsource := by simpa using h.outside hsource
  alone l hl := by
    rw [tokenize_ofList]
    exact (h.standing l hl).lexemes_alone 0
  spaced text htext := by
    rw [tokenize_ofList]
    exact exists_lexemes_of_spaced htext h.standing 0

/-- Scanning by bytes cuts no character and finds the lexemes of the characters, of which nothing
but blanks is lost. -/
theorem tokenize_lossless (source : String) :
    tokenizeBytes source = some (tokenize source) ∧
      ∀ ls, tokenize source = .ok ls → Lossless source.toList ls :=
  ⟨tokenizeBytes_eq source, fun _ h ↦ (tokenize_eq_ok.mp h).lossless⟩

/-- An operator of two characters, a numeral that ends with a point and one that starts with it. -/
theorem tokenize_lossless_power : ∃ ls, tokenize "a_1**2. >=.5e1" = .ok ls ∧
    ls.map (·.offset) = [0, 3, 5, 8, 10] ∧ Lossless "a_1**2. >=.5e1".toList ls := by
  have hoffsets : (tokenize "a_1**2. >=.5e1").map (·.map (·.offset)) = .ok [0, 3, 5, 8, 10] := by
    decide +kernel
  cases h : tokenize "a_1**2. >=.5e1" with
  | error fault => simp [h, Except.map] at hoffsets
  | ok ls =>
    rw [h] at hoffsets
    exact ⟨ls, rfl, Except.ok.inj hoffsets, (tokenize_lossless "a_1**2. >=.5e1").2 ls h⟩

end SystemDynamics.Equation
