import SystemDynamics.Json.Writing
import SystemDynamics.Proofs.Json.Numeral
import SystemDynamics.Proofs.Json.Tree

namespace SystemDynamics.Json

theorem hexDigit?_digitChar {n : Nat} (hn : n < 16) : hexDigit? (Nat.digitChar n) = some n := by
  revert n
  decide

theorem bodyChar_escape (c : Char) (t : Text) :
    ∃ e es, escape c = e :: es ∧ e ≠ '"' ∧ bodyChar e (es ++ t) = some (c, t) := by
  rw [escape.eq_def]
  split
  case h_8 hquote hbackslash _ _ _ _ _ =>
    split
    case isTrue hcontrol =>
      refine ⟨'\\', _, rfl, by decide, ?_⟩
      have hhex : hex4? '0' '0' (Nat.digitChar (c.toNat / 16)) (Nat.digitChar (c.toNat % 16)) =
          some c.toNat := by
        have hzero : hexDigit? '0' = some 0 := rfl
        rw [hex4?, hzero, hexDigit?_digitChar (by omega), hexDigit?_digitChar (by omega)]
        simp only [Option.pure_def, Option.bind_eq_bind, Option.bind_some, Option.some_inj]
        omega
      have hlow : isLowSurrogate c.toNat = false := by
        simp only [isLowSurrogate, Bool.and_eq_false_iff, decide_eq_false_iff_not]
        omega
      have hhigh : isHighSurrogate c.toNat = false := by
        simp only [isHighSurrogate, Bool.and_eq_false_iff, decide_eq_false_iff_not]
        omega
      simp [bodyChar, escaped, unicodeEscape, hexByte, hhex, hlow, hhigh, Char.ofNat_toNat]
    case isFalse hprinted =>
      have hc : c ≠ '\\' := hbackslash
      exact ⟨c, [], rfl, hquote, by simp [bodyChar, hc, hprinted]⟩
  all_goals exact ⟨'\\', _, rfl, by decide, rfl⟩

theorem stringBody_escape {fuel : Nat} {cs : List Char} (h : cs.length < fuel) (t : Text) :
    stringBody fuel (cs.flatMap escape ++ '"' :: t) = some (cs, t) := by
  induction cs generalizing fuel with
  | nil =>
    obtain ⟨fuel, rfl⟩ := Nat.exists_eq_add_of_lt h
    simp [stringBody_cons]
  | cons c cs ih =>
    obtain ⟨fuel, rfl⟩ := Nat.exists_eq_succ_of_ne_zero (Nat.ne_zero_of_lt h)
    obtain ⟨e, es, hescape, hquote, hread⟩ := bodyChar_escape c (cs.flatMap escape ++ '"' :: t)
    rw [List.flatMap_cons, hescape, List.append_assoc, List.cons_append, stringBody_cons,
      if_neg hquote, hread]
    simp [ih (Nat.lt_of_succ_lt_succ h)]

theorem readString_escape (s : String) (t : Text) :
    readString (s.toList.flatMap escape ++ '"' :: t) = some (s, t) := by
  have hlength : ∀ cs : List Char, cs.length ≤ (cs.flatMap escape).length := by
    intro cs
    induction cs with
    | nil => exact le_rfl
    | cons c cs ih =>
      obtain ⟨e, es, hescape, -⟩ := bodyChar_escape c []
      rw [List.flatMap_cons, hescape, List.length_append, List.length_cons, List.length_cons]
      omega
  have hfuel : s.toList.length < (s.toList.flatMap escape ++ '"' :: t).length := by
    rw [List.length_append, List.length_cons]
    have := hlength s.toList
    omega
  rw [readString, stringBody_escape hfuel]
  simp

theorem toList_writeString (s : String) :
    (writeString s).toList = '"' :: (s.toList.flatMap escape ++ ['"']) := by
  simp [writeString]

theorem skipBlank_append {gap : Text} (hgap : ∀ c ∈ gap, isBlank c) (t : Text) :
    skipBlank (gap ++ t) = skipBlank t :=
  List.dropWhile_append_of_pos hgap

theorem ends_cons {c : Char} (hc : isBlank c ∨ c = ',' ∨ c = ']' ∨ c = '\x7d') (t : Text) :
    Ends (c :: t) := by
  rintro _ ⟨⟩
  simp only [isBlank, Bool.or_eq_true, beq_iff_eq] at hc
  rcases hc with (((rfl | rfl) | rfl) | rfl) | rfl | rfl | rfl <;> decide

theorem ends_append {gap : Text} (hgap : ∀ c ∈ gap, isBlank c) {t : Text} (ht : Ends t) :
    Ends (gap ++ t) := by
  cases gap with
  | nil => exact ht
  | cons c gap => exact ends_cons (.inl (hgap c List.mem_cons_self)) _

section

variable {α : Type} {S : Text → α → Text → Prop} {mark : Char} {gap gap' : Text}

theorem listed_intercalate (hS : IsItem S) (hmark : mark = ']' ∨ mark = '\x7d')
    (hgap : ∀ c ∈ gap, isBlank c) (hgap' : ∀ c ∈ gap', isBlank c) {t : Text} {isFirst : Bool}
    {start s : Text} {ss : List Text} {a : α} {as : List α}
    (hstart : ∀ t, Reaches isFirst (start ++ t) (gap ++ t))
    (h : List.Forall₂ (fun s a ↦ ∀ t, Ends t → S (s ++ t) a t) (s :: ss) (a :: as)) :
    Listed S mark isFirst (start ++ ((',' :: gap).intercalate (s :: ss) ++ (gap' ++ mark :: t)))
      (a :: as) t := by
  have hend : Ends (gap' ++ mark :: t) := ends_append hgap' (ends_cons (by tauto) t)
  have hdone : skipBlank (gap' ++ mark :: t) = mark :: t := by
    rw [skipBlank_append hgap']
    exact skipBlank_cons (by rcases hmark with rfl | rfl <;> rfl) t
  have hitem : ∀ {s : Text} {a : α} {t : Text}, (∀ t, Ends t → S (s ++ t) a t) → Ends t →
      S (gap ++ (s ++ t)) a t := by
    intro s a t hs ht
    rw [← hS.blank, skipBlank_append hgap, hS.blank]
    exact hs t ht
  induction ss generalizing isFirst start s a as with
  | nil =>
    cases h with
    | cons hs h =>
      cases h with
      | nil =>
        rw [List.intercalate_singleton]
        exact .item (hstart _) (hitem hs hend) (.done hdone)
  | cons s' ss ih =>
    cases h with
    | cons hs h =>
      cases h with
      | @cons _ a' _ as hs' h =>
        rw [List.intercalate_cons_cons, List.append_assoc, List.append_assoc]
        refine .item (hstart _) (hitem hs (ends_cons (by tauto) _)) (ih (fun t ↦ ?_) (.cons hs' h))
        exact skipBlank_cons rfl _

theorem isBlank_of_mem_newLine {depth : Nat} {c : Char} (h : c ∈ (Value.newLine depth).toList) :
    isBlank c := by
  have hc : c = '\n' ∨ c = ' ' := by
    simp only [Value.newLine, String.toList_append, String.toList_ofList, List.mem_append] at h
    exact h.imp (by simp) List.eq_of_mem_replicate
  rcases hc with rfl | rfl <;> rfl

theorem listed_block (hS : IsItem S) (hmark : mark = ']' ∨ mark = '\x7d')
    {opening closing : String} {c : Char} (hopening : opening.toList = [c])
    (hclosing : closing.toList = [mark]) {depth : Nat} {texts : List String} {as : List α}
    (h : List.Forall₂ (fun s a ↦ ∀ t, Ends t → S (s.toList ++ t) a t) texts as) (t : Text) :
    ∃ t', (Value.block opening closing depth texts).toList ++ t = c :: t' ∧
      Listed S mark true t' as t := by
  have hblank : isBlank mark = false := by rcases hmark with rfl | rfl <;> rfl
  cases h with
  | nil =>
    exact ⟨mark :: t, by simp [Value.block, hopening, hclosing], .done (skipBlank_cons hblank t)⟩
  | @cons s a ss as hs h =>
    have hgap : ∀ depth, ∀ c ∈ (Value.newLine depth).toList, isBlank c := fun _ _ ↦
      isBlank_of_mem_newLine
    have hitems : List.Forall₂ (fun s a ↦ ∀ t, Ends t → S (s ++ t) a t)
        ((s :: ss).map String.toList) (a :: as) :=
      List.forall₂_map_left_iff.mpr (.cons hs h)
    refine ⟨_, ?_, listed_intercalate hS hmark (hgap (depth + 1)) (hgap depth) (fun _ ↦ rfl) hitems⟩
    simp [Value.block, String.toList_intercalate, hopening, hclosing]

theorem named_of (hS : IsItem S) (name : String) {a : α} {t rest : Text} (h : S t a rest) :
    Named S ((writeString name ++ ": ").toList ++ t) (name, a) rest := by
  have htext : (writeString name ++ ": ").toList ++ t =
      '"' :: (name.toList.flatMap escape ++ '"' :: ':' :: ' ' :: t) := by
    simp [toList_writeString]
  have hblank : S (' ' :: t) a rest := hS.blank.mp ((hS.blank (t := t)).mpr h)
  rw [htext]
  exact ⟨_, ':' :: ' ' :: t, ' ' :: t, skipBlank_cons rfl _, readString_escape name _,
    skipBlank_cons rfl _, hblank⟩

end

/-- A number is read as another from its text. -/
def Number.IsReadAs (n m : Number) : Prop :=
  ∀ t, Ends t → readNumber (n.write.toList ++ t) = some (m, t)

theorem Number.IsReadAs.spells {n m : Number} (h : n.IsReadAs m) {t : Text} (ht : Ends t)
    (depth : Nat) : Spells depth (n.write.toList ++ t) (.number m) t := by
  obtain ⟨c, t', htext, hc⟩ := head_of_readNumber (h t ht)
  have hblank : isBlank c = false := by
    by_contra hblank
    have hends := ends_cons (.inl (Bool.eq_true_of_not_eq_false hblank)) t' c rfl
    rcases hc with rfl | hc
    · exact hblank rfl
    · simp [hc] at hends
  rw [spells_number_iff, htext, skipBlank_cons hblank, ← htext]
  exact h t ht

namespace Value

def numbers : Value → List Number
  | number n => [n]
  | list items => items.flatMap numbers
  | object fields => fields.flatMap fun f ↦ f.2.numbers
  | _ => []
termination_by v => v
decreasing_by
  · decreasing_tactic
  · have hlt := sizeOf_snd_lt ‹_›
    decreasing_tactic

def mapNumbers (f : Number → Number) : Value → Value
  | number n => number (f n)
  | list items => .list (items.map (mapNumbers f))
  | object fields => .object (fields.map fun e ↦ (e.1, e.2.mapNumbers f))
  | v => v
termination_by v => v
decreasing_by
  · decreasing_tactic
  · have hlt := sizeOf_snd_lt ‹_›
    decreasing_tactic

variable {f : Number → Number} {items : List Value} {fields : List (String × Value)}

@[simp] theorem numbers_null : null.numbers = [] := by
  rw [numbers] <;> nofun

@[simp] theorem numbers_text (s : String) : (text s).numbers = [] := by
  rw [numbers] <;> nofun

@[simp] theorem numbers_number (n : Number) : (number n).numbers = [n] := by
  rw [numbers]

@[simp] theorem numbers_list : (list items).numbers = items.flatMap numbers := by
  rw [numbers]

@[simp] theorem numbers_object : (object fields).numbers = fields.flatMap fun f ↦ f.2.numbers := by
  rw [numbers]

@[simp] theorem mapNumbers_null : null.mapNumbers f = null := by
  rw [mapNumbers] <;> nofun

@[simp] theorem mapNumbers_bool (b : Bool) : (bool b).mapNumbers f = bool b := by
  rw [mapNumbers] <;> nofun

@[simp] theorem mapNumbers_text (s : String) : (text s).mapNumbers f = text s := by
  rw [mapNumbers] <;> nofun

@[simp] theorem mapNumbers_number (n : Number) : (number n).mapNumbers f = number (f n) := by
  rw [mapNumbers]

@[simp] theorem mapNumbers_list :
    (list items).mapNumbers f = list (items.map (mapNumbers f)) := by
  rw [mapNumbers]

@[simp] theorem mapNumbers_object :
    (object fields).mapNumbers f = object (fields.map fun e ↦ (e.1, e.2.mapNumbers f)) := by
  rw [mapNumbers]

theorem prettyItems_eq (depth : Nat) (items : List Value) :
    prettyItems depth items = items.map (prettyAt depth) := by
  induction items with
  | nil => rw [prettyItems, List.map_nil]
  | cons v items ih => rw [prettyItems, List.map_cons, ih]

theorem prettyFields_eq (depth : Nat) (fields : List (String × Value)) :
    prettyFields depth fields =
      fields.map fun e ↦ writeString e.1 ++ ": " ++ e.2.prettyAt depth := by
  induction fields with
  | nil => rw [prettyFields, List.map_nil]
  | cons e fields ih => rw [prettyFields, List.map_cons, ih]

theorem spells_pretty_list {items : List Value} {bound depth : Nat}
    (h : ∀ v ∈ items, ∀ t, Ends t →
      Spells bound ((v.prettyAt (depth + 1)).toList ++ t) (v.mapNumbers f) t) (t : Text) :
    Spells (bound + 1) (((list items).prettyAt depth).toList ++ t)
      ((list items).mapNumbers f) t := by
  have hall : List.Forall₂ (fun s v ↦ ∀ t, Ends t → Spells bound (s.toList ++ t) v t)
      (items.map (prettyAt (depth + 1))) (items.map (mapNumbers f)) :=
    List.forall₂_map_left_iff.mpr (List.forall₂_map_right_iff.mpr (List.forall₂_same.mpr h))
  have hopening : "[".toList = ['['] := rfl
  have hclosing : "]".toList = [']'] := rfl
  obtain ⟨t', htext, hlisted⟩ :=
    listed_block (isItem_spells _) (.inl rfl) hopening hclosing hall t
  rw [mapNumbers_list, prettyAt, prettyItems_eq, htext]
  exact ⟨t', skipBlank_cons rfl t', hlisted⟩

theorem spells_pretty_object {fields : List (String × Value)} {bound depth : Nat}
    (h : ∀ e ∈ fields, ∀ t, Ends t →
      Spells bound ((e.2.prettyAt (depth + 1)).toList ++ t) (e.2.mapNumbers f) t) (t : Text) :
    Spells (bound + 1) (((object fields).prettyAt depth).toList ++ t)
      ((object fields).mapNumbers f) t := by
  have hfields : ∀ e ∈ fields, ∀ t, Ends t → Named (Spells bound)
      ((writeString e.1 ++ ": " ++ e.2.prettyAt (depth + 1)).toList ++ t)
        (e.1, e.2.mapNumbers f) t := by
    intro e he t ht
    rw [String.toList_append, List.append_assoc]
    exact named_of (isItem_spells _) e.1 (h e he t ht)
  have hall : List.Forall₂
      (fun s e ↦ ∀ t, Ends t → Named (Spells bound) (s.toList ++ t) e t)
      (fields.map fun e ↦ writeString e.1 ++ ": " ++ e.2.prettyAt (depth + 1))
      (fields.map fun e ↦ (e.1, e.2.mapNumbers f)) :=
    List.forall₂_map_left_iff.mpr (List.forall₂_map_right_iff.mpr (List.forall₂_same.mpr hfields))
  have hopening : "\x7b".toList = ['\x7b'] := rfl
  have hclosing : "\x7d".toList = ['\x7d'] := rfl
  obtain ⟨t', htext, hlisted⟩ :=
    listed_block (isItem_spells _).named (.inr rfl) hopening hclosing hall t
  rw [mapNumbers_object, prettyAt, prettyFields_eq, htext]
  exact ⟨t', skipBlank_cons rfl t', hlisted⟩

theorem spells_prettyAt (v : Value) (h : ∀ n ∈ v.numbers, n.IsReadAs (f n)) (depth : Nat) {t : Text}
    (ht : Ends t) : Spells (sizeOf v) ((v.prettyAt depth).toList ++ t) (v.mapNumbers f) t := by
  match v with
  | null =>
    rw [mapNumbers_null, prettyAt, spells_null_iff]
    exact ⟨_, rfl, skipWord_eq_some.mpr rfl⟩
  | bool b =>
    rw [mapNumbers_bool, prettyAt]
    cases b <;> exact ⟨_, rfl, skipWord_eq_some.mpr rfl⟩
  | number n =>
    rw [mapNumbers_number, prettyAt]
    exact (h n (by simp)).spells ht _
  | text s =>
    rw [mapNumbers_text, prettyAt, spells_text_iff, toList_writeString, List.cons_append,
      List.append_assoc]
    exact ⟨_, skipBlank_cons rfl _, readString_escape s t⟩
  | list items =>
    rw [list.sizeOf_spec, Nat.add_comm]
    refine spells_pretty_list (fun v hv t ht ↦ ?_) t
    have hnumbers : ∀ n ∈ v.numbers, n.IsReadAs (f n) := fun n hn ↦
      h n (by simpa using ⟨v, hv, hn⟩)
    exact (spells_prettyAt v hnumbers (depth + 1) ht).mono (List.sizeOf_lt_of_mem hv).le
  | object fields =>
    rw [object.sizeOf_spec, Nat.add_comm]
    refine spells_pretty_object (fun e he t ht ↦ ?_) t
    have hnumbers : ∀ n ∈ e.2.numbers, n.IsReadAs (f n) := fun n hn ↦
      h n (by simpa using ⟨e.1, e.2, he, hn⟩)
    exact (spells_prettyAt e.2 hnumbers (depth + 1) ht).mono (sizeOf_snd_lt he).le
termination_by v
decreasing_by
  · decreasing_tactic
  · have hlt := sizeOf_snd_lt he
    decreasing_tactic

/-- The text of a value is a text of it, with each number as it is read. -/
theorem isTextOf_pretty {v : Value} (h : ∀ n ∈ v.numbers, n.IsReadAs (f n)) :
    IsTextOf v.pretty (v.mapNumbers f) := by
  have hspells := spells_prettyAt v h 0 (t := []) nofun
  rw [List.append_nil] at hspells
  exact ⟨_, [], hspells, rfl⟩

end Value

end SystemDynamics.Json
