import SystemDynamics.Json.Tree
import SystemDynamics.Proofs.Json.Scan
import SystemDynamics.Proofs.NameMap

namespace SystemDynamics.Json

variable {α β : Type}

/-- Where the next item starts: at the place itself if it is the first, else after a comma. -/
def Reaches (isFirst : Bool) (t t' : Text) : Prop :=
  if isFirst then t = t' else skipBlank t = ',' :: t'

/-- Items up to a closing mark, with commas between them; `S` says what stands for an item. -/
inductive Listed (S : Text → α → Text → Prop) (mark : Char) : Bool → Text → List α → Text → Prop
  | done {isFirst : Bool} {t rest : Text} (h : skipBlank t = mark :: rest) :
    Listed S mark isFirst t [] rest
  | item {isFirst : Bool} {t t₁ t₂ rest : Text} {a : α} {as : List α} (h : Reaches isFirst t t₁)
    (ha : S t₁ a t₂) (has : Listed S mark false t₂ as rest) :
    Listed S mark isFirst t (a :: as) rest

def Named (S : Text → α → Text → Prop) (t : Text) (e : String × α) (rest : Text) : Prop :=
  ∃ t₁ t₂ t₃, skipBlank t = '"' :: t₁ ∧ readString t₁ = some (e.1, t₂) ∧
    skipBlank t₂ = ':' :: t₃ ∧ S t₃ e.2 rest

/-- A text starts with a value in which lists and objects nest at most so deep; the rest comes
after it. -/
def Spells : (depth : Nat) → Text → Value → Text → Prop
  | _, t, .null, rest => ∃ t', skipBlank t = 'n' :: t' ∧ skipWord ['u', 'l', 'l'] t' = some rest
  | _, t, .bool true, rest =>
    ∃ t', skipBlank t = 't' :: t' ∧ skipWord ['r', 'u', 'e'] t' = some rest
  | _, t, .bool false, rest =>
    ∃ t', skipBlank t = 'f' :: t' ∧ skipWord ['a', 'l', 's', 'e'] t' = some rest
  | _, t, .number n, rest => readNumber (skipBlank t) = some (n, rest)
  | _, t, .text s, rest => ∃ t', skipBlank t = '"' :: t' ∧ readString t' = some (s, rest)
  | depth + 1, t, .list vs, rest =>
    ∃ t', skipBlank t = '[' :: t' ∧ Listed (Spells depth) ']' true t' vs rest
  | depth + 1, t, .object fs, rest =>
    ∃ t', skipBlank t = '\x7b' :: t' ∧ Listed (Named (Spells depth)) '\x7d' true t' fs rest
  | 0, _, .list _, _ => False
  | 0, _, .object _, _ => False

/-- A relation for items: blanks before an item do not matter, an item takes something from the
text and does not look like the end of a list, and the text settles it. -/
structure IsItem (S : Text → α → Text → Prop) : Prop where
  blank {t rest : Text} {a : α} : S (skipBlank t) a rest ↔ S t a rest
  length {t rest : Text} {a : α} (h : S t a rest) : rest.length < t.length
  head {t rest : Text} {a : α} (h : S t a rest) :
    ∃ c t', skipBlank t = c :: t' ∧ c ≠ ']' ∧ c ≠ '\x7d'
  unique {t rest rest' : Text} {a a' : α} (h : S t a rest) (h' : S t a' rest') :
    a = a' ∧ rest = rest'

theorem Reaches.length {isFirst : Bool} {t t' : Text} (h : Reaches isFirst t t') :
    t'.length ≤ t.length := by
  cases isFirst with
  | true => exact (congrArg List.length h).ge
  | false => exact (length_of_skipBlank h).le

theorem Reaches.unique {isFirst : Bool} {t t₁ t₂ : Text} (h : Reaches isFirst t t₁)
    (h' : Reaches isFirst t t₂) : t₁ = t₂ := by
  cases isFirst with
  | true => exact Eq.trans (Eq.symm h) h'
  | false => exact (List.cons.inj (Eq.trans (Eq.symm h) h')).2

section

variable {S : Text → α → Text → Prop} (hS : IsItem S) {mark : Char} {isFirst : Bool}

include hS

theorem Listed.length {t rest : Text} {as : List α} (h : Listed S mark isFirst t as rest) :
    rest.length < t.length := by
  induction h with
  | done h => exact length_of_skipBlank h
  | item h ha _ ih => exact (ih.trans (hS.length ha)).trans_le h.length

theorem IsItem.not_of_done (hmark : mark = ']' ∨ mark = '\x7d') {t t₁ t₂ rest : Text} {a : α}
    (hdone : skipBlank t = mark :: rest) (h : Reaches isFirst t t₁) : ¬ S t₁ a t₂ := by
  intro ha
  cases isFirst with
  | true =>
    obtain rfl : t = t₁ := h
    obtain ⟨c, t', hc, hlist, hobject⟩ := hS.head ha
    obtain ⟨rfl, -⟩ := List.cons.inj (hdone.symm.trans hc)
    exact hmark.elim hlist hobject
  | false =>
    obtain ⟨rfl, -⟩ := List.cons.inj (hdone.symm.trans h)
    simp at hmark

theorem Listed.unique (hmark : mark = ']' ∨ mark = '\x7d') {t rest rest' : Text}
    {as as' : List α} (h : Listed S mark isFirst t as rest)
    (h' : Listed S mark isFirst t as' rest') : as = as' ∧ rest = rest' := by
  induction h generalizing as' rest' with
  | done h =>
    cases h' with
    | done h' => exact ⟨rfl, (List.cons.inj (h.symm.trans h')).2⟩
    | item hreach ha _ => exact absurd ha (hS.not_of_done hmark h hreach)
  | item h ha _ ih =>
    cases h' with
    | done h' => exact absurd ha (hS.not_of_done hmark h' h)
    | item h' ha' has' =>
      obtain rfl := h.unique h'
      obtain ⟨rfl, rfl⟩ := hS.unique ha ha'
      obtain ⟨rfl, rfl⟩ := ih has'
      exact ⟨rfl, rfl⟩

end

theorem IsItem.named {S : Text → α → Text → Prop} (hS : IsItem S) : IsItem (Named S) where
  blank := by simp [Named]
  length := by
    rintro t rest e ⟨t₁, t₂, t₃, h₁, h₂, h₃, h⟩
    have h₁ := length_of_skipBlank h₁
    have h₂ := length_of_readString h₂
    have h₃ := length_of_skipBlank h₃
    have h := hS.length h
    omega
  head := by
    rintro t rest e ⟨t₁, -, -, h₁, -⟩
    exact ⟨'"', t₁, h₁, by decide, by decide⟩
  unique := by
    rintro t rest rest' ⟨name, a⟩ ⟨name', a'⟩ ⟨t₁, t₂, t₃, h₁, h₂, h₃, h⟩
      ⟨t₁', t₂', t₃', h₁', h₂', h₃', h'⟩
    obtain ⟨-, rfl⟩ := List.cons.inj (h₁.symm.trans h₁')
    obtain ⟨rfl, rfl⟩ := Prod.mk.inj (Option.some.inj (h₂.symm.trans h₂'))
    obtain ⟨-, rfl⟩ := List.cons.inj (h₃.symm.trans h₃')
    obtain ⟨rfl, rfl⟩ := hS.unique h h'
    exact ⟨rfl, rfl⟩

section

variable {depth : Nat} {t t' rest : Text} {v : Value}

theorem readNumber_eq_none {c : Char} (hminus : c ≠ '-') (hdigit : c.isDigit = false) (t : Text) :
    readNumber (c :: t) = none := by
  refine Option.eq_none_iff_forall_ne_some.mpr fun ⟨n, rest⟩ h ↦ ?_
  obtain ⟨_, _, he, hc⟩ := head_of_readNumber h
  obtain ⟨rfl, -⟩ := List.cons.inj he
  simp [hminus, hdigit] at hc

theorem spells_null (h : skipBlank t = 'n' :: t') :
    Spells depth t v rest ↔ v = .null ∧ skipWord ['u', 'l', 'l'] t' = some rest := by
  cases depth <;> rcases v with _ | (_ | _) | _ | _ | _ | _ <;>
    simp [Spells, h, readNumber_eq_none]

theorem spells_true (h : skipBlank t = 't' :: t') :
    Spells depth t v rest ↔ v = .bool true ∧ skipWord ['r', 'u', 'e'] t' = some rest := by
  cases depth <;> rcases v with _ | (_ | _) | _ | _ | _ | _ <;>
    simp [Spells, h, readNumber_eq_none]

theorem spells_false (h : skipBlank t = 'f' :: t') :
    Spells depth t v rest ↔ v = .bool false ∧ skipWord ['a', 'l', 's', 'e'] t' = some rest := by
  cases depth <;> rcases v with _ | (_ | _) | _ | _ | _ | _ <;>
    simp [Spells, h, readNumber_eq_none]

theorem spells_text (h : skipBlank t = '"' :: t') :
    Spells depth t v rest ↔ ∃ s, v = .text s ∧ readString t' = some (s, rest) := by
  cases depth <;> rcases v with _ | (_ | _) | _ | _ | _ | _ <;>
    simp [Spells, h, readNumber_eq_none]

theorem spells_list (h : skipBlank t = '[' :: t') :
    Spells depth t v rest ↔ ∃ depth' vs, depth = depth' + 1 ∧ v = .list vs ∧
      Listed (Spells depth') ']' true t' vs rest := by
  cases depth <;> rcases v with _ | (_ | _) | _ | _ | _ | _ <;>
    simp [Spells, h, readNumber_eq_none]

theorem spells_object (h : skipBlank t = '\x7b' :: t') :
    Spells depth t v rest ↔ ∃ depth' fs, depth = depth' + 1 ∧ v = .object fs ∧
      Listed (Named (Spells depth')) '\x7d' true t' fs rest := by
  cases depth <;> rcases v with _ | (_ | _) | _ | _ | _ | _ <;>
    simp [Spells, h, readNumber_eq_none]

theorem spells_text_iff {s : String} :
    Spells depth t (.text s) rest ↔ ∃ t', skipBlank t = '"' :: t' ∧ readString t' = some (s, rest) := by
  cases depth <;> rfl

theorem spells_number_iff {n : Number} :
    Spells depth t (.number n) rest ↔ readNumber (skipBlank t) = some (n, rest) := by
  cases depth <;> rfl

theorem spells_null_iff :
    Spells depth t .null rest ↔
      ∃ t', skipBlank t = 'n' :: t' ∧ skipWord ['u', 'l', 'l'] t' = some rest := by
  cases depth <;> rfl

structure Plain (t : Text) : Prop where
  null (t' : Text) : skipBlank t ≠ 'n' :: t'
  true (t' : Text) : skipBlank t ≠ 't' :: t'
  false (t' : Text) : skipBlank t ≠ 'f' :: t'
  text (t' : Text) : skipBlank t ≠ '"' :: t'
  list (t' : Text) : skipBlank t ≠ '[' :: t'
  object (t' : Text) : skipBlank t ≠ '\x7b' :: t'

theorem spells_number (h : Plain t) :
    Spells depth t v rest ↔ ∃ n, v = .number n ∧ readNumber (skipBlank t) = some (n, rest) := by
  cases depth <;> rcases v with _ | (_ | _) | _ | _ | _ | _ <;>
    simp [Spells, h.null, h.true, h.false, h.text, h.list, h.object]

end

inductive Opening (t : Text) : Prop
  | null (t' : Text) (h : skipBlank t = 'n' :: t')
  | true (t' : Text) (h : skipBlank t = 't' :: t')
  | false (t' : Text) (h : skipBlank t = 'f' :: t')
  | text (t' : Text) (h : skipBlank t = '"' :: t')
  | list (t' : Text) (h : skipBlank t = '[' :: t')
  | object (t' : Text) (h : skipBlank t = '\x7b' :: t')
  | number (h : Plain t)

theorem opening (t : Text) : Opening t := by
  by_cases hplain : Plain t
  · exact .number hplain
  · by_contra hnone
    refine hplain ⟨fun t' h ↦ ?_, fun t' h ↦ ?_, fun t' h ↦ ?_, fun t' h ↦ ?_, fun t' h ↦ ?_,
      fun t' h ↦ ?_⟩
    exacts [hnone (.null t' h), hnone (.true t' h), hnone (.false t' h), hnone (.text t' h),
      hnone (.list t' h), hnone (.object t' h)]

section

variable {depth : Nat} {t rest rest' : Text} {v v' : Value}

theorem head_of_spells (h : Spells depth t v rest) :
    ∃ c t', skipBlank t = c :: t' ∧ c ≠ ']' ∧ c ≠ '\x7d' := by
  cases opening t with
  | null t' ht => exact ⟨'n', t', ht, by decide, by decide⟩
  | true t' ht => exact ⟨'t', t', ht, by decide, by decide⟩
  | false t' ht => exact ⟨'f', t', ht, by decide, by decide⟩
  | text t' ht => exact ⟨'"', t', ht, by decide, by decide⟩
  | list t' ht => exact ⟨'[', t', ht, by decide, by decide⟩
  | object t' ht => exact ⟨'\x7b', t', ht, by decide, by decide⟩
  | number ht =>
    obtain ⟨n, -, h⟩ := (spells_number ht).mp h
    obtain ⟨c, t', ht', hc⟩ := head_of_readNumber h
    refine ⟨c, t', ht', ?_, ?_⟩ <;> (rintro rfl; simp at hc)

variable (ih : ∀ depth' < depth, IsItem (Spells depth'))

include ih

theorem length_of_spells (h : Spells depth t v rest) : rest.length < t.length := by
  cases opening t with
  | null t' ht =>
    exact (length_of_skipWord ((spells_null ht).mp h).2).trans_lt (length_of_skipBlank ht)
  | true t' ht =>
    exact (length_of_skipWord ((spells_true ht).mp h).2).trans_lt (length_of_skipBlank ht)
  | false t' ht =>
    exact (length_of_skipWord ((spells_false ht).mp h).2).trans_lt (length_of_skipBlank ht)
  | text t' ht =>
    obtain ⟨s, -, h⟩ := (spells_text ht).mp h
    exact (length_of_readString h).trans (length_of_skipBlank ht)
  | list t' ht =>
    obtain ⟨depth, vs, rfl, -, h⟩ := (spells_list ht).mp h
    exact (h.length (ih depth depth.lt_succ_self)).trans (length_of_skipBlank ht)
  | object t' ht =>
    obtain ⟨depth, fs, rfl, -, h⟩ := (spells_object ht).mp h
    exact (h.length (ih depth depth.lt_succ_self).named).trans (length_of_skipBlank ht)
  | number ht =>
    obtain ⟨n, -, h⟩ := (spells_number ht).mp h
    exact (length_of_readNumber h).trans_le (length_skipBlank_le t)

theorem spells_unique (h : Spells depth t v rest) (h' : Spells depth t v' rest') :
    v = v' ∧ rest = rest' := by
  cases opening t with
  | null t' ht =>
    rw [spells_null ht] at h h'
    exact ⟨h.1.trans h'.1.symm, Option.some.inj (h.2.symm.trans h'.2)⟩
  | true t' ht =>
    rw [spells_true ht] at h h'
    exact ⟨h.1.trans h'.1.symm, Option.some.inj (h.2.symm.trans h'.2)⟩
  | false t' ht =>
    rw [spells_false ht] at h h'
    exact ⟨h.1.trans h'.1.symm, Option.some.inj (h.2.symm.trans h'.2)⟩
  | text t' ht =>
    rw [spells_text ht] at h h'
    obtain ⟨s, rfl, h⟩ := h
    obtain ⟨s', rfl, h'⟩ := h'
    obtain ⟨rfl, rfl⟩ := Prod.mk.inj (Option.some.inj (h.symm.trans h'))
    exact ⟨rfl, rfl⟩
  | list t' ht =>
    rw [spells_list ht] at h h'
    obtain ⟨depth, vs, rfl, rfl, h⟩ := h
    obtain ⟨_, vs', he, rfl, h'⟩ := h'
    obtain rfl := Nat.succ.inj he
    obtain ⟨rfl, rfl⟩ := h.unique (ih depth depth.lt_succ_self) (.inl rfl) h'
    exact ⟨rfl, rfl⟩
  | object t' ht =>
    rw [spells_object ht] at h h'
    obtain ⟨depth, fs, rfl, rfl, h⟩ := h
    obtain ⟨_, fs', he, rfl, h'⟩ := h'
    obtain rfl := Nat.succ.inj he
    obtain ⟨rfl, rfl⟩ := h.unique (ih depth depth.lt_succ_self).named (.inr rfl) h'
    exact ⟨rfl, rfl⟩
  | number ht =>
    rw [spells_number ht] at h h'
    obtain ⟨n, rfl, h⟩ := h
    obtain ⟨n', rfl, h'⟩ := h'
    obtain ⟨rfl, rfl⟩ := Prod.mk.inj (Option.some.inj (h.symm.trans h'))
    exact ⟨rfl, rfl⟩

end

/-- A text spells at most one value, and where the value ends is settled too. -/
theorem isItem_spells (depth : Nat) : IsItem (Spells depth) := by
  induction depth using Nat.strong_induction_on with
  | _ depth ih =>
    refine ⟨?_, length_of_spells ih, head_of_spells, spells_unique ih⟩
    intro t rest v
    cases depth <;> rcases v with _ | (_ | _) | _ | _ | _ | _ <;> simp [Spells]

theorem listed_nil {S : Text → α → Text → Prop} {mark : Char} {isFirst : Bool} {t rest : Text} :
    Listed S mark isFirst t [] rest ↔ skipBlank t = mark :: rest :=
  ⟨fun h ↦ by cases h; assumption, .done⟩

theorem listed_cons {S : Text → α → Text → Prop} {mark : Char} {isFirst : Bool} {t rest : Text}
    {a : α} {as : List α} : Listed S mark isFirst t (a :: as) rest ↔
      ∃ t₁ t₂, Reaches isFirst t t₁ ∧ S t₁ a t₂ ∧ Listed S mark false t₂ as rest := by
  constructor
  · rintro (_ | ⟨h, ha, has⟩)
    exact ⟨_, _, h, ha, has⟩
  · rintro ⟨t₁, t₂, h, ha, has⟩
    exact .item h ha has

theorem listed_exists {S : Text → α → Text → Prop} {P : α → β → Prop} {mark : Char}
    {isFirst : Bool} {t rest : Text} {bs : List β} :
    Listed (fun t b rest ↦ ∃ a, S t a rest ∧ P a b) mark isFirst t bs rest ↔
      ∃ as, Listed S mark isFirst t as rest ∧ List.Forall₂ P as bs := by
  constructor
  · intro h
    induction h with
    | done h => exact ⟨[], .done h, .nil⟩
    | item h hb _ ih =>
      obtain ⟨a, ha, hab⟩ := hb
      obtain ⟨as, has, hasbs⟩ := ih
      exact ⟨a :: as, .item h ha has, .cons hab hasbs⟩
  · rintro ⟨as, h, hP⟩
    induction h generalizing bs with
    | done h =>
      cases hP
      exact .done h
    | item h ha _ ih =>
      cases hP with
      | cons hab hasbs => exact .item h ⟨_, ha, hab⟩ (ih hasbs)

theorem named_exists {S : Text → α → Text → Prop} {P : α → β → Prop} {t rest : Text}
    {e : String × β} : Named (fun t b rest ↦ ∃ a, S t a rest ∧ P a b) t e rest ↔
      ∃ e' : String × α, Named S t e' rest ∧ e'.1 = e.1 ∧ P e'.2 e.2 := by
  constructor
  · rintro ⟨t₁, t₂, t₃, h₁, h₂, h₃, a, ha, hP⟩
    exact ⟨(e.1, a), ⟨t₁, t₂, t₃, h₁, h₂, h₃, ha⟩, rfl, hP⟩
  · rintro ⟨⟨name, a⟩, ⟨t₁, t₂, t₃, h₁, h₂, h₃, ha⟩, rfl, hP⟩
    exact ⟨t₁, t₂, t₃, h₁, h₂, h₃, a, ha, hP⟩

theorem IsItem.exists {S : Text → α → Text → Prop} (hS : IsItem S) {P : α → β → Prop}
    (hP : ∀ {a b b'}, P a b → P a b' → b = b') :
    IsItem fun t b rest ↦ ∃ a, S t a rest ∧ P a b where
  blank := by simp only [hS.blank, implies_true]
  length := by
    rintro t rest b ⟨a, ha, -⟩
    exact hS.length ha
  head := by
    rintro t rest b ⟨a, ha, -⟩
    exact hS.head ha
  unique := by
    rintro t rest rest' b b' ⟨a, ha, hb⟩ ⟨a', ha', hb'⟩
    obtain ⟨rfl, rfl⟩ := hS.unique ha ha'
    exact ⟨hP hb hb', rfl⟩

theorem Listed.imp {S S' : Text → α → Text → Prop} {mark : Char} {isFirst : Bool} {t rest : Text}
    {as : List α} (hS : ∀ {t a rest}, S t a rest → S' t a rest)
    (h : Listed S mark isFirst t as rest) : Listed S' mark isFirst t as rest := by
  induction h with
  | done h => exact .done h
  | item h ha _ ih => exact .item h (hS ha) ih

theorem Named.imp {S S' : Text → α → Text → Prop} {t rest : Text} {e : String × α}
    (hS : ∀ {t a rest}, S t a rest → S' t a rest) (h : Named S t e rest) : Named S' t e rest := by
  obtain ⟨t₁, t₂, t₃, h₁, h₂, h₃, h⟩ := h
  exact ⟨t₁, t₂, t₃, h₁, h₂, h₃, hS h⟩

theorem Spells.succ {depth : Nat} {t rest : Text} {v : Value} (h : Spells depth t v rest) :
    Spells (depth + 1) t v rest := by
  induction depth generalizing t v rest with
  | zero => rcases v with _ | (_ | _) | _ | _ | _ | _ <;> first | exact h | cases h
  | succ depth ih =>
    rcases v with _ | (_ | _) | _ | _ | vs | fs
    case list =>
      obtain ⟨t', ht, h⟩ := h
      exact ⟨t', ht, h.imp ih⟩
    case object =>
      obtain ⟨t', ht, h⟩ := h
      exact ⟨t', ht, h.imp fun h ↦ h.imp ih⟩
    all_goals exact h

theorem Spells.mono {depth depth' : Nat} {t rest : Text} {v : Value} (h : Spells depth t v rest)
    (hle : depth ≤ depth') : Spells depth' t v rest :=
  Nat.le_induction h (fun _ _ h ↦ h.succ) depth' hle

/-- A whole text is the text of a value. -/
def IsTextOf (text : String) (v : Value) : Prop :=
  ∃ depth rest, Spells depth text.toList v rest ∧ skipBlank rest = []

theorem IsTextOf.unique {text : String} {v v' : Value} (h : IsTextOf text v)
    (h' : IsTextOf text v') : v = v' := by
  obtain ⟨depth, _, h, -⟩ := h
  obtain ⟨depth', _, h', -⟩ := h'
  exact ((isItem_spells _).unique (h.mono (Nat.le_max_left depth depth'))
    (h'.mono (Nat.le_max_right depth depth'))).1

end SystemDynamics.Json
