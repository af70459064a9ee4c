import SystemDynamics.Proofs.Json.Grammar

namespace SystemDynamics.Json

namespace Value

theorem sizeOf_snd_lt {f : String × Value} {fields : List (String × Value)} (h : f ∈ fields) :
    sizeOf f.2 < sizeOf fields := by
  have hlt := List.sizeOf_lt_of_mem h
  obtain ⟨name, v⟩ := f
  rw [Prod.mk.sizeOf_spec] at hlt
  simp only
  omega

def Distinct : Value → Prop
  | list items => ∀ v ∈ items, v.Distinct
  | object fields => (fields.map (·.1)).Nodup ∧ ∀ f ∈ fields, f.2.Distinct
  | _ => True
termination_by v => v
decreasing_by
  · decreasing_tactic
  · have hlt := sizeOf_snd_lt ‹_›
    decreasing_tactic

/-- The value with the fields of each object sorted, the last of each name. -/
def sorted : Value → Value
  | list items => .list (items.map sorted)
  | object fields => .object (NameMap.ofList (fields.map fun f ↦ (f.1, f.2.sorted))).entries
  | v => v
termination_by v => v
decreasing_by
  · decreasing_tactic
  · have hlt := sizeOf_snd_lt ‹_›
    decreasing_tactic

end Value

section

variable (deeper : Level) {fuel : Nat} {t rest : Text}

theorem items_succ_eq_some {vs : List Value} :
    items deeper (fuel + 1) t = some (vs, rest) ↔ ∃ v t₁, deeper t = some (v, t₁) ∧
      (vs = [v] ∧ skipBlank t₁ = ']' :: rest ∨ ∃ t₂ vs', skipBlank t₁ = ',' :: t₂ ∧
        items deeper fuel t₂ = some (vs', rest) ∧ vs = v :: vs') := by
  simp only [items, bind, Option.bind_eq_some_iff]
  constructor
  · rintro ⟨⟨v, t₁⟩, hv, h⟩
    refine ⟨v, t₁, hv, ?_⟩
    split at h
    case h_1 t₂ ht₁ =>
      obtain ⟨⟨vs', _⟩, hvs, h⟩ := Option.bind_eq_some_iff.mp h
      obtain ⟨rfl, rfl⟩ := by simpa using h
      exact .inr ⟨t₂, vs', ht₁, hvs, rfl⟩
    case h_2 ht₁ =>
      obtain ⟨rfl, rfl⟩ := by simpa using h
      exact .inl ⟨rfl, ht₁⟩
    case h_3 => simp at h
  · rintro ⟨v, t₁, hv, ⟨rfl, ht₁⟩ | ⟨t₂, vs', ht₁, hvs, rfl⟩⟩
    · exact ⟨_, hv, by simp [ht₁]⟩
    · exact ⟨_, hv, by simp [ht₁, hvs]⟩

theorem fields_succ_eq_some {fs : List (String × Value)} :
    fields deeper (fuel + 1) t = some (fs, rest) ↔
      ∃ f t₁, Named (fun t v rest ↦ deeper t = some (v, rest)) t f t₁ ∧
        (fs = [f] ∧ skipBlank t₁ = '\x7d' :: rest ∨ ∃ t₂ fs', skipBlank t₁ = ',' :: t₂ ∧
          fields deeper fuel t₂ = some (fs', rest) ∧ fs = f :: fs') := by
  rw [fields]
  constructor
  · intro h
    split at h
    case h_2 => simp at h
    case h_1 t₁ ht =>
      obtain ⟨⟨name, t₂⟩, hname, h⟩ := Option.bind_eq_some_iff.mp h
      simp only at h
      split at h
      case h_2 => simp at h
      case h_1 t₃ ht₂ =>
        obtain ⟨⟨v, t₄⟩, hv, h⟩ := Option.bind_eq_some_iff.mp h
        refine ⟨(name, v), t₄, ⟨t₁, t₂, t₃, ht, hname, ht₂, hv⟩, ?_⟩
        split at h
        case h_1 t₅ ht₄ =>
          obtain ⟨⟨fs', _⟩, hfs, h⟩ := Option.bind_eq_some_iff.mp h
          obtain ⟨rfl, rfl⟩ := by simpa using h
          exact .inr ⟨t₅, fs', ht₄, hfs, rfl⟩
        case h_2 ht₄ =>
          obtain ⟨rfl, rfl⟩ := by simpa using h
          exact .inl ⟨rfl, ht₄⟩
        case h_3 => simp at h
  · rintro ⟨⟨name, v⟩, t₄, ⟨t₁, t₂, t₃, ht, hname, ht₂, hv⟩, ⟨rfl, ht₄⟩ | ⟨t₅, fs', ht₄, hfs, rfl⟩⟩
    · simp [ht, hname, ht₂, hv, ht₄]
    · simp [ht, hname, ht₂, hv, ht₄, hfs]

end

theorem eq_some_iff_listed {α : Type} {S : Text → α → Text → Prop} (hS : IsItem S) {mark : Char}
    {run : Nat → Text → Option (List α × Text)} (hzero : ∀ t, run 0 t = none)
    (hsucc : ∀ {fuel t as rest}, run (fuel + 1) t = some (as, rest) ↔ ∃ a t₁, S t a t₁ ∧
      (as = [a] ∧ skipBlank t₁ = mark :: rest ∨ ∃ t₂ as', skipBlank t₁ = ',' :: t₂ ∧
        run fuel t₂ = some (as', rest) ∧ as = a :: as'))
    {fuel : Nat} {t rest : Text} (hfuel : t.length ≤ fuel) {as : List α} :
    run fuel t = some (as, rest) ↔ as ≠ [] ∧ Listed S mark true t as rest := by
  induction fuel generalizing t as with
  | zero =>
    rw [hzero]
    refine ⟨nofun, ?_⟩
    rintro ⟨hne, h⟩
    cases h with
    | done => exact absurd rfl hne
    | item h ha _ =>
      have hlt := (hS.length ha).trans_le (h.length.trans hfuel)
      exact absurd hlt (Nat.not_lt_zero _)
  | succ fuel ih =>
    have hlater : ∀ {a t₁ t₂}, S t a t₁ → skipBlank t₁ = ',' :: t₂ → t₂.length ≤ fuel :=
      fun ha h ↦ Nat.le_of_lt_succ
        (((length_of_skipBlank h).trans (hS.length ha)).trans_le hfuel)
    rw [hsucc]
    constructor
    · rintro ⟨a, t₁, ha, ⟨rfl, hdone⟩ | ⟨t₂, as, hcomma, has, rfl⟩⟩
      · exact ⟨List.cons_ne_nil _ _, .item rfl ha (.done hdone)⟩
      · obtain ⟨hne, has⟩ := (ih (hlater ha hcomma)).mp has
        refine ⟨List.cons_ne_nil _ _, .item rfl ha ?_⟩
        cases has with
        | done => exact absurd rfl hne
        | item h hb hbs =>
          obtain rfl := h
          exact .item hcomma hb hbs
    · rintro ⟨hne, h⟩
      cases h with
      | done => exact absurd rfl hne
      | item h ha has =>
        obtain rfl := h
        refine ⟨_, _, ha, ?_⟩
        cases has with
        | done h => exact .inl ⟨rfl, h⟩
        | item hcomma hb hbs =>
          refine .inr ⟨_, _, hcomma, (ih (hlater ha hcomma)).mpr ?_, rfl⟩
          exact ⟨List.cons_ne_nil _ _, .item rfl hb hbs⟩

section

variable {deeper : Level} (hS : IsItem fun t v rest ↦ deeper t = some (v, rest)) {t rest : Text}

include hS

theorem listOf_eq_some {w : Value} : listOf deeper t = some (w, rest) ↔
    ∃ vs, w = .list vs ∧ Listed (fun t v rest ↦ deeper t = some (v, rest)) ']' true t vs rest := by
  rw [listOf]
  split
  case h_1 rest' ht =>
    constructor
    · intro h
      obtain ⟨rfl, rfl⟩ := by simpa using h
      exact ⟨[], rfl, .done ht⟩
    · rintro ⟨vs, rfl, h⟩
      obtain ⟨rfl, rfl⟩ := h.unique hS (.inl rfl) (.done ht)
      rfl
  case h_2 ht =>
    simp only [Option.map_eq_some_iff, Prod.mk.injEq, Prod.exists, ↓existsAndEq, and_true,
      eq_some_iff_listed hS (fun _ ↦ rfl) (items_succ_eq_some deeper) le_rfl]
    constructor
    · rintro ⟨vs, ⟨-, h⟩, rfl⟩
      exact ⟨vs, rfl, h⟩
    · rintro ⟨vs, rfl, h⟩
      refine ⟨vs, ⟨?_, h⟩, rfl⟩
      rintro rfl
      exact ht _ (listed_nil.mp h)

theorem objectOf_eq_some {w : Value} : objectOf deeper t = some (w, rest) ↔
    ∃ fs, w = .object (NameMap.ofList fs).entries ∧
      Listed (Named fun t v rest ↦ deeper t = some (v, rest)) '\x7d' true t fs rest := by
  rw [objectOf]
  split
  case h_1 rest' ht =>
    constructor
    · intro h
      obtain ⟨rfl, rfl⟩ := by simpa using h
      exact ⟨[], rfl, .done ht⟩
    · rintro ⟨fs, rfl, h⟩
      obtain ⟨rfl, rfl⟩ := h.unique hS.named (.inr rfl) (.done ht)
      rfl
  case h_2 ht =>
    simp only [Option.map_eq_some_iff, Prod.mk.injEq, Prod.exists, ↓existsAndEq, and_true,
      eq_some_iff_listed hS.named (fun _ ↦ rfl) (fields_succ_eq_some deeper) le_rfl]
    constructor
    · rintro ⟨fs, ⟨-, h⟩, rfl⟩
      exact ⟨fs, rfl, h⟩
    · rintro ⟨fs, rfl, h⟩
      refine ⟨fs, ⟨?_, h⟩, rfl⟩
      rintro rfl
      exact ht _ (listed_nil.mp h)

end

section

variable {items : List Value} {fields : List (String × Value)}

namespace Value

@[simp] theorem sorted_list : (list items).sorted = list (items.map sorted) := by
  rw [sorted]

@[simp] theorem sorted_object : (object fields).sorted =
    object (NameMap.ofList (fields.map fun f ↦ (f.1, f.2.sorted))).entries := by
  rw [sorted]

@[simp] theorem sorted_null : null.sorted = null := by
  rw [sorted] <;> nofun

@[simp] theorem sorted_bool (b : Bool) : (bool b).sorted = bool b := by
  rw [sorted] <;> nofun

@[simp] theorem sorted_number (n : Number) : (number n).sorted = number n := by
  rw [sorted] <;> nofun

@[simp] theorem sorted_text (s : String) : (text s).sorted = text s := by
  rw [sorted] <;> nofun

@[simp] theorem sorted_eq_null {v : Value} : v.sorted = null ↔ v = null := by
  cases v <;> simp

@[simp] theorem distinct_list : (list items).Distinct ↔ ∀ v ∈ items, v.Distinct := by
  rw [Distinct]

@[simp] theorem distinct_object : (object fields).Distinct ↔
    (fields.map (·.1)).Nodup ∧ ∀ f ∈ fields, f.2.Distinct := by
  rw [Distinct]

@[simp] theorem distinct_null : null.Distinct := by
  simp [Distinct]

@[simp] theorem distinct_bool (b : Bool) : (bool b).Distinct := by
  simp [Distinct]

@[simp] theorem distinct_number (n : Number) : (number n).Distinct := by
  simp [Distinct]

@[simp] theorem distinct_text (s : String) : (text s).Distinct := by
  simp [Distinct]

end Value

end

theorem sorted_fields_perm {fields : List (String × Value)} (h : (fields.map (·.1)).Nodup) :
    (NameMap.ofList (fields.map fun f ↦ (f.1, f.2.sorted))).entries.Perm
      (fields.map fun f ↦ (f.1, f.2.sorted)) :=
  NameMap.ofList_perm (by simpa [Function.comp_def] using h)

theorem forall₂_eq_iff_map {α β : Type} {f : α → β} {as : List α} {bs : List β} :
    List.Forall₂ (fun a b ↦ f a = b) as bs ↔ as.map f = bs := by
  rw [← List.forall₂_map_left_iff (R := Eq), List.forall₂_eq_eq_eq]

section

variable {depth : Nat} {mark : Char} {isFirst : Bool} {t rest : Text}

theorem listed_sorted {ws : List Value} :
    Listed (fun t w rest ↦ ∃ v, Spells depth t v rest ∧ v.sorted = w) mark isFirst t ws rest ↔
      ∃ vs, Listed (Spells depth) mark isFirst t vs rest ∧ vs.map Value.sorted = ws := by
  simp only [listed_exists, forall₂_eq_iff_map]

theorem listed_named_sorted {es : List (String × Value)} :
    Listed (Named fun t w rest ↦ ∃ v, Spells depth t v rest ∧ v.sorted = w) mark isFirst t es rest ↔
      ∃ fs, Listed (Named (Spells depth)) mark isFirst t fs rest ∧
        (fs.map fun f ↦ (f.1, f.2.sorted)) = es := by
  have hnamed : (Named fun t w rest ↦ ∃ v, Spells depth t v rest ∧ v.sorted = w) =
      fun t e rest ↦ ∃ f, Named (Spells depth) t f rest ∧ (f.1, f.2.sorted) = e := by
    funext t e rest
    rw [named_exists]
    simp only [Prod.ext_iff]
  rw [hnamed]
  simp only [listed_exists, forall₂_eq_iff_map]

end

/-- The tree that is read is what the text spells, sorted. -/
theorem readValue_eq_some {depth : Nat} {t rest : Text} {w : Value} :
    readValue depth t = some (w, rest) ↔ ∃ v, Spells depth t v rest ∧ v.sorted = w := by
  induction depth using Nat.strong_induction_on generalizing t w rest with
  | _ depth ih =>
    -- What is nested is read at a smaller depth, as one relation that lists and objects can use.
    have hdeeper : ∀ depth' < depth, (fun t w rest ↦ readValue depth' t = some (w, rest)) =
        fun t w rest ↦ ∃ v, Spells depth' t v rest ∧ v.sorted = w := by
      intro depth' hlt
      funext t w rest
      exact propext (ih depth' hlt)
    have hS : ∀ depth' < depth, IsItem fun t w rest ↦ readValue depth' t = some (w, rest) :=
      fun depth' hlt ↦ hdeeper depth' hlt ▸
        (isItem_spells depth').exists fun h h' ↦ h.symm.trans h'
    rw [readValue.eq_def]
    cases opening t with
    | null t' ht =>
      simp only [ht, spells_null ht, Option.map_eq_some_iff, Prod.mk.injEq, ↓existsAndEq, and_true,
        true_and, Value.sorted_null]
    | true t' ht =>
      simp only [ht, spells_true ht, Option.map_eq_some_iff, Prod.mk.injEq, ↓existsAndEq, and_true,
        true_and, Value.sorted_bool]
    | false t' ht =>
      simp only [ht, spells_false ht, Option.map_eq_some_iff, Prod.mk.injEq, ↓existsAndEq,
        and_true, true_and, Value.sorted_bool]
    | text t' ht =>
      simp only [ht, spells_text ht, Option.map_eq_some_iff, Prod.mk.injEq, Prod.exists,
        ↓existsAndEq, and_true, true_and, Value.sorted_text]
    | list t' ht =>
      cases depth with
      | zero => simp [ht, spells_list ht]
      | succ depth =>
        simp only [ht, spells_list ht, listOf_eq_some (hS depth depth.lt_succ_self),
          hdeeper depth depth.lt_succ_self, listed_sorted]
        constructor
        · rintro ⟨_, rfl, vs, h, rfl⟩
          exact ⟨_, ⟨depth, vs, rfl, rfl, h⟩, Value.sorted_list⟩
        · rintro ⟨_, ⟨_, vs, he, rfl, h⟩, rfl⟩
          obtain rfl := Nat.succ.inj he
          exact ⟨_, Value.sorted_list, vs, h, rfl⟩
    | object t' ht =>
      cases depth with
      | zero => simp [ht, spells_object ht]
      | succ depth =>
        simp only [ht, spells_object ht, objectOf_eq_some (hS depth depth.lt_succ_self),
          hdeeper depth depth.lt_succ_self, listed_named_sorted]
        constructor
        · rintro ⟨_, rfl, fs, h, rfl⟩
          exact ⟨_, ⟨depth, fs, rfl, rfl, h⟩, Value.sorted_object⟩
        · rintro ⟨_, ⟨_, fs, he, rfl, h⟩, rfl⟩
          obtain rfl := Nat.succ.inj he
          exact ⟨_, Value.sorted_object, fs, h, rfl⟩
    | number ht =>
      simp only
      split
      case h_1 t' ht' => exact absurd ht' (ht.null t')
      case h_2 t' ht' => exact absurd ht' (ht.true t')
      case h_3 t' ht' => exact absurd ht' (ht.false t')
      case h_4 t' ht' => exact absurd ht' (ht.text t')
      case h_5 t' ht' => exact absurd ht' (ht.list t')
      case h_6 t' ht' => exact absurd ht' (ht.object t')
      case h_7 =>
        simp only [spells_number ht, Option.map_eq_some_iff, Prod.mk.injEq, Prod.exists,
          ↓existsAndEq, and_true, true_and, Value.sorted_number]

theorem Value.ofText?_eq_some {text : String} {w : Value} :
    ofText? text = some w ↔ ∃ v rest, Spells (maxDepth - 1) text.toList v rest ∧
      skipBlank rest = [] ∧ v.sorted = w := by
  simp only [ofText?, bind, Option.bind_eq_some_iff, Prod.exists, Option.ite_none_right_eq_some,
    Option.some_inj, List.isEmpty_iff, readValue_eq_some]
  constructor
  · rintro ⟨_, rest, ⟨v, hv, rfl⟩, hrest, rfl⟩
    exact ⟨v, rest, hv, hrest, rfl⟩
  · rintro ⟨v, rest, hv, hrest, rfl⟩
    exact ⟨_, rest, ⟨v, hv, rfl⟩, hrest, rfl⟩

end SystemDynamics.Json
